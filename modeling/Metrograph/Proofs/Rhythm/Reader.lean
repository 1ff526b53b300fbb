/-
Reasoning about readers without looking at what they expected.

Three judgements cover a reader. `Reads` and `Fails` say what it does on
one text; a reader that reads a text out is shown to by following it
through its parts, so each combinator has a rule for either outcome.
`Yields` says what it may have taken off any text at all: a reader is
checked once against a relation between what it answers, the characters
it took and those it left, and a sequence is checked part by part, with
the characters of the earlier parts in front (`Yields.bind`). What is
left counts where something could have been read and was not
(`Yields.optional`).

None of them mentions offsets or attempts, since no reader decides
anything by them.
-/
import Metrograph.Proofs.Rhythm.Spelling

namespace Metrograph.Rhythm

open Text (Stops)

namespace Reader

variable {β γ : Type}

variable {r first second : Reader β} {next : β → Reader γ} {x : β} {y : γ} {xs : List β}
  {cs mid rest : List Char}

-- ============================================================ equations

section Equations

variable {place after : Place} {a a' : Attempts} {kind : Part}

/-- After an answer the next reader goes on behind it. -/
theorem bind_of_read (read : r place a = ⟨some (x, after), a'⟩) :
    (r >>= next) place a = next x after a' := by
  show Reader.bind r next place a = _
  unfold Reader.bind
  rw [read]

/-- After a failure nothing is read. -/
theorem bind_of_failed (failed : r place a = ⟨none, a'⟩) :
    (r >>= next) place a = ⟨none, a'⟩ := by
  show Reader.bind r next place a = _
  unfold Reader.bind
  rw [failed]

/-- A sequence that answers has answered in both parts. -/
theorem bind_cases (read : (r >>= next) place a = ⟨some (y, after), a'⟩) :
    ∃ x mid a₁, r place a = ⟨some (x, mid), a₁⟩ ∧ next x mid a₁ = ⟨some (y, after), a'⟩ := by
  cases h : r place a with
  | mk result a₁ =>
      cases result with
      | none =>
          rw [bind_of_failed h] at read
          cases read
      | some answer =>
          rw [bind_of_read h] at read
          exact ⟨answer.1, answer.2, a₁, rfl, read⟩

/-- A part answers with what it names. -/
theorem part_eq_some :
    part kind r place a = ⟨some (x, after), a'⟩ ↔ r place a = ⟨some (x, after), a'⟩ := by
  unfold part
  split
  next failed => simp [failed]
  next => rfl

end Equations

-- ============================================================ one text

/-- On the text `cs` the reader answers `x` and leaves `rest`. -/
def Reads (r : Reader β) (cs : List Char) (x : β) (rest : List Char) : Prop :=
  ∀ offset a, ∃ offset' a', r ⟨offset, cs⟩ a = ⟨some (x, ⟨offset', rest⟩), a'⟩

/-- On the text `cs` the reader fails, wherever it stands and whatever was tried
before. -/
def Fails (r : Reader β) (cs : List Char) : Prop := ∀ offset a, ∃ a', r ⟨offset, cs⟩ a = ⟨none, a'⟩

theorem reads_pure (x : β) (cs : List Char) : Reads (pure x) cs x cs :=
  fun offset a => ⟨offset, a, rfl⟩

/-- Two readers take the parts of a text one after the other. -/
theorem Reads.bind (h : Reads r cs x mid) (h' : Reads (next x) mid y rest) :
    Reads (r >>= next) cs y rest := by
  intro offset a
  obtain ⟨offset₁, a₁, e₁⟩ := h offset a
  obtain ⟨offset₂, a₂, e₂⟩ := h' offset₁ a₁
  exact ⟨offset₂, a₂, (bind_of_read e₁).trans e₂⟩

/-- What begins with a reader that fails is not read. -/
theorem Fails.bind (h : Fails r cs) : Fails (r >>= next) cs := by
  intro offset a
  obtain ⟨a₁, e₁⟩ := h offset a
  exact ⟨a₁, bind_of_failed e₁⟩

/-- A sequence fails with its second reader, whatever the first one took. -/
theorem Reads.bind_fails (h : Reads r cs x mid) (h' : Fails (next x) mid) :
    Fails (r >>= next) cs := by
  intro offset a
  obtain ⟨offset₁, a₁, e₁⟩ := h offset a
  obtain ⟨a₂, e₂⟩ := h' offset₁ a₁
  exact ⟨a₂, (bind_of_read e₁).trans e₂⟩

/-- The first choice wins. -/
theorem Reads.either (h : Reads first cs x rest) : Reads (either first second) cs x rest := by
  intro offset a
  obtain ⟨offset₁, a₁, e₁⟩ := h offset a
  refine ⟨offset₁, a₁, ?_⟩
  unfold Reader.either
  rw [e₁]

/-- The second choice starts where the first one did. -/
theorem Reads.orElse (h : Fails first cs) (h' : Reads second cs x rest) :
    Reads (Reader.either first second) cs x rest := by
  intro offset a
  obtain ⟨a₁, e₁⟩ := h offset a
  obtain ⟨offset₂, a₂, e₂⟩ := h' offset a₁
  refine ⟨offset₂, a₂, ?_⟩
  unfold Reader.either
  rw [e₁]
  exact e₂

/-- A choice fails only if both do. -/
theorem Fails.either (h : Fails first cs) (h' : Fails second cs) :
    Fails (Reader.either first second) cs := by
  intro offset a
  obtain ⟨a₁, e₁⟩ := h offset a
  obtain ⟨a₂, e₂⟩ := h' offset a₁
  refine ⟨a₂, ?_⟩
  unfold Reader.either
  rw [e₁]
  exact e₂

/-- What is there is read even if it need not be there. -/
theorem Reads.optional (h : Reads r cs x rest) : Reads (optional r) cs (some x) rest := by
  intro offset a
  obtain ⟨offset₁, a₁, e₁⟩ := h offset a
  refine ⟨offset₁, a₁, ?_⟩
  unfold Reader.optional
  rw [e₁]

theorem Fails.optional (h : Fails r cs) : Reads (optional r) cs none cs := by
  intro offset a
  obtain ⟨a₁, e₁⟩ := h offset a
  refine ⟨offset, a₁, ?_⟩
  unfold Reader.optional
  rw [e₁]

/-- Naming a part changes only what is reported of it. -/
theorem Reads.part (h : Reads r cs x rest) (kind : Part) : Reads (part kind r) cs x rest := by
  intro offset a
  obtain ⟨offset₁, a₁, e₁⟩ := h offset a
  exact ⟨offset₁, a₁, part_eq_some.mpr e₁⟩

theorem Fails.part (h : Fails r cs) (kind : Part) : Fails (part kind r) cs := by
  intro offset a
  obtain ⟨a₁, e₁⟩ := h offset a
  unfold Reader.part
  rw [e₁]
  exact ⟨_, rfl⟩

/-- A reader reads things one after another until it fails, each at least a
character long. -/
inductive Repeats (r : Reader β) : List Char → List β → List Char → Prop
  | nil {cs : List Char} (ended : Fails r cs) : Repeats r cs [] cs
  | cons {cs mid rest : List Char} {x : β} {xs : List β} (read : Reads r cs x mid)
      (shorter : mid.length < cs.length) (more : Repeats r mid xs rest) :
      Repeats r cs (x :: xs) rest

/-- A repetition takes all there are, given a limit that no text of this length
reaches. -/
theorem Repeats.reads_upTo (h : Repeats r cs xs rest) {limit : Nat} (enough : cs.length < limit) :
    Reads (upTo r limit) cs xs rest := by
  induction h generalizing limit with
  | @nil cs ended =>
      intro offset a
      obtain ⟨a₁, e₁⟩ := ended offset a
      refine ⟨offset, a₁, ?_⟩
      cases limit with
      | zero => omega
      | succ limit =>
          unfold upTo
          rw [e₁]
  | @cons cs mid rest x xs read shorter more ih =>
      -- what was read is at least as long as what the limit goes down by
      intro offset a
      cases limit with
      | zero => omega
      | succ limit =>
          obtain ⟨offset₁, a₁, e₁⟩ := read offset a
          obtain ⟨offset₂, a₂, e₂⟩ := @ih limit (by omega) offset₁ a₁
          refine ⟨offset₂, a₂, ?_⟩
          unfold upTo
          rw [e₁]
          dsimp only
          rw [e₂]

/-- The limit of a repetition is never reached: each round takes a character. -/
theorem Repeats.reads (h : Repeats r cs xs rest) : Reads (repeated r) cs xs rest :=
  fun offset a => h.reads_upTo (Nat.lt_succ_self cs.length) offset a

theorem reads_mark (c : Char) (rest : List Char) : Reads (mark c) (c :: rest) () rest := by
  intro offset a
  refine ⟨offset + 1, a, ?_⟩
  unfold mark
  dsimp only
  rw [if_pos rfl]

theorem fails_mark {c : Char} (h : Stops (· == c) cs) : Fails (mark c) cs := by
  intro offset a
  refine ⟨a, ?_⟩
  unfold mark
  cases cs with
  | nil => rfl
  | cons d cs =>
      have other : ¬d = c := beq_eq_false_iff_ne.mp (h d rfl)
      dsimp only
      rw [if_neg other]

/-- All blanks are skipped, up to the first other character. -/
theorem reads_blanks {bs : List Char} (blank : Blanks bs) (h : Stops isBlank rest) :
    Reads blanks (bs ++ rest) () rest := by
  intro offset a
  refine ⟨offset + bs.length, a, ?_⟩
  unfold blanks
  dsimp only
  rw [h.takeWhile blank, h.dropWhile blank]

theorem reads_no_blanks (h : Stops isBlank rest) : Reads blanks rest () rest :=
  @reads_blanks rest [] nofun h

/-- A token is read as its scanner takes it. -/
theorem reads_token {scan : List Char → Option (β × List Char)} {chars : β → List Char}
    (h : scan cs = some (x, rest)) : Reads (token scan chars) cs x rest := by
  intro offset a
  refine ⟨offset + (chars x).length, a, ?_⟩
  unfold token
  dsimp only
  rw [h]

theorem fails_token {scan : List Char → Option (β × List Char)} {chars : β → List Char}
    (h : scan cs = none) : Fails (token scan chars) cs := by
  intro offset a
  refine ⟨a, ?_⟩
  unfold token
  dsimp only
  rw [h]

/-- Nothing is left at the end. -/
theorem reads_atEnd : Reads atEnd [] () [] := fun offset a => ⟨offset, a, rfl⟩

-- =========================================================== all texts

/-- The reader has failed on a text. -/
def Refuses (r : Reader β) (cs : List Char) : Prop :=
  ∃ offset a a', r ⟨offset, cs⟩ a = ⟨none, a'⟩

/-- A reader answers or fails on a text whatever was tried before. -/
theorem Reads.not_refuses (h : Reads r cs x rest) : ¬ Refuses r cs := by
  rintro ⟨offset, a, a', failed⟩
  obtain ⟨offset₁, a₁, read⟩ := h offset a
  rw [failed] at read
  cases read

/-- Whatever the reader answers, it stands in a relation to the characters
that were taken and to those that are left. -/
def Yields (r : Reader β) (P : β → List Char → List Char → Prop) : Prop :=
  ∀ place a x after a', r place a = ⟨some (x, after), a'⟩ →
    ∃ taken, place.rest = taken ++ after.rest ∧ P x taken after.rest

variable {P : β → List Char → List Char → Prop} {Q : γ → List Char → List Char → Prop}

theorem yields_pure (h : ∀ rest, P x [] rest) : Yields (pure x) P := by
  intro place a x' after a' read
  cases read
  exact ⟨[], rfl, h place.rest⟩

/-- A relation may be replaced by one that follows from it. -/
theorem Yields.weaken {P' : β → List Char → List Char → Prop} (h : Yields r P)
    (weaker : ∀ x taken rest, P x taken rest → P' x taken rest) : Yields r P' := by
  intro place a x after a' read
  obtain ⟨taken, rest, holds⟩ := h place a x after a' read
  exact ⟨taken, rest, weaker x taken after.rest holds⟩

/-- What follows is checked against the relation with the characters taken so
far in front. -/
theorem Yields.bind (h : Yields r P)
    (h' : ∀ x taken mid, P x taken mid →
      Yields (next x) fun y more rest => mid = more ++ rest → Q y (taken ++ more) rest) :
    Yields (r >>= next) Q := by
  intro place a y after a' read
  obtain ⟨x, mid, a₁, read₁, read₂⟩ := bind_cases read
  obtain ⟨taken, rest, holds⟩ := h place a x mid a₁ read₁
  obtain ⟨more, rest', holds'⟩ := h' x taken mid.rest holds mid a₁ y after a' read₂
  refine ⟨taken ++ more, ?_, holds' rest'⟩
  rw [rest, rest', List.append_assoc]

/-- Both choices answer alike, so the choice does. -/
theorem Yields.either (h : Yields first P) (h' : Yields second P) :
    Yields (Reader.either first second) P := by
  intro place a x after a' read
  unfold Reader.either at read
  split at read
  next => exact h' _ _ _ _ _ read
  next => exact h _ _ _ _ _ read

/-- What is missing is known to be missing, since a reader for it has failed. -/
theorem Yields.optional {P' : Option β → List Char → List Char → Prop} (h : Yields r P)
    (absent : ∀ rest, Refuses r rest → P' none [] rest)
    (present : ∀ x taken rest, P x taken rest → P' (some x) taken rest) :
    Yields (Reader.optional r) P' := by
  intro place a x after a' read
  unfold Reader.optional at read
  split at read
  next a₁ failed =>
    cases read
    exact ⟨[], rfl, absent place.rest ⟨place.offset, a, a', failed⟩⟩
  next x' after' a₁ read₁ =>
    cases read
    obtain ⟨taken, rest, holds⟩ := h _ _ _ _ _ read₁
    exact ⟨taken, rest, present x' taken after.rest holds⟩

section

variable {P' : List β → List Char → List Char → Prop} (h : Yields r P)
  (nil : ∀ rest, P' [] [] rest)
  (cons : ∀ x xs taken more rest, P x taken (more ++ rest) → P' xs more rest →
    P' (x :: xs) (taken ++ more) rest)

include h nil cons

theorem Yields.upTo (limit : Nat) : Yields (upTo r limit) P' := by
  induction limit with
  | zero => exact yields_pure nil
  | succ limit ih =>
      intro place a xs after a' read
      unfold Reader.upTo at read
      split at read
      next =>
        cases read
        exact ⟨[], rfl, nil place.rest⟩
      next x mid a₁ read₁ =>
        split at read
        next => cases read
        next xs' last a₂ read₂ =>
          cases read
          obtain ⟨taken, rest, holds⟩ := h _ _ _ _ _ read₁
          obtain ⟨more, rest', holds'⟩ := ih _ _ _ _ _ read₂
          rw [rest'] at rest holds
          exact ⟨taken ++ more, by rw [rest, List.append_assoc], cons x xs' _ _ _ holds holds'⟩

/-- All rounds of a repetition answer alike, and after the last one the reader
has failed. -/
theorem Yields.repeated : Yields (repeated r) P' :=
  fun place a => h.upTo nil cons (place.rest.length + 1) place a

end

theorem Yields.part (h : Yields r P) (kind : Part) : Yields (part kind r) P :=
  fun place a x after a' read => h place a x after a' (part_eq_some.mp read)

/-- A mark takes its one character. -/
theorem yields_mark (c : Char) : Yields (mark c) fun _ taken _ => taken = [c] := by
  intro place a x after a' read
  unfold mark at read
  split at read
  next d rest text =>
    split at read
    next same =>
      cases read
      exact ⟨[c], by rw [text, same]; rfl, rfl⟩
    next => cases read
  next => cases read

theorem yields_blanks : Yields blanks fun _ taken _ => Blanks taken := by
  intro place a x after a' read
  cases read
  exact ⟨place.rest.takeWhile isBlank, List.takeWhile_append_dropWhile.symm,
    List.all_eq_true.mp List.all_takeWhile⟩

/-- What a token's reader yields is what its scanner takes. -/
theorem yields_token {scan : List Char → Option (β × List Char)} {chars : β → List Char}
    (h : ∀ cs x rest, scan cs = some (x, rest) →
      ∃ taken, cs = taken ++ rest ∧ P x taken rest) :
    Yields (token scan chars) P := by
  intro place a x after a' read
  unfold token at read
  split at read
  next => cases read
  next x' rest scanned =>
    cases read
    exact h _ _ _ scanned

theorem yields_atEnd : Yields atEnd fun _ taken _ => taken = [] := by
  intro place a x after a' read
  unfold atEnd at read
  split at read
  next =>
    cases read
    exact ⟨[], rfl, rfl⟩
  next => cases read

/-- Whatever the reader answers, it is at the end of the text. -/
def Ends (r : Reader β) : Prop :=
  ∀ place a x after a', r place a = ⟨some (x, after), a'⟩ → after.rest = []

theorem ends_atEnd (y : γ) : Ends (part .endOfText atEnd >>= fun _ => pure y) := by
  intro place a x after a' read
  obtain ⟨_, mid, a₁, read₁, read₂⟩ := bind_cases read
  cases read₂
  have ended := part_eq_some.mp read₁
  unfold atEnd at ended
  split at ended
  next none =>
    cases ended
    exact none
  next => cases ended

/-- A sequence comes to the end of the text if its last reader does. -/
theorem ends_bind (h : ∀ x, Ends (next x)) : Ends (r >>= next) := by
  intro place a y after a' read
  obtain ⟨x, mid, a₁, -, read₂⟩ := bind_cases read
  exact h x mid a₁ y after a' read₂

theorem Ends.part (h : Ends r) (kind : Part) : Ends (part kind r) :=
  fun place a x after a' read => h place a x after a' (part_eq_some.mp read)

end Reader

end Metrograph.Rhythm
