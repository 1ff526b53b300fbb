/-
Where a reader may have got stuck.

Of all places at which a named part has failed only the furthest is kept,
and the names left there are replaced and cut back as failures come out.
Two things survive all of this (`Attempts.Within`): the place kept is one
at which some part was begun, and no place but the start of the text is
kept without a name.

So it is enough to know where parts are begun. A reader tracks some
characters (`Tracks`) if each of its parts is begun behind such characters,
counted from where the reader itself begins. A sequence is checked part by
part again, with the characters that the earlier parts have taken in front,
and with those that they have left, for a part that was taken ended where
the text goes on.
-/
import Mathlib.Tactic.SplitIfs
import Metrograph.Proofs.Rhythm.Reader

namespace Metrograph.Rhythm

-- ============================================================ attempts

namespace Attempts

/-- The place is one of some, and names are left there unless it is the first. -/
structure Within (places : Nat → Prop) (a : Attempts) : Prop where
  place : places a.place
  named : 0 < a.place → a.parts ≠ []

variable {places : Nat → Prop} {a : Attempts} {kind : Part} {place before : Nat}

/-- A failure is kept at its place or leaves a further one, with a name. -/
theorem Within.fail (h : a.Within places) (here : places place) :
    (a.fail kind place before).Within places ∧ (a.fail kind place before).parts ≠ [] := by
  have appended : a.parts.take before ++ [kind] ≠ [] :=
    List.append_ne_nil_of_right_ne_nil _ (List.cons_ne_nil kind [])
  unfold Attempts.fail
  split_ifs with exactly further same
  · -- exactly one name has come to the place, and it stays
    refine ⟨h, fun none => ?_⟩
    unfold countAt at exactly
    rw [none] at exactly
    split_ifs at exactly
  · exact ⟨h, h.named (Nat.zero_lt_of_lt further)⟩
  · exact ⟨⟨h.place, fun _ => appended⟩, appended⟩
  · exact ⟨⟨here, fun _ => List.cons_ne_nil kind []⟩, List.cons_ne_nil kind []⟩

end Attempts

namespace Reader

variable {β γ : Type} {r first second : Reader β} {next : β → Reader γ}
  {U V : List Char → Prop} {P : β → List Char → List Char → Prop}

/-- All parts of the reader are begun behind characters of a kind, and it counts
the characters it takes. -/
structure Tracks (r : Reader β) (V : List Char → Prop) : Prop where
  within : ∀ (place : Place) (a : Attempts) (places : Nat → Prop),
    (∀ q, q <+: place.rest → V q → places (place.offset + q.length)) → a.Within places →
      (r place a).attempts.Within places
  counts : ∀ place a x after a', r place a = ⟨some (x, after), a'⟩ →
    after.offset + after.rest.length = place.offset + place.rest.length

/-- The kind of characters may be replaced by one that follows from it. -/
theorem Tracks.weaken (h : Tracks r V) (weaker : ∀ q, V q → U q) : Tracks r U where
  within place a places all start :=
    h.within place a places (fun q before holds => all q before (weaker q holds)) start
  counts := h.counts

theorem tracks_pure (x : β) : Tracks (pure x) V where
  within _ _ _ _ start := start
  counts place a y after a' read := by
    cases read
    rfl

/-- Behind what was taken the next reader begins its parts. -/
theorem Tracks.offset (h : Tracks r V) {place mid : Place} {a a' : Attempts} {x : β}
    (read : r place a = ⟨some (x, mid), a'⟩) {taken : List Char}
    (text : place.rest = taken ++ mid.rest) (q : List Char) :
    mid.offset + q.length = place.offset + (taken ++ q).length := by
  have counts := h.counts _ _ _ _ _ read
  rw [text, List.length_append] at counts
  rw [List.length_append]
  omega

/-- Behind what the first reader yields, the second one begins its parts further on. -/
theorem Tracks.bind (h : Tracks r U) (yields : Yields r P)
    (h' : ∀ x taken mid, P x taken mid → Tracks (next x) fun q => q <+: mid → U (taken ++ q)) :
    Tracks (r >>= next) U where
  within place a places all start := by
    have first := h.within place a places all start
    cases read : r place a with
    | mk result a₁ =>
        rw [read] at first
        cases result with
        | none =>
            rw [bind_of_failed read]
            exact first
        | some answer =>
            obtain ⟨x, mid⟩ := answer
            obtain ⟨taken, text, holds⟩ := yields _ _ _ _ _ read
            rw [bind_of_read read]
            refine (h' x taken mid.rest holds).within mid a₁ places (fun q before later => ?_) first
            rw [h.offset read text]
            refine all _ ?_ (later before)
            rw [text]
            exact (List.prefix_append_right_inj taken).mpr before
  counts place a y after a' read := by
    obtain ⟨x, mid, a₁, read₁, read₂⟩ := bind_cases read
    obtain ⟨taken, text, holds⟩ := yields _ _ _ _ _ read₁
    exact ((h' x taken mid.rest holds).counts _ _ _ _ _ read₂).trans (h.counts _ _ _ _ _ read₁)

/-- What is made of the last part of a sequence begins no further part. -/
theorem Tracks.map (h : Tracks r V) (f : β → γ) : Tracks (r >>= fun x => pure (f x)) V where
  within place a places all start := by
    have first := h.within place a places all start
    cases read : r place a with
    | mk result a₁ =>
        rw [read] at first
        cases result with
        | none =>
            rw [bind_of_failed read]
            exact first
        | some answer =>
            rw [bind_of_read read]
            exact first
  counts place a y after a' read := by
    obtain ⟨x, mid, a₁, read₁, read₂⟩ := bind_cases read
    cases read₂
    exact h.counts _ _ _ _ _ read₁

/-- Both choices begin their parts at the same place. -/
theorem Tracks.either (h : Tracks first V) (h' : Tracks second V) :
    Tracks (Reader.either first second) V where
  within place a places all start := by
    have before := h.within place a places all start
    unfold Reader.either
    split
    next a₁ failed =>
      rw [failed] at before
      exact h'.within place a₁ places all before
    next => exact before
  counts place a x after a' read := by
    unfold Reader.either at read
    split at read
    next => exact h'.counts _ _ _ _ _ read
    next => exact h.counts _ _ _ _ _ read

/-- What need not be there begins the same parts. -/
theorem Tracks.optional (h : Tracks r V) : Tracks (Reader.optional r) V where
  within place a places all start := by
    have first := h.within place a places all start
    unfold Reader.optional
    split
    next failed =>
      rw [failed] at first
      exact first
    next read =>
      rw [read] at first
      exact first
  counts place a x after a' read := by
    unfold Reader.optional at read
    split at read
    next =>
      cases read
      rfl
    next read₁ =>
      cases read
      exact h.counts _ _ _ _ _ read₁

section

variable (h : Tracks r V) (yields : Yields r P)
  (more : ∀ x taken mid q, P x taken mid → q <+: mid → V q → V (taken ++ q))

include h yields more

/-- All rounds of a repetition begin their parts behind whole rounds. -/
theorem Tracks.upTo (limit : Nat) : Tracks (Reader.upTo r limit) V := by
  induction limit with
  | zero => exact tracks_pure []
  | succ limit ih =>
      refine ⟨fun place a places all start => ?_, fun place a xs after a' read => ?_⟩
      · have first := h.within place a places all start
        unfold Reader.upTo
        split
        next failed =>
          rw [failed] at first
          exact first
        next x mid a₁ read =>
          rw [read] at first
          obtain ⟨taken, text, holds⟩ := yields _ _ _ _ _ read
          have later := ih.within mid a₁ places (fun q before tracked => by
            rw [h.offset read text]
            refine all _ ?_ (more x taken mid.rest q holds before tracked)
            rw [text]
            exact (List.prefix_append_right_inj taken).mpr before) first
          split
          next failed =>
            rw [failed] at later
            exact later
          next read =>
            rw [read] at later
            exact later
      · unfold Reader.upTo at read
        split at read
        next =>
          cases read
          rfl
        next read₁ =>
          split at read
          next => cases read
          next read₂ =>
            cases read
            exact (ih.counts _ _ _ _ _ read₂).trans (h.counts _ _ _ _ _ read₁)

/-- What is tracked behind one turn of a repetition is tracked by the whole. -/
theorem Tracks.repeated : Tracks (Reader.repeated r) V where
  within place := (h.upTo yields more (place.rest.length + 1)).within place
  counts place := (h.upTo yields more (place.rest.length + 1)).counts place

end

/-- A part is begun where its reader begins. -/
theorem Tracks.part (h : Tracks r V) (here : V []) (kind : Part) :
    Tracks (Reader.part kind r) V where
  within place a places all start := by
    have inside := h.within place a places all start
    unfold Reader.part
    split
    next failed =>
      rw [failed] at inside
      exact (inside.fail (all [] List.nil_prefix here)).1
    next => exact inside
  counts place a x after a' read := h.counts _ _ _ _ _ (part_eq_some.mp read)

/-- A part that has failed is named, or something further on is. -/
theorem Tracks.named_of_part (h : Tracks r V) (here : V []) {kind : Part} {place : Place}
    {a a' : Attempts} {places : Nat → Prop}
    (all : ∀ q, q <+: place.rest → V q → places (place.offset + q.length))
    (start : a.Within places) (failed : Reader.part kind r place a = ⟨none, a'⟩) :
    a'.parts ≠ [] := by
  have inside := h.within place a places all start
  unfold Reader.part at failed
  split at failed
  next failed₁ =>
    rw [failed₁] at inside
    cases failed
    exact (inside.fail (all [] List.nil_prefix here)).2
  next other =>
    exact absurd failed (other a')

-- ============================================================== tokens

theorem tracks_mark (c : Char) : Tracks (mark c) V where
  within place a places _ start := by
    unfold mark
    split
    next =>
      split
      next => exact start
      next => exact start
    next => exact start
  counts place a x after a' read := by
    unfold mark at read
    split at read
    next text =>
      split at read
      next =>
        cases read
        rw [text, List.length_cons]
        exact Nat.add_right_comm _ _ _
      next => cases read
    next => cases read

theorem tracks_blanks : Tracks blanks V where
  within _ _ _ _ start := start
  counts place a x after a' read := by
    cases read
    have whole := congrArg List.length
      (List.takeWhile_append_dropWhile (p := isBlank) (l := place.rest))
    rw [List.length_append] at whole
    dsimp only
    omega

/-- A token begins no parts, and it counts its characters. -/
theorem tracks_token {scan : List Char → Option (β × List Char)} {chars : β → List Char}
    (h : ∀ cs x rest, scan cs = some (x, rest) → cs = chars x ++ rest) :
    Tracks (token scan chars) V where
  within place a places _ start := by
    unfold token
    split
    next => exact start
    next => exact start
  counts place a x after a' read := by
    unfold token at read
    split at read
    next => cases read
    next scanned =>
      cases read
      rw [h _ _ _ scanned, List.length_append]
      exact Nat.add_assoc _ _ _

theorem tracks_atEnd : Tracks atEnd V where
  within place a places _ start := by
    unfold atEnd
    split
    next => exact start
    next => exact start
  counts place a x after a' read := by
    unfold atEnd at read
    split at read
    next =>
      cases read
      rfl
    next => cases read

end Reader

end Metrograph.Rhythm
