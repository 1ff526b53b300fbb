/-
What a downsampler returns, told from its calls alone.

# The account

An `Account` of some calls keeps no open run. It lists the samples that
were heard since the layout was set, each with the number of its call and
the gain that was in force in it. The bars that are owed follow from the
list as a whole: it is cut into the longest pieces whose samples fall into
one column of one row (`runs`), and every piece but the last owes its bars
in the call that brought the first sample of the next piece (`closing`),
at the gain in force there.

# The invariant

The state of a downsampler `Agrees` with the account when its open run is
the last piece. One sample either lengthens the last piece, which neither
changes the first sample of any piece nor the bars owed so far
(`owed_lengthened`), or begins another one, which makes exactly the bars of
the last piece due (`owed_begun`). The downsampler keeps the column of the
first sample and compares it with that of the next; that this is also the
column of the sample before is `place_eq_of_mem`, since all samples of a
piece fall into one.
-/
import Mathlib.Data.List.SplitBy
import Metrograph.Proofs.Scalar.Order
import Metrograph.Proofs.Waveform.PeakHold

namespace Metrograph.Waveform

variable {α : Type} [Scalar α]

-- =============================================================== calls

/-- What can be asked of a downsampler. -/
inductive Call (α : Type) [Scalar α] where
  | ingest (samples : List (Sample α))
  | setGain (gain : α)
  | setLayout (layout : Grid.Layout α)

namespace PeakHold

/-- Carries out a call. -/
def perform (p : PeakHold α) : Call α → List (Bar α) × PeakHold α
  | .ingest samples => p.ingest samples
  | .setGain gain => ([], p.withGain gain)
  | .setLayout layout => ([], p.withLayout layout)

/-- Carries out calls in order, the first of which has number `n`: every bar
with the number of the call that returned it. -/
def performAll (p : PeakHold α) (n : Nat) : List (Call α) → List (Nat × Bar α) × PeakHold α
  | [] => ([], p)
  | c :: rest =>
    let (bars, p) := p.perform c
    let (more, p) := p.performAll (n + 1) rest
    (bars.map (n, ·) ++ more, p)

end PeakHold

-- ================================================================ runs

/-- A sample as it was heard. -/
structure Heard (α : Type) extends Sample α where
  /-- The number of the call that brought it. -/
  call : Nat
  /-- The gain in force in that call. -/
  gain : α

/-- The row and the column that a sample falls into. -/
def Heard.place (l : Grid.Layout α) (h : Heard α) : Nat × Int :=
  ((l.home h.beat).row, (l.home h.beat).column)

/-- The longest pieces of consecutive samples in one place. -/
def runs (l : Grid.Layout α) (heard : List (Heard α)) : List (List (Heard α)) :=
  heard.splitBy fun a b => a.place l == b.place l

/-- The largest magnitude among some samples, zero if there are none. -/
def loudest (run : List (Heard α)) : α :=
  run.foldl (fun peak h => Scalar.larger peak (Scalar.magnitude h.amplitude)) Scalar.zero

/-- The bars of a level at a beat: one at home, and if the layout has a margin
one on the row below and one on the row above. -/
def barsAt (l : Grid.Layout α) (beat level : α) : List (Bar α) :=
  let bar (kind : BarKind) (position : Grid.Position α) : Bar α :=
    ⟨position, position.column, level, kind⟩
  bar .home (l.home beat) ::
    if Scalar.zero < l.margin then
      [bar .marginCopy (l.position beat 1), bar .marginCopy (l.position beat (-1))]
    else []

/-- The bars that a run owes when the first sample of the next run is heard,
with the number of the call that brings it. -/
def closing (l : Grid.Layout α) (run next : List (Heard α)) : List (Nat × Bar α) :=
  match run.head?, next.head? with
  | some first, some h =>
    (barsAt l first.beat (Scalar.clampUnit (loudest run * h.gain))).map (h.call, ·)
  | _, _ => []

/-- The bars owed by all runs but the last, in order. -/
def owed (l : Grid.Layout α) (rs : List (List (Heard α))) : List (Nat × Bar α) :=
  (rs.zip rs.tail).flatMap fun (run, next) => closing l run next

/-- The last run as the state of a downsampler has it. -/
def openRun (l : Grid.Layout α) (rs : List (List (Heard α))) : Option (Run α) := do
  let run ← rs.getLast?
  let first ← run.head?
  return ⟨(l.home first.beat).row, (l.home first.beat).column, first.beat, loudest run⟩

-- ========================================================= the account

/-- What some calls have asked for. -/
structure Account (α : Type) [Scalar α] where
  layout : Grid.Layout α
  gain : α
  /-- How many calls there were. -/
  calls : Nat
  /-- The finite samples since the layout was set. -/
  heard : List (Heard α)
  /-- The bars owed before the layout was set. -/
  earlier : List (Nat × Bar α)

namespace Account

/-- The account of no calls. -/
def start (layout : Grid.Layout α) (gain : α) : Account α := ⟨layout, gain, 0, [], []⟩

/-- All bars owed. -/
def bars (a : Account α) : List (Nat × Bar α) := a.earlier ++ owed a.layout (runs a.layout a.heard)

/-- Adds the finite ones of some samples, as heard in the call under way. -/
def hear (a : Account α) (samples : List (Sample α)) : Account α :=
  { a with heard := a.heard ++ (samples.filter Sample.isFinite).map fun s => ⟨s, a.calls, a.gain⟩ }

/-- Adds a call. A layout that is set ends all runs, and the last of them owes
nothing. -/
def record (a : Account α) (c : Call α) : Account α :=
  let a' := match c with
    | .ingest samples => a.hear samples
    | .setGain gain => { a with gain := gain }
    | .setLayout layout => { a with layout := layout, heard := [], earlier := a.bars }
  { a' with calls := a.calls + 1 }

/-- Adds calls in order. -/
def recordAll (a : Account α) (calls : List (Call α)) : Account α := calls.foldl record a

end Account

-- ===================================================== one more sample

variable {l : Grid.Layout α} {heard : List (Heard α)} {front : List (List (Heard α))}
  {run : List (Heard α)} {x : Heard α}

theorem ne_nil_of_mem_runs (h : run ∈ runs l heard) : run ≠ [] := List.ne_nil_of_mem_splitBy h

/-- All samples of a run fall into one place. -/
theorem place_eq_of_mem (h : run ∈ runs l heard) {a b : Heard α} (ha : a ∈ run) (hb : b ∈ run) :
    a.place l = b.place l := by
  have chain : run.IsChain fun a b => a.place l = b.place l :=
    (List.isChain_of_mem_splitBy h).imp fun _ _ same => beq_iff_eq.mp same
  have : IsTrans (Heard α) fun a b => a.place l = b.place l := ⟨fun _ _ _ => Eq.trans⟩
  have : Std.Symm fun a b : Heard α => a.place l = b.place l := ⟨fun _ _ => Eq.symm⟩
  have pairs : run.Pairwise fun a b => a.place l = b.place l := List.isChain_iff_pairwise.mp chain
  refine pairs.forall_of_forall ?_ ha hb
  exact fun _ _ => rfl

/-- All samples of the last run fall into the place of its first. -/
theorem place_eq_first {first : Heard α} {more : List (Heard α)}
    (cut : runs l heard = front ++ [first :: more]) {a : Heard α} (ha : a ∈ first :: more) :
    a.place l = first.place l := by
  have mem : first :: more ∈ runs l heard := by
    rw [cut]
    exact List.mem_append_right _ (List.mem_singleton_self _)
  exact place_eq_of_mem mem ha List.mem_cons_self

/-- A sample in the place of the last run lengthens it. -/
theorem runs_lengthened (cut : runs l heard = front ++ [run])
    (same : ∀ a ∈ run, a.place l = x.place l) :
    runs l (heard ++ [x]) = front ++ [run ++ [x]] := by
  obtain ⟨whole, full, chains, breaks⟩ := List.splitBy_eq_iff.mp cut
  refine List.splitBy_eq_iff.mpr ⟨?_, ?_, ?_, ?_⟩
  · rw [whole]
    simp
  · simp only [List.mem_append, List.mem_singleton, not_or] at full ⊢
    exact ⟨full.1, by simp⟩
  · intro m hm
    rcases List.mem_append.mp hm with earlier | last
    · exact chains m (List.mem_append_left _ earlier)
    · rw [List.mem_singleton.mp last]
      refine List.isChain_append.mpr
        ⟨chains run (List.mem_append_right _ (List.mem_singleton_self run)), .singleton x, ?_⟩
      intro a ha b hb
      obtain rfl : x = b := by simpa using hb
      exact beq_iff_eq.mpr (same a (List.mem_of_mem_getLast? ha))
  · obtain ⟨before, -, meets⟩ := List.isChain_append.mp breaks
    refine List.isChain_append.mpr ⟨before, .singleton _, ?_⟩
    intro a ha b hb
    obtain ⟨nonempty, started, apart⟩ := meets a ha run rfl
    obtain rfl : run ++ [x] = b := by simpa using hb
    -- the run begins where it began
    refine ⟨nonempty, List.append_ne_nil_of_left_ne_nil started _, ?_⟩
    rwa [List.head_append_of_ne_nil started]

/-- A sample in another place begins a run. -/
theorem runs_begun (other : ∀ a ∈ heard.getLast?, a.place l ≠ x.place l) :
    runs l (heard ++ [x]) = runs l heard ++ [[x]] := by
  refine List.splitBy_append_cons [] ?_
  intro a ha
  exact beq_eq_false_iff_ne.mpr (other a ha)

/-- A run is closed by the one behind it. -/
theorem owed_cons_cons (l : Grid.Layout α) (run next : List (Heard α))
    (rest : List (List (Heard α))) :
    owed l (run :: next :: rest) = closing l run next ++ owed l (next :: rest) := rfl

/-- A longer last run owes nothing more, and neither do the others. -/
theorem owed_lengthened (l : Grid.Layout α) (front : List (List (Heard α)))
    (full : run ≠ []) (x : Heard α) :
    owed l (front ++ [run ++ [x]]) = owed l (front ++ [run]) := by
  have begins : (run ++ [x]).head? = run.head? := List.head?_append_of_ne_nil _ full
  induction front with
  | nil => rfl
  | cons r rest ih =>
      cases rest with
      | nil =>
          show closing l r (run ++ [x]) ++ [] = closing l r run ++ []
          unfold closing
          rw [begins]
      | cons r' rest =>
          show owed l (r :: r' :: (rest ++ [run ++ [x]])) = owed l (r :: r' :: (rest ++ [run]))
          rw [owed_cons_cons, owed_cons_cons]
          exact congrArg (closing l r r' ++ ·) ih

/-- Another run makes the bars of the last one due. -/
theorem owed_begun (l : Grid.Layout α) (front : List (List (Heard α)))
    (run next : List (Heard α)) :
    owed l (front ++ [run] ++ [next]) = owed l (front ++ [run]) ++ closing l run next := by
  induction front with
  | nil =>
      show closing l run next ++ [] = closing l run next
      rw [List.append_nil]
  | cons r rest ih =>
      cases rest with
      | nil =>
          show closing l r run ++ (closing l run next ++ []) = closing l r run ++ [] ++ _
          rw [List.append_nil, List.append_nil]
      | cons r' rest =>
          show closing l r r' ++ owed l (r' :: (rest ++ [run] ++ [next]))
            = closing l r r' ++ owed l (r' :: (rest ++ [run])) ++ closing l run next
          rw [List.append_assoc (closing l r r')]
          exact congrArg (closing l r r' ++ ·) ih

/-- The last run stays open, with its loudest sample. -/
theorem openRun_concat (l : Grid.Layout α) (front : List (List (Heard α))) (first : Heard α)
    (more : List (Heard α)) :
    openRun l (front ++ [first :: more])
      = some ⟨(l.home first.beat).row, (l.home first.beat).column, first.beat,
        loudest (first :: more)⟩ := by
  unfold openRun
  rw [List.getLast?_concat]
  rfl

/-- A sample can only make a run louder. -/
theorem loudest_append (run : List (Heard α)) (x : Heard α) :
    loudest (run ++ [x]) = Scalar.larger (loudest run) (Scalar.magnitude x.amplitude) := by
  unfold loudest
  rw [List.foldl_append]
  rfl

/-- No sample of a run is above its loudest magnitude, which is that of one of
them unless it is zero. -/
theorem loudest_greatest [IsStrictOrder α (· < ·)] (run : List (Heard α)) :
    (∀ h ∈ run, ¬ loudest run < Scalar.magnitude h.amplitude) ∧ ¬ loudest run < Scalar.zero
      ∧ (loudest run = Scalar.zero ∨ ∃ h ∈ run, loudest run = Scalar.magnitude h.amplitude) := by
  induction run using List.reverseRecOn with
  | nil => exact ⟨by simp, irrefl _, Or.inl rfl⟩
  | append_singleton run x ih =>
      obtain ⟨above, positive, reached⟩ := ih
      rw [loudest_append]
      unfold Scalar.larger
      by_cases louder : loudest run < Scalar.magnitude x.amplitude
      · rw [if_pos louder]
        refine ⟨?_, fun below => positive (IsTrans.trans _ _ _ louder below),
          Or.inr ⟨x, by simp, rfl⟩⟩
        intro h hh below
        rcases List.mem_append.mp hh with old | new
        · exact above h old (IsTrans.trans _ _ _ louder below)
        · rw [List.mem_singleton.mp new] at below
          exact irrefl _ below
      · rw [if_neg louder]
        refine ⟨?_, positive, reached.imp_right fun ⟨h, hh, eq⟩ => ⟨h, by simp [hh], eq⟩⟩
        intro h hh
        rcases List.mem_append.mp hh with old | new
        · exact above h old
        · rw [List.mem_singleton.mp new]
          exact louder

-- ======================================================= the invariant

namespace PeakHold

variable {p : PeakHold α} {a : Account α}

/-- A downsampler stands where the account says. -/
structure Agrees (p : PeakHold α) (a : Account α) : Prop where
  layout : p.layout = a.layout
  gain : p.gain = a.gain
  current : p.current = openRun a.layout (runs a.layout a.heard)

/-- A hold that has heard nothing agrees. -/
theorem agrees_start (layout : Grid.Layout α) (gain : α) :
    Agrees (ofLayout layout gain) (Account.start layout gain) := ⟨rfl, rfl, rfl⟩

/-- A sample that is not finite is as good as none. -/
theorem hear_not_finite {s : Sample α} (h : s.isFinite = false) : a.hear [s] = a := by
  unfold Account.hear
  simp [h]

theorem hear_finite {s : Sample α} (h : s.isFinite = true) :
    a.hear [s] = { a with heard := a.heard ++ [⟨s, a.calls, a.gain⟩] } := by
  unfold Account.hear
  simp [h]

/-- Samples are heard one by one. -/
theorem hear_cons (a : Account α) (s : Sample α) (rest : List (Sample α)) :
    a.hear (s :: rest) = (a.hear [s]).hear rest := by
  cases h : s.isFinite with
  | false =>
      rw [hear_not_finite h]
      unfold Account.hear
      simp [h]
  | true =>
      rw [hear_finite h]
      unfold Account.hear
      simp [h]

/-- A sample that is not finite is not heard. -/
theorem take_not_finite {s : Sample α} (h : s.isFinite = false) : p.take s = ([], p) := by
  unfold take
  rw [h]
  rfl

/-- The first sample opens a run. -/
theorem take_first {s : Sample α} (h : s.isFinite = true) (silent : p.current = none) :
    p.take s = ([], { p with current := some ⟨(p.layout.home s.beat).row,
      (p.layout.home s.beat).column, s.beat,
      Scalar.larger Scalar.zero (Scalar.magnitude s.amplitude)⟩ }) := by
  unfold take
  rw [if_pos h, silent]

/-- A sample in the place of the open run counts for its peak. -/
theorem take_same {s : Sample α} {r : Run α} (h : s.isFinite = true) (current : p.current = some r)
    (same : r.row = (p.layout.home s.beat).row ∧ r.column = (p.layout.home s.beat).column) :
    p.take s = ([], { p with current := some { r with
      peak := Scalar.larger r.peak (Scalar.magnitude s.amplitude) } }) := by
  unfold take
  rw [if_pos h, current]
  exact if_pos same

/-- A sample in another place ends the open run and opens one. -/
theorem take_other {s : Sample α} {r : Run α} (h : s.isFinite = true)
    (current : p.current = some r)
    (other : ¬ (r.row = (p.layout.home s.beat).row ∧ r.column = (p.layout.home s.beat).column)) :
    p.take s = (p.barsOf r, { p with current := some ⟨(p.layout.home s.beat).row,
      (p.layout.home s.beat).column, s.beat,
      Scalar.larger Scalar.zero (Scalar.magnitude s.amplitude)⟩ }) := by
  unfold take
  rw [if_pos h, current]
  exact if_neg other

/-- The place of a bar is computed anew from the beat that opened the run. -/
theorem barsOf_eq (p : PeakHold α) (r : Run α) :
    p.barsOf r = barsAt p.layout r.beat (Scalar.clampUnit (r.peak * p.gain)) := by
  unfold barsOf barsAt
  dsimp only
  split <;> rfl

/-- A sample in the place of the last run. -/
theorem agrees_lengthened (h : Agrees p a) {s : Sample α} (finite : s.isFinite = true)
    {front : List (List (Heard α))} {first : Heard α} {more : List (Heard α)}
    (cut : runs a.layout a.heard = front ++ [first :: more])
    (same : first.place a.layout = Heard.place a.layout ⟨s, a.calls, a.gain⟩) :
    Agrees (p.take s).2 (a.hear [s])
      ∧ (a.hear [s]).bars = a.bars ++ (p.take s).1.map (a.calls, ·) := by
  obtain ⟨layout, gain, current⟩ := h
  have grown := runs_lengthened cut fun b hb => (place_eq_first cut hb).trans same
  rw [cut, openRun_concat] at current
  rw [hear_finite finite, take_same finite current (by rw [layout]; exact Prod.ext_iff.mp same)]
  unfold Account.bars
  rw [grown, cut, owed_lengthened _ _ (List.cons_ne_nil _ _)]
  refine ⟨⟨layout, gain, ?_⟩, (List.append_nil _).symm⟩
  rw [grown, List.cons_append, openRun_concat, ← List.cons_append, loudest_append]

/-- A sample in another place than the last run. -/
theorem agrees_begun (h : Agrees p a) {s : Sample α} (finite : s.isFinite = true)
    {front : List (List (Heard α))} {first : Heard α} {more : List (Heard α)}
    (cut : runs a.layout a.heard = front ++ [first :: more])
    (other : first.place a.layout ≠ Heard.place a.layout ⟨s, a.calls, a.gain⟩) :
    Agrees (p.take s).2 (a.hear [s])
      ∧ (a.hear [s]).bars = a.bars ++ (p.take s).1.map (a.calls, ·) := by
  obtain ⟨layout, gain, current⟩ := h
  -- the sample before this one is the last of the run, so it is in the run's place
  have apart : ∀ b ∈ a.heard.getLast?,
      b.place a.layout ≠ Heard.place a.layout ⟨s, a.calls, a.gain⟩ := by
    intro b hb
    have whole : a.heard = front.flatten ++ (first :: more) := by
      rw [(List.splitBy_eq_iff.mp cut).1]
      simp
    rw [whole, List.getLast?_append_of_ne_nil _ (List.cons_ne_nil _ _)] at hb
    rw [place_eq_first cut (List.mem_of_mem_getLast? hb)]
    exact other
  rw [cut, openRun_concat] at current
  rw [hear_finite finite, take_other finite current
    (by rw [layout]; exact fun stays => other (Prod.ext_iff.mpr stays)), barsOf_eq]
  unfold Account.bars
  rw [runs_begun apart, cut, owed_begun]
  refine ⟨⟨layout, gain, ?_⟩, ?_⟩
  · rw [runs_begun apart, openRun_concat]
    rw [layout]
    rfl
  · rw [layout, gain, List.append_assoc]
    rfl

/-- One sample keeps the agreement, and the bars it ends are the bars that
become due. -/
theorem agrees_take (h : Agrees p a) (s : Sample α) :
    Agrees (p.take s).2 (a.hear [s])
      ∧ (a.hear [s]).bars = a.bars ++ (p.take s).1.map (a.calls, ·) := by
  cases finite : s.isFinite with
  | false =>
      rw [hear_not_finite finite, take_not_finite finite]
      exact ⟨h, (List.append_nil _).symm⟩
  | true =>
      rcases List.eq_nil_or_concat' (runs a.layout a.heard) with silent | ⟨front, run, cut⟩
      · obtain ⟨layout, gain, current⟩ := h
        have unheard : a.heard = [] := List.splitBy_eq_nil.mp silent
        rw [hear_finite finite]
        unfold Account.bars
        rw [unheard] at current ⊢
        rw [take_first finite current, layout]
        exact ⟨⟨rfl, gain, rfl⟩, (List.append_nil _).symm⟩
      · have mem : run ∈ runs a.layout a.heard := by simp [cut]
        obtain ⟨first, more, rfl⟩ := List.exists_cons_of_ne_nil (ne_nil_of_mem_runs mem)
        by_cases same : first.place a.layout = Heard.place a.layout ⟨s, a.calls, a.gain⟩
        · exact agrees_lengthened h finite cut same
        · exact agrees_begun h finite cut same

/-- A batch keeps the agreement. -/
theorem agrees_ingest (h : Agrees p a) (samples : List (Sample α)) :
    Agrees (p.ingest samples).2 (a.hear samples)
      ∧ (a.hear samples).bars = a.bars ++ (p.ingest samples).1.map (a.calls, ·) := by
  induction samples generalizing p a with
  | nil =>
      have same : a.hear [] = a := by
        unfold Account.hear
        simp
      rw [same]
      exact ⟨h, (List.append_nil _).symm⟩
  | cons s rest ih =>
      obtain ⟨step, made⟩ := agrees_take h s
      obtain ⟨agrees, more⟩ := ih step
      rw [ingest_cons, hear_cons, more, made, List.map_append, List.append_assoc]
      exact ⟨agrees, rfl⟩

/-- Every call keeps the agreement, and returns the bars that become due. -/
theorem agrees_perform (h : Agrees p a) (c : Call α) :
    Agrees (p.perform c).2 (a.record c)
      ∧ (a.record c).bars = a.bars ++ (p.perform c).1.map (a.calls, ·) := by
  cases c with
  | ingest samples =>
      obtain ⟨⟨layout, gain, current⟩, made⟩ := agrees_ingest h samples
      exact ⟨⟨layout, gain, current⟩, made⟩
  | setGain gain => exact ⟨⟨h.layout, rfl, h.current⟩, (List.append_nil _).symm⟩
  | setLayout layout => exact ⟨⟨rfl, h.gain, rfl⟩, rfl⟩

/-- A run of calls keeps the agreement. -/
theorem agrees_performAll (h : Agrees p a) (calls : List (Call α)) :
    Agrees (p.performAll a.calls calls).2 (a.recordAll calls)
      ∧ (a.recordAll calls).bars = a.bars ++ (p.performAll a.calls calls).1 := by
  induction calls generalizing p a with
  | nil => exact ⟨h, (List.append_nil _).symm⟩
  | cons c rest ih =>
      obtain ⟨step, made⟩ := agrees_perform h c
      obtain ⟨agrees, more⟩ := ih step
      refine ⟨agrees, ?_⟩
      show ((a.record c).recordAll rest).bars = a.bars ++ (_ ++ _)
      rw [more, made, List.append_assoc]
      rfl

/-- Whatever a downsampler is asked to do, the bars it returns, in order and
with the calls that return them, are those that the runs of samples owe; what
it keeps is the last run; and the peak of a run is its largest magnitude. -/
theorem bars_of_runs (layout : Grid.Layout Float) (gain : Float) (calls : List (Call Float)) :
    let (returned, p) := (ofLayout layout gain).performAll 0 calls
    let a := (Account.start layout gain).recordAll calls
    returned = a.bars
      ∧ p.layout = a.layout ∧ p.gain = a.gain
      ∧ p.current = openRun a.layout (runs a.layout a.heard)
      ∧ ∀ run : List (Heard Float),
        (∀ h ∈ run, ¬ loudest run < Scalar.magnitude h.amplitude) ∧ ¬ loudest run < Scalar.zero
          ∧ (loudest run = Scalar.zero
            ∨ ∃ h ∈ run, loudest run = Scalar.magnitude h.amplitude) := by
  obtain ⟨⟨kept, gained, current⟩, made⟩ := agrees_performAll (agrees_start layout gain) calls
  exact ⟨made.symm, kept, gained, current, loudest_greatest⟩

end PeakHold

end Metrograph.Waveform
