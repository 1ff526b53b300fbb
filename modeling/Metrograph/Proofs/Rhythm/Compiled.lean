/-
What a text compiles to.

# From the text to the groups

A compilation is taken apart once (`compile_eq_ok`): the tree that was
read, the groups that were measured, one for each group of the tree, and
the notes that were placed. A measured group has a positive span and at
least one segment, all of positive weight (`TimedGroup.Positive`), because
every number is checked when it is measured.

# From the groups to the notes

Over the rationals the place of a segment in its group is a strictly
increasing function of the weight before it. So the notes of a group lie
one after another between the group's start and its end, the groups lie
end to end, and the notes of the whole loop lie one after another in
`[0, length)`: the loop is `WellFormed`.
-/
import Mathlib.Algebra.Order.BigOperators.Group.List
import Mathlib.Algebra.Order.Field.Rat
import Metrograph.Proofs.Results
import Metrograph.Proofs.Scalar.Exact
import Metrograph.Rhythm.Compile

namespace Metrograph.Rhythm

deriving instance DecidableEq for Note

deriving instance DecidableEq for Loop

-- ====================================================== taking apart

section

variable {α : Type} [Scalar α]

/-- A compilation that succeeds: the tree, the measured groups and the notes it
went through. -/
theorem compile_eq_ok {text : String} {loop : Loop α} (h : compile text = .ok loop) :
    ∃ (pattern : Pattern) (groups : List (TimedGroup α)),
      parse text = .ok pattern
        ∧ List.Forall₂ (fun g t => Group.measure g = .ok t) pattern.groups groups
        ∧ placeGroups Scalar.zero .downbeat groups = (loop.notes, loop.length)
        ∧ loop.notes ≠ [] ∧ loop.notes.length ≤ maxNotes ∧ loop.source = text := by
  unfold compile at h
  obtain ⟨pattern, parsed, h⟩ := bind_eq_ok.mp h
  obtain ⟨groups, measured, h⟩ := bind_eq_ok.mp h
  refine ⟨pattern, groups, parsed, mapM_eq_pure_iff.mp measured, ?_⟩
  cases placed : placeGroups (Scalar.zero : α) .downbeat groups with
  | mk notes stop =>
      rw [placed] at h
      dsimp only at h
      split at h
      next => cases h
      next sounding =>
        split at h
        next => cases h
        next few =>
          cases h
          exact ⟨rfl, sounding, Nat.le_of_not_lt few, rfl⟩

/-- A loop remembers the text that it was compiled from. -/
theorem source_of_compile {text : String} {loop : Loop α} (h : compile text = .ok loop) :
    loop.source = text := by
  obtain ⟨_, _, _, _, _, _, _, source⟩ := compile_eq_ok h
  exact source

end

-- ========================================================= measures

section

variable {α : Type} [Scalar α]

/-- A number that can be a weight or a span. -/
def Admissible (x : α) : Prop := Scalar.isFinite x = true ∧ Scalar.zero < x

/-- A group as it is measured: it has segments, and its numbers are positive. -/
structure TimedGroup.Measured (g : TimedGroup α) : Prop where
  segments : g.segments ≠ []
  weights : ∀ s ∈ g.segments, Admissible s.weight
  span : Admissible g.span
  long : ¬ g.span < minSpan

/-- A number that passed the check is finite and above zero. -/
theorem admissible_of_positive {what : Measure} {n : Numeral} {x : α}
    (h : positive what n = .ok x) : Admissible x := by
  unfold positive at h
  dsimp only at h
  split at h
  next checked =>
    cases h
    exact checked
  next => cases h

/-- The check does not change the number. -/
theorem eq_value_of_positive {what : Measure} {n : Numeral} {x : α} (h : positive what n = .ok x) :
    x = n.value := by
  unfold positive at h
  dsimp only at h
  split at h
  next =>
    cases h
    rfl
  next => cases h

variable (unit : Admissible (Scalar.one : α))

include unit

/-- Every weight that was measured passed the check, the weight of a bare rest
included. -/
theorem admissible_weight {s : Step} {segment : Segment α} (h : s.measure = .ok segment) :
    Admissible segment.weight := by
  cases s with
  | rest weight =>
      cases weight with
      | none =>
          cases h
          exact unit
      | some n =>
          obtain ⟨x, measured, h⟩ := bind_eq_ok.mp h
          cases h
          exact admissible_of_positive measured
  | hit hit =>
      obtain ⟨x, measured, h⟩ := bind_eq_ok.mp h
      cases h
      exact admissible_of_positive measured

/-- A division has segments, and their weights passed the check. -/
theorem admissible_segments {d : Division} {segments : List (Segment α)}
    (h : d.measure = .ok segments) : segments ≠ [] ∧ ∀ s ∈ segments, Admissible s.weight := by
  cases d with
  | count digits =>
      unfold Division.measure at h
      dsimp only at h
      split at h
      next bounded =>
        cases h
        refine ⟨?_, ?_⟩
        · intro none
          have length := congrArg List.length none
          rw [List.length_replicate] at length
          exact absurd length (Nat.one_le_iff_ne_zero.mp bounded.1)
        · intro s hs
          rw [List.eq_of_mem_replicate hs]
          exact unit
      next => cases h
  | weights first others =>
      have each := mapM_eq_pure_iff.mp (h : (first :: others).mapM Step.measure = .ok segments)
      refine ⟨?_, ?_⟩
      · rintro rfl
        cases each
      · intro s hs
        obtain ⟨step, -, measured⟩ := exists_of_mem_right each hs
        exact admissible_weight unit measured

variable (unit_span : ¬ (Scalar.one : α) < minSpan)

include unit_span

/-- A span passed the check and is not too short. -/
theorem admissible_span {n : Option Numeral} {span : α} (h : measureSpan n = .ok span) :
    Admissible span ∧ ¬ span < minSpan := by
  cases n with
  | none =>
      cases h
      exact ⟨unit, unit_span⟩
  | some n =>
      obtain ⟨x, measured, h⟩ := bind_eq_ok.mp h
      split at h
      next => cases h
      next long =>
        cases h
        exact ⟨admissible_of_positive measured, long⟩

/-- A group that could be measured is as it should be. -/
theorem measured_of_measure {g : Group} {t : TimedGroup α} (h : g.measure = .ok t) :
    t.Measured := by
  obtain ⟨segments, divided, h⟩ := bind_eq_ok.mp h
  obtain ⟨span, spanned, h⟩ := bind_eq_ok.mp h
  cases h
  obtain ⟨some_segment, weights⟩ := admissible_segments unit divided
  obtain ⟨span, long⟩ := admissible_span unit unit_span spanned
  exact ⟨some_segment, weights, span, long⟩

end

/-- A group with segments that have a weight, and a span. -/
structure TimedGroup.Positive (g : TimedGroup ℚ) : Prop where
  segments : g.segments ≠ []
  weights : ∀ s ∈ g.segments, 0 < s.weight
  span : 0 < g.span

/-- Over the rationals its numbers are positive, which is all that is needed of it. -/
theorem positive_of_measure {g : Group} {t : TimedGroup ℚ} (h : g.measure = .ok t) :
    t.Positive := by
  have unit : Admissible (Scalar.one : ℚ) := ⟨rfl, one_pos⟩
  have unit_span : ¬ (Scalar.one : ℚ) < minSpan := by decide
  have measured := measured_of_measure unit unit_span h
  exact ⟨measured.segments, fun s hs => (measured.weights s hs).2, measured.span.2⟩

-- ============================================================ places

/-- The notes lie one after another in `[from, to)`. -/
def Between (start stop : ℚ) (notes : List (Note ℚ)) : Prop :=
  (notes.Pairwise fun a b => a.time < b.time) ∧ ∀ n ∈ notes, start ≤ n.time ∧ n.time < stop

theorem between_nil (start stop : ℚ) : Between start stop [] := ⟨.nil, by simp⟩

/-- Notes before a beat are followed by notes from that beat on. -/
theorem Between.append {start middle stop : ℚ} {xs ys : List (Note ℚ)}
    (hx : Between start middle xs) (hy : Between middle stop ys) (le : start ≤ middle)
    (le' : middle ≤ stop) : Between start stop (xs ++ ys) := by
  refine ⟨List.pairwise_append.mpr ⟨hx.1, hy.1, ?_⟩, ?_⟩
  · intro a ha b hb
    exact lt_of_lt_of_le (hx.2 a ha).2 (hy.2 b hb).1
  · intro n hn
    rcases List.mem_append.mp hn with before | after
    · exact ⟨(hx.2 n before).1, (hx.2 n before).2.trans_le le'⟩
    · exact ⟨le.trans (hy.2 n after).1, (hy.2 n after).2⟩

/-- An interval with notes in it can be made longer at its start. -/
theorem Between.widen {start middle stop : ℚ} {notes : List (Note ℚ)}
    (h : Between middle stop notes) (le : start ≤ middle) : Between start stop notes :=
  ⟨h.1, fun n hn => ⟨le.trans (h.2 n hn).1, (h.2 n hn).2⟩⟩

/-- A note before notes that lie from a later beat on. -/
theorem Between.cons {middle stop : ℚ} {n : Note ℚ} {notes : List (Note ℚ)}
    (h : Between middle stop notes) (lt : n.time < middle) (le : middle ≤ stop) :
    Between n.time stop (n :: notes) := by
  refine ⟨List.pairwise_cons.mpr ⟨fun m hm => lt.trans_le (h.2 m hm).1, h.1⟩, ?_⟩
  intro m hm
  rcases List.mem_cons.mp hm with rfl | later
  · exact ⟨le_rfl, lt.trans_le le⟩
  · exact ⟨lt.le.trans (h.2 m later).1, (h.2 m later).2⟩

/-- Weights never add up to less than nothing. -/
theorem sum_weights_nonneg {segments : List (Segment ℚ)} (weights : ∀ s ∈ segments, 0 < s.weight) :
    0 ≤ (segments.map (·.weight)).sum := by
  refine List.sum_nonneg fun w hw => ?_
  obtain ⟨s, hs, rfl⟩ := List.mem_map.mp hw
  exact (weights s hs).le

section

variable {start span total : ℚ} (spans : 0 < span) (weighs : 0 < total)

include spans weighs

/-- More weight before a segment puts it later. -/
theorem place_lt {w w' : ℚ} (lt : w < w') :
    start + span * (w / total) < start + span * (w' / total) := by
  have share : w / total < w' / total := div_lt_div_of_pos_right lt weighs
  exact add_lt_add_right (mul_lt_mul_of_pos_left share spans) start

/-- No less weight before a segment puts it no earlier. -/
theorem place_le {w w' : ℚ} (le : w ≤ w') :
    start + span * (w / total) ≤ start + span * (w' / total) := by
  rcases le.eq_or_lt with rfl | lt
  · exact le_rfl
  · exact (place_lt spans weighs lt).le

/-- The segments after a weight lie from the share of the span that goes to
it up to the share that goes to it and them. -/
theorem between_placeSegments (elapsed : ℚ) (position : Position) {segments : List (Segment ℚ)}
    (weights : ∀ s ∈ segments, 0 < s.weight) :
    Between (start + span * (elapsed / total))
      (start + span * ((elapsed + (segments.map (·.weight)).sum) / total))
      (placeSegments start span total elapsed position segments) := by
  induction segments generalizing elapsed position with
  | nil => exact between_nil _ _
  | cons s rest ih =>
      have others : ∀ r ∈ rest, 0 < r.weight := fun r hr => weights r (List.mem_cons_of_mem _ hr)
      have weight : 0 < s.weight := weights s List.mem_cons_self
      have following := ih (elapsed + s.weight) .subdivision others
      have first : start + span * (elapsed / total)
          < start + span * ((elapsed + s.weight) / total) :=
        place_lt spans weighs (lt_add_of_pos_right elapsed weight)
      have last : start + span * ((elapsed + s.weight) / total)
          ≤ start + span * ((elapsed + s.weight + (rest.map (·.weight)).sum) / total) :=
        place_le spans weighs (le_add_of_nonneg_right (sum_weights_nonneg others))
      rw [List.map_cons, List.sum_cons, ← add_assoc]
      unfold placeSegments
      cases s.hit with
      | none => exact following.widen first.le
      | some hit => exact Between.cons following first last

end

theorem totalWeight_eq (g : TimedGroup ℚ) : g.totalWeight = (g.segments.map (·.weight)).sum := by
  unfold TimedGroup.totalWeight
  rw [List.sum_eq_foldl, List.foldl_map]
  rfl

/-- A group has some weight. -/
theorem TimedGroup.Positive.totalWeight_pos {g : TimedGroup ℚ} (h : g.Positive) :
    0 < g.totalWeight := by
  rw [totalWeight_eq]
  have nonempty := h.segments
  have weights := h.weights
  revert nonempty weights
  cases g.segments with
  | nil => exact fun nonempty => absurd rfl nonempty
  | cons s rest =>
      intro _ weights
      have others := sum_weights_nonneg fun r hr => weights r (List.mem_cons_of_mem s hr)
      rw [List.map_cons, List.sum_cons]
      exact add_pos_of_pos_of_nonneg (weights s List.mem_cons_self) others

/-- The notes of a group lie within its span. -/
theorem TimedGroup.Positive.between {g : TimedGroup ℚ} (h : g.Positive) (start : ℚ)
    (position : Position) : Between start (start + g.span) (g.notesFrom start position) := by
  have weighs := h.totalWeight_pos
  have placed : Between (start + g.span * (0 / g.totalWeight)) _ _ :=
    between_placeSegments h.span weighs 0 position h.weights
  rw [zero_div, mul_zero, add_zero, zero_add, ← totalWeight_eq, div_self weighs.ne', mul_one]
    at placed
  exact placed

/-- Groups laid end to end end no earlier than they start, later if there are
any, and their notes lie in between. -/
theorem between_placeGroups {groups : List (TimedGroup ℚ)} (positive : ∀ g ∈ groups, g.Positive)
    (start : ℚ) (position : Position) :
    start ≤ (placeGroups start position groups).2
      ∧ (groups ≠ [] → start < (placeGroups start position groups).2)
      ∧ Between start (placeGroups start position groups).2
        (placeGroups start position groups).1 := by
  induction groups generalizing start position with
  | nil => exact ⟨le_rfl, fun nonempty => absurd rfl nonempty, between_nil _ _⟩
  | cons g rest ih =>
      have here : g.Positive := positive g List.mem_cons_self
      obtain ⟨later, -, following⟩ :=
        ih (fun g' hg => positive g' (List.mem_cons_of_mem _ hg)) (start + g.span) .beat
      have spans : start < start + g.span := lt_add_of_pos_right start here.span
      unfold placeGroups
      exact ⟨spans.le.trans later, fun _ => spans.trans_le later,
        (here.between start position).append following spans.le later⟩

-- ======================================================== compiled loops

/-- A loop whose notes lie one after another within its positive length. -/
structure Loop.WellFormed (loop : Loop ℚ) : Prop where
  sounds : loop.notes ≠ []
  length_pos : 0 < loop.length
  increasing : loop.notes.Pairwise fun a b => a.time < b.time
  inside : ∀ n ∈ loop.notes, 0 ≤ n.time ∧ n.time < loop.length

/-- What a text compiles to is well formed. -/
theorem wellFormed_of_compile {text : String} {loop : Loop ℚ} (h : compile text = .ok loop) :
    loop.WellFormed := by
  obtain ⟨pattern, groups, -, measured, placed, sounds, -, -⟩ := compile_eq_ok h
  have positive : ∀ g ∈ groups, g.Positive := by
    intro g hg
    obtain ⟨source, -, timed⟩ := exists_of_mem_right measured hg
    exact positive_of_measure timed
  obtain ⟨-, longer, increasing, inside⟩ := between_placeGroups positive 0 .downbeat
  have placed : placeGroups 0 .downbeat groups = (loop.notes, loop.length) := placed
  rw [placed] at longer increasing inside
  have nonempty : groups ≠ [] := by
    rintro rfl
    exact sounds (congrArg Prod.fst placed).symm
  exact ⟨sounds, longer nonempty, increasing, inside⟩

end Metrograph.Rhythm
