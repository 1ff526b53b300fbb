/-
The times of a compiled rhythm, as they come out in binary64.

# The places

A segment lies at the start of its group plus the span times the share of
the weight before it, and each of the three steps is rounded (`placed`).
Rounding is monotone, so more weight never means an earlier place
(`placed_mono`); no weight means the start itself (`placed_zero`), and all
of the weight the start of the next group (`placed_total`). So the notes of
a group lie between its start and its end, those of a loop between zero and
its length, and none comes after the next: the sums need not be exact for
that, only within the range.

# What rounding takes

That a note comes strictly before the next needs more. Seven roundings
stand between the weights and the difference of two places, each of which
moves a number by at most `2 ^ -53` of the loop; a step that takes
`2 ^ -50` of it survives them all (`placed_lt`). The two ways of ordering
notes are carried through one induction (`Before`).
-/
import Metrograph.Proofs.Rhythm.Compiled
import Metrograph.Proofs.Scalar.Rounding

namespace Metrograph.Rhythm

open Binary64 (HasValue Kept nearest limit nearest_mono nearest_nonneg nearest_le le_nearest
  nearest_zero nearest_eq_self two_zpow_pos kept_one one_lt_limit one_le_limit)
open Scalar (value)

-- ================================================================ places

/-- Where a segment lies in a group that starts at `start`, covers `span` and
weighs `total`, once `elapsed` of that has gone by: each step is rounded. -/
def placed (start span total elapsed : ℚ) : ℚ :=
  nearest (start + nearest (span * nearest (elapsed / total)))

section

variable {start span total elapsed later : ℚ}

/-- A part weighs no more than the whole, also after rounding. -/
theorem share_le_one (positive : 0 < total) (le : elapsed ≤ total) : nearest (elapsed / total) ≤ 1 :=
  nearest_le kept_one one_le_limit ((div_le_one positive).mpr le)

/-- A part of a span is no longer than the span. -/
theorem part_le_span (kept : Kept span) (inside : |span| ≤ limit) (spans : 0 ≤ span)
    (positive : 0 < total) (le : elapsed ≤ total) :
    nearest (span * nearest (elapsed / total)) ≤ span :=
  nearest_le kept inside (mul_le_of_le_one_right spans (share_le_one positive le))

theorem part_nonneg (spans : 0 ≤ span) (positive : 0 < total) (nonneg : 0 ≤ elapsed) :
    0 ≤ nearest (span * nearest (elapsed / total)) :=
  nearest_nonneg (mul_nonneg spans (nearest_nonneg (div_nonneg nonneg positive.le)))

/-- With more weight before it a segment is placed no earlier. -/
theorem placed_mono (spans : 0 ≤ span) (positive : 0 < total) (le : elapsed ≤ later) :
    placed start span total elapsed ≤ placed start span total later := by
  have share := nearest_mono (div_le_div_of_nonneg_right le positive.le)
  have part := nearest_mono (mul_le_mul_of_nonneg_left share spans)
  exact nearest_mono (add_le_add_right part start)

/-- The first segment starts with its group. -/
theorem placed_zero (kept : Kept start) (inside : |start| ≤ limit) :
    placed start span total 0 = start := by
  unfold placed
  rw [zero_div, nearest_zero, mul_zero, nearest_zero, add_zero, nearest_eq_self kept inside]

/-- The last segment stops with its group. -/
theorem placed_total (kept : Kept span) (inside : |span| ≤ limit) (positive : 0 < total) :
    placed start span total total = nearest (start + span) := by
  unfold placed
  rw [div_self positive.ne', nearest_eq_self kept_one one_le_limit, mul_one,
    nearest_eq_self kept inside]

/-- A segment with enough of a share of the loop gets a time of its own: each
of the steps from the weights to the times moves a number by at most
`2 ^ -53` of the loop, and there are seven of them. -/
theorem placed_lt {length weight : ℚ} (kept : Kept elapsed) (kept_weight : Kept weight)
    (from_zero : 0 ≤ elapsed) (weighs : 0 ≤ weight) (positive : 0 < total) (le : elapsed ≤ total)
    (within : nearest (elapsed + weight) ≤ total) (inside : total < limit)
    (kept_span : Kept span) (spans : 0 < span) (shorter : span ≤ length)
    (starts : 0 ≤ start) (ends : nearest (start + span) ≤ length) (finite : length < limit)
    (normal : 2 ^ (-1022 : ℤ) ≤ length)
    (share : length * 2 ^ (-50 : ℤ) ≤ span * (weight / total)) :
    placed start span total elapsed < placed start span total (nearest (elapsed + weight)) := by
  have unit : (0 : ℚ) < 2 ^ (-53 : ℤ) := two_zpow_pos _
  have whole : |span| ≤ limit := by
    rw [abs_of_pos spans]
    exact (shorter.trans_lt finite).le
  have sums : elapsed ≤ nearest (elapsed + weight) := by
    refine le_nearest kept ?_ (le_add_of_nonneg_right weighs)
    rw [abs_of_nonneg from_zero]
    exact (le.trans_lt inside).le
  have moved_sum : |nearest (elapsed + weight) - (elapsed + weight)| ≤ total * 2 ^ (-53 : ℤ) := by
    refine Binary64.abs_nearest_add_sub_le kept kept_weight ?_ inside
    rwa [abs_of_nonneg (from_zero.trans sums)]
  have moved : ∀ e, 0 ≤ e → e ≤ total →
      |nearest (e / total) - e / total| ≤ 2 ^ (-53 : ℤ)
      ∧ |nearest (span * nearest (e / total)) - span * nearest (e / total)|
        ≤ length * 2 ^ (-53 : ℤ)
      ∧ |placed start span total e - (start + nearest (span * nearest (e / total)))|
        ≤ length * 2 ^ (-53 : ℤ) := by
    intro e nonneg le
    have share := share_le_one positive le
    have part := part_le_span kept_span whole spans.le positive le
    have part_nonneg := part_nonneg spans.le positive nonneg
    refine ⟨?_, ?_, ?_⟩
    · rw [← one_mul (2 ^ (-53 : ℤ) : ℚ)]
      refine Binary64.abs_nearest_sub_le ?_ one_lt_limit
        (zpow_le_one_of_nonpos₀ one_le_two (by norm_num))
      rwa [abs_of_nonneg (nearest_nonneg (div_nonneg nonneg positive.le))]
    · refine Binary64.abs_nearest_sub_le ?_ finite normal
      rw [abs_of_nonneg part_nonneg]
      exact part.trans shorter
    · refine Binary64.abs_nearest_sub_le ?_ finite normal
      rw [abs_of_nonneg (nearest_nonneg (add_nonneg starts part_nonneg))]
      exact (nearest_mono (add_le_add_right part start)).trans ends
  generalize nearest (elapsed + weight) = later at *
  obtain ⟨share_before, part_before, time_before⟩ := moved elapsed from_zero (sums.trans within)
  obtain ⟨share_after, part_after, time_after⟩ := moved later (from_zero.trans sums) within
  have apart : elapsed / total + weight / total - 2 ^ (-53 : ℤ) ≤ later / total := by
    rw [← add_div, sub_le_iff_le_add, div_le_iff₀ positive, add_mul, div_mul_cancel₀ _ positive.ne']
    linarith [(abs_le.mp moved_sum).1]
  have before := mul_le_mul_of_nonneg_left (abs_le.mp share_before).2 spans.le
  have after := mul_le_mul_of_nonneg_left (abs_le.mp share_after).1 spans.le
  have between := mul_le_mul_of_nonneg_left apart spans.le
  have part := mul_le_mul_of_nonneg_right shorter unit.le
  have eight : length * 2 ^ (-50 : ℤ) = 8 * (length * 2 ^ (-53 : ℤ)) := by
    have power : (2 : ℚ) ^ (-50 : ℤ) = 8 * 2 ^ (-53 : ℤ) := by norm_num
    rw [power]
    ring
  have some_length : 0 < length * 2 ^ (-53 : ℤ) := mul_pos (spans.trans_le shorter) unit
  rw [abs_le] at part_before part_after time_before time_after
  by_contra not_later
  linarith

end

-- ================================================================ sums

/-- The number that stands where none is written is admissible. -/
theorem admissible_one : Admissible (Scalar.one : Float) :=
  ⟨by decide +kernel, by decide +kernel⟩

theorem not_one_lt_minSpan : ¬ (Scalar.one : Float) < minSpan := by decide +kernel

/-- A weight or a span stands for a positive rational within the range. -/
theorem Admissible.hasValue {x : Float} (h : Admissible x) :
    HasValue x (value x) ∧ 0 < value x ∧ value x < limit := by
  have own := Binary64.hasValue_of_isFinite h.1
  have positive := (Binary64.hasValue_zero.lt_iff own).mp h.2
  have inside := own.isFinite_iff.mp h.1
  rw [abs_of_pos positive] at inside
  exact ⟨own, positive, inside⟩

/-- Adding something does not take a sum below where it was. -/
theorem le_nearest_add {p q : ℚ} {x : Float} (hx : HasValue x p) (nonneg : 0 ≤ q) :
    p ≤ nearest (p + q) :=
  le_nearest hx.kept hx.size_le (le_add_of_nonneg_right nonneg)

/-- What weighs `elapsed` and the segments. -/
def weightAfter (segments : List (Segment Float)) (elapsed : Float) : Float :=
  segments.foldl (fun total s => total + s.weight) elapsed

/-- Weights add up to a number that is no smaller than what they were added to. -/
theorem hasValue_weightAfter {segments : List (Segment Float)}
    (weights : ∀ s ∈ segments, Admissible s.weight) {x : Float} {p : ℚ} (hx : HasValue x p)
    (nonneg : 0 ≤ p) : ∃ q, HasValue (weightAfter segments x) q ∧ p ≤ q := by
  induction segments generalizing x p with
  | nil => exact ⟨p, hx, le_rfl⟩
  | cons s rest ih =>
    obtain ⟨weight, positive, -⟩ := (weights s List.mem_cons_self).hasValue
    have next := hx.add_of_nonneg weight nonneg positive.le
    have grown := le_nearest_add hx positive.le
    obtain ⟨q, hq, le⟩ :=
      ih (fun r hr => weights r (List.mem_cons_of_mem s hr)) next (nonneg.trans grown)
    exact ⟨q, hq, grown.trans le⟩

/-- A measured group has some weight, perhaps an infinite one. -/
theorem hasValue_totalWeight {g : TimedGroup Float} (h : g.Measured) :
    ∃ t, HasValue g.totalWeight t ∧ 0 < t := by
  obtain ⟨segments, span⟩ := g
  cases segments with
  | nil => exact absurd rfl h.segments
  | cons s rest =>
    obtain ⟨weight, positive, -⟩ := (h.weights s List.mem_cons_self).hasValue
    have first := Binary64.hasValue_zero.add_of_nonneg weight le_rfl positive.le
    have same : nearest (0 + value s.weight) = value s.weight := by
      rw [zero_add, weight.nearest_eq]
    rw [same] at first
    obtain ⟨t, ht, le⟩ := hasValue_weightAfter
      (fun r hr => h.weights r (List.mem_cons_of_mem s hr)) first positive.le
    exact ⟨t, ht, positive.trans_le le⟩

-- ============================================================== orders

/-- One beat does not come after another, and before it in a `fine` loop. -/
def Before (fine : Prop) (a b : ℚ) : Prop := a ≤ b ∧ (fine → a < b)

/-- What lies before a beat lies before any later one. -/
theorem Before.trans_le {fine : Prop} {a b c : ℚ} (h : Before fine a b) (le : b ≤ c) :
    Before fine a c :=
  ⟨h.1.trans le, fun f => (h.2 f).trans_le le⟩

/-- Notes with defined times lie one after another between two beats. -/
structure Spread (fine : Prop) (start stop : ℚ) (notes : List (Note Float)) : Prop where
  defined : ∀ n ∈ notes, n.time.isNaN = false
  ordered : notes.Pairwise fun a b => Before fine (value a.time) (value b.time)
  inside : ∀ n ∈ notes, start ≤ value n.time ∧ Before fine (value n.time) stop

namespace Spread

variable {fine : Prop} {start middle stop : ℚ} {notes notes' : List (Note Float)}

theorem nil : Spread fine start stop [] := ⟨by simp, .nil, by simp⟩

/-- An interval with notes in it can be made longer at its start. -/
theorem widen (h : Spread fine middle stop notes) (le : start ≤ middle) :
    Spread fine start stop notes :=
  ⟨h.defined, h.ordered, fun n hn => ⟨le.trans (h.inside n hn).1, (h.inside n hn).2⟩⟩

/-- A note can be put in front of notes that lie from a later beat on. -/
theorem cons {n : Note Float} (h : Spread fine middle stop notes) (time : HasValue n.time start)
    (before : Before fine start middle) (le : middle ≤ stop) :
    Spread fine start stop (n :: notes) := by
  have later := h.widen before.1
  refine ⟨List.forall_mem_cons.mpr ⟨time.defined, later.defined⟩,
    List.pairwise_cons.mpr ⟨fun m hm => ?_, h.ordered⟩,
    List.forall_mem_cons.mpr ⟨?_, later.inside⟩⟩
  · rw [time.value_eq]
    exact before.trans_le (h.inside m hm).1
  · rw [time.value_eq]
    exact ⟨le_rfl, before.trans_le le⟩

/-- Notes up to a beat are followed by notes from that beat on. -/
theorem append (h : Spread fine start middle notes) (h' : Spread fine middle stop notes')
    (le : start ≤ middle) (le' : middle ≤ stop) : Spread fine start stop (notes ++ notes') := by
  refine ⟨?_, List.pairwise_append.mpr ⟨h.ordered, h'.ordered, fun a ha b hb => ?_⟩, ?_⟩
  · intro n hn
    rcases List.mem_append.mp hn with before | after
    · exact h.defined n before
    · exact h'.defined n after
  · exact (h.inside a ha).2.trans_le (h'.inside b hb).1
  · intro n hn
    rcases List.mem_append.mp hn with before | after
    · exact ⟨(h.inside n before).1, (h.inside n before).2.trans_le le'⟩
    · exact (h'.widen le).inside n after

end Spread

-- ============================================================== groups

section

variable {start span total : Float} {s p t : ℚ} (hs : HasValue start s) (hp : HasValue span p)
  (ht : HasValue total t) (starts : 0 ≤ s) (spans : 0 < p) (short : p < limit)
  (weighs : 0 < t) (light : t < limit)

include hs hp ht starts spans short weighs light

/-- A segment is placed in binary64 where `placed` says. -/
theorem hasValue_placed {elapsed : Float} {e : ℚ} (he : HasValue elapsed e) (nonneg : 0 ≤ e)
    (le : e ≤ t) : HasValue (start + span * (elapsed / total)) (placed s p t e) := by
  have share := share_le_one weighs le
  have share_nonneg : 0 ≤ nearest (e / t) := nearest_nonneg (div_nonneg nonneg weighs.le)
  have part := part_le_span hp.kept hp.size_le spans.le weighs le
  have part_nonneg := part_nonneg spans.le weighs nonneg
  have quotient := he.div ht (by rw [abs_of_nonneg nonneg]; linarith) (by rwa [abs_of_pos weighs])
    weighs.ne'
  have product := hp.mul quotient (by rwa [abs_of_pos spans])
    (by rw [abs_of_nonneg share_nonneg]; exact share.trans_lt one_lt_limit)
  exact hs.add_of_nonneg product starts part_nonneg

/-- The segments of a group after some weight has gone by lie from there on to
the end of the group. -/
theorem spread_placeSegments {fine : Prop} {length : ℚ} (finite : length < limit)
    (ends : nearest (s + p) ≤ length) (normal : 2 ^ (-1022 : ℤ) ≤ length)
    {segments : List (Segment Float)} (weights : ∀ g ∈ segments, Admissible g.weight)
    (shares : fine → ∀ g ∈ segments, length * 2 ^ (-50 : ℤ) ≤ p * (value g.weight / t))
    {elapsed : Float} {e : ℚ} (he : HasValue elapsed e) (nonneg : 0 ≤ e)
    (all : HasValue (weightAfter segments elapsed) t) (position : Position) :
    Spread fine (placed s p t e) (nearest (s + p))
      (placeSegments start span total elapsed position segments) := by
  induction segments generalizing elapsed e position with
  | nil => exact .nil
  | cons g rest ih =>
    obtain ⟨weight, positive, -⟩ := (weights g List.mem_cons_self).hasValue
    have others : ∀ r ∈ rest, Admissible r.weight :=
      fun r hr => weights r (List.mem_cons_of_mem g hr)
    have next := he.add_of_nonneg weight nonneg positive.le
    have grown := le_nearest_add he positive.le
    obtain ⟨t', ht', within⟩ := hasValue_weightAfter others next (nonneg.trans grown)
    obtain rfl : t' = t := ht'.value_eq.symm.trans all.value_eq
    have following := ih others (fun f r hr => shares f r (List.mem_cons_of_mem g hr)) next
      (nonneg.trans grown) all .subdivision
    have first : Before fine (placed s p t' e) (placed s p t' (nearest (e + value g.weight))) := by
      refine ⟨placed_mono spans.le weighs grown, fun f => ?_⟩
      refine placed_lt he.kept weight.kept nonneg positive.le weighs (grown.trans within) within
        light hp.kept spans ?_ starts ends finite normal (shares f g List.mem_cons_self)
      refine le_trans ?_ ends
      exact le_nearest hp.kept hp.size_le (le_add_of_nonneg_left starts)
    have last : placed s p t' (nearest (e + value g.weight)) ≤ nearest (s + p) :=
      (placed_mono spans.le weighs within).trans_eq
        (placed_total hp.kept hp.size_le weighs)
    unfold placeSegments
    cases g.hit with
    | none => exact following.widen first.1
    | some hit =>
      exact following.cons (hasValue_placed hs hp ht starts spans short weighs light he nonneg
        (grown.trans within)) first last

end

/-- Groups laid end to end end no earlier than they start, and cover no less
than each of them does. -/
theorem hasValue_stop {groups : List (TimedGroup Float)} (measured : ∀ g ∈ groups, g.Measured)
    {start : Float} {s : ℚ} (hs : HasValue start s) (nonneg : 0 ≤ s) (position : Position) :
    ∃ l, HasValue (placeGroups start position groups).2 l ∧ s ≤ l
      ∧ ∀ g ∈ groups, value g.span ≤ l := by
  induction groups generalizing start s position with
  | nil => exact ⟨s, hs, le_rfl, by simp⟩
  | cons g rest ih =>
    obtain ⟨span, positive, -⟩ := (measured g List.mem_cons_self).span.hasValue
    have next := hs.add_of_nonneg span nonneg positive.le
    have grown := le_nearest_add hs positive.le
    have covered := le_nearest span.kept span.size_le (le_add_of_nonneg_left nonneg)
    obtain ⟨l, hl, le, others⟩ := ih (fun r hr => measured r (List.mem_cons_of_mem g hr)) next
      (nonneg.trans grown) .beat
    exact ⟨l, hl, grown.trans le, List.forall_mem_cons.mpr ⟨covered.trans le, others⟩⟩

/-- The shortest span is a power of two, so nothing is lost in the comparison. -/
theorem minSpan_le {g : TimedGroup Float} (h : g.Measured) : 1 / 64 ≤ value g.span := by
  have shortest : HasValue minSpan (1 / 64) := ⟨by decide +kernel, by decide +kernel⟩
  exact not_lt.mp fun less => h.long ((h.span.hasValue.1.lt_iff shortest).mpr less)

theorem two_zpow_le : (2 : ℚ) ^ (-1022 : ℤ) ≤ 1 / 64 := by
  have power : (1 / 64 : ℚ) = 2 ^ (-6 : ℤ) := by norm_num
  rw [power]
  exact zpow_le_zpow_right₀ one_le_two (by norm_num)

/-- The notes of all groups lie in the order they are placed in, and inside the loop. -/
theorem spread_placeGroups {fine : Prop} {length : ℚ} (finite : length < limit)
    {groups : List (TimedGroup Float)} (measured : ∀ g ∈ groups, g.Measured)
    (weights : ∀ g ∈ groups, Scalar.isFinite g.totalWeight = true)
    (shares : fine → ∀ g ∈ groups, ∀ r ∈ g.segments,
      length * 2 ^ (-50 : ℤ) ≤ value g.span * (value r.weight / value g.totalWeight))
    {start : Float} {s : ℚ} (hs : HasValue start s) (nonneg : 0 ≤ s) (position : Position)
    (stops : HasValue (placeGroups start position groups).2 length) :
    Spread fine s length (placeGroups start position groups).1 := by
  induction groups generalizing start s position with
  | nil => exact .nil
  | cons g rest ih =>
    have here := measured g List.mem_cons_self
    have others : ∀ r ∈ rest, r.Measured := fun r hr => measured r (List.mem_cons_of_mem g hr)
    obtain ⟨span, positive, short⟩ := here.span.hasValue
    obtain ⟨t, total, weighs⟩ := hasValue_totalWeight here
    have light := total.isFinite_iff.mp (weights g List.mem_cons_self)
    rw [abs_of_pos weighs] at light
    have next := hs.add_of_nonneg span nonneg positive.le
    have grown := le_nearest_add hs positive.le
    obtain ⟨l, hl, ends, -⟩ := hasValue_stop others next (nonneg.trans grown) .beat
    obtain rfl : l = length := hl.value_eq.symm.trans stops.value_eq
    have following := ih others (fun r hr => weights r (List.mem_cons_of_mem g hr))
      (fun f r hr => shares f r (List.mem_cons_of_mem g hr)) next (nonneg.trans grown) .beat stops
    have normal : 2 ^ (-1022 : ℤ) ≤ l := by
      have long := le_nearest span.kept span.size_le (le_add_of_nonneg_left nonneg)
      exact two_zpow_le.trans ((minSpan_le here).trans (long.trans ends))
    have fits : fine → ∀ r ∈ g.segments, l * 2 ^ (-50 : ℤ) ≤ value g.span * (value r.weight / t) :=
      fun f r hr => total.value_eq ▸ shares f g List.mem_cons_self r hr
    have placed_first := spread_placeSegments hs span total nonneg positive short weighs light
      finite ends normal here.weights fits Binary64.hasValue_zero le_rfl total position
    rw [placed_zero hs.kept hs.size_le] at placed_first
    unfold placeGroups
    exact placed_first.append following grown ends

-- =============================================================== loops

/-- The groups that a text is measured to. -/
def measuredGroups {α : Type} [Scalar α] (text : String) : Except Fault (List (TimedGroup α)) := do
  let pattern ← parse text
  pattern.groups.mapM Group.measure

/-- The length of a loop and the weights of its groups are within the range of
the numbers. -/
structure Loop.InRange (loop : Loop Float) (groups : List (TimedGroup Float)) : Prop where
  length : Scalar.isFinite loop.length = true
  weights : ∀ g ∈ groups, Scalar.isFinite g.totalWeight = true

/-- Every step, a rest as well, takes a share of its loop that rounding does not
swallow. -/
def Loop.Discernible (loop : Loop Float) (groups : List (TimedGroup Float)) : Prop :=
  ∀ g ∈ groups, ∀ s ∈ g.segments,
    value loop.length * 2 ^ (-50 : ℤ) ≤ value g.span * (value s.weight / value g.totalWeight)

theorem measured_of_forall₂ {sources : List Group} {groups : List (TimedGroup Float)}
    (each : List.Forall₂ (fun g t => Group.measure g = .ok t) sources groups) :
    ∀ g ∈ groups, g.Measured := by
  intro g hg
  obtain ⟨source, -, measured⟩ := exists_of_mem_right each hg
  exact measured_of_measure admissible_one not_one_lt_minSpan measured

/-- All groups that a text was measured as are as they should be. -/
theorem measured_of_groups {text : String} {groups : List (TimedGroup Float)}
    (h : measuredGroups text = .ok groups) : ∀ g ∈ groups, g.Measured := by
  obtain ⟨pattern, -, each⟩ := bind_eq_ok.mp h
  exact measured_of_forall₂ (mapM_eq_pure_iff.mp each)

/-- The notes of a compilation are those of its groups, laid end to end. -/
theorem placed_of_compile {text : String} {loop : Loop Float} {groups : List (TimedGroup Float)}
    (compiled : compile text = .ok loop) (measured : measuredGroups text = .ok groups) :
    placeGroups Scalar.zero .downbeat groups = (loop.notes, loop.length) := by
  obtain ⟨pattern, parsed, each⟩ := bind_eq_ok.mp measured
  obtain ⟨pattern', groups', parsed', each', placed, -, -, -⟩ := compile_eq_ok compiled
  cases parsed.symm.trans parsed'
  have functional : Relator.RightUnique fun (g : Group) (t : TimedGroup Float) =>
      Group.measure g = .ok t := fun _ _ _ h h' => Except.ok.inj (h.symm.trans h')
  cases functional.forall₂ each' (mapM_eq_pure_iff.mp each)
  exact placed

/-- The length of a loop that compiles is above zero, perhaps infinite. -/
theorem hasValue_length {text : String} {loop : Loop Float} (compiled : compile text = .ok loop) :
    ∃ l, HasValue loop.length l ∧ 0 < l := by
  obtain ⟨pattern, groups, parsed, each, placed, sounds, -, -⟩ := compile_eq_ok compiled
  have measured := measured_of_forall₂ each
  obtain ⟨l, length, -, covers⟩ := hasValue_stop measured Binary64.hasValue_zero le_rfl .downbeat
  rw [placed] at length
  obtain ⟨g, hg⟩ : ∃ g, g ∈ groups := by
    refine List.exists_mem_of_ne_nil groups ?_
    rintro rfl
    exact sounds (congrArg Prod.fst placed).symm
  exact ⟨l, length, (measured g hg).span.hasValue.2.1.trans_le (covers g hg)⟩

/-- A loop is longer than nothing. If no sum leaves the range of the numbers, its
notes have finite times from zero on that do not decrease; none comes after
the end of the loop, and if no step is lost in rounding, each comes before
the end and before the next. -/
theorem times_of_compile {text : String} {loop : Loop Float} {groups : List (TimedGroup Float)}
    (compiled : compile text = .ok loop) (measured : measuredGroups text = .ok groups) :
    Scalar.zero < loop.length
      ∧ (loop.InRange groups →
        (∀ n ∈ loop.notes, Scalar.isFinite n.time = true ∧ Scalar.zero ≤ n.time
          ∧ n.time ≤ loop.length)
        ∧ loop.notes.Pairwise (fun a b => a.time ≤ b.time)
        ∧ (loop.Discernible groups →
          (∀ n ∈ loop.notes, n.time < loop.length)
          ∧ loop.notes.Pairwise fun a b => a.time < b.time)) := by
  have each := measured_of_groups measured
  have placed := placed_of_compile compiled measured
  have zero := Binary64.hasValue_zero
  obtain ⟨l, length, some_length⟩ := hasValue_length compiled
  refine ⟨(zero.lt_iff length).mpr some_length, fun inRange => ?_⟩
  have finite := length.isFinite_iff.mp inRange.length
  rw [abs_of_pos some_length] at finite
  have shares : loop.Discernible groups → ∀ g ∈ groups, ∀ r ∈ g.segments,
      l * 2 ^ (-50 : ℤ) ≤ value g.span * (value r.weight / value g.totalWeight) :=
    fun fine => length.value_eq ▸ fine
  have spread := spread_placeGroups finite each inRange.weights shares zero le_rfl .downbeat
    (by rwa [placed])
  rw [placed] at spread
  have time : ∀ n ∈ loop.notes, HasValue n.time (value n.time) :=
    fun n hn => ⟨spread.defined n hn, rfl⟩
  refine ⟨fun n hn => ?_, ?_, fun fine => ⟨fun n hn => ?_, ?_⟩⟩
  · obtain ⟨low, high, -⟩ := spread.inside n hn
    refine ⟨(time n hn).isFinite_iff.mpr ?_, (zero.le_iff (time n hn)).mpr low,
      ((time n hn).le_iff length).mpr high⟩
    rw [abs_of_nonneg low]
    exact high.trans_lt finite
  · refine spread.ordered.imp_of_mem fun {a b} ha hb before => ?_
    exact ((time a ha).le_iff (time b hb)).mpr before.1
  · exact ((time n hn).lt_iff length).mpr ((spread.inside n hn).2.2 fine)
  · refine spread.ordered.imp_of_mem fun {a b} ha hb before => ?_
    exact ((time a ha).lt_iff (time b hb)).mpr (before.2 fine)

/-- Triplets, then a long step, a rest and a short step. -/
def triplets : Loop Float :=
  ⟨[⟨0, .downbeat, false, none⟩, ⟨2 * (1 / 3), .subdivision, false, none⟩,
    ⟨2 * (2 / 3), .subdivision, false, none⟩, ⟨2, .beat, true, none⟩,
    ⟨2.75, .subdivision, false, none⟩], 3, "3:2 | [!2 ~1 1]"⟩

/-- The thirds are rounded, and still every note has a time of its own inside the
loop. -/
theorem times_of_compile_triplets :
    compile "3:2 | [!2 ~1 1]" = .ok triplets
      ∧ (∀ n ∈ triplets.notes, n.time < triplets.length)
      ∧ triplets.notes.Pairwise fun a b => a.time < b.time := by
  have compiled : compile "3:2 | [!2 ~1 1]" = .ok triplets := eq_ok_of_toOption (by decide +kernel)
  have power : (2 : ℚ) ^ (-50 : ℤ) = 1 / 1125899906842624 := by norm_num
  have checked : (measuredGroups "3:2 | [!2 ~1 1]").toOption.any
      (fun groups : List (TimedGroup Float) => decide
        ((∀ g ∈ groups, Scalar.isFinite g.totalWeight = true)
          ∧ ∀ g ∈ groups, ∀ s ∈ g.segments, value triplets.length * (1 / 1125899906842624)
            ≤ value g.span * (value s.weight / value g.totalWeight))) = true := by decide +kernel
  obtain ⟨groups, measured, holds⟩ := (Option.any_eq_true _ _).mp checked
  obtain ⟨light, shares⟩ := of_decide_eq_true holds
  obtain ⟨-, ordered⟩ := times_of_compile compiled (eq_ok_of_toOption measured)
  obtain ⟨-, -, apart⟩ := ordered ⟨by decide +kernel, light⟩
  refine ⟨compiled, apart fun g hg s hs => ?_⟩
  rw [power]
  exact shares g hg s hs

/-- A step so long that the notes after it have no room. -/
def crowded : Loop Float :=
  ⟨[⟨0, .downbeat, false, none⟩, ⟨1, .subdivision, false, none⟩, ⟨1, .subdivision, false, none⟩],
    1, "[9007199254740992 1 1]"⟩

/-- Times can meet, and reach the end of the loop, although all sums are in
range. -/
theorem times_crowded :
    compile "[9007199254740992 1 1]" = .ok crowded
      ∧ Scalar.isFinite crowded.length = true
      ∧ ¬ (crowded.notes.Pairwise fun a b => a.time < b.time)
      ∧ ∃ n ∈ crowded.notes, ¬ n.time < crowded.length :=
  ⟨eq_ok_of_toOption (by decide +kernel), by decide +kernel, by decide +kernel, by decide +kernel⟩

end Metrograph.Rhythm
