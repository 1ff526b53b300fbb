/-
The times of a rhythm are what its weights and spans say.

# The exact reading

A pattern spells rationals: its weights and spans are read as they stand,
and nothing is rounded (`Group.exactly`). From them the formula gives each
step its time (`timeAt`): the spans of the groups before, and of the span
of its own group the share of the weights before it.

# The walk

Notes are placed by two running sums, the start of the group and the
weight that has gone by. Each induction keeps what has been walked past in
front of what is still to come, so that the running sum is the sum of the
front and the formula, which looks at the whole, stays the same formula
(`placed_segments`, `placed_groups`).

# Rhythms that play

What plays was measured in binary64, where a span just short of the
smallest one can be rounded up to it, so it may compile although its exact
reading would be refused. Its numbers are positive all the same
(`positive_exactly`), because zero is not rounded to anything else, and
that is all that the order of the exact times needs.
-/
import Metrograph.Proofs.Rhythm.Tags
import Metrograph.Proofs.Rhythm.Times
import Metrograph.Proofs.Scalar.Decimal

namespace Metrograph.Rhythm

open Binary64 (HasValue nearest hasValue_ofDecimal exact_ofDecimal nearest_zero hasValue_zero)

-- ============================================================== reading

/-- The weight that a step spells, one if none is written. -/
def Step.weight : Step → ℚ
  | .rest none => 1
  | .rest (some n) => n.value
  | .hit h => h.weight.value

/-- The weights of the steps of a division. A count has as many steps of
weight one. -/
def Division.weighing : Division → List ℚ
  | .count digits => List.replicate (Decimal.natOfDigits digits) 1
  | .weights first others => (first :: others).map Step.weight

/-- The beats that a group spells, one if none are written. -/
def Group.beats (g : Group) : ℚ := (g.span.map Numeral.value).getD 1

/-- The time of a step of a group, both counted from zero: the beats of the
groups before it, and of the beats of its own group the share of the weights
before it. -/
def timeAt (groups : List Group) (group step : ℕ) : ℚ :=
  ((groups.take group).map Group.beats).sum
    + ((groups[group]?).map fun g =>
        g.beats * ((g.division.weighing.take step).sum / g.division.weighing.sum)).getD 0

/-- A loop with the hits of a pattern for its notes, each at the time that the
formula gives it. -/
structure Loop.Follows (loop : Loop ℚ) (p : Pattern) : Prop where
  length_eq : loop.length = (p.groups.map Group.beats).sum
  notes : List.Forall₂ (fun n o => n.ComesFrom o ∧ n.time = timeAt p.groups o.group o.step)
    loop.notes p.origins
  increasing : loop.notes.Pairwise fun a b => a.time < b.time
  inside : ∀ n ∈ loop.notes, 0 ≤ n.time ∧ n.time < loop.length

/-- A step with the weight that it spells. -/
def Step.exactly (s : Step) : Segment ℚ := ⟨s.weight, s.accentAndSound⟩

/-- A division, measured without rounding. -/
def Division.exactly : Division → List (Segment ℚ)
  | .count digits => List.replicate (Decimal.natOfDigits digits) ⟨1, some (false, none)⟩
  | .weights first others => (first :: others).map Step.exactly

/-- A group with the numbers that it spells. -/
def Group.exactly (g : Group) : TimedGroup ℚ := ⟨g.division.exactly, g.beats⟩

theorem hits_exactly (d : Division) : d.exactly.map Segment.hit = d.sounding := by
  cases d with
  | count digits => exact List.map_replicate
  | weights first others => exact List.map_map

/-- The weights of a measured division are those that the tree weighs. -/
theorem weights_exactly (d : Division) : d.exactly.map Segment.weight = d.weighing := by
  cases d with
  | count digits => exact List.map_replicate
  | weights first others => exact List.map_map

-- ============================================================= the walk

/-- The segments behind some that have been walked past lie at the shares of
the weights before them. -/
theorem placed_segments (start span total : ℚ) (group : ℕ) (position : Position) (past : List ℚ)
    (segments : List (Segment ℚ)) :
    List.Forall₂ (fun n o => o.group = group
        ∧ n.time = start + span * (((past ++ segments.map Segment.weight).take o.step).sum / total))
      (placeSegments start span total past.sum position segments)
      (originsOf group past.length (segments.map Segment.hit)) := by
  induction segments generalizing past position with
  | nil => exact .nil
  | cons s rest ih =>
      have following := ih .subdivision (past ++ [s.weight])
      rw [List.sum_append, List.sum_singleton, List.length_append, List.length_singleton,
        List.append_assoc, List.singleton_append] at following
      unfold placeSegments
      cases hit : s.hit with
      | none =>
          rw [List.map_cons, List.map_cons, hit]
          exact following
      | some sounding =>
          rw [List.map_cons, List.map_cons, hit]
          refine .cons ⟨rfl, ?_⟩ following
          rw [List.take_left]

/-- The groups behind some that have been walked past start where those end. -/
theorem placed_groups (past groups : List Group) (position : Position)
    (first : position = if past.length = 0 then .downbeat else .beat) :
    List.Forall₂ (fun n o => n.ComesFrom o ∧ n.time = timeAt (past ++ groups) o.group o.step)
      (placeGroups (past.map Group.beats).sum position (groups.map Group.exactly)).1
      (originsFrom past.length groups) := by
  induction groups generalizing past position with
  | nil => exact .nil
  | cons g rest ih =>
      have following := ih (past ++ [g]) .beat (by simp)
      rw [List.map_append, List.sum_append, List.map_singleton, List.sum_singleton,
        List.length_append, List.length_singleton, List.append_assoc, List.singleton_append]
        at following
      have come : List.Forall₂ Note.ComesFrom
          (g.exactly.notesFrom (past.map Group.beats).sum position)
          (originsOf past.length 0 (g.division.exactly.map Segment.hit)) :=
        forall₂_placeSegments _ _ _ _ _ fun _ _ => first
      have placed := placed_segments (past.map Group.beats).sum g.beats g.exactly.totalWeight
        past.length position [] g.division.exactly
      have here := List.Forall₂.mp (S := fun n o => n.ComesFrom o
        ∧ n.time = timeAt (past ++ g :: rest) o.group o.step) (fun n o from_hit timed => ?_)
        come placed
      · rw [hits_exactly] at here
        exact List.rel_append here following
      · obtain ⟨own, time⟩ := timed
        rw [List.nil_append, totalWeight_eq, show g.exactly.segments = g.division.exactly from rfl,
          weights_exactly] at time
        refine ⟨from_hit, time.trans ?_⟩
        unfold timeAt
        simp [own]

/-- The groups of a pattern lie end to end. -/
theorem placed_stop (start : ℚ) (position : Position) (groups : List Group) :
    (placeGroups start position (groups.map Group.exactly)).2
      = start + (groups.map Group.beats).sum := by
  induction groups generalizing start position with
  | nil => exact (add_zero start).symm
  | cons g rest ih =>
      rw [List.map_cons, List.map_cons, List.sum_cons, ← add_assoc]
      exact ih (start + g.beats) .beat

/-- The notes of a pattern whose numbers are positive follow the formula. -/
theorem follows_of_positive {p : Pattern} (positive : ∀ g ∈ p.groups, g.exactly.Positive)
    {loop : Loop ℚ}
    (placed : placeGroups 0 .downbeat (p.groups.map Group.exactly) = (loop.notes, loop.length)) :
    loop.Follows p := by
  have stop := placed_stop 0 .downbeat p.groups
  have notes := placed_groups [] p.groups .downbeat rfl
  have each : ∀ t ∈ p.groups.map Group.exactly, t.Positive := by
    intro t ht
    obtain ⟨g, hg, rfl⟩ := List.mem_map.mp ht
    exact positive g hg
  obtain ⟨-, -, increasing, inside⟩ := between_placeGroups each 0 .downbeat
  rw [List.map_nil, List.sum_nil, List.nil_append] at notes
  rw [placed] at stop notes increasing inside
  rw [zero_add] at stop
  exact ⟨stop, notes, increasing, inside⟩

-- ============================================================ measures

section

variable {α : Type} [Scalar α]

/-- The weight of a step is one, or a number that was read for it. -/
theorem weight_of_measure {s : Step} {segment : Segment α} (h : s.measure = .ok segment) :
    segment.weight = Scalar.one ∧ s.weight = 1
      ∨ ∃ n : Numeral, positive .weight n = .ok segment.weight ∧ s.weight = n.value := by
  cases s with
  | rest weight =>
      cases weight with
      | none =>
          cases h
          exact Or.inl ⟨rfl, rfl⟩
      | some n =>
          obtain ⟨x, measured, h⟩ := bind_eq_ok.mp h
          cases h
          exact Or.inr ⟨n, measured, rfl⟩
  | hit hit =>
      obtain ⟨x, measured, h⟩ := bind_eq_ok.mp h
      cases h
      exact Or.inr ⟨hit.weight, measured, rfl⟩

/-- The span of a group is one, or a number that was read for it. -/
theorem beats_of_measure {g : Group} {span : α} (h : measureSpan g.span = .ok span) :
    span = Scalar.one ∧ g.beats = 1
      ∨ ∃ n : Numeral, positive .span n = .ok span ∧ g.beats = n.value := by
  unfold Group.beats
  cases n : g.span with
  | none =>
      rw [n] at h
      cases h
      exact Or.inl ⟨rfl, rfl⟩
  | some n' =>
      rw [n] at h
      obtain ⟨x, measured, h⟩ := bind_eq_ok.mp h
      split at h
      next => cases h
      next =>
        cases h
        exact Or.inr ⟨n', measured, rfl⟩

end

-- ====================================================== exact measures

/-- A step that could be measured over the rationals was measured exactly. -/
theorem exactly_of_measure_step {s : Step} {segment : Segment ℚ} (h : s.measure = .ok segment) :
    segment = s.exactly := by
  have weight : segment.weight = s.weight := by
    rcases weight_of_measure h with ⟨one, spelled⟩ | ⟨n, measured, spelled⟩
    · rw [one, spelled]
      rfl
    · rw [eq_value_of_positive measured, spelled]
  exact congrArg₂ Segment.mk weight (hit_of_measure h)

/-- So was a division. -/
theorem exactly_of_measure_division {d : Division} {segments : List (Segment ℚ)}
    (h : d.measure = .ok segments) : segments = d.exactly := by
  cases d with
  | count digits =>
      unfold Division.measure at h
      dsimp only at h
      split at h
      next =>
        cases h
        rfl
      next => cases h
  | weights first others =>
      have each := mapM_eq_pure_iff.mp (h : (first :: others).mapM Step.measure = .ok segments)
      exact eq_map_of_forall₂ (each.imp fun _ _ => exactly_of_measure_step)

/-- Measured exactly, a group has the numbers that it spells. -/
theorem exactly_of_measure {g : Group} {t : TimedGroup ℚ} (h : g.measure = .ok t) :
    t = g.exactly := by
  obtain ⟨segments, divided, h⟩ := bind_eq_ok.mp h
  obtain ⟨span, spanned, h⟩ := bind_eq_ok.mp h
  cases h
  have beats : span = g.beats := by
    rcases beats_of_measure spanned with ⟨one, spelled⟩ | ⟨n, measured, spelled⟩
    · rw [one, spelled]
      rfl
    · rw [eq_value_of_positive measured, spelled]
  rw [exactly_of_measure_division divided, beats]
  rfl

-- ===================================================== played measures

/-- A numeral whose nearest number is positive spells a positive number. -/
theorem value_pos {n : Numeral} (h : Admissible (n.value : Float)) : (0 : ℚ) < n.value := by
  have spelled : HasValue n.value (nearest n.value) := hasValue_ofDecimal _ _
  have positive : 0 < nearest (n.value : ℚ) := (hasValue_zero.lt_iff spelled).mp h.2
  have nonneg : (0 : ℚ) ≤ n.value := by
    show (0 : ℚ) ≤ Scalar.ofDecimal _ _
    rw [exact_ofDecimal]
    positivity
  rcases nonneg.eq_or_lt with zero | some
  · rw [← zero, nearest_zero] at positive
    exact absurd positive (lt_irrefl 0)
  · exact some

/-- A number that is admissible in binary64 spells a positive rational: zero is
not rounded to anything else. -/
theorem value_pos_of_positive {what : Measure} {n : Numeral} {x : Float}
    (h : positive what n = .ok x) : (0 : ℚ) < n.value := by
  have admissible := admissible_of_positive h
  rw [eq_value_of_positive h] at admissible
  exact value_pos admissible

/-- A step that binary64 can weigh weighs something. -/
theorem weight_pos {s : Step} {segment : Segment Float} (h : s.measure = .ok segment) :
    0 < s.weight := by
  rcases weight_of_measure h with ⟨-, spelled⟩ | ⟨n, measured, spelled⟩
  · rw [spelled]
    exact one_pos
  · rw [spelled]
    exact value_pos_of_positive measured

/-- A group whose span binary64 can hold has some beats. -/
theorem beats_pos {g : Group} {span : Float} (h : measureSpan g.span = .ok span) :
    0 < g.beats := by
  rcases beats_of_measure h with ⟨-, spelled⟩ | ⟨n, measured, spelled⟩
  · rw [spelled]
    exact one_pos
  · rw [spelled]
    exact value_pos_of_positive measured

/-- What can be measured in binary64 spells positive numbers. -/
theorem positive_exactly {g : Group} {t : TimedGroup Float} (h : g.measure = .ok t) :
    g.exactly.Positive := by
  obtain ⟨segments, divided, h⟩ := bind_eq_ok.mp h
  obtain ⟨span, spanned, -⟩ := bind_eq_ok.mp h
  obtain ⟨some, -⟩ := admissible_segments admissible_one divided
  have count := congrArg List.length (hits_of_measure divided)
  rw [← hits_exactly, List.length_map, List.length_map] at count
  refine ⟨?_, ?_, beats_pos spanned⟩
  · intro none
    rw [show g.division.exactly = [] from none] at count
    exact some (List.length_eq_zero_iff.mp count)
  · intro s hs
    obtain ⟨division, n⟩ := g
    cases division with
    | count digits =>
        rw [List.eq_of_mem_replicate hs]
        exact one_pos
    | weights first others =>
        obtain ⟨step, member, rfl⟩ := List.mem_map.mp hs
        have each := mapM_eq_pure_iff.mp divided
        obtain ⟨segment, -, measured⟩ := exists_of_mem_left each member
        exact weight_pos measured

-- ============================================================== rhythms

/-- The times of every rhythm follow the formula: those that are compiled over
the rationals, and, where a text compiles in binary64, those that the same
notes have when the numbers of its pattern are read as they are spelled. -/
theorem times_follow_formula (text : String) :
    (∀ loop : Loop ℚ, compile text = .ok loop →
      ∃ pattern, parse text = .ok pattern ∧ loop.Follows pattern)
    ∧ ∀ played : Loop Float, compile text = .ok played →
      ∃ (pattern : Pattern) (loop : Loop ℚ),
        parse text = .ok pattern ∧ List.Forall₂ Note.ComesFrom played.notes pattern.origins
          ∧ placeGroups 0 .downbeat (pattern.groups.map Group.exactly) = (loop.notes, loop.length)
          ∧ loop.Follows pattern := by
  refine ⟨fun loop compiled => ?_, fun played compiled => ?_⟩
  · obtain ⟨pattern, groups, parsed, each, placed, -, -, -⟩ := compile_eq_ok compiled
    obtain rfl := eq_map_of_forall₂ (each.imp fun _ _ => exactly_of_measure)
    refine ⟨pattern, parsed, follows_of_positive (fun g hg => ?_) placed⟩
    obtain ⟨t, -, measured⟩ := exists_of_mem_left each hg
    rw [← exactly_of_measure measured]
    exact positive_of_measure measured
  · obtain ⟨pattern, groups, parsed, each, placed, -, -, -⟩ := compile_eq_ok compiled
    have notes : List.Forall₂ Note.ComesFrom (placeGroups Scalar.zero .downbeat groups).1
        pattern.origins := forall₂_placeGroups each Scalar.zero rfl
    rw [placed] at notes
    refine ⟨pattern, ⟨_, _, text⟩, parsed, notes, rfl, follows_of_positive (fun g hg => ?_) rfl⟩
    obtain ⟨t, -, measured⟩ := exists_of_mem_left each hg
    exact positive_exactly measured

/-- A rest and a heavy step over two beats, then two even notes. -/
def shuffle : Loop ℚ :=
  ⟨[⟨0, .downbeat, false, none⟩, ⟨1, .subdivision, false, some "tom"⟩, ⟨2, .beat, false, none⟩,
    ⟨5 / 2, .subdivision, false, none⟩], 3, "[1 ~1 2@tom]:2 | 2"⟩

/-- A group of one note, its span a little short of the smallest one. -/
def shortText : String := "1:0.01562499999999999999"

/-- A short span is refused as it is spelled, but where the rhythm is played it
is rounded up to one that is long enough. -/
theorem times_follow_formula_shuffle :
    (compile "[1 ~1 2@tom]:2 | 2" = .ok shuffle
      ∧ ∃ pattern, parse "[1 ~1 2@tom]:2 | 2" = .ok pattern ∧ shuffle.Follows pattern)
    ∧ (compile shortText : Except Fault (Loop ℚ)).toOption.isNone
    ∧ (compile shortText : Except Fault (Loop Float)).toOption.isSome
    ∧ ∃ (pattern : Pattern) (loop : Loop ℚ), parse shortText = .ok pattern
      ∧ loop.Follows pattern ∧ loop.length < 1 / 64 := by
  have compiled : compile "[1 ~1 2@tom]:2 | 2" = .ok shuffle :=
    eq_ok_of_toOption (by decide +kernel)
  have plays : (compile shortText : Except Fault (Loop Float)).toOption.isSome := by decide +kernel
  have length : (parse shortText).toOption.map (fun p => (p.groups.map Group.beats).sum)
      = some (1562499999999999999 / 100000000000000000000) := by decide +kernel
  refine ⟨⟨compiled, (times_follow_formula _).1 shuffle compiled⟩, by decide +kernel, plays, ?_⟩
  obtain ⟨played, plays⟩ := Option.isSome_iff_exists.mp plays
  obtain ⟨pattern, loop, parsed, -, -, follows⟩ :=
    (times_follow_formula shortText).2 played (eq_ok_of_toOption plays)
  rw [parsed] at length
  refine ⟨pattern, loop, parsed, follows, ?_⟩
  have sum : (pattern.groups.map Group.beats).sum = _ := Option.some.inj length
  rw [follows.length_eq, sum]
  norm_num

-- ======================================================== exact rhythms

/-- The loops of a text when nothing is rounded: what it compiles to over the
rationals, and, where it compiles in binary64, the loop that the numbers of
its pattern spell. -/
inductive Exactly (text : String) (loop : Loop ℚ) : Prop
  | compiled (compiles : compile text = .ok loop)
  | played {played : Loop Float} {pattern : Pattern} (plays : compile text = .ok played)
      (parsed : parse text = .ok pattern) (follows : loop.Follows pattern)

/-- Whether its text compiles over the rationals or only in binary64, an exact
loop is well-formed. -/
theorem Exactly.wellFormed {text : String} {loop : Loop ℚ} (exact : Exactly text loop) :
    loop.WellFormed := by
  cases exact with
  | compiled compiles => exact wellFormed_of_compile compiles
  | @played played pattern plays parsed follows =>
      obtain ⟨pattern', groups, parsed', each, placed, sounds, -, -⟩ := compile_eq_ok plays
      cases parsed.symm.trans parsed'
      have notes : List.Forall₂ Note.ComesFrom (placeGroups Scalar.zero .downbeat groups).1
          pattern.origins := forall₂_placeGroups each Scalar.zero rfl
      rw [placed] at notes
      -- as many notes are in the one loop as in the other
      have same : loop.notes.length = played.notes.length :=
        follows.notes.length_eq.trans notes.length_eq.symm
      have some : loop.notes ≠ [] := by
        rw [← List.length_pos_iff, same]
        exact List.length_pos_iff.mpr sounds
      obtain ⟨low, high⟩ := follows.inside _ (List.head_mem some)
      exact ⟨some, low.trans_lt high, follows.increasing, follows.inside⟩

end Metrograph.Rhythm
