/-
Which tags the notes of a compiled rhythm carry.

# Where notes come from

The hits of a pattern in the order of the text, each with its group and its
step there, are its `origins`; a count stands for that many plain hits.
Compiling makes one note of each (`forall₂_placeGroups`), whatever the
numbers are, and marks it with the position that group and step have.

# What is read off the tags

A note's tags are its positional tag, the accent tag if it is accented, and
its sound (`hasTag_iff`), in one set. So a tag tells position and accent
exactly as long as the sound is not named like one of them
(`Note.Telling`); a sound that is, such as `downbeat`, adds a second
positional tag.
-/
import Metrograph.Proofs.Rhythm.Compiled

namespace Metrograph.Rhythm

-- ============================================================== origins

/-- Where a note comes from: a hit, at a step of a group, both counted from
zero. -/
structure Origin where
  group : Nat
  step : Nat
  accent : Bool
  sound : Option String
  deriving DecidableEq

namespace Origin

/-- The position that group and step make. -/
def position (o : Origin) : Position :=
  if o.step = 0 then if o.group = 0 then .downbeat else .beat else .subdivision

/-- The downbeat is the first step of the first group, whether it is the first
note or not. -/
theorem position_eq_downbeat {o : Origin} : o.position = .downbeat ↔ o.group = 0 ∧ o.step = 0 := by
  unfold position
  split_ifs with step group
  · exact iff_of_true rfl ⟨group, step⟩
  · exact iff_of_false nofun fun both => group both.1
  · exact iff_of_false nofun fun both => step both.2

/-- A beat is the first step of a later group. -/
theorem position_eq_beat {o : Origin} : o.position = .beat ↔ 0 < o.group ∧ o.step = 0 := by
  unfold position
  split_ifs with step group
  · exact iff_of_false nofun fun both => both.1.ne' group
  · exact iff_of_true rfl ⟨Nat.pos_of_ne_zero group, step⟩
  · exact iff_of_false nofun fun both => step both.2

end Origin

/-- Accent and sound of a step that sounds. -/
def Step.accentAndSound : Step → Option (Bool × Option String)
  | .rest _ => none
  | .hit h => some (h.accent, h.sound.map String.ofList)

/-- What the steps of a division sound. A count divides into plain hits. -/
def Division.sounding : Division → List (Option (Bool × Option String))
  | .count digits => List.replicate (Decimal.natOfDigits digits) (some (false, none))
  | .weights first others => (first :: others).map Step.accentAndSound

/-- The origins of the steps that sound in a group, where `step` is the first. -/
def originsOf (group : Nat) : Nat → List (Option (Bool × Option String)) → List Origin
  | _, [] => []
  | step, none :: rest => originsOf group (step + 1) rest
  | step, some (accent, sound) :: rest =>
    ⟨group, step, accent, sound⟩ :: originsOf group (step + 1) rest

/-- The origins in some groups, where `group` is the first. -/
def originsFrom : Nat → List Group → List Origin
  | _, [] => []
  | group, g :: rest => originsOf group 0 g.division.sounding ++ originsFrom (group + 1) rest

/-- The hits of a pattern in the order of the text. -/
def Pattern.origins (p : Pattern) : List Origin := originsFrom 0 p.groups

section

variable {α : Type}

/-- A note is what its origin says. -/
structure Note.ComesFrom (n : Note α) (o : Origin) : Prop where
  position : n.position = o.position
  accent : n.accent = o.accent
  sound : n.sound = o.sound

variable [Scalar α]

/-- Measuring a step keeps its accent and its sound. -/
theorem hit_of_measure {step : Step} {s : Segment α} (h : step.measure = .ok s) :
    s.hit = step.accentAndSound := by
  cases step with
  | rest weight =>
    cases weight with
    | none =>
      cases h
      rfl
    | some weight =>
      obtain ⟨x, -, h⟩ := bind_eq_ok.mp h
      cases h
      rfl
  | hit hit =>
    obtain ⟨x, -, h⟩ := bind_eq_ok.mp h
    cases h
    rfl

/-- Measuring a division keeps which of its steps sound, and how. -/
theorem hits_of_measure {division : Division} {segments : List (Segment α)}
    (h : division.measure = .ok segments) : segments.map Segment.hit = division.sounding := by
  cases division with
  | count digits =>
    unfold Division.measure at h
    dsimp only at h
    split at h
    next =>
      cases h
      exact List.map_replicate
    next => cases h
  | weights first others =>
    have each := (mapM_eq_pure_iff.mp h).imp fun _ _ measured => (hit_of_measure measured).symm
    have same := List.forall₂_map_left_iff.mpr (List.forall₂_map_right_iff.mpr each)
    rw [List.forall₂_eq_eq_eq] at same
    exact same.symm

/-- The notes of a group come from the steps that sound, in their order. -/
theorem forall₂_placeSegments (start span total : α) {group step : Nat} {position : Position}
    (elapsed : α) (segments : List (Segment α))
    (first : ∀ accent sound, position = Origin.position ⟨group, step, accent, sound⟩) :
    List.Forall₂ Note.ComesFrom (placeSegments start span total elapsed position segments)
      (originsOf group step (segments.map Segment.hit)) := by
  induction segments generalizing elapsed step position with
  | nil => exact .nil
  | cons s rest ih =>
    have following := ih (elapsed + s.weight) (fun _ _ => (if_neg (Nat.succ_ne_zero step)).symm)
    unfold placeSegments
    cases hit : s.hit with
    | none =>
      rw [List.map_cons, hit]
      exact following
    | some sounding =>
      obtain ⟨accent, sound⟩ := sounding
      rw [List.map_cons, hit]
      exact .cons ⟨first accent sound, rfl, rfl⟩ following

/-- The notes of all groups come from the steps that sound, in their order. -/
theorem forall₂_placeGroups {sources : List Group} {groups : List (TimedGroup α)}
    (each : List.Forall₂ (fun g t => Group.measure g = .ok t) sources groups) (start : α)
    {group : Nat} {position : Position}
    (first : position = if group = 0 then .downbeat else .beat) :
    List.Forall₂ Note.ComesFrom (placeGroups start position groups).1
      (originsFrom group sources) := by
  induction each generalizing start group position with
  | nil => exact .nil
  | @cons source timed _ _ measured _ ih =>
    obtain ⟨segments, divided, measured⟩ := bind_eq_ok.mp measured
    obtain ⟨span, -, measured⟩ := bind_eq_ok.mp measured
    cases measured
    have here : List.Forall₂ Note.ComesFrom (TimedGroup.notesFrom start position ⟨segments, span⟩)
        (originsOf group 0 (segments.map Segment.hit)) :=
      forall₂_placeSegments _ _ _ _ _ fun _ _ => first
    rw [hits_of_measure divided] at here
    exact List.rel_append here (ih _ (if_neg (Nat.succ_ne_zero group)).symm)

end

-- ================================================================ tags

/-- Nothing is lost by inserting, and nothing else comes in. -/
theorem mem_insertSorted {x text : String} {texts : List String} :
    x ∈ insertSorted text texts ↔ x = text ∨ x ∈ texts := by
  induction texts with
  | nil => exact List.mem_cons
  | cons other rest ih =>
    unfold insertSorted
    split_ifs with same before
    · rw [same, List.mem_cons, ← or_assoc, or_self]
    · exact List.mem_cons
    · rw [List.mem_cons, List.mem_cons, ih, or_left_comm]

/-- A text is in the list exactly if it was put in. -/
theorem mem_foldr_insertSorted {x : String} {texts : List String} :
    x ∈ texts.foldr insertSorted [] ↔ x ∈ texts := by
  induction texts with
  | nil => rfl
  | cons text rest ih => rw [List.foldr_cons, mem_insertSorted, ih, List.mem_cons]

/-- Positions have tags of their own. -/
theorem Position.tag_injective : Function.Injective Position.tag := by
  intro p q same
  cases p <;> cases q <;> first | rfl | exact absurd same (by decide)

theorem Position.tag_ne_accentTag (p : Position) : p.tag ≠ accentTag := by
  cases p <;> decide

/-- A name that means something other than a sound among tags. -/
def Reserved (name : String) : Prop := name = accentTag ∨ ∃ p : Position, name = p.tag

variable {α : Type}

/-- The tags of a note: that of its position, perhaps the accent, perhaps its sound. -/
theorem Note.hasTag_iff (n : Note α) (tag : String) :
    n.hasTag tag = true
      ↔ tag = n.position.tag ∨ (n.accent = true ∧ tag = accentTag) ∨ n.sound = some tag := by
  have accented :
      tag ∈ (if n.accent then [accentTag] else []) ↔ n.accent = true ∧ tag = accentTag := by
    split_ifs with accent
    · rw [List.mem_singleton, and_iff_right accent]
    · exact iff_of_false List.not_mem_nil fun both => accent both.1
  unfold Note.hasTag Note.tags Note.givenTags
  rw [List.contains_iff_mem, mem_foldr_insertSorted, List.mem_cons, List.mem_append, accented,
    Option.mem_toList]

/-- The tags of a note tell where it comes from. -/
structure Note.Tells (n : Note α) (o : Origin) : Prop where
  position : ∃! p : Position, n.hasTag p.tag = true
  downbeat : n.isDownbeat = true ↔ o.group = 0 ∧ o.step = 0
  beat : n.hasTag Position.beat.tag = true ↔ 0 < o.group ∧ o.step = 0
  accent : n.hasTag accentTag = true ↔ o.accent = true

namespace Note.ComesFrom

variable {n : Note α} {o : Origin} (h : n.ComesFrom o)

include h

/-- The tags of a note that comes from a step. -/
theorem hasTag_iff (tag : String) :
    n.hasTag tag = true
      ↔ tag = o.position.tag ∨ (o.accent = true ∧ tag = accentTag) ∨ o.sound = some tag := by
  rw [← h.position, ← h.accent, ← h.sound]
  exact n.hasTag_iff tag

variable (plain : ∀ name, o.sound = some name → ¬ Reserved name)

include plain

/-- Unless a sound is named like it, a position's tag tells the position. -/
theorem hasTag_position_iff (p : Position) : n.hasTag p.tag = true ↔ p = o.position := by
  rw [h.hasTag_iff]
  constructor
  · rintro (same | ⟨-, same⟩ | sound)
    · exact Position.tag_injective same
    · exact absurd same p.tag_ne_accentTag
    · exact absurd (Or.inr ⟨p, rfl⟩) (plain _ sound)
  · rintro rfl
    exact Or.inl rfl

/-- Unless a sound is named like it, the accent's tag tells the accent. -/
theorem hasTag_accent_iff : n.hasTag accentTag = true ↔ o.accent = true := by
  rw [h.hasTag_iff]
  constructor
  · rintro (same | ⟨accent, -⟩ | sound)
    · exact absurd same.symm o.position.tag_ne_accentTag
    · exact accent
    · exact absurd (Or.inl rfl) (plain _ sound)
  · exact fun accent => Or.inr (Or.inl ⟨accent, rfl⟩)

theorem tells : n.Tells o where
  position := ⟨o.position, (h.hasTag_position_iff plain _).mpr rfl,
    fun p has => (h.hasTag_position_iff plain p).mp has⟩
  downbeat := by
    unfold Note.isDownbeat
    rw [h.hasTag_position_iff plain, eq_comm, Origin.position_eq_downbeat]
  beat := by
    rw [h.hasTag_position_iff plain, eq_comm, Origin.position_eq_beat]
  accent := h.hasTag_accent_iff plain

end Note.ComesFrom

/-- The notes of a compilation are the hits of its text, one by one. A note
carries its positional tag, the accent tag if it is accented, and its sound,
and nothing else; unless the sound is named like one of those tags, they
tell which position it has and whether it is accented. -/
theorem tags_of_compile [Scalar α] {text : String} {loop : Loop α}
    (compiled : compile text = .ok loop) :
    ∃ pattern, parse text = .ok pattern
      ∧ List.Forall₂ (fun n o =>
        (∀ tag, n.hasTag tag = true
          ↔ tag = o.position.tag ∨ (o.accent = true ∧ tag = accentTag) ∨ o.sound = some tag)
        ∧ ((∀ name, o.sound = some name → ¬ Reserved name) → n.Tells o))
        loop.notes pattern.origins := by
  obtain ⟨pattern, groups, parsed, each, placed, -, -, -⟩ := compile_eq_ok compiled
  have notes : List.Forall₂ Note.ComesFrom (placeGroups Scalar.zero .downbeat groups).1
      pattern.origins := forall₂_placeGroups each Scalar.zero rfl
  rw [placed] at notes
  exact ⟨pattern, parsed, notes.imp fun _ _ from_hit => ⟨from_hit.hasTag_iff, from_hit.tells⟩⟩

/-- A bass drum with an accent, then a rest, then two plain notes. -/
def bassDrum : Loop Float :=
  ⟨[⟨0, .downbeat, true, some "bass"⟩, ⟨1, .beat, false, none⟩, ⟨1.5, .subdivision, false, none⟩], 2,
    "[!1@bass ~1] | 2"⟩

/-- A loop with an accent, a sound, a rest and a second group. -/
theorem tags_of_compile_bassDrum :
    compile "[!1@bass ~1] | 2" = .ok bassDrum
      ∧ ∃ pattern, parse "[!1@bass ~1] | 2" = .ok pattern
        ∧ List.Forall₂ Note.Tells bassDrum.notes pattern.origins := by
  have compiled : compile "[!1@bass ~1] | 2" = .ok bassDrum := eq_ok_of_toOption (by decide +kernel)
  have read : (parse "[!1@bass ~1] | 2").toOption.map Pattern.origins
      = some [⟨0, 0, true, some "bass"⟩, ⟨1, 0, false, none⟩, ⟨1, 1, false, none⟩] := by
    decide +kernel
  have bass : ¬ Reserved "bass" := by
    rintro (accent | ⟨p, position⟩)
    · exact absurd accent (by decide)
    · cases p <;> exact absurd position (by decide)
  obtain ⟨pattern, parsed, each⟩ := tags_of_compile compiled
  rw [parsed] at read
  have origins := Option.some.inj read
  rw [origins] at each
  obtain ⟨⟨-, first⟩, each⟩ := List.forall₂_cons.mp each
  obtain ⟨⟨-, second⟩, each⟩ := List.forall₂_cons.mp each
  obtain ⟨⟨-, third⟩, -⟩ := List.forall₂_cons.mp each
  refine ⟨compiled, pattern, parsed, origins ▸ .cons (first ?_) (.cons (second nofun)
    (.cons (third nofun) .nil))⟩
  rintro name ⟨⟩
  exact bass

/-- A note with a sound named like a position. -/
def soundsDownbeat : Loop Float :=
  ⟨[⟨0, .downbeat, false, none⟩, ⟨0.5, .subdivision, false, some "downbeat"⟩], 1,
    "[1 1@downbeat]"⟩

/-- A note in the middle of a loop can say that it opens the loop. -/
theorem isDownbeat_soundsDownbeat :
    compile "[1 1@downbeat]" = .ok soundsDownbeat
      ∧ ∃ pattern, parse "[1 1@downbeat]" = .ok pattern
        ∧ pattern.origins[1]? = some ⟨0, 1, false, some "downbeat"⟩
        ∧ ∃ n, soundsDownbeat.notes[1]? = some n ∧ n.isDownbeat = true
          ∧ n.hasTag Position.subdivision.tag = true := by
  have parsed : (parse "[1 1@downbeat]").toOption.any (fun pattern =>
      decide (pattern.origins[1]? = some ⟨0, 1, false, some "downbeat"⟩)) = true := by decide +kernel
  obtain ⟨pattern, parsed, origin⟩ := (Option.any_eq_true _ _).mp parsed
  exact ⟨eq_ok_of_toOption (by decide +kernel), pattern, eq_ok_of_toOption parsed,
    of_decide_eq_true origin, _, rfl, by decide +kernel, by decide +kernel⟩

end Metrograph.Rhythm
