/-
What is sent to the engine, and what comes from it, is received unchanged.

# Texts

A configuration, a rhythm and a sample are written as documents that a text
can say, so what is read from their text is the document itself
(`decodeText_line`). What is left to show has no text in it.

# Numbers

A finite number is written with the shortest digits that round to it, and
read by scaling these digits by a power of ten. This gives back most
numbers, but not all, as the scaling rounds once more
(`not_survives_thirds`). So whether a number comes back is asked of each by
itself (`Survives`). A number that is not finite is written as `null`, which
is no number.

# Values

Everything else is kept: a received value is the one that was sent with each
of its numbers replaced by what came back of it, and there is none if one of
them did not come back (`traverseConfig`). So a value comes back exactly if
its numbers do, and a number that is not finite leaves nothing.
-/
import Metrograph.Proofs.Decimal.Written
import Metrograph.Proofs.Json.RoundTrip
import Metrograph.Wire.Encoding

namespace Metrograph.Wire

open Json (Writable fields_record writable_record)

-- ============================================================== numbers

/-- The digits written of a number are read as that number. -/
def Survives (x : Float) : Prop :=
  (Json.Numeral.ofSpelling (Decimal.encoded.text x).toList).bind Json.Numeral.toFloat? = some x

instance : DecidablePred Survives := fun _ => inferInstanceAs (Decidable (_ = _))

/-- Its sixteen digits are scaled to a neighbour. -/
theorem not_survives_thirds : ¬ Survives (272 / 3) := by decide +kernel

/-- What comes back of a number. -/
def received (x : Float) : Option Float := floatOf (.ofFloat x)

variable {x y : Float}

/-- What is not finite is never received: it was sent as no number. -/
theorem isFinite_of_received (some : received x = some y) : x.isFinite = true := by
  by_contra infinite
  unfold received Json.ofFloat at some
  rw [if_neg infinite] at some
  cases some

/-- A finite number is received as what its text is read as. -/
theorem received_of_isFinite (finite : x.isFinite = true) : received x
    = (Json.Numeral.ofSpelling (Decimal.encoded.text x).toList).bind Json.Numeral.toFloat? := by
  unfold received Json.ofFloat
  rw [if_pos finite]
  rfl

/-- A number is received as it was if it is finite and survives being written,
and only then. -/
theorem received_eq_self : received x = some x ↔ x.isFinite = true ∧ Survives x := by
  constructor
  · intro same
    have finite : x.isFinite = true := isFinite_of_received same
    exact ⟨finite, (received_of_isFinite finite).symm.trans same⟩
  · rintro ⟨finite, survives⟩
    exact (received_of_isFinite finite).trans survives

theorem writable_ofFloat (x : Float) : Writable (.ofFloat x) := by
  unfold Json.ofFloat
  split
  next finite =>
    obtain ⟨n, spelled⟩ := Decimal.spelled_text Decimal.encoded finite
    exact .number spelled
  next => exact .null

theorem spelled_toDigits (n : Nat) :
    Json.Numeral.Spelled ⟨false, Nat.toDigits 10 n, none, none⟩ (Nat.toDigits 10 n) :=
  Decimal.spelled_whole false (Decimal.whole_toDigits n)

/-- A count comes back. -/
theorem countOf_ofNat (n : UInt32) : countOf (.ofNat n.toNat) = some n := by
  have within : (0 : Int) ≤ n.toNat ∧ (n.toNat : Int) ≤ Decimal.limit32 := by
    have le : n.toNat ≤ Decimal.limit32 := Nat.le_of_lt_succ n.toNat_lt
    omega
  have whole : Json.Numeral.toInt? ⟨false, Nat.toDigits 10 n.toNat, none, none⟩
      = some (n.toNat : Int) := by
    show some (Decimal.natOfDigits (Nat.toDigits 10 n.toNat) : Int) = _
    rw [Decimal.natOfDigits_toDigits]
  unfold countOf Json.ofNat
  dsimp only [Option.bind_eq_bind]
  rw [(spelled_toDigits n.toNat).ofSpelling, Option.bind_some, whole, Option.bind_some,
    if_pos within, Int.toNat_natCast, UInt32.ofNat_toNat]

-- ================================================================ lists

/-- A list can be written if its elements can. -/
theorem writable_list {β : Type} {encode : β → Json} (each : ∀ v, Writable (encode v))
    (vs : List β) : Writable (.array (vs.map encode)) := by
  refine .array fun j hj => ?_
  obtain ⟨v, -, rfl⟩ := List.mem_map.mp hj
  exact each v

-- ============================================================= documents

theorem writable_sample (s : Waveform.Sample Float) : Writable (encodeSample s) :=
  writable_record (List.forall_mem_cons.mpr ⟨writable_ofFloat s.beat,
    List.forall_mem_singleton.mpr (writable_ofFloat s.amplitude)⟩)

theorem writable_note (n : Note Float) : Writable (encodeNote n) :=
  writable_record (List.forall_mem_cons.mpr ⟨writable_ofFloat n.time,
    List.forall_mem_singleton.mpr (writable_list Writable.string n.tags)⟩)

theorem writable_rhythm (r : Rhythm Float) : Writable (encodeRhythm r) := by
  have notes : Writable (.array (r.notes.toList.map encodeNote)) := writable_list writable_note _
  refine writable_record ?_
  simp only [List.forall_mem_cons]
  exact ⟨notes, writable_ofFloat _, writable_ofFloat _, nofun⟩

/-- Whatever is in a configuration, it can be written. -/
theorem writable_config (c : Config Float) : Writable (encodeConfig c) := by
  refine writable_record ?_
  simp only [List.forall_mem_cons]
  exact ⟨writable_ofFloat _, .bool _, writable_ofFloat _, writable_ofFloat _,
    .number (spelled_toDigits _), .bool _, .bool _, writable_ofFloat _, .bool _, .bool _, .bool _,
    writable_rhythm _, .bool _, nofun⟩

/-- A text is decoded as the document it was written from. -/
theorem decodeText_line {β : Type} {j : Json} (decode : Json → Option β) (writable : Writable j) :
    decodeText decode j.line = decode j := by
  unfold decodeText
  rw [Json.read_line writable]
  rfl

-- =============================================================== values

variable (f : Float → Option Float)

/-- A sample with its numbers replaced. -/
def traverseSample (s : Waveform.Sample Float) : Option (Waveform.Sample Float) := do
  return ⟨← f s.beat, ← f s.amplitude⟩

/-- A note whose time is replaced. -/
def traverseNote (n : Note Float) : Option (Note Float) := do
  return { n with time := ← f n.time }

/-- A rhythm whose numbers are replaced. -/
def traverseRhythm (r : Rhythm Float) : Option (Rhythm Float) := do
  return ⟨(← r.notes.toList.mapM (traverseNote f)).toArray, ← f r.start, ← f r.stop⟩

/-- A configuration whose numbers are replaced. -/
def traverseConfig (c : Config Float) : Option (Config Float) := do
  return {
    c with
    audioInGain := ← f c.audioInGain
    beatsToLoop := ← f c.beatsToLoop
    bpm := ← f c.bpm
    clickVolume := ← f c.clickVolume
    audioSubdivisions := ← traverseRhythm f c.audioSubdivisions }

variable {f}

/-- The numbers of a sample. -/
def sampleFloats (s : Waveform.Sample Float) : List Float := [s.beat, s.amplitude]

/-- The numbers of a rhythm. -/
def rhythmFloats (r : Rhythm Float) : List Float := r.start :: r.stop :: r.notes.toList.map Note.time

/-- The numbers of a configuration, those of its rhythm included. -/
def configFloats (c : Config Float) : List Float :=
  c.audioInGain :: c.beatsToLoop :: c.bpm :: c.clickVolume :: rhythmFloats c.audioSubdivisions

/-- Numbers replaced by themselves make the same sample. -/
theorem traverseSample_eq_self {s : Waveform.Sample Float}
    (each : ∀ x ∈ sampleFloats s, f x = some x) : traverseSample f s = some s := by
  simp only [sampleFloats, List.forall_mem_cons] at each
  obtain ⟨beat, amplitude, -⟩ := each
  unfold traverseSample
  rw [beat, amplitude]
  rfl

/-- Replacing every number by itself changes nothing. -/
theorem traverseRhythm_eq_self {r : Rhythm Float}
    (each : ∀ x ∈ rhythmFloats r, f x = some x) : traverseRhythm f r = some r := by
  simp only [rhythmFloats, List.forall_mem_cons] at each
  obtain ⟨start, stop, times⟩ := each
  have notes : r.notes.toList.mapM (traverseNote f) = some r.notes.toList := by
    refine mapM_eq_self fun n hn => ?_
    unfold traverseNote
    rw [times n.time (List.mem_map_of_mem hn)]
    rfl
  unfold traverseRhythm
  rw [notes, start, stop]
  rfl

theorem traverseConfig_eq_self {c : Config Float}
    (each : ∀ x ∈ configFloats c, f x = some x) : traverseConfig f c = some c := by
  simp only [configFloats, List.forall_mem_cons] at each
  obtain ⟨audioInGain, beatsToLoop, bpm, clickVolume, rhythm⟩ := each
  unfold traverseConfig
  rw [audioInGain, beatsToLoop, bpm, clickVolume, traverseRhythm_eq_self rhythm]
  rfl

/-- The numbers of a sample that was made are what the numbers became. -/
theorem forall₂_of_traverseSample {s t : Waveform.Sample Float} (made : traverseSample f s = some t) :
    List.Forall₂ (fun x y => f x = some y) (sampleFloats s) (sampleFloats t) := by
  obtain ⟨beat, first, made⟩ := Option.bind_eq_some_iff.mp made
  obtain ⟨amplitude, second, made⟩ := Option.bind_eq_some_iff.mp made
  cases made
  exact .cons first (.cons second .nil)

theorem time_of_traverseNote {n m : Note Float} (made : traverseNote f n = some m) :
    f n.time = some m.time := by
  obtain ⟨time, found, made⟩ := Option.bind_eq_some_iff.mp made
  cases made
  exact found

/-- The numbers of a rhythm that was made are what the numbers became. -/
theorem forall₂_of_traverseRhythm {r t : Rhythm Float} (made : traverseRhythm f r = some t) :
    List.Forall₂ (fun x y => f x = some y) (rhythmFloats r) (rhythmFloats t) := by
  obtain ⟨notes, first, made⟩ := Option.bind_eq_some_iff.mp made
  obtain ⟨start, second, made⟩ := Option.bind_eq_some_iff.mp made
  obtain ⟨stop, third, made⟩ := Option.bind_eq_some_iff.mp made
  cases made
  refine .cons second (.cons third ?_)
  rw [List.forall₂_map_left_iff, List.forall₂_map_right_iff]
  exact (mapM_eq_pure_iff.mp first).imp fun _ _ => time_of_traverseNote

/-- The numbers of a configuration that was made are what the numbers became. -/
theorem forall₂_of_traverseConfig {c d : Config Float} (made : traverseConfig f c = some d) :
    List.Forall₂ (fun x y => f x = some y) (configFloats c) (configFloats d) := by
  obtain ⟨audioInGain, first, made⟩ := Option.bind_eq_some_iff.mp made
  obtain ⟨beatsToLoop, second, made⟩ := Option.bind_eq_some_iff.mp made
  obtain ⟨bpm, third, made⟩ := Option.bind_eq_some_iff.mp made
  obtain ⟨clickVolume, fourth, made⟩ := Option.bind_eq_some_iff.mp made
  obtain ⟨rhythm, last, made⟩ := Option.bind_eq_some_iff.mp made
  cases made
  exact .cons first (.cons second (.cons third (.cons fourth (forall₂_of_traverseRhythm last))))

-- ============================================================= decoding

theorem decodeSample_encodeSample (s : Waveform.Sample Float) :
    decodeSample (encodeSample s) = traverseSample received s := by
  have fields : (encodeSample s).fields sampleFields = some [_, _] :=
    fields_record rfl (by decide)
  unfold decodeSample
  rw [fields]
  rfl

/-- A note is received with its tags, and with its time if that is received. -/
theorem decodeNote_encodeNote (n : Note Float) :
    decodeNote (encodeNote n) = traverseNote received n := by
  have fields : (encodeNote n).fields noteFields = some [_, _] :=
    fields_record rfl (by decide)
  have tags : listOf textOf (.array (n.tags.map Json.text)) = some n.tags := by
    show (n.tags.map Json.text).mapM textOf = some n.tags
    rw [List.mapM_map]
    exact mapM_eq_self fun _ _ => rfl
  unfold decodeNote
  rw [fields]
  dsimp only
  rw [tags]
  rfl

/-- A rhythm is received if its numbers are. -/
theorem decodeRhythm_encodeRhythm (r : Rhythm Float) :
    decodeRhythm (encodeRhythm r) = traverseRhythm received r := by
  have fields : (encodeRhythm r).fields rhythmFields = some [_, _, _] :=
    fields_record rfl (by decide)
  have notes : listOf decodeNote (.array (r.notes.toList.map encodeNote))
      = r.notes.toList.mapM (traverseNote received) := by
    show (r.notes.toList.map encodeNote).mapM decodeNote = _
    rw [List.mapM_map]
    exact congrArg (fun g => r.notes.toList.mapM g) (funext decodeNote_encodeNote)
  unfold decodeRhythm
  rw [fields]
  dsimp only
  rw [notes]
  rfl

/-- A configuration is received if its numbers are; everything else comes back
as it is. -/
theorem decodeConfig_encodeConfig (c : Config Float) :
    decodeConfig (encodeConfig c) = traverseConfig received c := by
  have fields : (encodeConfig c).fields configFields
      = some [_, _, _, _, _, _, _, _, _, _, _, _, _] := fields_record rfl (by decide)
  unfold decodeConfig
  rw [fields]
  dsimp only
  rw [decodeRhythm_encodeRhythm, countOf_ofNat]
  rfl

-- ========================================================== round trips

/-- What is sent of a kind of value is received as it was if all its numbers are
finite and come back, and only then; with a number that is not finite nothing
is received. -/
structure Faithful {β : Type} (encode : β → Json) (decode : Json → Option β)
    (floats : β → List Float) : Prop where
  exact : ∀ v, decodeText decode (encode v).line = some v
    ↔ ∀ x ∈ floats v, x.isFinite = true ∧ Survives x
  refused : ∀ v, (∃ x ∈ floats v, x.isFinite = false) →
    decodeText decode (encode v).line = none

/-- Whatever is received by replacing its numbers with those received is sent
faithfully. -/
theorem faithful_of_traverse {β : Type} {encode : β → Json} {decode : Json → Option β}
    {floats : β → List Float} {traverse : (Float → Option Float) → β → Option β}
    (writable : ∀ v, Writable (encode v))
    (decoded : ∀ v, decode (encode v) = traverse received v)
    (eq_self : ∀ {v}, (∀ x ∈ floats v, received x = some x) → traverse received v = some v)
    (needs : ∀ {v w}, traverse received v = some w →
      List.Forall₂ (fun x y => received x = some y) (floats v) (floats w)) :
    Faithful encode decode floats where
  exact v := by
    rw [decodeText_line decode (writable v), decoded]
    constructor
    · intro same x hx
      exact received_eq_self.mp (List.forall₂_same.mp (needs same) x hx)
    · intro each
      exact eq_self fun x hx => received_eq_self.mpr (each x hx)
  refused v := by
    rintro ⟨x, hx, infinite⟩
    rw [decodeText_line decode (writable v), decoded]
    refine Option.eq_none_iff_forall_ne_some.mpr fun w made => ?_
    have came := (needs made).imp fun x y some => And.intro (isFinite_of_received some) some
    have finite := ((List.forall₂_and_left _ _).mp came).1 x hx
    exact Bool.false_ne_true (infinite.symm.trans finite)

/-- Configurations, rhythms and samples are received as they were sent. -/
theorem sent_is_received : Faithful encodeConfig decodeConfig configFloats
    ∧ Faithful encodeRhythm decodeRhythm rhythmFloats
    ∧ Faithful encodeSample decodeSample sampleFloats := by
  refine ⟨?config, ?rhythm, ?sample⟩
  case config =>
    exact faithful_of_traverse writable_config decodeConfig_encodeConfig traverseConfig_eq_self
      forall₂_of_traverseConfig
  case rhythm =>
    exact faithful_of_traverse writable_rhythm decodeRhythm_encodeRhythm traverseRhythm_eq_self
      forall₂_of_traverseRhythm
  case sample =>
    exact faithful_of_traverse writable_sample decodeSample_encodeSample traverseSample_eq_self
      forall₂_of_traverseSample

/-- The standard configuration with tags that need every kind of escape. -/
def tagged : Config Float where
  __ := Config.standard
  audioSubdivisions :=
    ⟨#[⟨0, ["\"kick\"", "a\\b", "\x01\n"]⟩, ⟨0.5, ["größe", "𝄞"]⟩], 0, 1⟩

/-- It is received as it was sent, by itself and with its rhythm, but not once
its tempo is infinite; and neither is a sample without a level. -/
theorem sent_is_received_tagged :
    decodeText decodeConfig (encodeConfig tagged).line = some tagged
      ∧ decodeText decodeConfig (encodeConfig { tagged with bpm := 1 / 0 }).line = none
      ∧ decodeText decodeRhythm (encodeRhythm tagged.audioSubdivisions).line
        = some tagged.audioSubdivisions
      ∧ decodeText decodeSample (encodeSample ⟨1, 0 / 0⟩).line = none := by
  obtain ⟨config, rhythm, sample⟩ := sent_is_received
  have infinite : (1 / 0 : Float) ∈ configFloats { tagged with bpm := 1 / 0 } :=
    List.mem_cons_of_mem _ (List.mem_cons_of_mem _ List.mem_cons_self)
  have undefined : (0 / 0 : Float) ∈ sampleFloats ⟨1, 0 / 0⟩ :=
    List.mem_cons_of_mem _ List.mem_cons_self
  refine ⟨(config.exact tagged).mpr ?_, config.refused _ ⟨_, infinite, by decide⟩,
    (rhythm.exact _).mpr ?_, sample.refused _ ⟨_, undefined, by decide⟩⟩
  · decide +kernel
  · decide +kernel

end Metrograph.Wire
