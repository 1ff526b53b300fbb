/-
Scanners take whole tokens off a text, and nothing but tokens.

Each scanner is maximal: it takes a token off if the text after it does
not go on with characters that could belong to it, and then leaves that
text. Whatever a scanner takes off any text is a token that the notation
can spell, and it ends there.
-/
import Metrograph.Proofs.Rhythm.Arrangement

namespace Metrograph.Rhythm

open Text (Digits Stops digits_takeWhile stops_cons stops_dropWhile stops_nil)

variable {cs ds name rest : List Char} {n : Numeral}

-- ============================================================== digits

/-- All digits are taken where they end. -/
theorem scanDigits_append (some : ds ≠ []) (digits : Digits ds) (ends : Stops Char.isDigit rest) :
    scanDigits (ds ++ rest) = .some (ds, rest) := by
  unfold scanDigits
  rw [ends.takeWhile digits, ends.dropWhile digits, if_neg some]

theorem scanDigits_none (ends : Stops Char.isDigit cs) : scanDigits cs = none := by
  unfold scanDigits
  rw [ends.takeWhile_eq_nil, if_pos rfl]

/-- No digit is left over. -/
theorem scanDigits_ends (h : scanDigits cs = some (ds, rest)) : Stops Char.isDigit rest := by
  unfold scanDigits at h
  dsimp only at h
  split at h
  next => cases h
  next =>
    cases h
    exact stops_dropWhile Char.isDigit cs

/-- Digits are not taken only where there is none. -/
theorem stops_of_scanDigits (h : scanDigits cs = none) : Stops Char.isDigit cs := by
  unfold scanDigits at h
  dsimp only at h
  split at h
  next none =>
    have drops := stops_dropWhile Char.isDigit cs
    rwa [← List.nil_append (cs.dropWhile _), ← none, List.takeWhile_append_dropWhile] at drops
  next => cases h

/-- What is taken is digits, and at least one. -/
theorem scanDigits_sound (h : scanDigits cs = some (ds, rest)) :
    cs = ds ++ rest ∧ ds ≠ [] ∧ Digits ds := by
  unfold scanDigits at h
  by_cases none : cs.takeWhile Char.isDigit = []
  · rw [if_pos none] at h
    cases h
  · rw [if_neg none] at h
    cases h
    exact ⟨List.takeWhile_append_dropWhile.symm, none, digits_takeWhile cs⟩

-- ============================================================= numbers

namespace Numeral

/-- Digits and a point, and all digits after it. -/
theorem scan_of_point {whole : List Char} (h : scanDigits cs = some (whole, '.' :: rest)) :
    scan cs = some (⟨whole, some (rest.takeWhile Char.isDigit)⟩, rest.dropWhile Char.isDigit) := by
  unfold scan
  rw [h]
  rfl

/-- Digits without a point. -/
theorem scan_of_whole {whole : List Char} (h : scanDigits cs = some (whole, rest))
    (point : Stops (· == '.') rest) : scan cs = some (⟨whole, none⟩, rest) := by
  unfold scan
  rw [h]
  cases rest with
  | nil => rfl
  | cons c rest =>
      have other : c ≠ '.' := beq_eq_false_iff_ne.mp (point c rfl)
      split
      next heq =>
        injection heq with heq
        injection heq with _ heq
        injection heq with heq
        exact absurd heq other
      next heq => cases heq; rfl
      next heq => cases heq
      next heq _ => cases heq

/-- A point and digits. -/
theorem scan_of_fraction (h : scanDigits cs = some (ds, rest)) :
    scan ('.' :: cs) = some (⟨[], some ds⟩, rest) := by
  have none : scanDigits ('.' :: cs) = .none := scanDigits_none (stops_cons rfl)
  unfold scan
  rw [none]
  show (scanDigits cs).map _ = _
  rw [h]
  rfl

/-- A number is taken whole where it ends. -/
theorem scan_append (h : n.WellFormed) (ends : n.Ends rest) :
    scan (n.chars ++ rest) = some (n, rest) := by
  obtain ⟨whole, fraction⟩ := n
  have digit : Stops Char.isDigit rest := ends.1
  cases fraction with
  | none => exact scan_of_whole (scanDigits_append h.1 h.2 digit) (ends.2 rfl)
  | some digits =>
      obtain ⟨hwhole, hdigits, written⟩ := h
      show scan (whole ++ '.' :: digits ++ rest) = _
      rw [List.append_assoc]
      cases whole with
      | nil =>
          have some : digits ≠ [] := written.resolve_left (absurd rfl)
          exact scan_of_fraction (scanDigits_append some hdigits digit)
      | cons c whole =>
          have scanned : scanDigits (c :: whole ++ '.' :: (digits ++ rest)) = _ :=
            scanDigits_append (List.cons_ne_nil c whole) hwhole (stops_cons rfl)
          rw [List.cons_append (a := '.'), scan_of_point scanned, digit.takeWhile hdigits,
            digit.dropWhile hdigits]

/-- No number begins without a digit, with or without a point in front of it. -/
theorem scan_none (digit : Stops Char.isDigit cs) (point : StopsBehind '.' Char.isDigit cs) :
    scan cs = none := by
  unfold scan
  rw [scanDigits_none digit]
  split
  next heq => cases heq
  next heq => cases heq
  next rest heq => rw [scanDigits_none (point rest rfl), Option.map_none]
  next => rfl

/-- What is left does not belong to the number. -/
theorem scan_ends (h : scan cs = some (n, rest)) : n.Ends rest := by
  unfold scan at h
  split at h
  next whole after scanned =>
    cases h
    exact ⟨stops_dropWhile Char.isDigit after, nofun⟩
  next whole after other scanned =>
    cases h
    refine ⟨scanDigits_ends scanned, fun _ c hc => beq_eq_false_iff_ne.mpr ?_⟩
    rintro rfl
    obtain ⟨last, point⟩ := List.head?_eq_some_iff.mp hc
    exact other last point
  next after none =>
    rw [Option.map_eq_some_iff] at h
    obtain ⟨⟨digits, last⟩, scanned, same⟩ := h
    cases same
    exact ⟨scanDigits_ends scanned, nofun⟩
  next => cases h

/-- A number is not taken only where none begins. -/
theorem stops_of_scan (h : scan cs = none) :
    Stops Char.isDigit cs ∧ StopsBehind '.' Char.isDigit cs := by
  unfold scan at h
  split at h
  next => cases h
  next => cases h
  next rest none =>
    refine ⟨stops_of_scanDigits none, ?_⟩
    rintro after ⟨⟩
    exact stops_of_scanDigits (Option.map_eq_none_iff.mp h)
  next other none =>
    exact ⟨stops_of_scanDigits none, fun rest point => absurd point (other rest)⟩

/-- What is taken is a number that can be spelled. -/
theorem scan_sound (h : scan cs = some (n, rest)) : cs = n.chars ++ rest ∧ n.WellFormed := by
  unfold scan at h
  split at h
  next whole after scanned =>
    cases h
    obtain ⟨text, some, digits⟩ := scanDigits_sound scanned
    refine ⟨?_, digits, digits_takeWhile after, Or.inl some⟩
    show _ = whole ++ '.' :: after.takeWhile Char.isDigit ++ after.dropWhile Char.isDigit
    rw [text, List.append_assoc, List.cons_append, List.takeWhile_append_dropWhile]
  next whole after _ scanned =>
    cases h
    obtain ⟨text, some, digits⟩ := scanDigits_sound scanned
    exact ⟨text, some, digits⟩
  next after none =>
    rw [Option.map_eq_some_iff] at h
    obtain ⟨⟨digits, last⟩, scanned, same⟩ := h
    cases same
    obtain ⟨text, some, digits⟩ := scanDigits_sound scanned
    exact ⟨congrArg ('.' :: ·) text, nofun, digits, Or.inr some⟩
  next => cases h

end Numeral

-- =============================================================== names

/-- A name is taken whole where it ends. -/
theorem scanName_append (h : SoundName name) (ends : Stops isNameChar rest) :
    scanName (name ++ rest) = some (name, rest) := by
  cases name with
  | nil => cases h
  | cons c name =>
      obtain ⟨letter, others⟩ := h
      rw [List.cons_append]
      unfold scanName
      dsimp only
      rw [if_pos letter, ends.takeWhile others, ends.dropWhile others]

theorem scanName_none (ends : Stops Char.isAlpha cs) : scanName cs = none := by
  unfold scanName
  cases cs with
  | nil => rfl
  | cons c cs =>
      dsimp only
      rw [ends c rfl, if_neg Bool.false_ne_true]

/-- Nothing of a name is left over. -/
theorem scanName_ends (h : scanName cs = some (name, rest)) : Stops isNameChar rest := by
  unfold scanName at h
  split at h
  next => cases h
  next c cs =>
    split at h
    next =>
      cases h
      exact stops_dropWhile isNameChar cs
    next => cases h

theorem stops_of_scanName (h : scanName cs = none) : Stops Char.isAlpha cs := by
  unfold scanName at h
  split at h
  next => exact stops_nil
  next c cs =>
    split at h
    next => cases h
    next other => exact stops_cons (Bool.eq_false_iff.mpr other)

/-- What is taken is a name. -/
theorem scanName_sound (h : scanName cs = some (name, rest)) :
    cs = name ++ rest ∧ SoundName name := by
  cases cs with
  | nil => cases h
  | cons c cs =>
      unfold scanName at h
      dsimp only at h
      by_cases letter : c.isAlpha
      · rw [if_pos letter] at h
        cases h
        exact ⟨congrArg (c :: ·) List.takeWhile_append_dropWhile.symm, letter,
          List.all_eq_true.mp List.all_takeWhile⟩
      · rw [if_neg letter] at h
        cases h

end Metrograph.Rhythm
