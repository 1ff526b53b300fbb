/-
How numbers and strings stand in a JSON text, and that they are read so.

# Numbers

A number is spelled as a sign, the digits before the point, perhaps a point
and digits, and perhaps an exponent (`Numeral.Spelled`). The scanner takes
as much as it can, so it takes a whole spelling off a text and no more only
if the text does not go on with a character that a number could go on with
(`Numeral.goesOn`); between two values there always stands another one.

# Strings

Every character is written either as it is, by a short escape, or by its
number, and in each case the reader gets the one character back
(`stringUnits_escapeChar`). What a reader gets are numbers, of which some
could stand for half a character; those of characters never do
(`charsOfUnits_toNat`).
-/
import Metrograph.Json.Reader
import Metrograph.Json.Writer
import Metrograph.Proofs.Text.Runs

namespace Metrograph.Json

open Text (Digits Stops stops_nil stops_cons)

-- ============================================================== numbers

namespace Numeral

/-- The digits before the point: a zero stands alone. -/
structure Whole (ds : List Char) : Prop where
  some : ds ≠ []
  digits : Digits ds
  lead : ∀ rest, ds = '0' :: rest → rest = []

/-- A point and digits, or nothing. -/
inductive Point : Option (List Char) → List Char → Prop
  | none : Point none []
  | digits {ds : List Char} (some : ds ≠ []) (digits : Digits ds) : Point (.some ds) ('.' :: ds)

/-- An exponent with or without a sign, or nothing. -/
inductive Power : Option Int → List Char → Prop
  | none : Power none []
  | up {ds : List Char} (some : ds ≠ []) (digits : Digits ds) :
      Power (.some (Decimal.natOfDigits ds)) ('e' :: ds)
  | plus {ds : List Char} (some : ds ≠ []) (digits : Digits ds) :
      Power (.some (Decimal.natOfDigits ds)) ('e' :: '+' :: ds)
  | minus {ds : List Char} (some : ds ≠ []) (digits : Digits ds) :
      Power (.some (-(Decimal.natOfDigits ds : Int))) ('e' :: '-' :: ds)

/-- The sign in front of a number. -/
def signChars (negative : Bool) : List Char := if negative then ['-'] else []

/-- How a number is spelled. -/
inductive Spelled : Numeral → List Char → Prop
  | mk (negative : Bool) {whole point power : List Char} {fraction : Option (List Char)}
      {exponent : Option Int} (before : Whole whole) (after : Point fraction point)
      (scaled : Power exponent power) :
      Spelled ⟨negative, whole, fraction, exponent⟩
        (signChars negative ++ (whole ++ (point ++ power)))

/-- What a number could go on with. -/
def goesOn (c : Char) : Bool := c.isDigit || c == '.' || c == 'e' || c == 'E'

variable {ds cs rest : List Char}

/-- A text that ends a number ends each part of it. -/
theorem stops_of_goesOn (ends : Stops goesOn rest) :
    Stops Char.isDigit rest ∧ Stops (· == '.') rest ∧ Stops (fun c => c == 'e' || c == 'E') rest := by
  have parts : ∀ c ∈ rest.head?, c.isDigit = false ∧ (c == '.') = false
      ∧ (c == 'e' || c == 'E') = false := by
    intro c hc
    have none : (c.isDigit || c == '.' || c == 'e' || c == 'E') = false := ends c hc
    simp only [Bool.or_eq_false_iff] at none ⊢
    exact ⟨none.1.1.1, none.1.1.2, none.1.2, none.2⟩
  exact ⟨fun c hc => (parts c hc).1, fun c hc => (parts c hc).2.1, fun c hc => (parts c hc).2.2⟩

/-- All digits are taken where they end. -/
theorem digits_append (some : ds ≠ []) (all : Digits ds) (ends : Stops Char.isDigit rest) :
    digits (ds ++ rest) = .some (ds, rest) := by
  unfold digits
  rw [ends.takeWhile all, ends.dropWhile all, if_neg some]

/-- The digits before the point are taken: a zero in front of others is none of them. -/
theorem wholeDigits_append (whole : Whole ds) (ends : Stops Char.isDigit rest) :
    wholeDigits (ds ++ rest) = some (ds, rest) := by
  unfold wholeDigits
  rw [digits_append whole.some whole.digits ends]
  split
  next same => exact same.symm
  next more after alone same =>
      injection same with same
      injection same with same _
      exact (alone (whole.lead _ same)).elim
  next => rfl

/-- The point and its digits are taken, if they are there. -/
theorem fractionDigits_append {fraction : Option (List Char)} (point : Point fraction cs)
    (ends : Stops Char.isDigit rest) (other : Stops (· == '.') rest) :
    fractionDigits (cs ++ rest) = some (fraction, rest) := by
  cases point with
  | none =>
      cases rest with
      | nil => rfl
      | cons c rest =>
          have ne : c ≠ '.' := beq_eq_false_iff_ne.mp (other c rfl)
          show fractionDigits (c :: rest) = _
          unfold fractionDigits
          split
          next same => exact absurd (List.cons.inj same).1 ne
          next => rfl
  | digits some all =>
      show (digits (_ ++ rest)).map _ = _
      rw [digits_append some all ends]
      rfl

/-- The digits of an exponent are taken with the sign in front of them. -/
theorem signedExponent_append (negative : Bool) (some : ds ≠ []) (all : Digits ds)
    (ends : Stops Char.isDigit rest) : signedExponent negative (ds ++ rest)
      = .some (.some (if negative then -(Decimal.natOfDigits ds : Int) else Decimal.natOfDigits ds),
        rest) := by
  unfold signedExponent
  rw [digits_append some all ends]
  rfl

/-- The exponent is taken, if there is one. -/
theorem exponentPart_append {exponent : Option Int} (power : Power exponent cs)
    (ends : Stops Char.isDigit rest) (other : Stops (fun c => c == 'e' || c == 'E') rest) :
    exponentPart (cs ++ rest) = some (exponent, rest) := by
  cases power with
  | none =>
      cases rest with
      | nil => rfl
      | cons c rest =>
          have ne : ¬ (c = 'e' ∨ c = 'E') := by simpa using other c rfl
          show (if c = 'e' ∨ c = 'E' then _ else some (none, c :: rest)) = _
          rw [if_neg ne]
  | @up ds some all =>
      -- a digit is no sign
      have unsigned (sign : Char) (plain : sign.isDigit = false) (more : List Char) :
          ds ++ rest ≠ sign :: more := by
        cases ds with
        | nil => exact absurd rfl some
        | cons d ds =>
            intro same
            have digit := all d List.mem_cons_self
            rw [(List.cons.inj same).1, plain] at digit
            cases digit
      show exponentPart ('e' :: (ds ++ rest)) = _
      unfold exponentPart
      dsimp only
      rw [if_pos (Or.inl rfl)]
      split
      next same => exact absurd same (unsigned '-' rfl _)
      next same => exact absurd same (unsigned '+' rfl _)
      next => exact signedExponent_append false some all ends
  | plus some all => exact signedExponent_append false some all ends
  | minus some all => exact signedExponent_append true some all ends

/-- A number without a sign begins with a digit. -/
theorem Whole.stops {p : Char → Bool} (whole : Whole ds)
    (digit : ∀ c : Char, c.isDigit = true → p c = false) (rest : List Char) :
    Stops p (ds ++ rest) :=
  whole.digits.stops whole.some digit rest

/-- What follows the whole digits begins with the point or with what follows the
number. -/
theorem Point.stops {p : Char → Bool} {fraction : Option (List Char)} (point : Point fraction cs)
    (dot : p '.' = false) (ends : Stops p rest) : Stops p (cs ++ rest) := by
  cases point with
  | none => exact ends
  | digits => exact stops_cons dot

theorem Power.stops {p : Char → Bool} {exponent : Option Int} (power : Power exponent cs)
    (mark : p 'e' = false) (ends : Stops p rest) : Stops p (cs ++ rest) := by
  cases power with
  | none => exact ends
  | up | plus | minus => exact stops_cons mark

/-- A number begins with a minus sign or a digit. -/
theorem Spelled.stops {n : Numeral} {p : Char → Bool} (spelled : Spelled n cs)
    (minus : p '-' = false) (digit : ∀ c : Char, c.isDigit = true → p c = false)
    (rest : List Char) : Stops p (cs ++ rest) := by
  obtain ⟨negative, before, after, scaled⟩ := spelled
  cases negative with
  | true => exact stops_cons minus
  | false =>
      rw [List.append_assoc, List.append_assoc]
      exact before.stops digit _

/-- Takes a number off a text that goes on after its sign. -/
def scanUnsigned (negative : Bool) (cs : List Char) : Option (Numeral × List Char) := do
  let (whole, cs) ← wholeDigits cs
  let (fraction, cs) ← fractionDigits cs
  let (exponent, cs) ← exponentPart cs
  return (⟨negative, whole, fraction, exponent⟩, cs)

/-- The sign is taken first, and only a hyphen is one. -/
theorem scan_signChars (negative : Bool) (unsigned : Stops (· == '-') cs) :
    scan (signChars negative ++ cs) = scanUnsigned negative cs := by
  cases negative with
  | true => rfl
  | false =>
      cases cs with
      | nil => rfl
      | cons c rest =>
          have ne : c ≠ '-' := beq_eq_false_iff_ne.mp (unsigned c rfl)
          show scan (c :: rest) = _
          unfold scan
          split
          next negative' cs' same =>
            split at same
            next minus => exact absurd (List.cons.inj minus).1 ne
            next =>
              injection same with first second
              rw [← first, ← second]
              rfl

/-- A number is taken off a text as it is spelled. -/
theorem Spelled.scan {n : Numeral} (spelled : Spelled n cs) (ends : Stops goesOn rest) :
    scan (cs ++ rest) = some (n, rest) := by
  obtain ⟨negative, before, after, scaled⟩ := spelled
  obtain ⟨digit, dot, mark⟩ := stops_of_goesOn ends
  rw [List.append_assoc, List.append_assoc, List.append_assoc, scan_signChars negative
    (before.stops (fun c => Text.isDigit_beq rfl) _)]
  unfold scanUnsigned
  rw [wholeDigits_append before (after.stops rfl (scaled.stops rfl digit))]
  dsimp only [Option.bind_eq_bind, Option.bind_some]
  rw [fractionDigits_append after (scaled.stops rfl digit) (scaled.stops rfl dot)]
  dsimp only [Option.bind_some]
  rw [exponentPart_append scaled digit mark]
  rfl

/-- A whole spelling is read as its numeral. -/
theorem Spelled.ofSpelling {n : Numeral} (spelled : Spelled n cs) : ofSpelling cs = some n := by
  have scanned := spelled.scan stops_nil
  rw [List.append_nil] at scanned
  unfold Numeral.ofSpelling
  rw [scanned]

end Numeral

-- ============================================================== strings

theorem hexValue_digitChar : ∀ n < 16, hexValue (Nat.digitChar n) = some n := by
  decide

/-- Every character of a string comes back from what is written of it. -/
theorem stringUnits_escapeChar (c : Char) (rest : List Char) :
    stringUnits (escapeChar c ++ rest)
      = (stringUnits rest).map fun found => (c.toNat :: found.1, found.2) := by
  have bind (found : Option (List Nat × List Char)) (n : Nat) :
      (found.bind fun found => some (n :: found.1, found.2))
        = found.map fun found => (n :: found.1, found.2) := by
    cases found <;> rfl
  unfold escapeChar
  split
  case h_1 | h_2 | h_3 | h_4 | h_5 | h_6 | h_7 =>
    simp [stringUnits, shortEscape, bind]
  case h_8 quote backslash _ _ _ _ _ =>
    split
    next control =>
      have high := hexValue_digitChar (c.toNat / 16) (by omega)
      have low := hexValue_digitChar (c.toNat % 16) (by omega)
      have zero : hexValue '0' = some 0 := rfl
      have whole : c.toNat / 16 * 16 + c.toNat % 16 = c.toNat := Nat.div_add_mod' _ 16
      simp [stringUnits, high, low, zero, bind, whole]
    next printed =>
      have plain : ¬ (c = '\\' ∨ c.toNat < 0x20) := not_or.mpr ⟨backslash, printed⟩
      show stringUnits (c :: rest) = _
      rw [stringUnits.eq_def]
      split
      next same => cases same
      next same => exact (quote (List.cons.inj same).1).elim
      next same => exact (backslash (List.cons.inj same).1).elim
      next same => exact (backslash (List.cons.inj same).1).elim
      next same =>
        cases same
        rw [if_neg plain]
        exact bind _ _

/-- A string's characters are taken off a text with its closing mark. -/
theorem stringUnits_quoted (cs rest : List Char) :
    stringUnits (cs.flatMap escapeChar ++ '"' :: rest) = some (cs.map Char.toNat, rest) := by
  induction cs with
  | nil => rfl
  | cons c cs ih =>
      rw [List.flatMap_cons, List.append_assoc, stringUnits_escapeChar, ih]
      rfl

/-- The number of a character stands for no half of one. -/
theorem charsOfUnits_toNat (cs : List Char) : charsOfUnits (cs.map Char.toNat) = some cs := by
  induction cs with
  | nil => rfl
  | cons c cs ih =>
      have valid : c.toNat < 0xd800 ∨ 0xdfff < c.toNat ∧ c.toNat < 0x110000 := c.valid
      have high : ¬ (0xd800 ≤ c.toNat ∧ c.toNat < 0xdc00) := by omega
      have low : ¬ (0xdc00 ≤ c.toNat ∧ c.toNat < 0xe000) := by omega
      rw [List.map_cons, charsOfUnits.eq_def]
      dsimp only
      rw [if_neg high, if_neg low, ih, Char.ofNat_toNat]
      rfl

/-- A string is taken off a text as it is quoted. -/
theorem stringRest_quoted (content : String) (rest : List Char) :
    stringRest (content.toList.flatMap escapeChar ++ '"' :: rest) = some (some content, rest) := by
  unfold stringRest
  rw [stringUnits_quoted]
  show some ((charsOfUnits (content.toList.map Char.toNat)).map String.ofList, rest) = _
  rw [charsOfUnits_toNat]
  show some (some (String.ofList content.toList), rest) = _
  rw [String.ofList_toList]

end Metrograph.Json
