/-
The bytes of a picture tell the canvas.

# The header

A picture begins with a few characters that say how wide and how high it is,
and right behind them come the pixels, which may be any bytes. Nothing marks
where the header ends but its own shape: the width is digits up to the first
space, and the height is digits up to the end of that line, so two headers
that are followed by anything at all and begin the same bytes are the same
(`header_injective`).

# The pixels

Each pixel is three bytes, line by line from the top left, so a pixel's
color begins at three times its place (`colorBytes_at`), and no two lists of
colors have the same bytes (`flatMap_colorBytes_injective`).
-/
import Metrograph.Proofs.Canvas.Filling
import Metrograph.Proofs.Decimal.Whole

namespace Metrograph.Canvas

-- ============================================================== bytes

/-- The bytes of a text. -/
def bytesOf (text : String) : List UInt8 := text.toUTF8.data.toList

theorem bytesOf_append (s t : String) : bytesOf (s ++ t) = bytesOf s ++ bytesOf t := by
  unfold bytesOf
  rw [String.toUTF8_eq_toByteArray, String.toByteArray_append, ByteArray.toList_data_append]
  rfl

/-- Texts are told apart by their bytes. -/
theorem bytesOf_injective : Function.Injective bytesOf := by
  intro s t same
  exact String.toByteArray_inj.mp (ByteArray.ext (Array.toList_inj.mp same))

/-- The bytes of a number are those of its digits. -/
theorem digit_of_mem_bytesOf {n : Nat} {b : UInt8} (member : b ∈ bytesOf (toString n)) :
    48 ≤ b.toNat ∧ b.toNat ≤ 57 := by
  have bytes : bytesOf (toString n)
      = (Nat.toDigits 10 n).flatMap String.utf8EncodeChar := by
    unfold bytesOf
    rw [Nat.toString_eq_repr, Nat.repr_eq_ofList_toDigits, String.toUTF8_eq_toByteArray,
      String.toByteArray_ofList]
    exact List.toList_data_toByteArray
  rw [bytes, List.mem_flatMap] at member
  obtain ⟨c, digit, member⟩ := member
  have range : 48 ≤ c.toNat ∧ c.toNat ≤ 57 :=
    Char.isDigit_iff_toNat.mp (Decimal.digits_toDigits n c digit)
  have narrow : c.utf8Size = 1 := Char.utf8Size_eq_one_iff.mpr (UInt32.le_iff_toNat_le.mpr (by
    show c.toNat ≤ 127
    omega))
  rw [String.utf8EncodeChar_eq_singleton narrow, List.mem_singleton] at member
  have value : b.toNat = c.toNat % 256 := member ▸ UInt32.toNat_toUInt8 c.val
  omega

/-- What stands before the first byte of a kind is found, whatever comes after
it. -/
theorem eq_of_append_cons {b : UInt8} {xs ys us vs : List UInt8} (hx : b ∉ xs) (hy : b ∉ ys)
    (same : xs ++ b :: us = ys ++ b :: vs) : xs = ys ∧ us = vs := by
  induction xs generalizing ys with
  | nil =>
      cases ys with
      | nil => exact ⟨rfl, (List.cons.inj same).2⟩
      | cons y ys =>
          refine absurd ?_ hy
          rw [(List.cons.inj same).1]
          exact List.mem_cons_self
  | cons x xs ih =>
      cases ys with
      | nil =>
          refine absurd ?_ hx
          rw [← (List.cons.inj same).1]
          exact List.mem_cons_self
      | cons y ys =>
          obtain ⟨first, more⟩ := List.cons.inj same
          obtain ⟨front, behind⟩ := ih (fun member => hx (List.mem_cons_of_mem x member))
            (fun member => hy (List.mem_cons_of_mem y member)) more
          exact ⟨congrArg₂ List.cons first front, behind⟩

-- ============================================================= header

/-- The header of a picture: a mark, the width up to a space, the height up to
the end of its line, and the largest part of a color. -/
theorem bytesOf_header (c : Canvas) :
    bytesOf c.header = bytesOf "P6\n"
      ++ (bytesOf (toString c.width) ++ 32 :: (bytesOf (toString c.height)
        ++ 10 :: bytesOf "255\n")) := by
  have space : bytesOf " " = [32] := by decide +kernel
  have line : bytesOf "\n255\n" = 10 :: bytesOf "255\n" := by decide +kernel
  show bytesOf ("P6\n" ++ toString c.width ++ " " ++ toString c.height ++ "\n255\n") = _
  rw [bytesOf_append, bytesOf_append, bytesOf_append, bytesOf_append, space, line]
  simp only [List.append_assoc, List.cons_append, List.nil_append]

/-- Numbers are told apart by the bytes of their digits. -/
theorem eq_of_bytesOf_toString {m n : Nat} (same : bytesOf (toString m) = bytesOf (toString n)) :
    m = n := by
  have digits := congrArg String.toList (bytesOf_injective same)
  rw [Nat.toString_eq_repr, Nat.toString_eq_repr, Nat.toList_repr, Nat.toList_repr] at digits
  rw [← Decimal.natOfDigits_toDigits m, digits, Decimal.natOfDigits_toDigits]

/-- The header of a picture is told from what comes after it. -/
theorem header_injective {c d : Canvas} {us vs : List UInt8}
    (same : bytesOf c.header ++ us = bytesOf d.header ++ vs) : SameSize c d ∧ us = vs := by
  have no_space (n : Nat) : (32 : UInt8) ∉ bytesOf (toString n) := fun member =>
    absurd (digit_of_mem_bytesOf member).1 (by decide)
  have no_line (n : Nat) : (10 : UInt8) ∉ bytesOf (toString n) := fun member =>
    absurd (digit_of_mem_bytesOf member).1 (by decide)
  simp only [bytesOf_header, List.append_assoc, List.cons_append] at same
  obtain ⟨width, same⟩ := eq_of_append_cons (no_space _) (no_space _) (List.append_cancel_left same)
  obtain ⟨height, same⟩ := eq_of_append_cons (no_line _) (no_line _) same
  exact ⟨⟨eq_of_bytesOf_toString width, eq_of_bytesOf_toString height⟩, List.append_cancel_left same⟩

-- ============================================================= pixels

/-- An image is its header and three bytes for every pixel. -/
theorem image_toList (c : Canvas) :
    c.image.data.toList = bytesOf c.header ++ c.pixels.toList.flatMap colorBytes := by
  unfold image bytesOf
  rw [← Array.foldl_toList]
  generalize c.header.toUTF8 = bytes
  induction c.pixels.toList generalizing bytes with
  | nil => exact (List.append_nil _).symm
  | cons p rest ih =>
      rw [List.foldl_cons, ih, List.flatMap_cons, ← List.append_assoc]
      refine congrArg (· ++ _) ?_
      simp only [ByteArray.data_push, Array.toList_push, colorBytes, List.append_assoc]
      rfl

theorem length_flatMap_colorBytes (ps : List Rgb) :
    (ps.flatMap colorBytes).length = 3 * ps.length := by
  induction ps with
  | nil => rfl
  | cons p rest ih =>
      rw [List.flatMap_cons, List.length_append, ih, List.length_cons]
      show 3 + 3 * rest.length = _
      omega

/-- A color begins at three times its place. -/
theorem colorBytes_at {ps : List Rgb} {i : Nat} {p : Rgb} (here : ps[i]? = some p) :
    ((ps.flatMap colorBytes).drop (3 * i)).take 3 = colorBytes p := by
  induction ps generalizing i with
  | nil => cases here
  | cons q rest ih =>
      cases i with
      | zero =>
          cases here
          rfl
      | succ i => exact ih here

/-- Colors are told apart by their bytes. -/
theorem colorBytes_injective : Function.Injective colorBytes := by
  rintro ⟨r, g, b⟩ ⟨r', g', b'⟩ same
  cases same
  rfl

/-- So are rows of colors, since every color takes three bytes. -/
theorem flatMap_colorBytes_injective :
    Function.Injective fun ps : List Rgb => ps.flatMap colorBytes := by
  intro ps
  induction ps with
  | nil =>
      rintro (_ | ⟨q, qs⟩) same
      · rfl
      · cases same
  | cons p ps ih =>
      rintro (_ | ⟨q, qs⟩) same
      · cases same
      · obtain ⟨color, later⟩ := List.append_inj
          (same : colorBytes p ++ ps.flatMap colorBytes = colorBytes q ++ qs.flatMap colorBytes) rfl
        rw [colorBytes_injective color, ih later]

/-- The bytes of a pixel stand where its column and its line say. -/
theorem bytes_of_pixel {c : Canvas} {x y : Nat} (hx : x < c.width) (hy : y < c.height) :
    ∃ color, c.pixel? x y = some color
      ∧ ((c.pixels.toList.flatMap colorBytes).drop (3 * (y * c.width + x))).take 3
        = colorBytes color := by
  have found := Array.getElem?_eq_getElem (place_lt hx hy)
  have on : c.pixel? x y = c.pixels[y * c.width + x]? := if_pos ⟨hx, hy⟩
  refine ⟨_, on.trans found, colorBytes_at ?_⟩
  rw [Array.getElem?_toList, found]

/-- No two canvases have the same picture. -/
theorem image_injective : Function.Injective image := by
  intro c d same
  have bytes : c.image.data.toList = d.image.data.toList := by rw [same]
  rw [image_toList, image_toList] at bytes
  obtain ⟨size, pixels⟩ := header_injective bytes
  have equal : c.pixels = d.pixels := Array.toList_inj.mp (flatMap_colorBytes_injective pixels)
  exact eq_of_pixels size fun i => by rw [equal]

-- ============================================================= pictures

/-- A canvas that has been made and edited. -/
def Reached (c : Canvas) : Prop :=
  ∃ (width height : Nat) (edits : List (Edit Float)), c = (blank width height).editAll edits

/-- The picture of a canvas is its header and three bytes for each pixel, the
color of a pixel at three times its place; and two canvases with the same
picture are of one size and have the same pixels. -/
theorem image_determines_canvas :
    (∀ c : Canvas, Reached c → ∃ body : List UInt8,
      c.image.data.toList = c.header.toUTF8.data.toList ++ body
        ∧ body.length = 3 * c.width * c.height
        ∧ ∀ x y : Nat, x < c.width → y < c.height → ∃ color, c.pixel? x y = some color
          ∧ (body.drop (3 * (y * c.width + x))).take 3 = [color.red, color.green, color.blue])
    ∧ ∀ c d : Canvas, Reached c → Reached d → c.image = d.image →
      c.width = d.width ∧ c.height = d.height ∧ ∀ x y : Nat, c.pixel? x y = d.pixel? x y := by
  constructor
  · intro c _
    refine ⟨c.pixels.toList.flatMap colorBytes, image_toList c, ?_, fun x y => bytes_of_pixel⟩
    rw [length_flatMap_colorBytes, Array.length_toList, c.size_pixels, Nat.mul_assoc]
  · intro c d _ _ same
    rw [image_injective same]
    exact ⟨rfl, rfl, fun _ _ => rfl⟩

/-- Two ways to a canvas of two pixels. -/
theorem image_determines_canvas_corner :
    ∃ c d : Canvas, Reached c ∧ Reached d ∧ c.image = d.image
      ∧ (∃ body, c.image.data.toList = c.header.toUTF8.data.toList ++ body ∧ body.length = 6
        ∧ (body.drop 3).take 3 = [1, 2, 3])
      ∧ ∀ x y : Nat, c.pixel? x y = d.pixel? x y := by
  obtain ⟨c, hc⟩ : ∃ c, c = (blank 2 1).editAll [Edit.fill (1 : Float) 0 1 1 ⟨1, 2, 3⟩] := ⟨_, rfl⟩
  obtain ⟨d, hd⟩ : ∃ d, d = (blank 3 3).editAll
      [Edit.resize 2 1, Edit.fill (1 : Float) (-1) 5 7 ⟨1, 2, 3⟩] := ⟨_, rfl⟩
  have same : c.image = d.image := by
    rw [hc, hd]
    decide +kernel
  have size : c.width = 2 ∧ c.height = 1 := by
    rw [hc]
    decide +kernel
  have corner : c.pixel? 1 0 = some ⟨1, 2, 3⟩ := by
    rw [hc]
    decide +kernel
  obtain ⟨body, bytes, count, pixels⟩ := image_determines_canvas.1 c ⟨2, 1, _, hc⟩
  obtain ⟨color, found, three⟩ := pixels 1 0 (by omega) (by omega)
  cases found.symm.trans corner
  rw [size.1, size.2] at count
  rw [Nat.zero_mul] at three
  exact ⟨c, d, ⟨2, 1, _, hc⟩, ⟨3, 3, _, hd⟩, same, ⟨body, bytes, count, three⟩,
    (image_determines_canvas.2 c d ⟨2, 1, _, hc⟩ ⟨3, 3, _, hd⟩ same).2.2⟩

end Metrograph.Canvas
