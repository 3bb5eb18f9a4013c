import Typesetter.Proofs.Tokens

/-! # Text behind strings

The text that the bytes of a string stand for: UTF-16 behind a byte order mark, and ASCII without
one. The title and the author of a document read back as they are, whatever they hold. -/
namespace Typesetter.Pdf

/-- Two bytes make a unit, and two surrogates a character. -/
def utf16Text? : Bytes → Option (List Char)
  | [] => some []
  | [_] => none
  | a :: b :: rest =>
    let unit := a.toNat * 256 + b.toNat
    if unit < 0xD800 ∨ 0xE000 ≤ unit then (utf16Text? rest).map (Char.ofNat unit :: ·)
    else
      match rest with
      | c :: d :: rest =>
        let low := c.toNat * 256 + d.toNat
        if unit < 0xDC00 ∧ 0xDC00 ≤ low ∧ low < 0xE000 then
          (utf16Text? rest).map
            (Char.ofNat (0x10000 + (unit - 0xD800) * 0x400 + (low - 0xDC00)) :: ·)
        else none
      | _ => none

def text? (bytes : Bytes) : Option String :=
  match bytes with
  | 0xFE :: 0xFF :: rest => (utf16Text? rest).map String.ofList
  | _ =>
    if bytes.all (· < 0x80) then some (String.ofList (bytes.map fun b => Char.ofNat b.toNat))
    else none

theorem utf16Unit_value {n : Nat} (h : n < 0x10000) :
    ∃ a b : UInt8, utf16Unit n = [a, b] ∧ a.toNat * 256 + b.toNat = n := by
  refine ⟨_, _, rfl, ?_⟩
  simp only [Nat.toUInt8_eq, UInt8.toNat_ofNat']
  omega

theorem utf16Text?_utf16 (c : Char) (rest : Bytes) :
    utf16Text? (utf16 c ++ rest) = (utf16Text? rest).map (c :: ·) := by
  have hvalid : c.toNat < 0xD800 ∨ 0xDFFF < c.toNat ∧ c.toNat < 0x110000 := c.valid
  unfold utf16
  dsimp only
  split
  · rename_i hsmall
    obtain ⟨a, b, hunit, hvalue⟩ := utf16Unit_value hsmall
    rw [hunit, List.cons_append, List.singleton_append, utf16Text?.eq_def]
    simp only [hvalue]
    rw [if_pos (by omega), Char.ofNat_toNat]
  · rename_i hlarge
    obtain ⟨a, b, hhigh, hvalue⟩ :=
      utf16Unit_value (n := 0xD800 + (c.toNat - 0x10000) / 0x400) (by omega)
    obtain ⟨a', b', hlow, hvalue'⟩ :=
      utf16Unit_value (n := 0xDC00 + (c.toNat - 0x10000) % 0x400) (by omega)
    have hchar : 0x10000 + (0xD800 + (c.toNat - 0x10000) / 0x400 - 0xD800) * 0x400 +
        (0xDC00 + (c.toNat - 0x10000) % 0x400 - 0xDC00) = c.toNat := by
      omega
    rw [hhigh, hlow]
    simp only [List.cons_append, List.nil_append]
    rw [utf16Text?.eq_def]
    simp only [hvalue, hvalue', hchar]
    rw [if_neg (by omega), if_pos (by omega), Char.ofNat_toNat]

theorem utf16Text?_flatMap (chars : List Char) :
    utf16Text? (chars.flatMap utf16) = some chars := by
  induction chars with
  | nil => rfl
  | cons c chars ih => simp [utf16Text?_utf16, ih]

def textBytes (text : String) : Bytes :=
  if text.toList.all fun c => 0x20 ≤ c.toNat && c.toNat ≤ 0x7E then ascii text
  else utf16Unit 0xFEFF ++ text.toList.flatMap utf16

theorem text?_ascii {text : String} (h : ∀ c ∈ text.toList, c.toNat ≤ 0x7E) :
    text? (ascii text) = some text := by
  have hall : (ascii text).all (· < 0x80) = true := by
    rw [List.all_eq_true]
    intro b hb
    obtain ⟨c, hc, rfl⟩ := List.mem_map.mp hb
    have hsmall := h c hc
    have hbyte := toNat_toUInt8 (n := c.toNat) (by omega)
    simp only [decide_eq_true_eq, UInt8.lt_iff_toNat_lt, UInt8.reduceToNat]
    omega
  have hchars := chars_ascii fun c hc => Nat.lt_of_le_of_lt (h c hc) (by decide)
  unfold text?
  split
  · rename_i rest hmark
    rw [hmark] at hall
    exact absurd hall (by simp)
  · rw [if_pos hall, hchars, String.ofList_toList]

theorem text?_textBytes (text : String) : text? (textBytes text) = some text := by
  unfold textBytes
  split
  · rename_i hplain
    refine text?_ascii fun c hc => ?_
    have hrange := List.all_eq_true.mp hplain c hc
    rw [Bool.and_eq_true, decide_eq_true_eq, decide_eq_true_eq] at hrange
    exact hrange.2
  · have hread := utf16Text?_flatMap text.toList
    have hmark : utf16Unit 0xFEFF = [0xFE, 0xFF] := rfl
    simp only [hmark, List.cons_append, List.nil_append, text?, hread, Option.map_some,
      String.ofList_toList]

theorem string?_textString (text : String) (rest : Bytes) :
    string? (textString text ++ rest) = some (textBytes text, rest) := by
  unfold textString textBytes
  split
  · exact string?_byteString _ _
  · exact string?_hexString _ _

theorem token?_textString (text : String) (rest : Bytes) :
    token? (textString text ++ rest) = some (.string (textBytes text), rest) := by
  unfold textString textBytes
  split
  · exact token?_byteString _ _
  · exact token?_hexString _ _

end Typesetter.Pdf
