import Typesetter.Pdf
import Typesetter.Proofs.FiniteNumbers
import Typesetter.Proofs.Tokens
import Typesetter.Text

/-! # Numerals

Every number is written as a single word: digits with a sign and a point, or one of the few words
for what has no digits. Natural numbers read back, with leading zeros or without. -/
namespace Typesetter.Pdf
open Numeric (Binary Single Spelling Decimal)

def isPositional (c : Char) : Bool := c.isDigit || ['-', '.'].contains c

def isNumeral (c : Char) : Bool := c.isDigit || ['-', '.', 'i', 'n', 'f', 'N', 'a'].contains c

def Positional (s : String) : Prop := ∀ c ∈ s.toList, isPositional c = true

/-- Text without any character that numbers do not have. -/
def Numeral (s : String) : Prop := ∀ c ∈ s.toList, isNumeral c = true

instance (s : String) : Decidable (Positional s) :=
  inferInstanceAs (Decidable (∀ c ∈ s.toList, isPositional c = true))

instance (s : String) : Decidable (Numeral s) :=
  inferInstanceAs (Decidable (∀ c ∈ s.toList, isNumeral c = true))

theorem Positional.numeral {s : String} (h : Positional s) : Numeral s := by
  intro c hc
  have hplace := h c hc
  simp only [isPositional, isNumeral, Bool.or_eq_true, List.contains_iff_mem] at hplace ⊢
  exact hplace.imp_right fun hmem => List.mem_append_left ['i', 'n', 'f', 'N', 'a'] hmem

theorem Positional.append {s t : String} (hs : Positional s) (ht : Positional t) :
    Positional (s ++ t) := by
  intro c hc
  rw [String.toList_append] at hc
  exact (List.mem_append.mp hc).elim (hs c) (ht c)

theorem Positional.ofList {chars : List Char} {s : String} (hs : Positional s)
    (h : ∀ c ∈ chars, c ∈ s.toList) : Positional (String.ofList chars) := by
  intro c hc
  rw [String.toList_ofList] at hc
  exact hs c (h c hc)

theorem toList_pushn (c : Char) (n : Nat) : ("".pushn c n).toList = List.replicate n c := by
  rw [String.pushn_eq_repeat_push]
  induction n with
  | zero => rfl
  | succ n ih => rw [Nat.repeat, String.toList_push, ih, List.replicate_succ']

theorem positional_zeros (n : Nat) : Positional ("".pushn '0' n) := by
  intro c hc
  rw [toList_pushn] at hc
  rw [List.eq_of_mem_replicate hc]
  rfl

theorem positional_nat (n : Nat) : Positional (toString n) := by
  intro c hc
  rw [Nat.toString_eq_ofList_toDigits, String.toList_ofList] at hc
  have hdigit := Nat.isDigit_of_mem_toDigits (by decide) (by decide) hc
  simp [isPositional, hdigit]

theorem numeral_nat (n : Nat) : Numeral (toString n) := (positional_nat n).numeral

theorem toString_nat_ne_empty (n : Nat) : toString n ≠ "" := Nat.repr_ne_empty

theorem append_ne_empty_left {s : String} (h : s ≠ "") (t : String) : s ++ t ≠ "" := by
  intro he
  exact h (String.append_eq_empty_iff.mp he).1

theorem append_ne_empty_right (s : String) {t : String} (h : t ≠ "") : s ++ t ≠ "" := by
  intro he
  exact h (String.append_eq_empty_iff.mp he).2

theorem positional_int (n : Int) : Positional (toString n) ∧ toString n ≠ "" := by
  cases n with
  | ofNat n => exact ⟨positional_nat n, toString_nat_ne_empty n⟩
  | negSucc n =>
    have hsign : Positional "-" := by decide
    exact ⟨hsign.append (positional_nat (n + 1)), append_ne_empty_left (by decide) _⟩

theorem positional_decimal (d : Decimal) (point : Bool) :
    Positional (d.positional point) ∧ d.positional point ≠ "" := by
  have hdigits := positional_nat d.digits
  have hpoint : Positional "." := by decide
  unfold Decimal.positional
  dsimp only
  split
  · refine ⟨(hdigits.append (positional_zeros _)).append ?_, ?_⟩
    · cases point <;> decide
    · exact append_ne_empty_left (append_ne_empty_left (toString_nat_ne_empty _) _) _
  · split
    · refine ⟨((hdigits.ofList ?_).append hpoint).append (hdigits.ofList ?_), ?_⟩
      · exact fun c hc => List.mem_of_mem_take hc
      · exact fun c hc => List.mem_of_mem_drop hc
      · exact append_ne_empty_left (append_ne_empty_right _ (by decide)) _
    · have hzero : Positional "0." := by decide
      refine ⟨(hzero.append (positional_zeros _)).append hdigits, ?_⟩
      exact append_ne_empty_right _ (toString_nat_ne_empty _)

theorem positional_write {s : Spelling} (h : s.powers = none) {x : Single} (hx : x.IsFinite) :
    Positional (s.write x) ∧ s.write x ≠ "" := by
  cases x with
  | nan => exact hx.elim
  | infinite negative => exact hx.elim
  | finite negative units fits =>
    have hdecimal : ∀ d : Decimal, s.decimal d = d.positional s.point := by
      intro d
      simp only [Spelling.decimal, h]
    have hsign : Positional (if negative then "-" else "") := by cases negative <;> decide
    obtain ⟨hchars, hne⟩ := positional_decimal (Numeric.Format.single.shortest s.tie units) s.point
    rw [Spelling.write, hdecimal]
    exact ⟨hsign.append hchars, append_ne_empty_right _ hne⟩

theorem positional_number {x : Single} (hx : x.IsFinite) :
    Positional (number x) ∧ number x ≠ "" := by
  unfold number
  dsimp only
  split
  · exact positional_int _
  · split
    · exact positional_write rfl hx
    · exact positional_write rfl hx

theorem number_of_not_isFinite {x : Single} (hx : ¬ x.IsFinite) :
    number x ∈ ["NaN", "inf", "-inf"] := by
  cases x with
  | nan => decide +kernel
  | infinite negative => cases negative <;> decide +kernel
  | finite negative units fits => exact absurd trivial hx

/-- Only finite numbers are written with digits, a sign and a point. -/
theorem positional_number_iff (x : Single) : Positional (number x) ↔ x.IsFinite := by
  constructor
  · intro h
    by_contra hx
    have hwords : ∀ word ∈ ["NaN", "inf", "-inf"], ¬ Positional word := by decide
    exact hwords _ (number_of_not_isFinite hx) h
  · intro hx
    exact (positional_number hx).1

theorem numeral_number (x : Single) : Numeral (number x) ∧ number x ≠ "" := by
  by_cases hx : x.IsFinite
  · obtain ⟨hchars, hne⟩ := positional_number hx
    exact ⟨hchars.numeral, hne⟩
  · have hwords : ∀ word ∈ ["NaN", "inf", "-inf"], Numeral word ∧ word ≠ "" := by decide
    exact hwords _ (number_of_not_isFinite hx)

/-! ## Words -/

def numeral (x : Single) : Token := .word (ascii (number x))

theorem Numeral.forall_mem_ascii {s : String} (h : Numeral s) {P : UInt8 → Prop}
    (hdigit : ∀ n ≤ '9'.toNat, '0'.toNat ≤ n → P n.toUInt8)
    (hother : ∀ c ∈ ['-', '.', 'i', 'n', 'f', 'N', 'a'], P c.toNat.toUInt8) :
    ∀ b ∈ ascii s, P b := by
  intro b hb
  obtain ⟨c, hc, rfl⟩ := List.mem_map.mp hb
  rcases Bool.or_eq_true_iff.mp (h c hc) with hrange | hlisted
  · obtain ⟨hlow, hhigh⟩ := Char.isDigit_iff_toNat.mp hrange
    exact hdigit c.toNat hhigh hlow
  · exact hother c (List.contains_iff_mem.mp hlisted)

theorem Numeral.isWord {s : String} (h : Numeral s) (hne : s ≠ "") : IsWord (ascii s) := by
  constructor
  · intro hnil
    rw [ascii, List.map_eq_nil_iff, String.toList_eq_nil_iff] at hnil
    exact hne hnil
  · exact h.forall_mem_ascii (by decide) (by decide)

theorem isWord_number (x : Single) : IsWord (ascii (number x)) :=
  (numeral_number x).1.isWord (numeral_number x).2

theorem Lexed.numeral (x : Single) {rest : Bytes} (hrest : EndsWord rest) :
    Lexed (ascii (number x) ++ rest) [Pdf.numeral x] rest :=
  .single (token?_word (isWord_number x) hrest)

theorem isWord_nat (n : Nat) : IsWord (ascii (toString n)) :=
  (numeral_nat n).isWord (toString_nat_ne_empty n)

theorem isWord_fontName (face : Face) : IsWord (ascii face.fontName) := by
  cases face <;> decide

/-! ## Natural numbers -/

def nat? (text : Bytes) : Option Nat := Text.readNat? (text.map fun b => Char.ofNat b.toNat)

def Digits (s : String) : Prop := ∀ c ∈ s.toList, c.isDigit = true

instance (s : String) : Decidable (Digits s) :=
  inferInstanceAs (Decidable (∀ c ∈ s.toList, c.isDigit = true))

theorem Digits.numeral {s : String} (h : Digits s) : Numeral s := by
  intro c hc
  simp [isNumeral, h c hc]

theorem nat?_ascii {s : String} (hne : s ≠ "") (h : Digits s) :
    nat? (ascii s) = some (Nat.ofDigitChars 10 s.toList 0) := by
  have hchars := chars_ascii fun c hc => Nat.lt_of_le_of_lt
    (Char.isDigit_iff_toNat.mp (h c hc)).2 (by decide)
  have hempty : s.toList.isEmpty = false := by simpa using hne
  have hall : s.toList.all Char.isDigit = true := List.all_eq_true.mpr h
  simp [nat?, hchars, Text.readNat?, hempty, hall, Text.digitsValue, Nat.ofDigitChars_eq_foldl]

theorem nat?_nat (n : Nat) : nat? (ascii (toString n)) = some n := by
  have hchars : (toString n).toList = Nat.toDigits 10 n := Nat.toList_repr
  rw [nat?_ascii (toString_nat_ne_empty n), hchars, Nat.ofDigitChars_ten_toDigits]
  intro c hc
  rw [hchars] at hc
  exact Nat.isDigit_of_mem_toDigits (by decide) (by decide) hc

theorem numeral_padded (n : Nat) : Numeral (padded n) :=
  ((positional_zeros _).append (positional_nat n)).numeral

theorem isWord_padded (n : Nat) : IsWord (ascii (padded n)) :=
  (numeral_padded n).isWord (append_ne_empty_right _ (toString_nat_ne_empty n))

theorem nat?_padded (n : Nat) : nat? (ascii (padded n)) = some n := by
  have hchars : (padded n).toList =
      List.replicate (10 - (toString n).length) '0' ++ Nat.toDigits 10 n := by
    rw [padded, String.toList_append, toList_pushn]
    exact congrArg _ Nat.toList_repr
  have hne : padded n ≠ "" := append_ne_empty_right _ (toString_nat_ne_empty n)
  rw [nat?_ascii hne, hchars, Nat.ofDigitChars_append,
    Nat.ofDigitChars_replicate_zero, Nat.mul_zero, Nat.ofDigitChars_ten_toDigits]
  intro c hc
  rw [hchars] at hc
  rcases List.mem_append.mp hc with hc | hc
  · rw [List.eq_of_mem_replicate hc]
    rfl
  · exact Nat.isDigit_of_mem_toDigits (by decide) (by decide) hc

end Typesetter.Pdf
