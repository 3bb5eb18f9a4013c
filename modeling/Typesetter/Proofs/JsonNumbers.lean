import Typesetter.Json
import Typesetter.Proofs.SourceGrammar

/-! # JSON numbers as they are written

Blanks and the parts of a number, stated without the scanners. A number is read to its end, whatever
follows that cannot go on with it. -/
namespace Typesetter.Json
open Numeric (Double)
open scoped Numeric

/-! ## Blanks -/

structure Blanks where
  chars : List Char
  blank : ∀ c ∈ chars, isBlank c = true

namespace Blanks

def none : Blanks := ⟨[], by simp⟩

theorem skip (b : Blanks) (text : List Char) : skipBlanks (b.chars ++ text) = skipBlanks text :=
  List.dropWhile_append_of_pos b.blank

theorem skip_cons (b : Blanks) {c : Char} (h : isBlank c = false) (text : List Char) :
    skipBlanks (b.chars ++ c :: text) = c :: text := by
  rw [b.skip, skipBlanks, List.dropWhile_cons_of_neg (by simp [h])]

theorem skip_all (b : Blanks) : skipBlanks b.chars = [] := by
  rw [← List.append_nil b.chars, b.skip]
  rfl

end Blanks

def Ends (text : List Char) : Prop :=
  ∀ c ∈ text.head?, isBlank c = true ∨ c ∈ [',', ']', '}']

theorem Ends.nil : Ends [] := by
  intro c hc
  cases hc

theorem Ends.cons {c : Char} (h : c ∈ [',', ']', '}']) (text : List Char) : Ends (c :: text) := by
  intro d hd
  obtain rfl : c = d := by simpa using hd
  exact Or.inr h

theorem Ends.append_blanks {text : List Char} (h : Ends text) (b : Blanks) :
    Ends (b.chars ++ text) := by
  obtain ⟨chars, hblank⟩ := b
  cases chars with
  | nil => exact h
  | cons c chars =>
    intro d hd
    obtain rfl : c = d := by simpa using hd
    exact Or.inl (hblank c List.mem_cons_self)

theorem Ends.not_number {c : Char} {text : List Char} (h : Ends (c :: text)) :
    c.isDigit = false ∧ c ≠ '.' ∧ isExponentMark c = false := by
  have hc := h c rfl
  simp only [isBlank, Bool.or_eq_true, decide_eq_true_eq, List.mem_cons, List.not_mem_nil,
    or_false] at hc
  rcases hc with (((rfl | rfl) | rfl) | rfl) | rfl | rfl | rfl <;> decide

/-! ## Numbers -/

inductive Sign where
  | unmarked
  | plus
  | minus
  deriving DecidableEq

def Sign.chars : Sign → List Char
  | unmarked => []
  | plus => ['+']
  | minus => ['-']

structure ExponentText where
  mark : Char
  sign : Sign
  digits : List Char
  isMark : isExponentMark mark = true
  isDigits : Text.Digits digits

structure NumberText where
  negative : Bool
  whole : List Char
  fraction : Option (List Char)
  exponent : Option ExponentText
  wholeDigits : Text.Digits whole
  /-- A leading zero stands alone. -/
  leadingZero : whole.head? = some '0' → whole.length = 1
  fractionDigits : ∀ ds ∈ fraction, Text.Digits ds

namespace ExponentText

def chars (e : ExponentText) : List Char := e.mark :: (e.sign.chars ++ e.digits)

def power (e : ExponentText) : Nat := Text.digitsValue e.digits

def scaled (e : ExponentText) (s : Significand) (negative : Bool) : Except Fault Double :=
  if e.power < 2 ^ (31 : Nat) then
    Significand.toDouble
      ⟨s.value, if e.sign = .minus then s.exponent - e.power else s.exponent + e.power⟩ negative
  else if s.value ≠ 0 ∧ e.sign ≠ .minus then .error .malformed
  else .ok (withSign negative 0)

end ExponentText

namespace NumberText

def fractionChars (t : NumberText) : List Char :=
  match t.fraction with
  | none => []
  | some ds => '.' :: ds

def exponentChars (t : NumberText) : List Char :=
  match t.exponent with
  | none => []
  | some e => e.chars

def chars (t : NumberText) : List Char :=
  (if t.negative then ['-'] else []) ++ t.whole ++ t.fractionChars ++ t.exponentChars

def significand (t : NumberText) : Significand :=
  (Significand.ofWhole t.whole).addFraction (t.fraction.getD [])

def scaled (t : NumberText) : Except Fault Double :=
  match t.exponent with
  | none => t.significand.toDouble t.negative
  | some e => e.scaled t.significand t.negative

def value (t : NumberText) : Except Fault Number :=
  match t.fraction, t.exponent with
  | none, none => Json.whole t.significand t.negative
  | _, _ => t.scaled.map .float

end NumberText

variable {rest : List Char}

theorem digits_append {ds : List Char} (h : Text.Digits ds)
    (hrest : ∀ c ∈ rest.head?, c.isDigit = false) : digits (ds ++ rest) = .ok (ds, rest) := by
  have hspan : (ds ++ rest).span Char.isDigit = (ds, rest) := by
    rw [List.span_eq_takeWhile_dropWhile, List.takeWhile_append_of_pos h.isDigit,
      List.dropWhile_append_of_pos h.isDigit]
    cases rest with
    | nil => simp
    | cons c rest => simp [hrest c rfl]
  obtain ⟨c, ds, rfl⟩ := List.exists_cons_of_ne_nil h.nonempty
  rw [List.cons_append] at hspan ⊢
  rw [digits, if_pos (h.isDigit c List.mem_cons_self), hspan]

theorem Ends.head_not_digit (h : Ends rest) : ∀ c ∈ rest.head?, c.isDigit = false := by
  intro c hc
  obtain ⟨tail, rfl⟩ := List.head?_eq_some_iff.mp hc
  exact h.not_number.1

/-- An exponent without a sign reads as one with a plus. -/
theorem exponentPart_unmarked (s : Significand) (negative : Bool) {ds : List Char}
    (h : Text.Digits ds) (rest : List Char) :
    exponentPart s negative (ds ++ rest) = exponentPart s negative ('+' :: (ds ++ rest)) := by
  obtain ⟨c, ds, rfl⟩ := List.exists_cons_of_ne_nil h.nonempty
  have hc : c.isDigit = true := h.isDigit c List.mem_cons_self
  unfold exponentPart
  split
  rename_i heq
  split at heq
  · rename_i hhead
    obtain ⟨rfl, -⟩ := List.cons.inj hhead
    exact absurd hc (by decide)
  · rename_i hhead
    obtain ⟨rfl, -⟩ := List.cons.inj hhead
    exact absurd hc (by decide)
  · obtain ⟨rfl, rfl⟩ := Prod.mk.inj heq
    rfl

theorem exponentPart_signed (s : Significand) (negative : Bool) (e : ExponentText)
    (hsign : e.sign ≠ .unmarked) (hrest : Ends rest) :
    exponentPart s negative (e.sign.chars ++ e.digits ++ rest) =
      (e.scaled s negative).map (·, rest) := by
  have hdigits := digits_append e.isDigits hrest.head_not_digit
  rw [ExponentText.scaled, ExponentText.power]
  cases h : e.sign with
  | unmarked => exact absurd h hsign
  | plus | minus =>
    simp only [Sign.chars, List.cons_append, List.nil_append, exponentPart, bind, Except.bind,
      hdigits, pure, Except.pure, reduceCtorEq, Bool.false_eq_true, if_true, if_false]
    by_cases hpower : Text.digitsValue e.digits < 2 ^ 31
    · rw [if_pos hpower, if_pos hpower]
      cases Significand.toDouble ⟨_, _⟩ negative <;> rfl
    · rw [if_neg hpower, if_neg hpower]
      by_cases hzero : s.value = 0 <;> simp [hzero, Except.map]

theorem exponentPart_eq (s : Significand) (negative : Bool) (e : ExponentText) (hrest : Ends rest) :
    exponentPart s negative (e.sign.chars ++ e.digits ++ rest) =
      (e.scaled s negative).map (·, rest) := by
  by_cases hsign : e.sign = .unmarked
  · have hscaled : ({ e with sign := .plus } : ExponentText).scaled s negative =
        e.scaled s negative := by
      simp [ExponentText.scaled, ExponentText.power, hsign]
    rw [← hscaled, ← exponentPart_signed s negative { e with sign := .plus } (by simp) hrest, hsign]
    exact exponentPart_unmarked s negative e.isDigits rest
  · exact exponentPart_signed s negative e hsign hrest

theorem tail_eq (t : NumberText) (hrest : Ends rest) :
    tail t.significand t.negative (t.exponentChars ++ rest) = t.scaled.map (·, rest) := by
  unfold NumberText.exponentChars NumberText.scaled
  cases t.exponent with
  | none =>
    cases rest with
    | nil => rfl
    | cons c rest => rw [List.nil_append, tail, if_neg (by simp [hrest.not_number.2.2])]
  | some e =>
    show tail _ _ (e.mark :: (e.sign.chars ++ e.digits ++ rest)) = _
    rw [tail, if_pos e.isMark, exponentPart_eq _ _ e hrest]

theorem exponentChars_head (t : NumberText) (hrest : Ends rest) :
    ∀ c ∈ (t.exponentChars ++ rest).head?, c.isDigit = false ∧ c ≠ '.' := by
  unfold NumberText.exponentChars
  intro c hc
  cases he : t.exponent with
  | none =>
    rw [he] at hc
    obtain ⟨tail, rfl⟩ := List.head?_eq_some_iff.mp hc
    exact ⟨hrest.not_number.1, hrest.not_number.2.1⟩
  | some e =>
    rw [he] at hc
    obtain rfl : e.mark = c := Option.some.inj hc
    have hmark := e.isMark
    simp only [isExponentMark, Bool.or_eq_true, decide_eq_true_eq] at hmark
    rcases hmark with h | h <;> rw [h] <;> decide

theorem unsignedNumber_fraction (t : NumberText) {ds : List Char} (hfraction : t.fraction = some ds)
    (hrest : Ends rest) :
    unsignedNumber t.negative (t.whole ++ ('.' :: ds) ++ t.exponentChars ++ rest) =
      (t.scaled.map .float).map (·, rest) := by
  have hzero : ¬ (t.whole.head? = some '0' ∧ t.whole.length ≠ 1) :=
    fun h => h.2 (t.leadingZero h.1)
  have hwhole : digits (t.whole ++ '.' :: (ds ++ (t.exponentChars ++ rest))) =
      .ok (t.whole, '.' :: (ds ++ (t.exponentChars ++ rest))) :=
    digits_append t.wholeDigits (by simp)
  have hds := digits_append (t.fractionDigits ds hfraction) fun c hc =>
    (exponentChars_head t hrest c hc).1
  have htail := tail_eq t hrest
  rw [NumberText.significand, hfraction, Option.getD_some] at htail
  simp only [unsignedNumber, List.append_assoc, List.cons_append, bind, Except.bind, hwhole,
    if_neg hzero, hds, htail]
  cases t.scaled <;> rfl

theorem unsignedNumber_of_no_point (t : NumberText) {text : List Char}
    (htext : ∀ c ∈ text.head?, c.isDigit = false ∧ c ≠ '.') :
    unsignedNumber t.negative (t.whole ++ text) =
      if text.head?.any isExponentMark then
        (tail (Significand.ofWhole t.whole) t.negative text).map fun (x, rest) => (.float x, rest)
      else (Json.whole (Significand.ofWhole t.whole) t.negative).map (·, text) := by
  have hzero : ¬ (t.whole.head? = some '0' ∧ t.whole.length ≠ 1) :=
    fun h => h.2 (t.leadingZero h.1)
  have hwhole := digits_append t.wholeDigits fun c hc => (htext c hc).1
  simp only [unsignedNumber, bind, Except.bind, hwhole, if_neg hzero]
  cases text with
  | nil =>
    rw [if_neg (by simp)]
    cases Json.whole _ t.negative <;> rfl
  | cons c text =>
    have hpoint : c ≠ '.' := (htext c rfl).2
    split
    · rename_i heq
      exact absurd (List.cons.inj heq).1 hpoint
    · rename_i heq
      obtain ⟨rfl, rfl⟩ := List.cons.inj heq
      by_cases hmark : isExponentMark c = true
      · rw [if_pos hmark, if_pos (by simpa using hmark)]
        cases tail _ t.negative (c :: text) <;> rfl
      · rw [if_neg hmark, if_neg (by simpa using hmark)]
        cases Json.whole _ t.negative <;> rfl
    · rename_i heq
      cases heq

theorem unsignedNumber_whole (t : NumberText) (hfraction : t.fraction = none) (hrest : Ends rest) :
    unsignedNumber t.negative (t.whole ++ (t.exponentChars ++ rest)) = t.value.map (·, rest) := by
  have hsignificand : t.significand = Significand.ofWhole t.whole := by
    rw [NumberText.significand, hfraction]
    rfl
  rw [unsignedNumber_of_no_point t (exponentChars_head t hrest), ← hsignificand, tail_eq t hrest]
  cases hexponent : t.exponent with
  | none =>
    have hvalue : t.value = Json.whole t.significand t.negative := by
      rw [NumberText.value, hfraction, hexponent]
    have hmark : rest.head?.any isExponentMark = false := by
      cases rest with
      | nil => rfl
      | cons c rest => exact hrest.not_number.2.2
    rw [NumberText.exponentChars, hexponent, hvalue, List.nil_append, if_neg (by simp [hmark])]
  | some e =>
    have hvalue : t.value = t.scaled.map .float := by
      rw [NumberText.value, hfraction, hexponent]
    have hmark : (t.exponentChars ++ rest).head?.any isExponentMark = true := by
      rw [NumberText.exponentChars, hexponent]
      exact e.isMark
    rw [hvalue, if_pos hmark]
    cases t.scaled <;> rfl

/-- A number is read to its end and no further. -/
theorem number_eq (t : NumberText) (hrest : Ends rest) :
    number (t.chars ++ rest) = t.value.map (·, rest) := by
  have hunsigned : unsignedNumber t.negative
      (t.whole ++ t.fractionChars ++ t.exponentChars ++ rest) = t.value.map (·, rest) := by
    cases hfraction : t.fraction with
    | none =>
      have hchars : t.fractionChars = [] := by rw [NumberText.fractionChars, hfraction]
      rw [hchars, List.append_nil, List.append_assoc]
      exact unsignedNumber_whole t hfraction hrest
    | some ds =>
      have hchars : t.fractionChars = '.' :: ds := by rw [NumberText.fractionChars, hfraction]
      have hvalue : t.value = t.scaled.map .float := by
        rw [NumberText.value, hfraction]
      rw [hchars, hvalue]
      exact unsignedNumber_fraction t hfraction hrest
  cases hnegative : t.negative with
  | true =>
    rw [hnegative] at hunsigned
    rw [NumberText.chars, hnegative]
    exact hunsigned
  | false =>
    rw [hnegative] at hunsigned
    rw [NumberText.chars, hnegative, if_neg (by decide), List.nil_append, ← hunsigned]
    obtain ⟨c, ds, hds⟩ := List.exists_cons_of_ne_nil t.wholeDigits.nonempty
    have hc : c.isDigit = true := t.wholeDigits.isDigit c (hds ▸ List.mem_cons_self)
    rw [hds]
    simp only [List.cons_append]
    unfold number
    split
    · rename_i heq
      obtain ⟨rfl, -⟩ := List.cons.inj heq
      exact absurd hc (by decide)
    · rfl

/-- A number is refused for being out of range only. -/
theorem toDouble_fault {s : Significand} {negative : Bool} {fault : Fault}
    (h : s.toDouble negative = .error fault) : fault = .malformed := by
  rw [Significand.toDouble] at h
  split at h
  · cases h
  · exact (Except.error.inj h).symm

theorem eq_error_of_map {α β : Type} {x : Except Fault α} {f : α → β} {fault : Fault}
    (h : x.map f = .error fault) : x = .error fault := by
  cases x with
  | ok a => cases h
  | error e => exact congrArg _ (Except.error.inj h)

theorem NumberText.scaled_fault {t : NumberText} {fault : Fault} (h : t.scaled = .error fault) :
    fault = .malformed := by
  rw [scaled] at h
  split at h
  · exact toDouble_fault h
  · rw [ExponentText.scaled] at h
    split at h
    · exact toDouble_fault h
    · split at h
      · exact (Except.error.inj h).symm
      · cases h

theorem NumberText.value_fault {t : NumberText} {fault : Fault} (h : t.value = .error fault) :
    fault = .malformed := by
  rw [value] at h
  split at h
  · rw [Json.whole] at h
    split at h
    · exact toDouble_fault (eq_error_of_map h)
    · split at h
      · split at h <;> cases h
      · cases h
  · exact scaled_fault (eq_error_of_map h)

theorem NumberText.chars_head (t : NumberText) :
    ∃ c text, t.chars = c :: text ∧ (c = '-' ∨ c.isDigit = true) := by
  unfold chars
  cases t.negative with
  | true => exact ⟨'-', _, rfl, Or.inl rfl⟩
  | false =>
    obtain ⟨c, ds, hds⟩ := List.exists_cons_of_ne_nil t.wholeDigits.nonempty
    rw [hds]
    exact ⟨c, _, rfl, Or.inr (t.wholeDigits.isDigit c (hds ▸ List.mem_cons_self))⟩

end Typesetter.Json
