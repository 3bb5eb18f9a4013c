import Typesetter.Font

/-! # The code table

Encoding is the table read from characters to codes, and it measures what it shows: the width of a
text is a matter of its codes, so a character without a code is as wide as what stands for it. -/
namespace Typesetter

namespace WinAnsi

/-- The printable codes, without the five that the standard leaves open. -/
def Assigned (code : UInt8) : Prop :=
  let n := code.toNat
  (0x20 ≤ n ∧ n ≤ 0x7E) ∨ (0xA0 ≤ n ∧ n ≤ 0xFF) ∨
    (0x80 ≤ n ∧ n ≤ 0x9F ∧ n ∉ [0x81, 0x8D, 0x8F, 0x90, 0x9D])

instance (code : UInt8) : Decidable (Assigned code) := inferInstanceAs (Decidable (_ ∨ _ ∨ _))

def isDirect (code : Nat) : Bool :=
  (0x20 ≤ code && code ≤ 0x7E) || (0xA0 ≤ code && code ≤ 0xFF)

def typographic : List (UInt8 × Char) :=
  [(0x80, '\u20AC'), (0x82, '\u201A'), (0x83, '\u0192'), (0x84, '\u201E'), (0x85, '\u2026'),
    (0x86, '\u2020'), (0x87, '\u2021'), (0x88, '\u02C6'), (0x89, '\u2030'), (0x8A, '\u0160'),
    (0x8B, '\u2039'), (0x8C, '\u0152'), (0x8E, '\u017D'), (0x91, '\u2018'), (0x92, '\u2019'),
    (0x93, '\u201C'), (0x94, '\u201D'), (0x95, '\u2022'), (0x96, '\u2013'), (0x97, '\u2014'),
    (0x98, '\u02DC'), (0x99, '\u2122'), (0x9A, '\u0161'), (0x9B, '\u203A'), (0x9C, '\u0153'),
    (0x9E, '\u017E'), (0x9F, '\u0178')]

def char? (code : UInt8) : Option Char :=
  if isDirect code.toNat then some (Char.ofNat code.toNat) else typographic.lookup code

def decode? (codes : List UInt8) : Option String := (codes.mapM char?).map String.ofList

def Supported (c : Char) : Prop := ∃ code, char? code = some c

/-! ## Characters and codes -/

variable {c : Char} {b : UInt8}

/-- Every slot between ASCII and Latin-1 is open or holds the typographic character of its code. -/
theorem high_slots : ∀ index : Fin high.length,
    high[index] = '\x00' ∨ ((0x80 + index.val).toUInt8, high[index]) ∈ typographic := by
  decide

theorem code?_cases (h : code? c = some b) :
    (isDirect b.toNat ∧ c.toNat = b.toNat) ∨ (b, c) ∈ typographic := by
  unfold code? at h
  by_cases hdirect : (0x20 ≤ c.toNat ∧ c.toNat ≤ 0x7E) ∨ (0xA0 ≤ c.toNat ∧ c.toNat ≤ 0xFF)
  · rw [if_pos hdirect] at h
    obtain rfl := Option.some.inj h
    have hcode : c.toNat.toUInt8.toNat = c.toNat := Nat.mod_eq_of_lt (by omega)
    refine Or.inl ⟨?_, hcode.symm⟩
    simpa [isDirect, hcode] using hdirect
  · rw [if_neg hdirect] at h
    by_cases hzero : c.toNat = 0
    · simp [hzero] at h
    · rw [if_neg hzero] at h
      obtain ⟨index, hfind, rfl⟩ := Option.map_eq_some_iff.mp h
      obtain ⟨hlength, hchar, -⟩ := List.findIdx?_eq_some_iff_getElem.mp hfind
      obtain rfl : high[index] = c := of_decide_eq_true hchar
      refine Or.inr ((high_slots ⟨index, hlength⟩).resolve_left fun hopen => hzero ?_)
      exact congrArg Char.toNat hopen

theorem char?_cases (h : char? b = some c) :
    (isDirect b.toNat ∧ c.toNat = b.toNat) ∨ (b, c) ∈ typographic := by
  unfold char? at h
  by_cases hdirect : isDirect b.toNat = true
  · rw [if_pos hdirect] at h
    obtain rfl := Option.some.inj h
    have hrange := b.toNat_lt
    have hvalid : b.toNat.isValidChar := Or.inl (by omega)
    refine Or.inl ⟨hdirect, ?_⟩
    rw [Char.ofNat, dif_pos hvalid]
    rfl
  · rw [if_neg hdirect] at h
    obtain ⟨before, after, hsplit, -⟩ := List.lookup_eq_some_iff.mp h
    rw [hsplit]
    exact Or.inr (List.mem_append_right before List.mem_cons_self)

theorem code?_direct (hdirect : isDirect b.toNat) (h : c.toNat = b.toNat) :
    code? c = some b := by
  have hrange : (0x20 ≤ b.toNat ∧ b.toNat ≤ 0x7E) ∨ (0xA0 ≤ b.toNat ∧ b.toNat ≤ 0xFF) := by
    simpa [isDirect] using hdirect
  rw [code?, h, if_pos hrange]
  exact congrArg some UInt8.ofNat_toNat

theorem char?_direct (hdirect : isDirect b.toNat) (h : c.toNat = b.toNat) :
    char? b = some c := by
  rw [char?, ← h, if_pos (by rwa [h]), Char.ofNat_toNat]

/-- No code and no character occurs twice among the typographic ones, nor among the direct ones. -/
theorem typographic_spec :
    ∀ entry ∈ typographic, code? entry.2 = some entry.1 ∧ char? entry.1 = some entry.2 := by
  decide

theorem code?_eq_some_iff : code? c = some b ↔ char? b = some c := by
  constructor
  · intro h
    rcases code?_cases h with ⟨hdirect, hsame⟩ | hentry
    · exact char?_direct hdirect hsame
    · exact (typographic_spec _ hentry).2
  · intro h
    rcases char?_cases h with ⟨hdirect, hsame⟩ | hentry
    · exact code?_direct hdirect hsame
    · exact (typographic_spec _ hentry).1

theorem supported_iff : Supported c ↔ (code? c).isSome := by
  rw [Option.isSome_iff_exists]
  exact exists_congr fun b => code?_eq_some_iff.symm

instance (c : Char) : Decidable (Supported c) := decidable_of_iff _ supported_iff.symm

def shownChar (c : Char) : Char := if Supported c then c else '?'

def shownText (text : String) : String := String.ofList (text.toList.map shownChar)

theorem char?_code (c : Char) : char? (code c) = some (shownChar c) := by
  unfold code shownChar
  cases h : code? c with
  | none =>
    rw [if_neg (by simp [supported_iff, h])]
    decide
  | some b =>
    rw [if_pos (by simp [supported_iff, h])]
    exact code?_eq_some_iff.mp h

theorem code_shownChar (c : Char) : code (shownChar c) = code c := by
  rw [code, code?_eq_some_iff.mpr (char?_code c), Option.getD_some]

theorem assigned_iff (b : UInt8) : Assigned b ↔ (char? b).isSome := by
  have hcodes : ∀ n : Fin 256, Assigned (.ofNat n) ↔ (char? (.ofNat n)).isSome := by
    decide +kernel
  have hcode := hcodes ⟨b.toNat, b.toNat_lt⟩
  rwa [UInt8.ofNat_toNat] at hcode

/-! ## Texts -/

theorem length_encode (text : String) : (encode text).length = text.length := by
  rw [encode, List.length_map, String.length_toList]

theorem assigned_of_mem_encode {text : String} (h : b ∈ encode text) : Assigned b := by
  obtain ⟨c, -, rfl⟩ := List.mem_map.mp h
  rw [assigned_iff, char?_code, Option.isSome_some]

theorem decode?_encode (text : String) : decode? (encode text) = some (shownText text) := by
  have hchars : (encode text).mapM char? = some (text.toList.map shownChar) := by
    unfold encode
    induction text.toList with
    | nil => rfl
    | cons c rest ih =>
      rw [List.map_cons, List.mapM_cons, char?_code, ih]
      rfl
  rw [decode?, hchars, Option.map_some, shownText]

theorem shownText_of_supported {text : String} (h : ∀ c ∈ text.toList, Supported c) :
    shownText text = text := by
  have hchars : text.toList.map shownChar = text.toList.map id :=
    List.map_congr_left fun c hc => if_pos (h c hc)
  rw [List.map_id] at hchars
  rw [shownText, hchars, String.ofList_toList]

theorem encode_shownText (text : String) : encode (shownText text) = encode text := by
  simp [encode, shownText, code_shownChar]

end WinAnsi

open WinAnsi

theorem Face.textWidth_eq (face : Face) (size : Numeric.Single) (text : String) :
    face.textWidth size text = Numeric.Binary.sum ((encode text).map (face.codeWidth size)) := by
  rw [textWidth, encode, List.map_map]
  rfl

/-- A text has one code for each of its characters, all of them assigned, and they stand for the
text with a question mark in the place of each character without a code. So texts of other
characters differ in their codes. In every face and size, the codes alone decide the width, and the
text is as wide as what is shown for it. -/
theorem measured_as_shown :
    (∀ text : String, (encode text).length = text.length ∧
      (∀ code ∈ encode text, Assigned code) ∧ decode? (encode text) = some (shownText text)) ∧
    (∀ s t : String, (∀ c ∈ s.toList, Supported c) → (∀ c ∈ t.toList, Supported c) →
      encode s = encode t → s = t) ∧
    ∀ (face : Face) (size : Numeric.Single),
      (∀ s t : String, encode s = encode t → face.textWidth size s = face.textWidth size t) ∧
      ∀ text : String, face.textWidth size text = face.textWidth size (shownText text) := by
  refine ⟨?_, ?_, ?_⟩
  · intro text
    exact ⟨length_encode text, fun _ => assigned_of_mem_encode, decode?_encode text⟩
  · intro s t hs ht h
    have hdecoded := decode?_encode s
    rw [h, decode?_encode, shownText_of_supported hs, shownText_of_supported ht] at hdecoded
    exact (Option.some.inj hdecoded).symm
  · intro face size
    constructor
    · intro s t h
      rw [face.textWidth_eq, h, ← face.textWidth_eq]
    · intro text
      rw [face.textWidth_eq, ← encode_shownText, ← face.textWidth_eq]

/-- A euro sign and a curly quote have codes, a Greek letter and a control character have none. -/
theorem measured_as_shown_mixedText :
    let s := "\u20AC5 \u201Ca\u03B1\x81"
    let t := "\u20AC5 \u201Ca??"
    encode s = [0x80, 0x35, 0x20, 0x93, 0x61, 0x3F, 0x3F] ∧ s.length = 7 ∧ s ≠ t ∧
    (∀ code ∈ encode s, Assigned code) ∧ decode? (encode s) = some t ∧
    (∀ c ∈ t.toList, Supported c) ∧ (∀ u : String, (∀ c ∈ u.toList, Supported c) →
      encode u = encode s → u = t) ∧
    ∀ (face : Face) (size : Numeric.Single), face.textWidth size s = face.textWidth size t := by
  intro s t
  obtain ⟨htexts, hinjective, hwidths⟩ := measured_as_shown
  have hsame : encode s = encode t := by decide
  have hall : t.toList.all (fun c => decide (Supported c)) = true := by decide
  have hsupported : ∀ c ∈ t.toList, Supported c := fun c hc =>
    of_decide_eq_true (List.all_eq_true.mp hall c hc)
  obtain ⟨-, hassigned, hdecoded⟩ := htexts s
  refine ⟨by decide, by decide, by decide, hassigned, ?_, hsupported, ?_, ?_⟩
  · rw [hdecoded]
    decide
  · intro u hu h
    exact hinjective u t hu hsupported (h.trans hsame)
  · intro face size
    exact (hwidths face size).1 s t hsame

end Typesetter
