import Typesetter.Json

/-! # JSON strings as they are written

A string is a list of characters and escapes, and its value comes from them one by one. Surrogates
stand in pairs of escapes. The scanner reads a string to its closing quote. -/
namespace Typesetter.Json

def isPlain (c : Char) : Bool := c ≠ '"' && c ≠ '\\' && 0x20 ≤ c.toNat

theorem isPlain_iff {c : Char} : isPlain c = true ↔ c ≠ '"' ∧ c ≠ '\\' ∧ 0x20 ≤ c.toNat := by
  simp [isPlain, and_assoc]

inductive StringItem where
  | plain (c : Char) (h : isPlain c = true)
  | escape (c : Char) (h : (escaped? c).isSome)
  | hex (digits : List Char) (length : digits.length = 4)
      (isHex : ∀ c ∈ digits, (hexDigit? c).isSome)

namespace StringItem

def chars : StringItem → List Char
  | plain c _ => [c]
  | escape c _ => ['\\', c]
  | hex digits _ _ => '\\' :: 'u' :: digits

def hexValue (digits : List Char) : Nat :=
  digits.foldl (fun value c => 16 * value + (hexDigit? c).getD 0) 0

/-- The characters meant, with a high surrogate that may be waiting for its partner. -/
def decode? : Option Nat → List StringItem → Option (List Char)
  | none, [] => some []
  | none, plain c _ :: items => (decode? none items).map (c :: ·)
  | none, escape c h :: items => (decode? none items).map ((escaped? c).get h :: ·)
  | high, hex digits _ _ :: items =>
    match codePoint high (hexValue digits) with
    | .ok (some c, _) => (decode? none items).map (c :: ·)
    | .ok (none, _) => decode? (some (hexValue digits)) items
    | .error _ => none
  | some _, _ => none

theorem decode?_hex (high : Option Nat) (digits : List Char) (length : digits.length = 4)
    (isHex : ∀ c ∈ digits, (hexDigit? c).isSome) (items : List StringItem) :
    decode? high (.hex digits length isHex :: items) =
      match codePoint high (hexValue digits) with
      | .ok (some c, _) => (decode? none items).map (c :: ·)
      | .ok (none, _) => decode? (some (hexValue digits)) items
      | .error _ => none := by
  cases high <;> rw [decode?]

end StringItem

structure StringText where
  items : List StringItem

namespace StringText

def chars (s : StringText) : List Char := s.items.flatMap StringItem.chars ++ ['"']

/-- No string has a surrogate without its partner. -/
def value? (s : StringText) : Option String := (StringItem.decode? none s.items).map String.ofList

def ofPlain (text : List Char) (h : ∀ c ∈ text, isPlain c = true) : StringText :=
  ⟨text.pmap StringItem.plain h⟩

theorem value?_ofPlain (text : List Char) (h : ∀ c ∈ text, isPlain c = true) :
    (ofPlain text h).value? = some (String.ofList text) := by
  have hdecode : StringItem.decode? none (text.pmap StringItem.plain h) = some text := by
    induction text with
    | nil => rfl
    | cons c text ih => rw [List.pmap, StringItem.decode?, ih, Option.map_some]
  rw [value?, ofPlain, hdecode, Option.map_some]

end StringText

def finished (done : Array Char) (rest : List Char) :
    Option (List Char) → Except Fault (String × List Char)
  | some text => .ok (String.ofList (done.toList ++ text), rest)
  | none => .error .malformed

theorem finished_append (done : Array Char) (c : Char) (text : Option (List Char)) :
    finished (done ++ [c]) rest text = finished done rest (text.map (c :: ·)) := by
  cases text <;> simp [finished]

section
variable {rest : List Char} {state next : QuotedState} {done : Array Char} {c : Char}
  {new : Option Char}

theorem quotedFrom_step (hquote : state = .plain → c ≠ '"')
    (h : quotedStep state c rest = .ok (new, next)) :
    quotedFrom state done (c :: rest) = quotedFrom next (done ++ new.toList) rest := by
  conv =>
    lhs
    unfold quotedFrom
  split
  · rw [if_neg (hquote rfl), h]
  · rw [h]

theorem quotedFrom_skip (hquote : state = .plain → c ≠ '"')
    (h : quotedStep state c rest = .ok (none, next)) :
    quotedFrom state done (c :: rest) = quotedFrom next done rest := by
  rw [quotedFrom_step hquote h]
  simp

theorem quotedFrom_fault {fault : Fault} (hquote : state = .plain → c ≠ '"')
    (h : quotedStep state c rest = .error fault) :
    quotedFrom state done (c :: rest) = .error fault := by
  unfold quotedFrom
  split
  · rw [if_neg (hquote rfl), h]
  · rw [h]

end

theorem length_le_utf8ByteSize (text : List Char) :
    text.length ≤ (String.ofList text).utf8ByteSize := by
  induction text with
  | nil => exact Nat.zero_le _
  | cons c text ih =>
    have hc := c.utf8Size_pos
    rw [String.ofList_cons, String.utf8ByteSize_append, String.utf8ByteSize_singleton,
      List.length_cons]
    omega

theorem startHex_append (high : Option Nat) {ds : List Char} (h : ds.length = 4)
    (rest : List Char) : startHex high (ds ++ rest) = .ok (.hex high 0 0) := by
  have hsize := length_le_utf8ByteSize ds
  rw [startHex, List.take_left' h, if_neg (by omega)]

def afterHex (done : Array Char) (rest : List Char) :
    Except Fault (Option Char × QuotedState) → Except Fault (String × List Char)
  | .ok (new, next) => quotedFrom next (done ++ new.toList) rest
  | .error e => .error e

theorem quotedFrom_hex (high : Option Nat) (done : Array Char) (rest : List Char) :
    ∀ (ds : List Char) (seen value : Nat), ds ≠ [] → seen + ds.length = 4 →
      (∀ c ∈ ds, (hexDigit? c).isSome) →
      quotedFrom (.hex high seen value) done (ds ++ rest) = afterHex done rest
        (codePoint high (ds.foldl (fun value c => 16 * value + (hexDigit? c).getD 0) value))
  | [], _, _, hne, _, _ => absurd rfl hne
  | c :: ds, seen, value, _, hlength, hdigits => by
    obtain ⟨d, hd⟩ := Option.isSome_iff_exists.mp (hdigits c List.mem_cons_self)
    rw [List.length_cons] at hlength
    rw [List.cons_append, List.foldl_cons, hd, Option.getD_some]
    by_cases hlast : seen = 3
    · obtain rfl : ds = [] := List.eq_nil_of_length_eq_zero (by omega)
      have hstep : quotedStep (.hex high seen value) c rest = codePoint high (16 * value + d) := by
        simp only [quotedStep, hd, if_pos hlast]
      rw [List.foldl_nil, List.nil_append]
      cases hpoint : codePoint high (16 * value + d) with
      | ok result => exact quotedFrom_step (by simp) (hstep.trans hpoint)
      | error e => exact quotedFrom_fault (by simp) (hstep.trans hpoint)
    · have hstep : quotedStep (.hex high seen value) c (ds ++ rest) =
          .ok (none, .hex high (seen + 1) (16 * value + d)) := by
        simp only [quotedStep, hd, if_neg hlast]
      have hne : ds ≠ [] := by
        rintro rfl
        simp only [List.length_nil] at hlength
        omega
      rw [quotedFrom_skip (by simp) hstep]
      exact quotedFrom_hex high done rest ds (seen + 1) _ hne (by omega)
        fun c hc => hdigits c (List.mem_cons_of_mem _ hc)

def QuotedState.between : Option Nat → QuotedState
  | none => .plain
  | some high => .surrogate high

theorem codePoint_cases (high : Option Nat) (value : Nat) :
    (∃ c, codePoint high value = .ok (some c, .between none)) ∨
      codePoint high value = .ok (none, .between (some value)) ∨
      codePoint high value = .error .malformed := by
  unfold codePoint
  cases high with
  | some h =>
    by_cases hlow : 0xDC00 ≤ value ∧ value ≤ 0xDFFF
    · exact Or.inl ⟨_, if_pos hlow⟩
    · exact Or.inr (Or.inr (if_neg hlow))
  | none =>
    by_cases hlow : 0xDC00 ≤ value ∧ value ≤ 0xDFFF
    · exact Or.inr (Or.inr (if_pos hlow))
    · by_cases hhigh : 0xD800 ≤ value ∧ value ≤ 0xDBFF
      · exact Or.inr (Or.inl (by simp only [if_neg hlow, if_pos hhigh, QuotedState.between]))
      · exact Or.inl ⟨_, by simp only [if_neg hlow, if_neg hhigh, QuotedState.between]; rfl⟩

theorem quotedFrom_unicode (high : Option Nat) (done : Array Char) {ds : List Char}
    (hlength : ds.length = 4) (hdigits : ∀ c ∈ ds, (hexDigit? c).isSome) (rest : List Char) :
    quotedFrom (.between high) done ('\\' :: 'u' :: (ds ++ rest)) =
      afterHex done rest (codePoint high (StringItem.hexValue ds)) := by
  have hne : ds ≠ [] := by
    rintro rfl
    cases hlength
  have hstart := startHex_append high hlength rest
  have hhex := quotedFrom_hex high done rest ds 0 0 hne (by omega) hdigits
  cases high with
  | none =>
    have hescape : quotedStep .plain '\\' ('u' :: (ds ++ rest)) = .ok (none, .escape) := rfl
    have hu : quotedStep .escape 'u' (ds ++ rest) = .ok (none, .hex none 0 0) := by
      simp only [quotedStep, escaped?, if_true, hstart]
      rfl
    rw [QuotedState.between, quotedFrom_skip (by simp) hescape, quotedFrom_skip (by simp) hu]
    exact hhex
  | some h =>
    have hescape : quotedStep (.surrogate h) '\\' ('u' :: (ds ++ rest)) =
        .ok (none, .surrogateEscape h) := rfl
    have hu : quotedStep (.surrogateEscape h) 'u' (ds ++ rest) = .ok (none, .hex (some h) 0 0) := by
      simp only [quotedStep, if_true, hstart]
      rfl
    rw [QuotedState.between, quotedFrom_skip (by simp) hescape, quotedFrom_skip (by simp) hu]
    exact hhex

/-- A surrogate is followed by nothing but another escape of hexadecimal digits. -/
theorem quotedFrom_unpaired (h : Nat) (done : Array Char) {c : Char} (hc : c ≠ '\\')
    (rest : List Char) : quotedFrom (.surrogate h) done (c :: rest) = .error .malformed :=
  quotedFrom_fault (by simp) (by simp only [quotedStep, if_neg hc])

theorem quotedFrom_items (rest : List Char) :
    ∀ (items : List StringItem) (high : Option Nat) (done : Array Char),
      quotedFrom (.between high) done (items.flatMap StringItem.chars ++ '"' :: rest) =
        finished done rest (StringItem.decode? high items)
  | [], none, done => by
    rw [StringItem.decode?, finished, List.append_nil]
    rfl
  | [], some h, done => quotedFrom_unpaired h done (by decide) rest
  | .plain c hc :: items, none, done => by
    obtain ⟨hquote, hslash, hlow⟩ := isPlain_iff.mp hc
    have hstep : ∀ text, quotedStep .plain c text = .ok (some c, .plain) := by
      intro text
      simp only [quotedStep, if_neg hslash, if_neg (Nat.not_lt.mpr hlow)]
    rw [StringItem.decode?, ← finished_append, ← quotedFrom_items rest items none]
    exact quotedFrom_step (fun _ => hquote) (hstep _)
  | .plain c hc :: items, some h, done => quotedFrom_unpaired h done (isPlain_iff.mp hc).2.1 _
  | .escape c hc :: items, none, done => by
    obtain ⟨d, hd⟩ := Option.isSome_iff_exists.mp hc
    have hescape : ∀ text, quotedStep .plain '\\' text = .ok (none, .escape) := fun _ => rfl
    have hstep : ∀ text, quotedStep .escape c text = .ok (some d, .plain) := by
      intro text
      simp only [quotedStep, hd]
    have hget : (escaped? c).get hc = d := by simp only [hd, Option.get_some]
    rw [StringItem.decode?, hget, ← finished_append, ← quotedFrom_items rest items none]
    exact (quotedFrom_skip (by simp) (hescape _)).trans (quotedFrom_step (by simp) (hstep _))
  | .escape c hc :: items, some h, done => by
    have hescape : ∀ text, quotedStep (.surrogate h) '\\' text = .ok (none, .surrogateEscape h) :=
      fun _ => rfl
    have hu : c ≠ 'u' := by
      rintro rfl
      exact absurd hc (by decide)
    have hstep : ∀ text, quotedStep (.surrogateEscape h) c text = .error .malformed := by
      intro text
      simp only [quotedStep, if_neg hu]
    exact (quotedFrom_skip (by simp) (hescape _)).trans (quotedFrom_fault (by simp) (hstep _))
  | .hex ds hlength hdigits :: items, high, done => by
    have hrun := quotedFrom_unicode high done hlength hdigits
      (items.flatMap StringItem.chars ++ '"' :: rest)
    have htext :
        (StringItem.hex ds hlength hdigits :: items).flatMap StringItem.chars ++ '"' :: rest =
          '\\' :: 'u' :: (ds ++ (items.flatMap StringItem.chars ++ '"' :: rest)) := by
      simp [StringItem.chars]
    rw [htext, hrun, StringItem.decode?_hex]
    rcases codePoint_cases high (StringItem.hexValue ds) with ⟨c, h⟩ | h | h
    · rw [h, ← finished_append]
      exact quotedFrom_items rest items none _
    · rw [h, ← quotedFrom_items rest items]
      simp [afterHex]
    · rw [h]
      rfl

/-- A string is read to its closing quote. -/
theorem quoted_eq (s : StringText) (rest : List Char) :
    quoted (s.chars ++ rest) = match s.value? with
      | some text => .ok (text, rest)
      | none => .error .malformed := by
  have hitems := quotedFrom_items rest s.items none #[]
  rw [StringText.chars, List.append_assoc, List.singleton_append]
  refine hitems.trans ?_
  rw [StringText.value?]
  cases StringItem.decode? none s.items <;> rfl

end Typesetter.Json
