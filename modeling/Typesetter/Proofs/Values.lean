import Typesetter.Proofs.Numerals
import Typesetter.Proofs.TextStrings

/-! # Values

What the objects of a file are made of: words, names, strings, references to objects by number,
arrays and dictionaries. Values written as tokens read back, however deep they nest. -/
namespace Typesetter.Pdf
open Numeric (Single)

/-- The words that hold a file together and have no value of their own. -/
def reserved : List String :=
  ["R", "obj", "endobj", "stream", "endstream", "xref", "trailer", "startxref"]

inductive Value where
  | word (text : Bytes) (proper : text ∉ reserved.map ascii)
  | name (text : Bytes)
  | string (bytes : Bytes)
  | reference (number : Nat)
  | array (items : List Value)
  | dictionary (entries : List (Bytes × Value))

namespace Value

mutual
def tokens : Value → List Token
  | word text _ => [.word text]
  | name text => [.name text]
  | string bytes => [.string bytes]
  | reference n => [keyword (toString n), keyword "0", keyword "R"]
  | array items => .beginArray :: itemTokens items ++ [.endArray]
  | dictionary entries => .beginDictionary :: entryTokens entries ++ [.endDictionary]

def itemTokens : List Value → List Token
  | [] => []
  | v :: rest => v.tokens ++ itemTokens rest

def entryTokens : List (Bytes × Value) → List Token
  | [] => []
  | (key, v) :: rest => .name key :: (v.tokens ++ entryTokens rest)
end

theorem itemTokens_eq (items : List Value) : itemTokens items = items.flatMap tokens := by
  induction items with
  | nil => rfl
  | cons v rest ih => rw [itemTokens, ih, List.flatMap_cons]

theorem entryTokens_eq (entries : List (Bytes × Value)) :
    entryTokens entries = entries.flatMap fun (key, v) => .name key :: v.tokens := by
  induction entries with
  | nil => rfl
  | cons entry rest ih =>
    obtain ⟨key, v⟩ := entry
    rw [entryTokens, ih, List.flatMap_cons]
    rfl

/-! ## Reading -/

def get? (key : String) : Value → Option Value
  | dictionary entries => entries.lookup (ascii key)
  | _ => none

def nat? : Value → Option Nat
  | word text _ => Pdf.nat? text
  | _ => none

def name? : Value → Option Bytes
  | name text => some text
  | _ => none

def text? : Value → Option String
  | string bytes => Pdf.text? bytes
  | _ => none

def reference? : Value → Option Nat
  | reference n => some n
  | _ => none

def references? : Value → Option (List Nat)
  | array items => items.mapM reference?
  | _ => none

end Value

inductive Bracket where
  | array
  | dictionary

/-- Values read so far, the last one first: since the innermost bracket that is still open, and
before it for each of the brackets around. -/
structure Reading where
  items : List Value
  outer : List (Bracket × List Value)

def entries? : List Value → Option (List (Bytes × Value))
  | [] => some []
  | .name key :: v :: rest => (entries? rest).map ((key, v) :: ·)
  | _ => none

namespace Reading

def push (r : Reading) (v : Value) : Reading := { r with items := v :: r.items }

def next (r : Reading) : Token → Option Reading
  | .beginArray => some ⟨[], (.array, r.items) :: r.outer⟩
  | .beginDictionary => some ⟨[], (.dictionary, r.items) :: r.outer⟩
  | .endArray =>
    match r.outer with
    | (.array, items) :: outer => some ⟨.array r.items.reverse :: items, outer⟩
    | _ => none
  | .endDictionary =>
    match r.outer with
    | (.dictionary, items) :: outer =>
      (entries? r.items.reverse).map fun entries => ⟨.dictionary entries :: items, outer⟩
    | _ => none
  | .name text => some (r.push (.name text))
  | .string bytes => some (r.push (.string bytes))
  | .word text =>
    if text = ascii "R" then
      match r.items with
      | .word generation _ :: .word number _ :: items =>
        if nat? generation = some 0 then
          (nat? number).map fun n => ⟨.reference n :: items, r.outer⟩
        else none
      | _ => none
    else if h : text ∉ reserved.map ascii then some (r.push (.word text h))
    else none

end Reading

def values? (ts : List Token) : Option (List Value) :=
  match ts.foldlM Reading.next ⟨[], []⟩ with
  | some ⟨items, []⟩ => some items.reverse
  | _ => none

/-! ## Numbers -/

theorem Numeral.of_ascii_eq {s t : String} (h : Numeral s) (he : ascii s = ascii t)
    (ht : ∀ c ∈ t.toList, c.toNat < 256) : Numeral t := by
  have hsmall : ∀ c ∈ s.toList, c.toNat < 256 := by
    intro c hc
    have hother : ∀ d ∈ ['-', '.', 'i', 'n', 'f', 'N', 'a'], d.toNat < 256 := by decide
    rcases Bool.or_eq_true_iff.mp (h c hc) with hdigit | hlisted
    · exact Nat.lt_of_le_of_lt (Char.isDigit_iff_toNat.mp hdigit).2 (by decide)
    · exact hother c (List.contains_iff_mem.mp hlisted)
  have hchars : s.toList = t.toList := by rw [← chars_ascii hsmall, he, chars_ascii ht]
  rwa [← String.toList_injective hchars]

theorem Numeral.not_reserved {s : String} (h : Numeral s) : ascii s ∉ reserved.map ascii := by
  have hreserved : ∀ t ∈ reserved, (∀ c ∈ t.toList, c.toNat < 256) ∧ ¬ Numeral t := by decide
  intro hmem
  obtain ⟨t, ht, he⟩ := List.mem_map.mp hmem
  obtain ⟨hsmall, hother⟩ := hreserved t ht
  exact hother (h.of_ascii_eq he.symm hsmall)

namespace Value

def nat (n : Nat) : Value := word (ascii (toString n)) (numeral_nat n).not_reserved

def number (x : Single) : Value := word (ascii (Pdf.number x)) (numeral_number x).1.not_reserved

theorem references?_array (numbers : List Nat) :
    references? (array (numbers.map reference)) = some numbers := by
  rw [references?]
  induction numbers with
  | nil => rfl
  | cons n rest ih => simp [ih, reference?]

end Value

/-! ## What is written reads back -/

def inTurns (entries : List (Bytes × Value)) : List Value :=
  entries.flatMap fun (key, v) => [.name key, v]

theorem entries?_inTurns (entries : List (Bytes × Value)) :
    entries? (inTurns entries) = some entries := by
  induction entries with
  | nil => rfl
  | cons entry rest ih =>
    obtain ⟨key, v⟩ := entry
    rw [inTurns, List.flatMap_cons]
    change entries? (.name key :: v :: inTurns rest) = _
    rw [entries?, ih]
    rfl

namespace Value

theorem next_word {text : Bytes} (proper : text ∉ reserved.map ascii) (r : Reading) :
    r.next (.word text) = some (r.push (word text proper)) := by
  have hend : text ≠ ascii "R" := by
    rintro rfl
    exact proper (by decide)
  rw [Reading.next, if_neg hend, dif_pos proper]

theorem read_reference (n : Nat) (r : Reading) :
    (reference n).tokens.foldlM Reading.next r = some (r.push (reference n)) := by
  have hzero : ascii "0" ∉ reserved.map ascii := by decide
  have hnumber := (numeral_nat n).not_reserved
  have hgeneration : Pdf.nat? (ascii "0") = some 0 := nat?_nat 0
  have hend : ((r.push (word _ hnumber)).push (word _ hzero)).next (.word (ascii "R")) =
      some (r.push (reference n)) := by
    rw [Reading.next, if_pos rfl]
    simp only [Reading.push, if_pos hgeneration, nat?_nat, Option.map_some]
  simp only [tokens, keyword, List.foldlM_cons, next_word hnumber, next_word hzero, hend,
    Option.bind_eq_bind, Option.bind_some]
  rfl

mutual
theorem read_tokens (v : Value) (r : Reading) :
    v.tokens.foldlM Reading.next r = some (r.push v) := by
  cases v with
  | word text proper => simp [tokens, next_word proper]
  | name text => rfl
  | string bytes => rfl
  | reference n => exact read_reference n r
  | array items =>
    have hitems := read_itemTokens items ⟨[], (.array, r.items) :: r.outer⟩
    simp only [tokens, List.cons_append, List.foldlM_cons, List.foldlM_append, Reading.next,
      Option.bind_eq_bind, Option.bind_some, hitems]
    simp [Reading.push]
  | dictionary entries =>
    have hentries := read_entryTokens entries ⟨[], (.dictionary, r.items) :: r.outer⟩
    simp only [tokens, List.cons_append, List.foldlM_cons, List.foldlM_append, Reading.next,
      Option.bind_eq_bind, Option.bind_some, hentries]
    simp [Reading.push, entries?_inTurns]

theorem read_itemTokens (items : List Value) (r : Reading) :
    (itemTokens items).foldlM Reading.next r =
      some { r with items := items.reverse ++ r.items } := by
  cases items with
  | nil => rfl
  | cons v rest =>
    rw [itemTokens, List.foldlM_append, read_tokens v]
    simp [read_itemTokens rest, Reading.push]

theorem read_entryTokens (entries : List (Bytes × Value)) (r : Reading) :
    (entryTokens entries).foldlM Reading.next r =
      some { r with items := (inTurns entries).reverse ++ r.items } := by
  cases entries with
  | nil => rfl
  | cons entry rest =>
    obtain ⟨key, v⟩ := entry
    have hkey : Reading.next r (.name key) = some (r.push (.name key)) := rfl
    rw [entryTokens, List.foldlM_cons, hkey, Option.bind_eq_bind, Option.bind_some,
      List.foldlM_append, read_tokens v]
    simp [read_entryTokens rest, Reading.push, inTurns]
end

mutual
/-- Within a value, of the reserved words only the end of a reference is met. -/
theorem not_reserved_of_mem_tokens (v : Value) {text : Bytes} (h : .word text ∈ v.tokens) :
    text = ascii "R" ∨ text ∉ reserved.map ascii := by
  cases v with
  | word text proper =>
    obtain rfl := by simpa [tokens] using h
    exact Or.inr proper
  | name text => simp [tokens] at h
  | string bytes => simp [tokens] at h
  | reference n =>
    simp only [tokens, keyword, List.mem_cons, Token.word.injEq, List.not_mem_nil, or_false] at h
    rcases h with rfl | rfl | rfl
    · exact Or.inr (numeral_nat n).not_reserved
    · exact Or.inr (by decide)
    · exact Or.inl rfl
  | array items => exact not_reserved_of_mem_itemTokens items (by simpa [tokens] using h)
  | dictionary entries =>
    exact not_reserved_of_mem_entryTokens entries (by simpa [tokens] using h)

theorem not_reserved_of_mem_itemTokens (items : List Value) {text : Bytes}
    (h : .word text ∈ itemTokens items) : text = ascii "R" ∨ text ∉ reserved.map ascii := by
  cases items with
  | nil => simp [itemTokens] at h
  | cons v rest =>
    rcases List.mem_append.mp h with h | h
    · exact not_reserved_of_mem_tokens v h
    · exact not_reserved_of_mem_itemTokens rest h

theorem not_reserved_of_mem_entryTokens (entries : List (Bytes × Value)) {text : Bytes}
    (h : .word text ∈ entryTokens entries) : text = ascii "R" ∨ text ∉ reserved.map ascii := by
  cases entries with
  | nil => simp [entryTokens] at h
  | cons entry rest =>
    obtain ⟨key, v⟩ := entry
    rcases List.mem_append.mp (by simpa [entryTokens] using h) with h | h
    · exact not_reserved_of_mem_tokens v h
    · exact not_reserved_of_mem_entryTokens rest h
end

theorem tokens_not_stop {stops : List Bytes}
    (h : ∀ stop ∈ stops, stop ∈ reserved.map ascii ∧ stop ≠ ascii "R") (v : Value) :
    ∀ t ∈ v.tokens, t ∉ stops.map Token.word := by
  intro t ht hmem
  obtain ⟨stop, hstop, rfl⟩ := List.mem_map.mp hmem
  obtain ⟨hreserved, hne⟩ := h stop hstop
  rcases v.not_reserved_of_mem_tokens ht with heq | hnot
  · exact hne heq
  · exact hnot hreserved

end Value

theorem values?_tokens (v : Value) : values? v.tokens = some [v] := by
  simp [values?, Value.read_tokens, Reading.push]

end Typesetter.Pdf
