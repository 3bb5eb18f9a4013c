import Typesetter.Json
import Typesetter.Proofs.JsonNumbers
import Typesetter.Proofs.JsonStrings

/-! # The grammar of JSON texts

Values, and how the items of arrays and the members of objects are laid out between blanks. Moving
from item to item follows the grammar. -/
namespace Typesetter.Json

/-! ## Arrays and objects -/

structure Item where
  before : Blanks
  value : List Char
  after : Blanks

structure Member where
  before : Blanks
  key : StringText
  between : Blanks
  item : Item

def Item.chars (i : Item) : List Char := i.before.chars ++ i.value ++ i.after.chars

def Member.chars (m : Member) : List Char :=
  m.before.chars ++ '"' :: (m.key.chars ++ m.between.chars ++ ':' :: m.item.chars)

/-- Parts with commas between them, and the bracket behind the last. -/
def listed (close : Char) : Bool → List (List Char) → List Char
  | _, [] => [close]
  | true, part :: parts => part ++ listed close false parts
  | false, part :: parts => ',' :: part ++ listed close false parts

def arrayChars (inner : Blanks) (items : List Item) : List Char :=
  '[' :: inner.chars ++ listed ']' true (items.map Item.chars)

def objectChars (inner : Blanks) (members : List Member) : List Char :=
  '{' :: inner.chars ++ listed '}' true (members.map Member.chars)

inductive IsValue : List Char → Prop
  | word (w : String) (h : w ∈ ["null", "true", "false"]) : IsValue w.toList
  | number (t : NumberText) : IsValue t.chars
  | string (s : StringText) : IsValue ('"' :: s.chars)
  | array (inner : Blanks) (items : List Item) (h : ∀ i ∈ items, IsValue i.value) :
      IsValue (arrayChars inner items)
  | object (inner : Blanks) (members : List Member) (h : ∀ m ∈ members, IsValue m.item.value) :
      IsValue (objectChars inner members)

structure ArrayText where
  before : Blanks
  inner : Blanks
  items : List Item
  after : Blanks

structure ObjectText where
  before : Blanks
  inner : Blanks
  members : List Member
  after : Blanks

def ArrayText.text (a : ArrayText) : String :=
  String.ofList (a.before.chars ++ arrayChars a.inner a.items ++ a.after.chars)

def ObjectText.text (o : ObjectText) : String :=
  String.ofList (o.before.chars ++ objectChars o.inner o.members ++ o.after.chars)

/-! ## From item to item -/

/-- What a value is shows in its first character. -/
inductive Shows : Char → List Char → Prop
  | number {c text} (hc : c = '-' ∨ c.isDigit = true) (t : NumberText) (h : c :: text = t.chars) :
      Shows c text
  | string (s : StringText) : Shows '"' s.chars
  | null : Shows 'n' "ull".toList
  | other {c text} (hc : c ∈ ['t', 'f', '[', '{']) : Shows c text

theorem IsValue.shows {value : List Char} (h : IsValue value) :
    ∃ c text, value = c :: text ∧ Shows c text := by
  cases h with
  | number t =>
    obtain ⟨c, text, ht, hc⟩ := t.chars_head
    exact ⟨c, text, ht, .number hc t ht.symm⟩
  | string s => exact ⟨'"', s.chars, rfl, .string s⟩
  | word w hw =>
    simp only [List.mem_cons, List.not_mem_nil, or_false] at hw
    obtain rfl | rfl | rfl := hw
    · exact ⟨'n', _, rfl, .null⟩
    · exact ⟨'t', _, rfl, .other (by decide)⟩
    · exact ⟨'f', _, rfl, .other (by decide)⟩
  | array => exact ⟨'[', _, rfl, .other (by decide)⟩
  | object => exact ⟨'{', _, rfl, .other (by decide)⟩

theorem Shows.not_blank {c : Char} {text : List Char} (h : Shows c text) :
    isBlank c = false ∧ c ≠ ']' := by
  cases h with
  | string => decide
  | null => decide
  | other hc =>
    simp only [List.mem_cons, List.not_mem_nil, or_false] at hc
    rcases hc with rfl | rfl | rfl | rfl <;> decide
  | number hc =>
    constructor
    · by_contra hblank
      simp only [isBlank, Bool.not_eq_false, Bool.or_eq_true, decide_eq_true_eq] at hblank
      rcases hblank with ((rfl | rfl) | rfl) | rfl <;> revert hc <;> decide
    · rintro rfl
      revert hc
      decide

variable {rest : List Char}

theorem ends_listed {close : Char} (hclose : close ∈ [',', ']', '}']) (parts : List (List Char))
    (rest : List Char) : Ends (listed close false parts ++ rest) := by
  cases parts with
  | nil => exact Ends.cons hclose rest
  | cons part parts => exact Ends.cons (by decide) _

section
variable (b : Blanks) (first : Bool)

theorem nextMember_done (rest : List Char) :
    nextMember first (b.chars ++ (listed '}' first [] ++ rest)) = .ok (.done rest) := by
  rw [listed, List.singleton_append, nextMember, b.skip_cons (by decide)]
  rfl

theorem nextMember_comma (text : List Char) : nextMember false (b.chars ++ ',' :: text) =
    match skipBlanks text with
    | [] => .error .unfinished
    | rest => keyStart rest := by
  rw [nextMember, b.skip_cons (by decide)]
  rfl

theorem nextMember_member (m : Member) (parts : List (List Char)) (rest : List Char) :
    nextMember first (b.chars ++ (listed '}' first (m.chars :: parts) ++ rest)) =
      .ok (.item (m.key.chars ++ (m.between.chars ++ ':' :: (m.item.before.chars ++ (m.item.value ++
        (m.item.after.chars ++ (listed '}' false parts ++ rest))))))) := by
  have hkey := m.before.skip_cons (by decide : isBlank '"' = false)
    (m.key.chars ++ (m.between.chars ++ ':' :: (m.item.before.chars ++ (m.item.value ++
      (m.item.after.chars ++ (listed '}' false parts ++ rest))))))
  cases first with
  | true =>
    simp only [listed, Member.chars, Item.chars, List.append_assoc, List.cons_append]
    rw [nextMember, b.skip, hkey]
    rfl
  | false =>
    simp only [listed, Member.chars, Item.chars, List.append_assoc, List.cons_append]
    rw [nextMember_comma, hkey]
    rfl

theorem colon_eq (text : List Char) : colon (b.chars ++ ':' :: text) = .ok text := by
  rw [colon, b.skip_cons (by decide)]
  rfl

theorem nextElement_done (rest : List Char) :
    nextElement first (b.chars ++ (listed ']' first [] ++ rest)) = .ok (.done rest) := by
  rw [listed, List.singleton_append, nextElement, b.skip_cons (by decide)]
  rfl

theorem nextElement_comma (text : List Char) : nextElement false (b.chars ++ ',' :: text) =
    match skipBlanks text with
    | [] => .error .unfinished
    | ']' :: _ => .error .malformed
    | rest => .ok (.item rest) := by
  rw [nextElement, b.skip_cons (by decide)]
  rfl

theorem nextElement_item (i : Item) (h : IsValue i.value) (parts : List (List Char))
    (rest : List Char) :
    nextElement first (b.chars ++ (listed ']' first (i.chars :: parts) ++ rest)) =
      .ok (.item (i.value ++ (i.after.chars ++ (listed ']' false parts ++ rest)))) := by
  obtain ⟨c, text, hvalue, hshows⟩ := h.shows
  obtain ⟨hblank, hclose⟩ := hshows.not_blank
  have hitem := i.before.skip_cons hblank
    (text ++ (i.after.chars ++ (listed ']' false parts ++ rest)))
  cases first with
  | true =>
    simp only [listed, Item.chars, hvalue, List.append_assoc, List.cons_append]
    rw [nextElement, b.skip, hitem]
    split
    · rename_i heq
      cases heq
    · rename_i heq
      exact absurd (List.cons.inj heq).1 hclose
    · rename_i heq
      obtain ⟨rfl, rfl⟩ := List.cons.inj heq
      rfl
  | false =>
    simp only [listed, Item.chars, hvalue, List.append_assoc, List.cons_append]
    rw [nextElement_comma, hitem]
    split
    · rename_i heq
      cases heq
    · rename_i heq
      exact absurd (List.cons.inj heq).1 hclose
    · rfl

theorem closeArray_eq (rest : List Char) :
    closeArray (b.chars ++ (listed ']' first [] ++ rest)) = .ok rest := by
  rw [listed, List.singleton_append, closeArray, b.skip_cons (by decide)]
  rfl

theorem finish_eq : finish b.chars = .ok () := by
  rw [finish, b.skip_all]
  rfl

end

end Typesetter.Json
