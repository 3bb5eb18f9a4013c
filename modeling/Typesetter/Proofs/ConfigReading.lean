import Mathlib.Data.List.Forall2
import Typesetter.Proofs.ConfigEntries
import Typesetter.Proofs.JsonText

/-! # What is read of a configuration

Reading follows the grammar of JSON, value by value and member by member. An object is read just
when its keys name different fields and every value is written for its field. -/
namespace Typesetter.Config
open Numeric (Single)
open Json (Blanks Item Member NumberText StringText ArrayText ObjectText IsValue Ends listed)

theorem bind_eq_ok_iff {ε α β : Type} {x : Except ε α} {f : α → Except ε β} {b : β} :
    (x >>= f) = .ok b ↔ ∃ a, x = .ok a ∧ f a = .ok b := by
  cases x with
  | error e => simp [bind, Except.bind]
  | ok a => simp [bind, Except.bind]

theorem ok_bind {ε α β : Type} (a : α) (f : α → Except ε β) : (Except.ok a >>= f) = f a := rfl

theorem map_eq_ok_iff {ε α β : Type} {x : Except ε α} {f : α → β} {b : β} :
    x.map f = .ok b ↔ ∃ a, x = .ok a ∧ f a = b := by
  cases x with
  | error e => simp [Except.map]
  | ok a => simp [Except.map]

/-! ## Values -/

def WritesMeasure (v : Single) (text : List Char) : Prop :=
  ∃ (t : NumberText) (n : Json.Number), text = t.chars ∧ t.value = .ok n ∧ v = n.toSingle

inductive WritesText : Option String → List Char → Prop
  | null : WritesText none "null".toList
  | string (s : StringText) (v : String) (h : s.value? = some v) :
      WritesText (some v) ('"' :: s.chars)

def Entry.IsWritten : Entry → List Char → Prop
  | .measure _ v, text => WritesMeasure v text
  | .title v, text | .author v, text => WritesText v text

theorem WritesText.isValue {v : Option String} {text : List Char} (h : WritesText v text) :
    IsValue text := by
  cases h with
  | null => exact .word "null" (by decide)
  | string s => exact .string s

theorem Entry.IsWritten.isValue {e : Entry} {text : List Char} (h : e.IsWritten text) :
    IsValue text := by
  cases e with
  | measure m v =>
    obtain ⟨t, -, rfl, -⟩ := h
    exact .number t
  | title v => exact WritesText.isValue h
  | author v => exact WritesText.isValue h

/-- The texts of values that a field takes: numbers for measures, strings and null for the rest. -/
inductive Suits : Field → List Char → Prop
  | number (m : Measure) (t : NumberText) : Suits (.measure m) t.chars
  | null {f : Field} (hf : f = .title ∨ f = .author) : Suits f "null".toList
  | string {f : Field} (hf : f = .title ∨ f = .author) (s : StringText) :
      Suits f ('"' :: s.chars)

theorem Suits.isValue {f : Field} {text : List Char} (h : Suits f text) : IsValue text := by
  cases h with
  | number m t => exact .number t
  | null => exact .word "null" (by decide)
  | string _ s => exact .string s

variable {value rest : List Char} (b : Blanks)

theorem readMeasure_number (t : NumberText) (hrest : Ends rest) :
    readMeasure (b.chars ++ (t.chars ++ rest)) =
      match t.value with
      | .ok n => .ok (n.toSingle, rest)
      | .error fault => .error (.json fault) := by
  obtain ⟨c, text, ht, hc⟩ := t.chars_head
  have hnumber := Json.number_eq t hrest
  have hblank : Json.isBlank c = false := (Json.Shows.number hc t ht.symm).not_blank.1
  rw [ht, List.cons_append] at hnumber ⊢
  rw [readMeasure, b.skip_cons hblank]
  simp only [if_pos hc, hnumber]
  cases t.value <;> rfl

theorem readMeasure_refused {c : Char} (hblank : Json.isBlank c = false)
    (hc : ¬ (c = '-' ∨ c.isDigit = true)) (text : List Char) :
    readMeasure (b.chars ++ c :: text) = .error (refuse .number (c :: text)) := by
  rw [readMeasure, b.skip_cons hblank]
  simp only [if_neg hc]

theorem readMeasure_eq_ok_iff (h : IsValue value) (hrest : Ends rest) {v : Single} {r : List Char} :
    readMeasure (b.chars ++ (value ++ rest)) = .ok (v, r) ↔ WritesMeasure v value ∧ r = rest := by
  constructor
  · intro hok
    obtain ⟨c, text, rfl, hshows⟩ := h.shows
    have hblank := hshows.not_blank.1
    cases hshows with
    | number hc t ht =>
      rw [ht, readMeasure_number b t hrest] at hok
      cases hvalue : t.value with
      | error fault =>
        rw [hvalue] at hok
        cases hok
      | ok n =>
        rw [hvalue] at hok
        obtain ⟨rfl, rfl⟩ := Prod.mk.inj (Except.ok.inj hok)
        exact ⟨⟨t, n, ht, hvalue, rfl⟩, rfl⟩
    | string s =>
      rw [List.cons_append, readMeasure_refused b hblank (by decide)] at hok
      cases hok
    | null =>
      rw [List.cons_append, readMeasure_refused b hblank (by decide)] at hok
      cases hok
    | other hc =>
      have hnumber : ¬ (c = '-' ∨ c.isDigit = true) := by
        simp only [List.mem_cons, List.not_mem_nil, or_false] at hc
        rcases hc with rfl | rfl | rfl | rfl <;> decide
      rw [List.cons_append, readMeasure_refused b hblank hnumber] at hok
      cases hok
  · rintro ⟨⟨t, n, rfl, hn, rfl⟩, rfl⟩
    rw [readMeasure_number b t hrest, hn]

theorem readText_quoted (text : List Char) : readText (b.chars ++ '"' :: text) =
    match Json.quoted text with
    | .ok (v, rest) => .ok (some v, rest)
    | .error e => .error (.json e) := by
  rw [readText, b.skip_cons (by decide)]
  rfl

theorem readText_string (s : StringText) (rest : List Char) :
    readText (b.chars ++ '"' :: (s.chars ++ rest)) =
      match s.value? with
      | some v => .ok (some v, rest)
      | none => .error (.json .malformed) := by
  rw [readText_quoted, Json.quoted_eq]
  cases s.value? <;> rfl

theorem readText_null (rest : List Char) :
    readText (b.chars ++ 'n' :: ("ull".toList ++ rest)) = .ok (none, rest) := by
  rw [readText, b.skip_cons (by decide)]
  rfl

theorem readText_refused {c : Char} (hblank : Json.isBlank c = false) (hnull : c ≠ 'n')
    (hquote : c ≠ '"') (text : List Char) :
    readText (b.chars ++ c :: text) = .error (refuse .text (c :: text)) := by
  rw [readText, b.skip_cons hblank]
  split
  · rename_i heq
    exact absurd (List.cons.inj heq).1 hnull
  · rename_i heq
    exact absurd (List.cons.inj heq).1 hquote
  · rfl

theorem readText_eq_ok_iff (h : IsValue value) {v : Option String} {r : List Char} :
    readText (b.chars ++ (value ++ rest)) = .ok (v, r) ↔ WritesText v value ∧ r = rest := by
  constructor
  · intro hok
    obtain ⟨c, text, rfl, hshows⟩ := h.shows
    have hblank := hshows.not_blank.1
    rw [List.cons_append] at hok
    cases hshows with
    | string s =>
      rw [readText_string] at hok
      cases hv : s.value? with
      | none =>
        rw [hv] at hok
        cases hok
      | some v =>
        rw [hv] at hok
        obtain ⟨rfl, rfl⟩ := Prod.mk.inj (Except.ok.inj hok)
        exact ⟨.string s v hv, rfl⟩
    | null =>
      rw [readText_null] at hok
      obtain ⟨rfl, rfl⟩ := Prod.mk.inj (Except.ok.inj hok)
      exact ⟨.null, rfl⟩
    | number hc t ht =>
      rw [readText_refused b hblank (by rintro rfl; revert hc; decide)
        (by rintro rfl; revert hc; decide)] at hok
      cases hok
    | other hc =>
      rw [readText_refused b hblank (by rintro rfl; revert hc; decide)
        (by rintro rfl; revert hc; decide)] at hok
      cases hok
  · rintro ⟨hwritten, rfl⟩
    cases hwritten with
    | null => exact readText_null b r
    | string s v hv =>
      rw [List.cons_append, readText_string, hv]

theorem map_read_eq_ok_iff {α : Type} {x : Except ReadFault (α × List Char)} {Writes : α → Prop}
    (h : ∀ v r, x = .ok (v, r) ↔ Writes v ∧ r = rest) (g : α → Config) {d : Config}
    {r : List Char} :
    x.map (fun (v, rest) => (g v, rest)) = .ok (d, r) ↔ (∃ v, Writes v ∧ d = g v) ∧ r = rest := by
  rw [map_eq_ok_iff]
  constructor
  · rintro ⟨⟨v, r'⟩, hread, heq⟩
    obtain ⟨hv, rfl⟩ := (h v r').mp hread
    obtain ⟨rfl, rfl⟩ := Prod.mk.inj heq
    exact ⟨⟨v, hv, rfl⟩, rfl⟩
  · rintro ⟨⟨v, hv, rfl⟩, rfl⟩
    exact ⟨(v, r), (h v r).mpr ⟨hv, rfl⟩, rfl⟩

/-- A field reads the values written for it, each to its end, and no others. -/
theorem readField_eq_ok_iff (c : Config) (f : Field) (h : IsValue value) (hrest : Ends rest)
    {d : Config} {r : List Char} :
    c.readField f (b.chars ++ (value ++ rest)) = .ok (d, r) ↔
      (∃ e : Entry, e.field = f ∧ e.IsWritten value ∧ d = c.put e) ∧ r = rest := by
  cases f with
  | measure m =>
    rw [readField]
    simp only [Entry.field_eq_measure_iff, exists_exists_eq_and]
    exact map_read_eq_ok_iff (fun v r => readMeasure_eq_ok_iff b h hrest) fun v =>
      c.put (.measure m v)
  | title =>
    rw [readField]
    simp only [Entry.field_eq_title_iff, exists_exists_eq_and]
    exact map_read_eq_ok_iff (fun v r => readText_eq_ok_iff b h) fun v => c.put (.title v)
  | author =>
    rw [readField]
    simp only [Entry.field_eq_author_iff, exists_exists_eq_and]
    exact map_read_eq_ok_iff (fun v r => readText_eq_ok_iff b h) fun v => c.put (.author v)

/-- A value of the right type that is not written for any entry is out of range, or a string with a
surrogate alone. -/
theorem readField_of_suits (c : Config) {f : Field} (h : Suits f value) (hrest : Ends rest) :
    (∃ e : Entry, e.field = f ∧ e.IsWritten value) ∨
      c.readField f (b.chars ++ (value ++ rest)) = .error (.json .malformed) := by
  cases h with
  | number m t =>
    cases hvalue : t.value with
    | ok n => exact Or.inl ⟨.measure m n.toSingle, rfl, t, n, rfl, hvalue, rfl⟩
    | error fault =>
      have hread := readMeasure_number b t hrest
      rw [hvalue, Json.NumberText.value_fault hvalue] at hread
      right
      rw [readField, hread]
      rfl
  | null hf =>
    rcases hf with rfl | rfl
    · exact Or.inl ⟨.title none, rfl, .null⟩
    · exact Or.inl ⟨.author none, rfl, .null⟩
  | string hf s =>
    cases hvalue : s.value? with
    | some v =>
      rcases hf with rfl | rfl
      · exact Or.inl ⟨.title (some v), rfl, .string s v hvalue⟩
      · exact Or.inl ⟨.author (some v), rfl, .string s v hvalue⟩
    | none =>
      have hread := readText_string b s rest
      rw [hvalue] at hread
      right
      rcases hf with rfl | rfl
      · rw [readField, List.cons_append, hread]
        rfl
      · rw [readField, List.cons_append, hread]
        rfl

/-! ## Members and elements -/

theorem readKey_eq (seen : List Field) (s : StringText) (rest : List Char) :
    readKey seen (s.chars ++ rest) =
      match s.value? with
      | none => .error (.json .malformed)
      | some name =>
        match Field.ofName? name with
        | none => .error (.unknownField name)
        | some f => if f ∈ seen then .error (.repeatedField f) else .ok (f, rest) := by
  rw [readKey, Json.quoted_eq]
  cases s.value? <;> rfl

theorem readKey_eq_ok_iff (seen : List Field) (s : StringText) {f : Field} {r : List Char} :
    readKey seen (s.chars ++ rest) = .ok (f, r) ↔
      s.value? = some f.name ∧ f ∉ seen ∧ r = rest := by
  rw [readKey_eq]
  constructor
  · intro hok
    cases hname : s.value? with
    | none =>
      rw [hname] at hok
      cases hok
    | some name =>
      rw [hname] at hok
      cases hfield : Field.ofName? name with
      | none =>
        simp only [hfield] at hok
        cases hok
      | some g =>
        simp only [hfield] at hok
        obtain rfl := Field.ofName?_eq_some_iff.mp hfield
        by_cases hseen : g ∈ seen
        · rw [if_pos hseen] at hok
          cases hok
        · rw [if_neg hseen] at hok
          obtain ⟨rfl, rfl⟩ := Prod.mk.inj (Except.ok.inj hok)
          exact ⟨rfl, hseen, rfl⟩
  · rintro ⟨hname, hseen, rfl⟩
    simp only [hname, Field.ofName?_eq_some_iff.mpr rfl, if_neg hseen]

structure Gives (m : Member) (e : Entry) : Prop where
  key : m.key.value? = some e.field.name
  value : e.IsWritten m.item.value

theorem isValue_of_gives {members : List Member} {entries : List Entry}
    (h : List.Forall₂ Gives members entries) : ∀ m ∈ members, IsValue m.item.value := by
  induction h with
  | nil => exact fun _ hm => absurd hm List.not_mem_nil
  | cons hgives _ ih =>
    intro m hm
    rcases List.mem_cons.mp hm with rfl | hm
    · exact hgives.value.isValue
    · exact ih m hm

theorem keys_of_gives {members : List Member} {entries : List Entry}
    (h : List.Forall₂ Gives members entries) :
    (members.map fun m => m.key.value?) = (entries.map Entry.field).map fun f => some f.name := by
  induction h with
  | nil => rfl
  | cons hgives _ ih => rw [List.map_cons, List.map_cons, List.map_cons, hgives.key, ih]

theorem readMembers_member (steps : Nat) (seen : List Field) (c : Config) (m : Member)
    (parts : List (List Char)) (rest : List Char) :
    readMembers (steps + 1) seen c
        (b.chars ++ (listed '}' seen.isEmpty (m.chars :: parts) ++ rest)) =
      readKey seen (m.key.chars ++ (m.between.chars ++ ':' :: (m.item.before.chars ++
        (m.item.value ++ (m.item.after.chars ++ (listed '}' false parts ++ rest)))))) >>=
      fun key => c.readMember key.1 key.2 >>=
      fun member => readMembers steps (key.1 :: seen) member.1 member.2 := by
  rw [readMembers, Json.nextMember_member]

theorem readMember_colon (c : Config) (f : Field) (text : List Char) :
    c.readMember f (b.chars ++ ':' :: text) = c.readField f text := by
  rw [readMember, Json.colon_eq]

theorem readMembers_cons_eq_ok_iff (steps : Nat) (seen : List Field) (c : Config) {m : Member}
    (h : IsValue m.item.value) (parts : List (List Char)) {d : Config} {r : List Char} :
    readMembers (steps + 1) seen c
        (b.chars ++ (listed '}' seen.isEmpty (m.chars :: parts) ++ rest)) = .ok (d, r) ↔
      ∃ e, Gives m e ∧ e.field ∉ seen ∧ readMembers steps (e.field :: seen) (c.put e)
        (m.item.after.chars ++ (listed '}' false parts ++ rest)) = .ok (d, r) := by
  have hends : Ends (m.item.after.chars ++ (listed '}' false parts ++ rest)) :=
    (Json.ends_listed (by decide) _ _).append_blanks _
  rw [readMembers_member]
  simp only [bind_eq_ok_iff, Prod.exists, readKey_eq_ok_iff]
  constructor
  · rintro ⟨f, _, ⟨hkey, hseen, rfl⟩, c', r', hmember, hrest⟩
    rw [readMember_colon] at hmember
    obtain ⟨⟨e, rfl, hwritten, rfl⟩, rfl⟩ := (readField_eq_ok_iff _ c f h hends).mp hmember
    exact ⟨e, ⟨hkey, hwritten⟩, hseen, hrest⟩
  · rintro ⟨e, ⟨hkey, hwritten⟩, hseen, hrest⟩
    refine ⟨e.field, _, ⟨hkey, hseen, rfl⟩, c.put e, _, ?_, hrest⟩
    rw [readMember_colon]
    exact (readField_eq_ok_iff _ c e.field h hends).mpr ⟨⟨e, rfl, hwritten, rfl⟩, rfl⟩

/-- Different fields, none of them seen before. -/
def Fresh (seen fields : List Field) : Prop := fields.Nodup ∧ ∀ f ∈ fields, f ∉ seen

theorem fresh_cons {seen fields : List Field} {f : Field} :
    Fresh seen (f :: fields) ↔ f ∉ seen ∧ Fresh (f :: seen) fields := by
  unfold Fresh
  rw [List.nodup_cons, List.forall_mem_cons]
  constructor
  · rintro ⟨⟨hf, hnodup⟩, hseen, hlater⟩
    refine ⟨hseen, hnodup, fun g hg hmem => ?_⟩
    rcases List.mem_cons.mp hmem with rfl | hmem
    · exact hf hg
    · exact hlater g hg hmem
  · rintro ⟨hseen, hnodup, hlater⟩
    exact ⟨⟨fun hf => hlater f hf List.mem_cons_self, hnodup⟩, hseen,
      fun g hg hmem => hlater g hg (List.mem_cons_of_mem _ hmem)⟩

theorem fresh_nil {fields : List Field} : Fresh [] fields ↔ fields.Nodup := by
  simp [Fresh]

theorem readMembers_eq_ok_iff {members : List Member} (h : ∀ m ∈ members, IsValue m.item.value) :
    ∀ (steps : Nat) (seen : List Field) (c : Config) (b : Blanks) {d : Config} {r : List Char},
      readMembers steps seen c
          (b.chars ++ (listed '}' seen.isEmpty (members.map Member.chars) ++ rest)) = .ok (d, r) ↔
        (∃ entries, List.Forall₂ Gives members entries ∧ Fresh seen (entries.map Entry.field) ∧
          d = entries.foldl put c) ∧ members.length < steps ∧ r = rest := by
  induction members with
  | nil =>
    intro steps seen c b d r
    cases steps with
    | zero => simp [readMembers]
    | succ steps =>
      rw [List.map_nil, readMembers, Json.nextMember_done]
      simp [Fresh, eq_comm]
  | cons m members ih =>
    intro steps seen c b d r
    cases steps with
    | zero => simp [readMembers]
    | succ steps =>
      have hih := ih fun m hm => h m (List.mem_cons_of_mem _ hm)
      rw [List.map_cons, readMembers_cons_eq_ok_iff b steps seen c (h m List.mem_cons_self),
        List.length_cons, Nat.add_lt_add_iff_right]
      constructor
      · rintro ⟨e, hgives, hnew, hok⟩
        obtain ⟨⟨entries, hall, hfresh, rfl⟩, hlength, rfl⟩ :=
          (hih steps (e.field :: seen) (c.put e) m.item.after).mp hok
        exact ⟨⟨e :: entries, .cons hgives hall, fresh_cons.mpr ⟨hnew, hfresh⟩, rfl⟩, hlength, rfl⟩
      · rintro ⟨⟨entries, hall, hfresh, rfl⟩, hlength, rfl⟩
        cases hall with
        | @cons _ e _ entries hgives hall =>
          obtain ⟨hnew, hfresh⟩ := fresh_cons.mp hfresh
          exact ⟨e, hgives, hnew, (hih steps (e.field :: seen) (c.put e) m.item.after).mpr
            ⟨⟨entries, hall, hfresh, rfl⟩, hlength, rfl⟩⟩

structure Names (m : Member) (f : Field) : Prop where
  key : m.key.value? = some f.name
  value : Suits f m.item.value

/-- Members that name new fields are all read, or one of their values is out of range. -/
theorem readMembers_of_names {members : List Member} {fields : List Field}
    (h : List.Forall₂ Names members fields) (rest : List Char) :
    ∀ (steps : Nat) (seen : List Field) (c : Config) (b : Blanks), Fresh seen fields →
      members.length < steps →
      (∃ entries, List.Forall₂ Gives members entries) ∨
        readMembers steps seen c
          (b.chars ++ (listed '}' seen.isEmpty (members.map Member.chars) ++ rest)) =
            .error (.json .malformed) := by
  induction h with
  | nil => exact fun _ _ _ _ _ _ => Or.inl ⟨[], .nil⟩
  | @cons m f members fields hnames _ ih =>
    intro steps seen c b hfresh hlength
    obtain ⟨hnew, hfresh⟩ := fresh_cons.mp hfresh
    obtain ⟨steps, rfl⟩ := Nat.exists_eq_succ_of_ne_zero (Nat.ne_of_gt (Nat.zero_lt_of_lt hlength))
    have hends : Ends (m.item.after.chars ++
        (listed '}' false (members.map Member.chars) ++ rest)) :=
      (Json.ends_listed (by decide) _ _).append_blanks _
    have hkey : ∀ text, readKey seen (m.key.chars ++ text) = .ok (f, text) := fun text =>
      (readKey_eq_ok_iff seen m.key).mpr ⟨hnames.key, hnew, rfl⟩
    rw [List.map_cons, readMembers_member, hkey, ok_bind, readMember_colon]
    rcases readField_of_suits m.item.before c hnames.value hends with ⟨e, rfl, hwritten⟩ | hrefused
    · have hread := (readField_eq_ok_iff m.item.before c e.field hwritten.isValue hends).mpr
        ⟨⟨e, rfl, hwritten, rfl⟩, rfl⟩
      rw [hread]
      rcases ih steps (e.field :: seen) (c.put e) m.item.after hfresh
        (Nat.lt_of_succ_lt_succ hlength) with ⟨entries, hgives⟩ | hrefused
      · exact Or.inl ⟨e :: entries, .cons ⟨hnames.key, hwritten⟩ hgives⟩
      · exact Or.inr hrefused
    · rw [hrefused]
      exact Or.inr rfl

theorem readElements_item (c : Config) (first : Bool) (f : Field) (fields : List Field) (i : Item)
    (h : IsValue i.value) (parts : List (List Char)) (rest : List Char) :
    readElements c first (b.chars ++ (listed ']' first (i.chars :: parts) ++ rest)) (f :: fields) =
      c.readField f (Blanks.none.chars ++ (i.value ++
        (i.after.chars ++ (listed ']' false parts ++ rest)))) >>=
      fun element => readElements element.1 false element.2 fields := by
  rw [readElements, Json.nextElement_item b first i h]
  rfl

theorem readElements_of_written {items : List Item} {entries : List Entry}
    (h : List.Forall₂ (fun (i : Item) (e : Entry) => e.IsWritten i.value) items entries) :
    ∀ (c : Config) (first : Bool) (b : Blanks) {fields : List Field},
      entries.map Entry.field <+: fields →
      readElements c first (b.chars ++ (listed ']' first (items.map Item.chars) ++ rest)) fields =
        .ok (entries.foldl put c, rest) := by
  induction h with
  | nil =>
    intro c first b fields _
    cases fields with
    | nil =>
      rw [List.map_nil, readElements, Json.closeArray_eq]
      rfl
    | cons f fields => rw [List.map_nil, readElements, Json.nextElement_done, List.foldl_nil]
  | @cons i e items entries hwritten _ ih =>
    intro c first b fields hfields
    obtain ⟨others, rfl⟩ := hfields
    have hends : Ends (i.after.chars ++ (listed ']' false (items.map Item.chars) ++ rest)) :=
      (Json.ends_listed (by decide) _ _).append_blanks _
    have hread := (readField_eq_ok_iff Blanks.none c e.field hwritten.isValue hends).mpr
      ⟨⟨e, rfl, hwritten, rfl⟩, rfl⟩
    have hrest := ih (c.put e) false i.after (List.prefix_append _ others)
    rw [List.map_cons, List.map_cons, List.cons_append,
      readElements_item b c first e.field _ i hwritten.isValue, hread]
    exact hrest

theorem readElements_of_suits {items : List Item} {fields : List Field}
    (h : List.Forall₂ (fun (i : Item) (f : Field) => Suits f i.value) items fields)
    (rest : List Char) :
    ∀ (c : Config) (first : Bool) (b : Blanks) {all : List Field}, fields <+: all →
      (∃ entries : List Entry, entries.map Entry.field = fields ∧
        List.Forall₂ (fun (i : Item) (e : Entry) => e.IsWritten i.value) items entries) ∨
      readElements c first (b.chars ++ (listed ']' first (items.map Item.chars) ++ rest)) all =
        .error (.json .malformed) := by
  induction h with
  | nil => exact fun _ _ _ _ _ => Or.inl ⟨[], rfl, .nil⟩
  | @cons i f items fields hsuits _ ih =>
    intro c first b all hall
    obtain ⟨others, rfl⟩ := hall
    have hends : Ends (i.after.chars ++ (listed ']' false (items.map Item.chars) ++ rest)) :=
      (Json.ends_listed (by decide) _ _).append_blanks _
    rw [List.map_cons, List.cons_append, readElements_item b c first f _ i hsuits.isValue]
    rcases readField_of_suits Blanks.none c hsuits hends with ⟨e, rfl, hwritten⟩ | hrefused
    · have hread := (readField_eq_ok_iff Blanks.none c e.field hwritten.isValue hends).mpr
        ⟨⟨e, rfl, hwritten, rfl⟩, rfl⟩
      rw [hread]
      rcases ih (c.put e) false i.after (List.prefix_append _ others) with
        ⟨entries, rfl, hwrittens⟩ | hrefused
      · exact Or.inl ⟨e :: entries, rfl, .cons hwritten hwrittens⟩
      · exact Or.inr hrefused
    · rw [hrefused]
      exact Or.inr rfl

/-! ## Whole texts -/

def ObjectGives (o : ObjectText) (entries : List Entry) : Prop :=
  List.Forall₂ Gives o.members entries

structure ArrayGives (a : ArrayText) (entries : List Entry) : Prop where
  inOrder : entries.map Entry.field <+: Field.all
  values : List.Forall₂ (fun (i : Item) (e : Entry) => e.IsWritten i.value) a.items entries

variable {entries : List Entry}

theorem finish_blanks (b : Blanks) (c : Config) :
    (((Json.finish b.chars).mapError ReadFault.json).map fun _ => c) = .ok c := by
  rw [Json.finish_eq]
  rfl

theorem read_objectText (o : ObjectText) : read o.text =
    readMembers (Field.all.length + 1) [] {} (o.inner.chars ++
      (listed '}' ([] : List Field).isEmpty (o.members.map Member.chars) ++ o.after.chars)) >>=
      fun (c, rest) => ((Json.finish rest).mapError .json).map fun _ => c := by
  have hskip : Json.skipBlanks o.text.toList = '{' :: (o.inner.chars ++
      (listed '}' ([] : List Field).isEmpty (o.members.map Member.chars) ++ o.after.chars)) := by
    rw [ObjectText.text, String.toList_ofList, List.append_assoc, Json.objectChars,
      List.append_assoc, List.cons_append, o.before.skip_cons (by decide)]
    rfl
  rw [read, hskip]
  rfl

theorem read_arrayText (a : ArrayText) : read a.text =
    readElements {} true (a.inner.chars ++
      (listed ']' true (a.items.map Item.chars) ++ a.after.chars)) Field.all >>=
      fun (c, rest) => ((Json.finish rest).mapError .json).map fun _ => c := by
  have hskip : Json.skipBlanks a.text.toList = '[' :: (a.inner.chars ++
      (listed ']' true (a.items.map Item.chars) ++ a.after.chars)) := by
    rw [ArrayText.text, String.toList_ofList, List.append_assoc, Json.arrayChars,
      List.append_assoc, List.cons_append, a.before.skip_cons (by decide)]
  rw [read, hskip]
  rfl

/-- An object is read just when its keys name different fields and its values suit them. -/
theorem read_object_eq_ok_iff {o : ObjectText} (h : ∀ m ∈ o.members, IsValue m.item.value)
    {c : Config} : read o.text = .ok c ↔ ∃ entries,
      ObjectGives o entries ∧ (entries.map Entry.field).Nodup ∧ c = ofEntries entries := by
  rw [read_objectText, bind_eq_ok_iff]
  simp only [Prod.exists, readMembers_eq_ok_iff h, fresh_nil]
  constructor
  · rintro ⟨d, r, ⟨⟨entries, hgives, hnodup, rfl⟩, -, rfl⟩, hfinish⟩
    rw [finish_blanks] at hfinish
    exact ⟨entries, hgives, hnodup, (Except.ok.inj hfinish).symm⟩
  · rintro ⟨entries, hgives, hnodup, rfl⟩
    refine ⟨ofEntries entries, o.after.chars,
      ⟨⟨entries, hgives, hnodup, rfl⟩, ?_, rfl⟩, finish_blanks _ _⟩
    rw [List.Forall₂.length_eq hgives]
    exact Nat.lt_succ_of_le (Entry.length_le_of_nodup hnodup)

theorem read_array {a : ArrayText} (h : ArrayGives a entries) :
    read a.text = .ok (ofEntries entries) := by
  rw [read_arrayText, bind_eq_ok_iff]
  exact ⟨_, readElements_of_written h.values {} true a.inner h.inOrder, finish_blanks _ _⟩

end Typesetter.Config
