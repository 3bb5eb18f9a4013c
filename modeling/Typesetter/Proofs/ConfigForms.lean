import Typesetter.Error
import Typesetter.Proofs.ConfigReading
import Typesetter.Proofs.NumberRange

/-! # The forms of a configuration

A configuration is given as an object or as an array. What comes of it is settled by the fields and
their values alone: not by the form, by the order of the keys or by the blanks. Unknown keys and
repeated ones are refused. -/
namespace Typesetter.Config
open Numeric (Single)
open Json (Blanks Item Member NumberText StringText ArrayText ObjectText IsValue)

variable {entries : List Entry}

/-! ## Outcomes -/

def checked (c : Config) : Except Error Config :=
  match c.fault? with
  | some fault => .error (.config fault)
  | none => .ok c

theorem ofJson_of_read {text : String} {c : Config} (h : read text = .ok c) :
    ofJson text = c.checked := by
  rw [ofJson, h]
  rfl

theorem ofJson_of_fault {text : String} {fault : ReadFault} (h : read text = .error fault) :
    ofJson text = .error (.configText fault) := by
  rw [ofJson, h]

theorem ofJson_of_not_read {text : String} (h : ∀ c, read text ≠ .ok c) :
    ∃ fault, ofJson text = .error (.configText fault) := by
  cases hread : read text with
  | ok c => exact absurd hread (h c)
  | error fault => exact ⟨fault, ofJson_of_fault hread⟩

/-- All that gives the entries comes to one configuration, whatever its form, the order of its keys
and its blanks. -/
structure GivenBy (c : Config) (entries : List Entry) : Prop where
  given : ∀ e ∈ entries, c.entry e.field = e
  default : ∀ f, f ∉ entries.map Entry.field → c.entry f = ({} : Config).entry f
  object : ∀ (o : ObjectText) (others : List Entry), others.Perm entries →
    ObjectGives o others → ofJson o.text = c.checked
  array : ∀ a : ArrayText, ArrayGives a entries → ofJson a.text = c.checked

theorem givenBy_ofEntries (hnodup : (entries.map Entry.field).Nodup) :
    (ofEntries entries).GivenBy entries where
  given := fun _ he => entry_foldl_of_mem _ hnodup he
  default := fun _ hf => entry_foldl_of_not_mem _ hf
  object := by
    intro o others hperm hgives
    have hothers : (others.map Entry.field).Nodup := (hperm.map _).nodup_iff.mpr hnodup
    apply ofJson_of_read
    rw [read_object_eq_ok_iff (isValue_of_gives hgives)]
    exact ⟨others, hgives, hothers, (ofEntries_perm hothers hperm).symm⟩
  array := fun _ hgives => ofJson_of_read (read_array hgives)

def UnknownKey (o : ObjectText) : Prop :=
  ∃ m ∈ o.members, ∀ f : Field, m.key.value? ≠ some f.name

def RepeatedKey (o : ObjectText) : Prop := ¬ (o.members.map fun m => m.key.value?).Nodup

theorem ofJson_of_badKey {o : ObjectText} (h : ∀ m ∈ o.members, IsValue m.item.value)
    (hkeys : UnknownKey o ∨ RepeatedKey o) :
    ∃ fault, ofJson o.text = .error (.configText fault) := by
  apply ofJson_of_not_read
  intro c hread
  obtain ⟨entries, hgives, hnodup, -⟩ := (read_object_eq_ok_iff h).mp hread
  have hnames := keys_of_gives hgives
  rcases hkeys with ⟨m, hm, hunknown⟩ | hrepeated
  · have hkey : m.key.value? ∈ (entries.map Entry.field).map fun f => some f.name :=
      hnames ▸ List.mem_map_of_mem hm
    obtain ⟨f, -, hf⟩ := List.mem_map.mp hkey
    exact hunknown f hf.symm
  · apply hrepeated
    rw [hnames]
    exact hnodup.map fun f g h => Field.name_injective (Option.some.inj h)

/-- What suits its fields and still gives no entries is refused, whatever its form. -/
theorem ofJson_object_of_names {o : ObjectText} {fields : List Field}
    (h : List.Forall₂ Names o.members fields) (hnodup : fields.Nodup) :
    (∃ entries, ObjectGives o entries) ∨
      ofJson o.text = .error (.configText (.json .malformed)) := by
  have hlength : o.members.length < Field.all.length + 1 := by
    have hsub := (List.subperm_of_subset hnodup fun f _ => f.mem_all).length_le
    rw [h.length_eq]
    omega
  rcases readMembers_of_names h o.after.chars (Field.all.length + 1) [] {} o.inner
    (fresh_nil.mpr hnodup) hlength with hgives | hrefused
  · exact Or.inl hgives
  · right
    apply ofJson_of_fault
    rw [read_objectText, hrefused]
    rfl

theorem ofJson_array_of_suits {a : ArrayText} {fields : List Field} (hall : fields <+: Field.all)
    (h : List.Forall₂ (fun (i : Item) (f : Field) => Suits f i.value) a.items fields) :
    (∃ entries, ArrayGives a entries) ∨
      ofJson a.text = .error (.configText (.json .malformed)) := by
  rcases readElements_of_suits h a.after.chars {} true a.inner hall with
    ⟨entries, rfl, hwritten⟩ | hrefused
  · exact Or.inl ⟨entries, hall, hwritten⟩
  · right
    apply ofJson_of_fault
    rw [read_arrayText, hrefused]
    rfl

/-- Values for different fields come to one configuration in every form they are given. Numbers in
range are such values. A text that gives none, for a number out of range or half of a surrogate
pair, is refused with the same error in both forms, and a key that is unknown or repeated is refused
whatever the values are. -/
theorem forms_agree :
    (∀ entries : List Entry, (entries.map Entry.field).Nodup →
      ∃ c : Config, c.GivenBy entries) ∧
    (∀ (m : Measure) (t : NumberText), t.InRange →
      ∃ v, (Entry.measure m v).IsWritten t.chars) ∧
    (∀ (o : ObjectText) (fields : List Field), List.Forall₂ Names o.members fields →
      fields.Nodup → (∃ entries, ObjectGives o entries) ∨
        ofJson o.text = .error (.configText (.json .malformed))) ∧
    (∀ (a : ArrayText) (fields : List Field), fields <+: Field.all →
      List.Forall₂ (fun (i : Item) (f : Field) => Suits f i.value) a.items fields →
      (∃ entries, ArrayGives a entries) ∨
        ofJson a.text = .error (.configText (.json .malformed))) ∧
    ∀ o : ObjectText, (∀ m ∈ o.members, IsValue m.item.value) → UnknownKey o ∨ RepeatedKey o →
      ∃ fault, ofJson o.text = .error (.configText fault) := by
  refine ⟨fun entries hnodup => ⟨ofEntries entries, givenBy_ofEntries hnodup⟩, ?_, ?_, ?_, ?_⟩
  · intro m t hrange
    obtain ⟨n, hn⟩ := hrange.value_isOk
    exact ⟨n.toSingle, t, n, rfl, hn, rfl⟩
  · exact fun o fields hnames hnodup => ofJson_object_of_names hnames hnodup
  · exact fun a fields hall hsuits => ofJson_array_of_suits hall hsuits
  · exact fun o hvalues hkeys => ofJson_of_badKey hvalues hkeys

/-! ## Two lengths in three texts -/

/-- `500` -/
def fiveHundred : NumberText where
  negative := false
  whole := ['5', '0', '0']
  fraction := none
  exponent := none
  wholeDigits := ⟨by decide, List.all_eq_true.mp rfl⟩
  leadingZero := by decide
  fractionDigits := by simp

/-- `7.5e2` -/
def sevenFifty : NumberText where
  negative := false
  whole := ['7']
  fraction := some ['5']
  exponent := some ⟨'e', .unmarked, ['2'], by decide, ⟨by decide, List.all_eq_true.mp rfl⟩⟩
  wholeDigits := ⟨by decide, List.all_eq_true.mp rfl⟩
  leadingZero := by decide
  fractionDigits := by
    rintro ds ⟨rfl⟩
    exact ⟨by decide, List.all_eq_true.mp rfl⟩

/-- `500e400` -/
def beyondRange : NumberText :=
  { fiveHundred with
    exponent := some
      ⟨'e', .unmarked, ['4', '0', '0'], by decide, ⟨by decide, List.all_eq_true.mp rfl⟩⟩ }

def lengths : List Entry := [.measure .pageWidth 500, .measure .pageHeight 750]

def space : Blanks := ⟨[' '], List.all_eq_true.mp rfl⟩

def Item.plain (value : List Char) : Item := ⟨.none, value, .none⟩

def widthMember (t : NumberText) : Member :=
  ⟨.none, .ofPlain "pageWidth".toList (List.all_eq_true.mp rfl), space, ⟨space, t.chars, .none⟩⟩

def heightMember (t : NumberText) : Member :=
  ⟨.none, .ofPlain "pageHeight".toList (List.all_eq_true.mp rfl), .none, ⟨.none, t.chars, space⟩⟩

def lengthsArray : ArrayText :=
  ⟨.none, .none, [Item.plain fiveHundred.chars, ⟨space, sevenFifty.chars, .none⟩], .none⟩

def lengthsObject : ObjectText :=
  ⟨.none, space, [heightMember sevenFifty, widthMember fiveHundred], .none⟩

def repeatedObject : ObjectText :=
  ⟨.none, .none, [widthMember fiveHundred, heightMember sevenFifty, widthMember sevenFifty], .none⟩

def beyondArray : ArrayText := ⟨.none, .none, [Item.plain beyondRange.chars], .none⟩

def beyondObject : ObjectText := ⟨.none, .none, [widthMember beyondRange], .none⟩

theorem fiveHundred_isWritten (m : Measure) : (Entry.measure m 500).IsWritten fiveHundred.chars :=
  ⟨fiveHundred, .integer 500, rfl, rfl, by decide +kernel⟩

theorem value_sevenFifty : sevenFifty.value = .ok (.float 750) := by decide +kernel

theorem sevenFifty_isWritten (m : Measure) : (Entry.measure m 750).IsWritten sevenFifty.chars := by
  have hsingle : (750 : Single) = (Json.Number.float 750).toSingle := by decide +kernel
  exact ⟨sevenFifty, .float 750, rfl, value_sevenFifty, hsingle⟩

theorem lengthsArray_gives : ArrayGives lengthsArray lengths where
  inOrder := by decide
  values := .cons (fiveHundred_isWritten _) (.cons (sevenFifty_isWritten _) .nil)

theorem lengthsObject_gives : ObjectGives lengthsObject lengths.reverse :=
  .cons ⟨StringText.value?_ofPlain _ _, sevenFifty_isWritten _⟩
    (.cons ⟨StringText.value?_ofPlain _ _, fiveHundred_isWritten _⟩ .nil)

theorem sevenFifty_inRange : sevenFifty.InRange where
  magnitude := by
    have hmagnitude : sevenFifty.magnitude = ((75 : ℕ) : ℚ) * 10 ^ ((2 : ℤ) - (1 : ℕ)) := rfl
    have hlimit : ((750 : ℕ) : ℚ) ≤ (Json.scalable : ℚ) := by
      exact_mod_cast Json.le_scalable (by decide)
    rw [hmagnitude]
    refine le_trans (le_of_eq ?_) hlimit
    norm_num
  exponent := by
    rintro e ⟨rfl⟩ -
    decide

theorem forms_agree_twoLengths :
    (lengthsArray.text = "[500, 7.5e2]" ∧
      lengthsObject.text = "\x7b \"pageHeight\":7.5e2 ,\"pageWidth\" : 500\x7d" ∧
      ∃ c : Config, (c.pageWidth = 500 ∧ c.pageHeight = 750) ∧
        ofJson lengthsArray.text = c.checked ∧ ofJson lengthsObject.text = c.checked) ∧
    (∃ v, (Entry.measure .pageHeight v).IsWritten sevenFifty.chars) ∧
    ((∃ entries, ObjectGives beyondObject entries) ∨
      ofJson beyondObject.text = .error (.configText (.json .malformed))) ∧
    ((∃ entries, ArrayGives beyondArray entries) ∨
      ofJson beyondArray.text = .error (.configText (.json .malformed))) ∧
    ∃ fault, ofJson repeatedObject.text = .error (.configText fault) := by
  obtain ⟨hagree, hrange, hobject, harray, hkeys⟩ := forms_agree
  refine ⟨⟨by decide, by decide, ?_⟩, hrange _ _ sevenFifty_inRange, ?_, ?_, ?_⟩
  · obtain ⟨c, hc⟩ := hagree lengths (by decide)
    have hwidth := hc.given (.measure .pageWidth 500) (by simp [lengths])
    have hheight := hc.given (.measure .pageHeight 750) (by simp [lengths])
    exact ⟨c, ⟨(Entry.measure.inj hwidth).2, (Entry.measure.inj hheight).2⟩,
      hc.array _ lengthsArray_gives, hc.object _ _ (List.reverse_perm _) lengthsObject_gives⟩
  · exact hobject beyondObject [.measure .pageWidth]
      (.cons ⟨StringText.value?_ofPlain _ _, .number _ _⟩ .nil) (by simp)
  · exact harray beyondArray [.measure .pageWidth] (by decide) (.cons (.number _ _) .nil)
  · refine hkeys repeatedObject ?_ (Or.inr ?_)
    · intro m hm
      simp only [repeatedObject, List.mem_cons, List.not_mem_nil, or_false] at hm
      rcases hm with rfl | rfl | rfl <;> exact .number _
    · rw [RepeatedKey]
      decide

end Typesetter.Config
