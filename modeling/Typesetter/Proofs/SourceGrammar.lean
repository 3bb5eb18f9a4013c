import Mathlib.Data.Nat.Digits.Defs
import Typesetter.Proofs.Segments

/-! # The grammar of source lines

Which lines are blank, directives, text or errors, told by their characters alone. The grammar of an
indent is stated with the positional value of its digits, not with the reader that sums them up. -/
namespace Typesetter

namespace Text

def decimalValue (digits : List Char) : Nat :=
  Nat.ofDigits 10 (digits.reverse.map fun c => c.toNat - '0'.toNat)

structure Digits (text : List Char) : Prop where
  nonempty : text ≠ []
  isDigit : ∀ c ∈ text, c.isDigit = true

/-- Digits behind one sign at most, and the integer that they stand for. -/
inductive IntegerText : List Char → Int → Prop
  | unsigned {digits} (h : Digits digits) : IntegerText digits (decimalValue digits)
  | plus {digits} (h : Digits digits) : IntegerText ('+' :: digits) (decimalValue digits)
  | minus {digits} (h : Digits digits) : IntegerText ('-' :: digits) (-(decimalValue digits : Int))

end Text

namespace Directive

def names : List (String × Directive) :=
  [(".large", .large), (".normal", .normal), (".regular", .regular), (".bold", .bold),
    (".italics", .italics), (".fill", .fill), (".nofill", .noFill), (".paragraph", .paragraph)]

end Directive

namespace SourceLine

/-- The command of an indent, alone or with a space behind it. -/
def StartsIndent (text : String) : Prop := text = ".indent" ∨ ∃ rest, text = ".indent " ++ rest

/-- A proper indent: one space and the text of an integer that is a number of levels. -/
def IsIndent (text : String) (amount : Indent) : Prop :=
  ∃ rest, text = ".indent " ++ rest ∧ Text.IntegerText rest.toList amount.levels

/-- No amount, or not even the space before one. -/
def LacksAmount (text : String) : Prop := text = ".indent" ∨ text = ".indent "

/-- A proper indent, another space and whatever follows. -/
def HasMore (text : String) : Prop :=
  ∃ first amount more, text = first ++ " " ++ more ∧ IsIndent first amount

def FailsFor (number : Nat) (text reason : String) : Prop :=
  ∃ e, read number text = .error e ∧ e.fault.message = reason

/-- What a line is read as, and what is said of it if it is an error. -/
structure Grammar (number : Nat) (text : String) : Prop where
  blank : read number text = .ok .blank ↔ text = ""
  directive : ∀ name d, (name, d) ∈ Directive.names →
    (read number text = .ok (.directive d) ↔ text = name)
  indent : ∀ amount, read number text = .ok (.directive (.indent amount)) ↔ IsIndent text amount
  literal : ∀ l, read number text = .ok (.literal l) ↔
    l = text ∧ text ≠ "" ∧ (∀ d, (text, d) ∉ Directive.names) ∧ ¬ StartsIndent text
  malformed : (∃ e, read number text = .error e) ↔
    StartsIndent text ∧ ∀ amount, ¬ IsIndent text amount
  place : ∀ e, read number text = .error e → e.line = number ∧ e.text = text
  missing : FailsFor number text "missing indent amount" ↔ LacksAmount text
  textAfterAmount : FailsFor number text "unexpected text after the indent amount" ↔ HasMore text
  notInteger : FailsFor number text "indent amount is not a signed integer" ↔
    (StartsIndent text ∧ ∀ amount, ¬ IsIndent text amount) ∧ ¬ LacksAmount text ∧ ¬ HasMore text

end SourceLine

/-! ## Integers -/

namespace Text

theorem bne_of_not_mem {c : Char} {text : List Char} (h : c ∉ text) :
    ∀ d ∈ text, (d != c) = true := by
  intro d hd
  have hne : d ≠ c := by
    rintro rfl
    exact h hd
  simpa using hne

theorem cutAt_of_not_mem {c : Char} {text : List Char} (h : c ∉ text) :
    cutAt c text = (text, none) := by
  have hdrop : text.dropWhile (· != c) = [] := by
    rw [← List.append_nil text, List.dropWhile_append_of_pos (bne_of_not_mem h),
      List.dropWhile_nil]
  rw [cutAt, hdrop]

theorem cutAt_append {c : Char} {first : List Char} (h : c ∉ first) (rest : List Char) :
    cutAt c (first ++ c :: rest) = (first, some rest) := by
  have hdrop : (first ++ c :: rest).dropWhile (· != c) = c :: rest := by
    rw [List.dropWhile_append_of_pos (bne_of_not_mem h), List.dropWhile_cons_of_neg (by simp)]
  have htake : (first ++ c :: rest).takeWhile (· != c) = first := by
    rw [List.takeWhile_append_of_pos (bne_of_not_mem h), List.takeWhile_cons_of_neg (by simp),
      List.append_nil]
  rw [cutAt, hdrop, htake]

theorem readNat?_of_mem {c : Char} (hc : c.isDigit = false) {text : List Char} (h : c ∈ text) :
    readNat? text = none := by
  have hall : text.all Char.isDigit = false := by
    rw [List.all_eq_false]
    exact ⟨c, h, by simp [hc]⟩
  simp [readNat?, hall]

theorem readInt?_of_space {text : List Char} (h : ' ' ∈ text) : readInt? text = none := by
  unfold readInt?
  split
  · rw [readNat?_of_mem (by decide) (List.mem_of_ne_of_mem (by decide) h)]
    rfl
  · rw [readNat?_of_mem (by decide) (List.mem_of_ne_of_mem (by decide) h)]
    rfl
  · rw [readNat?_of_mem (by decide) h]
    rfl

theorem digitsValue_eq (digits : List Char) : digitsValue digits = decimalValue digits := by
  induction digits using List.reverseRecOn with
  | nil => rfl
  | append_singleton digits c ih =>
    have hstep : digitsValue (digits ++ [c]) = 10 * digitsValue digits + (c.toNat - '0'.toNat) := by
      rw [digitsValue, List.foldl_append]
      rfl
    rw [hstep, ih, decimalValue, decimalValue, List.reverse_append, List.reverse_singleton,
      List.singleton_append, List.map_cons, Nat.ofDigits_cons, Nat.add_comm]

theorem readNat?_eq_some_iff {text : List Char} {n : Nat} :
    readNat? text = some n ↔ Digits text ∧ decimalValue text = n := by
  unfold readNat?
  rw [digitsValue_eq]
  by_cases hempty : text = []
  · simp only [hempty, List.isEmpty_nil, Bool.true_or, if_true, reduceCtorEq, false_iff, not_and]
    intro hdigits
    exact absurd rfl hdigits.nonempty
  · by_cases hall : text.all Char.isDigit = true
    · have hdigits : Digits text := ⟨hempty, List.all_eq_true.mp hall⟩
      simp [hempty, hall, hdigits]
    · have hdigits : ¬ Digits text := fun h => hall (List.all_eq_true.mpr h.isDigit)
      simp [hall, hdigits]

theorem readNat?_cast_eq_some_iff {text : List Char} {n : Int} :
    (do let m ← readNat? text; pure (m : Int)) = some n ↔
      Digits text ∧ (decimalValue text : Int) = n := by
  constructor
  · intro h
    obtain ⟨m, hm, hn⟩ := Option.bind_eq_some_iff.mp h
    obtain ⟨hdigits, rfl⟩ := readNat?_eq_some_iff.mp hm
    exact ⟨hdigits, Option.some.inj hn⟩
  · rintro ⟨hdigits, rfl⟩
    rw [readNat?_eq_some_iff.mpr ⟨hdigits, rfl⟩]
    rfl

theorem readInt?_eq_some_iff {text : List Char} {n : Int} :
    readInt? text = some n ↔ IntegerText text n := by
  constructor
  · intro h
    unfold readInt? at h
    split at h
    all_goals
      obtain ⟨m, hm, rfl⟩ := Option.map_eq_some_iff.mp h
      obtain ⟨hdigits, rfl⟩ := readNat?_cast_eq_some_iff.mp hm
    · exact .minus hdigits
    · exact .plus hdigits
    · exact .unsigned hdigits
  · intro h
    cases h with
    | plus hdigits =>
      rw [readInt?, readNat?_cast_eq_some_iff.mpr ⟨hdigits, rfl⟩]
      rfl
    | minus hdigits =>
      rw [readInt?, readNat?_cast_eq_some_iff.mpr ⟨hdigits, rfl⟩]
      rfl
    | unsigned hdigits =>
      unfold readInt?
      split
      -- A sign is no digit.
      · exact absurd (hdigits.isDigit '-' List.mem_cons_self) (by decide)
      · exact absurd (hdigits.isDigit '+' List.mem_cons_self) (by decide)
      · rw [readNat?_cast_eq_some_iff.mpr ⟨hdigits, rfl⟩]
        rfl

theorem digits_toDigits (n : Nat) : Digits (Nat.toDigits 10 n) := by
  constructor
  · exact Nat.toDigits_ne_nil
  · intro c hc
    exact Nat.isDigit_of_mem_toDigits (by decide) (by decide) hc

theorem decimalValue_toDigits (n : Nat) : decimalValue (Nat.toDigits 10 n) = n := by
  rw [← digitsValue_eq]
  exact Nat.ofDigitChars_ten_toDigits

theorem integerText_toString (n : Int) : IntegerText (toString n).toList n := by
  cases n with
  | ofNat n =>
    have hchars : (toString (Int.ofNat n)).toList = Nat.toDigits 10 n := Nat.toList_repr
    have htext := IntegerText.unsigned (digits_toDigits n)
    rwa [decimalValue_toDigits, ← hchars] at htext
  | negSucc n =>
    have hchars : (toString (Int.negSucc n)).toList = '-' :: Nat.toDigits 10 (n + 1) := by
      change ("-" ++ toString (n + 1)).toList = _
      rw [String.toList_append]
      exact congrArg ('-' :: ·) Nat.toList_repr
    have htext := IntegerText.minus (digits_toDigits (n + 1))
    rwa [decimalValue_toDigits, ← hchars] at htext

theorem integerText_plus {n : Int} (h : 0 ≤ n) : IntegerText ('+' :: (toString n).toList) n := by
  obtain ⟨m, rfl⟩ := Int.eq_ofNat_of_zero_le h
  have hchars : (toString (m : Int)).toList = Nat.toDigits 10 m := Nat.toList_repr
  have htext := IntegerText.plus (digits_toDigits m)
  rwa [decimalValue_toDigits, ← hchars] at htext

theorem IntegerText.not_space {text : List Char} {n : Int} (h : IntegerText text n) :
    ' ' ∉ text := by
  intro hspace
  have hnone := readInt?_of_space hspace
  rw [readInt?_eq_some_iff.mpr h] at hnone
  cases hnone

theorem IntegerText.ne_nil {text : List Char} {n : Int} (h : IntegerText text n) : text ≠ [] := by
  rintro rfl
  cases h with
  | unsigned hdigits => exact hdigits.nonempty rfl

end Text

theorem readIndent?_eq_some_iff {text : List Char} {amount : Indent} :
    readIndent? text = some amount ↔ Text.IntegerText text amount.levels := by
  rw [← Text.readInt?_eq_some_iff, readIndent?]
  constructor
  · intro h
    obtain ⟨n, hn, hamount⟩ := Option.bind_eq_some_iff.mp h
    unfold Indent.ofInt? at hamount
    split at hamount
    · obtain rfl := Option.some.inj hamount
      exact hn
    · cases hamount
  · intro h
    rw [h]
    exact Indent.ofInt?_levels amount

/-! ## Amounts -/

theorem readAmount_eq_ok_iff {argument : List Char} {amount : Indent} :
    readAmount (some argument) = .ok amount ↔ Text.IntegerText argument amount.levels := by
  rw [← readIndent?_eq_some_iff]
  cases argument with
  | nil => simp [readAmount, readIndent?, Text.readInt?, Text.readNat?]
  | cons c rest =>
    by_cases hspace : ' ' ∈ c :: rest
    · obtain ⟨first, more, hsplit, hfirst⟩ := List.eq_append_cons_of_mem hspace
      have hnone : readIndent? (c :: rest) = none := by
        rw [readIndent?, Text.readInt?_of_space hspace]
        rfl
      rw [hnone]
      simp only [readAmount, hsplit, Text.cutAt_append hfirst]
      split <;> simp
    · simp only [readAmount, Text.cutAt_of_not_mem hspace]
      cases readIndent? (c :: rest) <;> simp

theorem readAmount_eq_missing_iff (argument : List Char) :
    readAmount (some argument) = .error .missing ↔ argument = [] := by
  cases argument with
  | nil => exact ⟨fun _ => rfl, fun _ => rfl⟩
  | cons c rest =>
    simp only [readAmount, reduceCtorEq, iff_false]
    split
    · split <;> simp
    · split <;> simp

theorem readAmount_eq_textAfterAmount_iff (argument : List Char) :
    readAmount (some argument) = .error .textAfterAmount ↔
      ∃ first more, ∃ amount : Indent, argument = first ++ ' ' :: more ∧
        Text.IntegerText first amount.levels := by
  constructor
  · intro h
    cases argument with
    | nil => cases h
    | cons c rest =>
      by_cases hspace : ' ' ∈ c :: rest
      · obtain ⟨first, more, hsplit, hfirst⟩ := List.eq_append_cons_of_mem hspace
        simp only [readAmount, hsplit, Text.cutAt_append hfirst] at h
        split at h
        · rename_i hsome
          obtain ⟨amount, hamount⟩ := Option.isSome_iff_exists.mp hsome
          exact ⟨first, more, amount, hsplit, readIndent?_eq_some_iff.mp hamount⟩
        · cases h
      · simp only [readAmount, Text.cutAt_of_not_mem hspace] at h
        split at h <;> cases h
  · rintro ⟨first, more, amount, rfl, hamount⟩
    obtain ⟨c, rest, rfl⟩ := List.exists_cons_of_ne_nil hamount.ne_nil
    have hsome : (readIndent? (c :: rest)).isSome = true := by
      rw [readIndent?_eq_some_iff.mpr hamount]
      rfl
    have hcut := Text.cutAt_append hamount.not_space more
    rw [List.cons_append] at hcut ⊢
    simp only [readAmount, hcut, if_pos hsome]

/-! ## Lines -/

theorem Directive.ofName?_eq_some_iff {name : String} {d : Directive} :
    ofName? name = some d ↔ (name, d) ∈ names := by
  constructor
  · intro h
    unfold ofName? at h
    split at h <;> cases h <;> decide
  · intro h
    have hall : ∀ entry ∈ names, ofName? entry.1 = some entry.2 := by decide
    exact hall _ h

theorem Directive.not_indent_of_ofName? {name : String} {d : Directive}
    (h : ofName? name = some d) : ' ' ∉ name.toList ∧ name ≠ ".indent" := by
  unfold ofName? at h
  split at h <;> first | decide | simp at h

namespace Directive

theorem names_inj {name other : String} {d : Directive} (h : (name, d) ∈ names)
    (hother : (other, d) ∈ names) : name = other := by
  have hall : ∀ entry ∈ names, ∀ entry' ∈ names, entry.2 = entry'.2 → entry.1 = entry'.1 := by
    decide
  exact hall _ h _ hother rfl

theorem indent_not_mem_names {name : String} {amount : Indent} :
    (name, .indent amount) ∉ names := by
  simp [names]

end Directive

namespace SourceLine
variable {number : Nat} {text : String}

theorem toList_indent (rest : String) :
    (".indent " ++ rest).toList = ".indent".toList ++ ' ' :: rest.toList := by
  rw [String.toList_append]
  rfl

theorem indent_inj {rest more : String} (h : ".indent " ++ rest = ".indent " ++ more) :
    rest = more := by
  have hchars := congrArg String.toList h
  rw [toList_indent, toList_indent] at hchars
  have hrest := List.append_cancel_left hchars
  exact String.toList_inj.mp (List.cons.inj hrest).2

theorem startsIndent_iff :
    StartsIndent text ↔ (Text.cutAt ' ' text.toList).1 = ".indent".toList := by
  constructor
  · rintro (rfl | ⟨rest, rfl⟩)
    · decide
    · rw [toList_indent, Text.cutAt_append (by decide)]
  · intro h
    by_cases hspace : ' ' ∈ text.toList
    · obtain ⟨first, rest, hsplit, hfirst⟩ := List.eq_append_cons_of_mem hspace
      rw [hsplit, Text.cutAt_append hfirst] at h
      obtain rfl : first = ".indent".toList := h
      have hrest : (String.ofList rest).toList = rest := String.toList_ofList
      refine Or.inr ⟨String.ofList rest, ?_⟩
      rw [← String.toList_inj, toList_indent, hsplit, hrest]
    · rw [Text.cutAt_of_not_mem hspace] at h
      exact Or.inl (String.toList_inj.mp h)

theorem StartsIndent.head (h : StartsIndent text) : text.toList.head? = some '.' := by
  rcases h with rfl | ⟨rest, rfl⟩
  · rfl
  · rw [toList_indent]
    rfl

theorem StartsIndent.ne_empty (h : StartsIndent text) : text ≠ "" := by
  rintro rfl
  cases h.head

theorem StartsIndent.ofName? (h : StartsIndent text) : Directive.ofName? text = none := by
  by_contra hsome
  obtain ⟨d, hd⟩ := Option.ne_none_iff_exists'.mp hsome
  obtain ⟨hspace, hname⟩ := Directive.not_indent_of_ofName? hd
  rcases h with rfl | ⟨rest, rfl⟩
  · exact hname rfl
  · exact hspace (by simp)

theorem lacksAmount_iff (rest : String) : LacksAmount (".indent " ++ rest) ↔ rest = "" := by
  constructor
  · rintro (h | h)
    · have hchars := congrArg String.toList h
      rw [toList_indent] at hchars
      simp at hchars
    · exact indent_inj h
  · rintro rfl
    exact Or.inr rfl

theorem isIndent_iff (rest : String) (amount : Indent) :
    IsIndent (".indent " ++ rest) amount ↔ Text.IntegerText rest.toList amount.levels := by
  constructor
  · rintro ⟨more, h, hmore⟩
    rwa [indent_inj h]
  · intro h
    exact ⟨rest, rfl, h⟩

theorem hasMore_iff (rest : String) : HasMore (".indent " ++ rest) ↔
    ∃ first more, ∃ amount : Indent, rest.toList = first ++ ' ' :: more ∧
      Text.IntegerText first amount.levels := by
  constructor
  · rintro ⟨_, amount, more, h, first, rfl, hfirst⟩
    rw [String.append_assoc, String.append_assoc] at h
    refine ⟨first.toList, more.toList, amount, ?_, hfirst⟩
    rw [indent_inj h, String.toList_append, String.toList_append]
    rfl
  · rintro ⟨first, more, amount, h, hfirst⟩
    refine ⟨".indent " ++ String.ofList first, amount, String.ofList more, ?_, ?_⟩
    · rw [← String.toList_inj, toList_indent, h]
      simp [String.toList_append]
    · rwa [isIndent_iff, String.toList_ofList]

theorem LacksAmount.startsIndent (h : LacksAmount text) : StartsIndent text := by
  rcases h with rfl | rfl
  · exact Or.inl rfl
  · exact Or.inr ⟨"", rfl⟩

theorem LacksAmount.not_isIndent (h : LacksAmount text) (amount : Indent) :
    ¬ IsIndent text amount := by
  rintro ⟨rest, rfl, hrest⟩
  rw [lacksAmount_iff] at h
  exact hrest.ne_nil (by rw [h]; rfl)

theorem HasMore.startsIndent (h : HasMore text) : StartsIndent text := by
  obtain ⟨_, amount, more, rfl, first, rfl, -⟩ := h
  rw [String.append_assoc, String.append_assoc]
  exact Or.inr ⟨_, rfl⟩

theorem HasMore.not_isIndent (h : HasMore text) (amount : Indent) : ¬ IsIndent text amount := by
  rintro ⟨rest, rfl, hrest⟩
  obtain ⟨first, more, _, hsplit, -⟩ := (hasMore_iff rest).mp h
  apply hrest.not_space
  rw [hsplit]
  exact List.mem_append_right _ List.mem_cons_self

theorem HasMore.not_lacksAmount (h : HasMore text) : ¬ LacksAmount text := by
  obtain ⟨_, amount, more, rfl, first, rfl, hfirst⟩ := h
  rw [String.append_assoc, String.append_assoc, lacksAmount_iff]
  intro hempty
  have hnil : first = "" := (String.append_eq_empty_iff.mp hempty).1
  exact hfirst.ne_nil (by rw [hnil]; rfl)

/-! ## Reading a line -/

theorem read_name {d : Directive} (h : (text, d) ∈ Directive.names) :
    read number text = .ok (.directive d) := by
  have hall : ∀ entry ∈ Directive.names, entry.1 ≠ "" := by decide
  rw [read, if_neg (hall _ h), Directive.ofName?_eq_some_iff.mpr h]

theorem read_argument (rest : String) : read number (".indent " ++ rest) =
    match readAmount (some rest.toList) with
    | .ok amount => .ok (.directive (.indent amount))
    | .error fault => .error ⟨number, ".indent " ++ rest, fault⟩ := by
  have hindent : StartsIndent (".indent " ++ rest) := Or.inr ⟨rest, rfl⟩
  rw [read, if_neg hindent.ne_empty, hindent.ofName?]
  cases hr : readAmount (some rest.toList) with
  | ok amount =>
    simp only [toList_indent, Text.cutAt_append (by decide : ' ' ∉ ".indent".toList), if_true, hr]
  | error fault =>
    simp only [toList_indent, Text.cutAt_append (by decide : ' ' ∉ ".indent".toList), if_true, hr]

theorem read_other (hempty : text ≠ "") (hname : Directive.ofName? text = none)
    (hindent : ¬ StartsIndent text) : read number text = .ok (.literal text) := by
  rw [read, if_neg hempty, hname]
  exact if_neg fun h => hindent (startsIndent_iff.mpr h)

end SourceLine

def IndentFault.Explains : IndentFault → String → Prop
  | missing, text => SourceLine.LacksAmount text
  | textAfterAmount, text => SourceLine.HasMore text
  | notInteger, text => ¬ SourceLine.LacksAmount text ∧ ¬ SourceLine.HasMore text

theorem IndentFault.Explains.unique {f g : IndentFault} {text : String} (hf : f.Explains text)
    (hg : g.Explains text) : f = g := by
  cases f <;> cases g <;> first | rfl | skip
  · exact absurd hf hg.not_lacksAmount
  · exact absurd hf hg.1
  · exact absurd hg hf.not_lacksAmount
  · exact absurd hf hg.2
  · exact absurd hg hf.1
  · exact absurd hg hf.2

theorem IndentFault.exists_explains (text : String) : ∃ f : IndentFault, f.Explains text := by
  by_cases hlacks : SourceLine.LacksAmount text
  · exact ⟨.missing, hlacks⟩
  · by_cases hmore : SourceLine.HasMore text
    · exact ⟨.textAfterAmount, hmore⟩
    · exact ⟨.notInteger, hlacks, hmore⟩

theorem IndentFault.message_inj {f g : IndentFault} (h : f.message = g.message) : f = g := by
  revert h
  cases f <;> cases g <;> decide

namespace SourceLine
variable {number : Nat} {text : String}

inductive Reads (number : Nat) (text : String) : Except MalformedIndent SourceLine → Prop
  | blank (h : text = "") : Reads number text (.ok .blank)
  | directive {d} (h : (text, d) ∈ Directive.names) : Reads number text (.ok (.directive d))
  | indent {amount} (h : IsIndent text amount) :
    Reads number text (.ok (.directive (.indent amount)))
  | malformed {fault} (hindent : StartsIndent text) (hamount : ∀ amount, ¬ IsIndent text amount)
    (hfault : fault.Explains text) : Reads number text (.error ⟨number, text, fault⟩)
  | literal (hempty : text ≠ "") (hname : ∀ d, (text, d) ∉ Directive.names)
    (hindent : ¬ StartsIndent text) : Reads number text (.ok (.literal text))

theorem explains_of_readAmount {rest : String} {fault : IndentFault}
    (h : readAmount (some rest.toList) = .error fault) : fault.Explains (".indent " ++ rest) := by
  have hmissing := readAmount_eq_missing_iff rest.toList
  have hmore := readAmount_eq_textAfterAmount_iff rest.toList
  rw [String.toList_eq_nil_iff, ← lacksAmount_iff] at hmissing
  rw [← hasMore_iff] at hmore
  rw [h] at hmissing hmore
  cases fault with
  | missing => exact hmissing.mp rfl
  | textAfterAmount => exact hmore.mp rfl
  | notInteger =>
    constructor
    · intro hlacks
      cases hmissing.mpr hlacks
    · intro hhas
      cases hmore.mpr hhas

theorem reads (number : Nat) (text : String) : Reads number text (read number text) := by
  by_cases hempty : text = ""
  · rw [hempty]
    exact .blank rfl
  · by_cases hindent : StartsIndent text
    · rcases hindent with rfl | ⟨rest, rfl⟩
      · have hlacks : LacksAmount ".indent" := Or.inl rfl
        exact .malformed hlacks.startsIndent hlacks.not_isIndent hlacks
      · rw [read_argument]
        cases hr : readAmount (some rest.toList) with
        | ok amount => exact .indent ((isIndent_iff rest amount).mpr (readAmount_eq_ok_iff.mp hr))
        | error fault =>
          refine .malformed (Or.inr ⟨rest, rfl⟩) ?_ (explains_of_readAmount hr)
          intro amount hamount
          rw [isIndent_iff, ← readAmount_eq_ok_iff, hr] at hamount
          cases hamount
    · cases hname : Directive.ofName? text with
      | some d =>
        have hd := Directive.ofName?_eq_some_iff.mp hname
        rw [read_name hd]
        exact .directive hd
      | none =>
        rw [read_other hempty hname hindent]
        refine .literal hempty ?_ hindent
        intro d hd
        rw [Directive.ofName?_eq_some_iff.mpr hd] at hname
        cases hname

theorem read_eq_blank_iff : read number text = .ok .blank ↔ text = "" := by
  constructor
  · intro h
    have houtcome := reads number text
    rw [h] at houtcome
    cases houtcome with
    | blank hempty => exact hempty
  · rintro rfl
    rfl

theorem read_eq_directive_iff {name : String} {d : Directive} (hd : (name, d) ∈ Directive.names) :
    read number text = .ok (.directive d) ↔ text = name := by
  constructor
  · intro h
    have houtcome := reads number text
    rw [h] at houtcome
    cases houtcome with
    | directive hname => exact Directive.names_inj hname hd
    | indent => exact absurd hd Directive.indent_not_mem_names
  · rintro rfl
    exact read_name hd

theorem read_eq_indent_iff {amount : Indent} :
    read number text = .ok (.directive (.indent amount)) ↔ IsIndent text amount := by
  constructor
  · intro h
    have houtcome := reads number text
    rw [h] at houtcome
    cases houtcome with
    | directive hname => exact absurd hname Directive.indent_not_mem_names
    | indent hamount => exact hamount
  · rintro ⟨rest, rfl, hrest⟩
    rw [read_argument, readAmount_eq_ok_iff.mpr hrest]

theorem read_eq_literal_iff {l : String} : read number text = .ok (.literal l) ↔
    l = text ∧ text ≠ "" ∧ (∀ d, (text, d) ∉ Directive.names) ∧ ¬ StartsIndent text := by
  constructor
  · intro h
    have houtcome := reads number text
    rw [h] at houtcome
    cases houtcome with
    | literal hempty hname hindent => exact ⟨rfl, hempty, hname, hindent⟩
  · rintro ⟨rfl, hempty, hname, hindent⟩
    refine read_other hempty ?_ hindent
    by_contra hsome
    obtain ⟨d, hd⟩ := Option.ne_none_iff_exists'.mp hsome
    exact hname d (Directive.ofName?_eq_some_iff.mp hd)

theorem read_eq_error_iff {e : MalformedIndent} : read number text = .error e ↔
    e.line = number ∧ e.text = text ∧
      (StartsIndent text ∧ ∀ amount, ¬ IsIndent text amount) ∧ e.fault.Explains text := by
  constructor
  · intro h
    have houtcome := reads number text
    rw [h] at houtcome
    cases houtcome with
    | malformed hindent hamount hfault => exact ⟨rfl, rfl, ⟨hindent, hamount⟩, hfault⟩
  · rintro ⟨hline, htext, ⟨hindent, hamount⟩, hfault⟩
    -- No other outcome is open to such a line, and no other fault explains it.
    generalize hr : read number text = outcome
    have houtcome := reads number text
    rw [hr] at houtcome
    cases houtcome with
    | blank hempty => exact absurd hempty hindent.ne_empty
    | directive hname =>
      have hnone := hindent.ofName?
      rw [Directive.ofName?_eq_some_iff.mpr hname] at hnone
      cases hnone
    | indent h => exact absurd h (hamount _)
    | literal _ _ h => exact absurd hindent h
    | malformed _ _ h =>
      obtain ⟨line, text, fault⟩ := e
      subst hline htext
      rw [h.unique hfault]

theorem isError_iff : (∃ e, read number text = .error e) ↔
    StartsIndent text ∧ ∀ amount, ¬ IsIndent text amount := by
  constructor
  · rintro ⟨e, h⟩
    exact (read_eq_error_iff.mp h).2.2.1
  · intro h
    obtain ⟨fault, hfault⟩ := IndentFault.exists_explains text
    exact ⟨⟨number, text, fault⟩, read_eq_error_iff.mpr ⟨rfl, rfl, h, hfault⟩⟩

theorem place_of_read {e : MalformedIndent} (h : read number text = .error e) :
    e.line = number ∧ e.text = text := by
  obtain ⟨hline, htext, -⟩ := read_eq_error_iff.mp h
  exact ⟨hline, htext⟩

theorem malformed_iff_isError : Malformed text ↔ ∃ e, read 1 text = .error e := by
  unfold Malformed of?
  cases read 1 text <;> simp [Except.toOption]

theorem failsFor_iff (fault : IndentFault) : FailsFor number text fault.message ↔
    (StartsIndent text ∧ ∀ amount, ¬ IsIndent text amount) ∧ fault.Explains text := by
  constructor
  · rintro ⟨e, he, hmessage⟩
    rw [← IndentFault.message_inj hmessage]
    exact (read_eq_error_iff.mp he).2.2
  · rintro ⟨h, hfault⟩
    exact ⟨⟨number, text, fault⟩, read_eq_error_iff.mpr ⟨rfl, rfl, h, hfault⟩, rfl⟩

theorem failsFor_missing_iff :
    FailsFor number text "missing indent amount" ↔ LacksAmount text := by
  rw [show "missing indent amount" = IndentFault.missing.message from rfl, failsFor_iff]
  constructor
  · rintro ⟨-, h⟩
    exact h
  · intro h
    exact ⟨⟨h.startsIndent, h.not_isIndent⟩, h⟩

theorem failsFor_textAfterAmount_iff :
    FailsFor number text "unexpected text after the indent amount" ↔ HasMore text := by
  rw [show "unexpected text after the indent amount" = IndentFault.textAfterAmount.message from rfl,
    failsFor_iff]
  constructor
  · rintro ⟨-, h⟩
    exact h
  · intro h
    exact ⟨⟨h.startsIndent, h.not_isIndent⟩, h⟩

theorem grammar (number : Nat) (text : String) : Grammar number text where
  blank := read_eq_blank_iff
  directive _ _ := read_eq_directive_iff
  indent _ := read_eq_indent_iff
  literal _ := read_eq_literal_iff
  malformed := isError_iff
  place _ := place_of_read
  missing := failsFor_missing_iff
  textAfterAmount := failsFor_textAfterAmount_iff
  notInteger := failsFor_iff .notInteger

end SourceLine

/-- The grammar of source lines, and that it lets every number of levels be written in decimal. -/
theorem source_line_grammar (number : Nat) :
    (∀ text, SourceLine.Grammar number text) ∧
      ∀ n : Indent,
        SourceLine.read number (".indent " ++ toString n.levels) = .ok (.directive (.indent n)) ∧
        (0 ≤ n.levels →
          SourceLine.read number (".indent +" ++ toString n.levels)
            = .ok (.directive (.indent n))) := by
  refine ⟨SourceLine.grammar number, ?_⟩
  intro n
  constructor
  · rw [SourceLine.read_eq_indent_iff]
    exact ⟨_, rfl, Text.integerText_toString n.levels⟩
  · intro hn
    rw [SourceLine.read_eq_indent_iff]
    refine ⟨"+" ++ toString n.levels, ?_, ?_⟩
    · rw [← String.append_assoc]
      rfl
    · rw [String.toList_append]
      exact Text.integerText_plus hn

/-- The sign and leading zeros belong to the amount, and a space behind it does not. -/
theorem source_line_grammar_signedAmount :
    let seven : Indent := ⟨7, by decide, by decide⟩
    0 ≤ seven.levels ∧
      SourceLine.read 3 ".indent +7" = .ok (.directive (.indent seven)) ∧
      SourceLine.read 3 ".indent +007" = .ok (.directive (.indent seven)) ∧
      SourceLine.FailsFor 3 ".indent +007 " "unexpected text after the indent amount" := by
  intro seven
  obtain ⟨hgrammar, hdecimal⟩ := source_line_grammar 3
  have hamount : SourceLine.IsIndent ".indent +007" seven := by
    have hdigits : Text.Digits ['0', '0', '7'] := ⟨by decide, List.all_eq_true.mp rfl⟩
    exact ⟨"+007", rfl, .plus hdigits⟩
  refine ⟨by decide, (hdecimal seven).2 (by decide), ?_, ?_⟩
  · rw [(hgrammar _).indent]
    exact hamount
  · rw [(hgrammar _).textAfterAmount]
    exact ⟨".indent +007", seven, "", rfl, hamount⟩

end Typesetter
