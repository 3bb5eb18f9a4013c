import Typesetter.Proofs.Values

/-! # Lines of a file

Objects and the trailer are written line by line. Each kind of line comes with its tokens, so that
lines put one under the other are read as the tokens of all of them. -/
namespace Typesetter.Pdf
open Numeric (Single)

theorem ascii_intercalate (separator : String) (texts : List String) :
    ascii (String.intercalate separator texts) =
      List.intercalate (ascii separator) (texts.map ascii) := by
  induction texts with
  | nil => rfl
  | cons text rest ih =>
    cases rest with
    | nil => simp
    | cons next rest =>
      rw [String.intercalate_cons_cons, ascii_append, ascii_append, ih, List.map_cons,
        List.map_cons, List.map_cons, List.intercalate_cons_cons]

/-- A line with its tokens, which are read whatever the next line is. -/
structure SpelledLine where
  bytes : Bytes
  tokens : List Token
  ne_nil : tokens ≠ []
  lexed : ∀ next, Lexed (bytes ++ 10 :: next) tokens (10 :: next)

def lineBytes (lines : List SpelledLine) : Bytes :=
  List.intercalate [10] (lines.map SpelledLine.bytes)

theorem lexed_lineBytes (lines : List SpelledLine) (next : Bytes) :
    Lexed (lineBytes lines ++ 10 :: next) (lines.flatMap SpelledLine.tokens) (10 :: next) := by
  have hread : ∀ l ∈ lines, l.tokens ≠ [] ∧ ∀ rest, (∃ next, rest = 10 :: next) →
      Lexed (l.bytes ++ rest) l.tokens rest := by
    rintro l -
    refine ⟨l.ne_nil, ?_⟩
    rintro _ ⟨next, rfl⟩
    exact l.lexed next
  exact Lexed.intercalate (s := 10) rfl (fun rest => ⟨rest, rfl⟩) hread ⟨next, rfl⟩

theorem lineBytes_concat (lines : List SpelledLine) (last : SpelledLine) :
    lineBytes (lines ++ [last]) = (lines.flatMap fun l => l.bytes ++ [10]) ++ last.bytes := by
  unfold lineBytes
  induction lines with
  | nil => simp
  | cons l lines ih =>
    obtain ⟨next, rest, hrest⟩ : ∃ next rest, lines ++ [last] = next :: rest :=
      List.exists_cons_of_ne_nil (by simp)
    rw [List.cons_append, hrest, List.map_cons, List.map_cons, List.intercalate_cons_cons,
      ← List.map_cons, ← hrest, ih, List.flatMap_cons, List.append_assoc, List.append_assoc,
      List.append_assoc]

theorem lineBytes_next {lines : List SpelledLine} (h : lines ≠ []) (next : Bytes) :
    lineBytes lines ++ 10 :: next = (lines.flatMap fun l => l.bytes ++ [10]) ++ next := by
  obtain ⟨init, last, rfl⟩ := (List.eq_nil_or_concat lines).resolve_left h
  simp [lineBytes_concat]

theorem lineBytes_eq_joinLines {lines : List SpelledLine} {texts : List String}
    (h : lines.map SpelledLine.bytes = texts.map ascii) : lineBytes lines = joinLines texts := by
  rw [lineBytes, joinLines, ascii_intercalate, h]
  rfl

theorem Lexed.nat (n : Nat) {rest : Bytes} (hrest : EndsWord rest) :
    Lexed (ascii (toString n) ++ rest) (Value.nat n).tokens rest :=
  .keyword _ (isWord_nat n) hrest

theorem Lexed.reference (n : Nat) {rest : Bytes} (hrest : EndsWord rest) :
    Lexed (ascii (Pdf.reference n) ++ rest) (Value.reference n).tokens rest := by
  have hend := (Lexed.keyword "R" (by decide) hrest).blank (List.cons_ne_nil _ _)
  have hzero := (Lexed.keyword "0" (by decide) (endsWord_cons rfl _)).trans hend
  have hnumber := (Lexed.nat n (endsWord_cons rfl _)).trans (hzero.blank (List.cons_ne_nil _ _))
  rw [Pdf.reference, ascii_append, List.append_assoc]
  exact hnumber

/-- Text that stands in a string as it is. -/
def Plain (text : String) : Prop := ∀ b ∈ ascii text, ∀ bare, escapeByte bare b = [b]

instance (text : String) : Decidable (Plain text) :=
  inferInstanceAs (Decidable (∀ b ∈ ascii text, ∀ bare, escapeByte bare b = [b]))

theorem Plain.append {s t : String} (hs : Plain s) (ht : Plain t) : Plain (s ++ t) := by
  intro b hb
  rw [ascii_append, List.mem_append] at hb
  exact hb.elim (hs b) (ht b)

theorem Numeral.plain {s : String} (h : Numeral s) : Plain s :=
  h.forall_mem_ascii (P := fun b => ∀ bare, escapeByte bare b = [b]) (by decide) (by decide)

theorem Plain.literalString {text : String} (h : Plain text) :
    literalString (ascii text) = ascii "(" ++ (ascii text ++ ascii ")") := by
  have hbytes : (ascii text).flatMap (escapeByte (isBalanced (ascii text))) = ascii text := by
    rw [List.flatMap_def, List.map_congr_left fun b hb => h b hb _, ← List.flatMap_def]
    exact List.flatMap_singleton' _
  rw [Pdf.literalString, hbytes, List.append_assoc]
  rfl

theorem plain_twoDigits (n : Nat) : Plain (twoDigits n) := by
  refine Plain.append ?_ (numeral_nat n).plain
  split <;> decide

theorem Date.plain_zone (d : Date) : Plain d.zone := by
  have hmark : Plain "'" := by decide
  unfold zone
  dsimp only
  split
  · decide
  · refine ((Plain.append ?_ (plain_twoDigits _)).append hmark).append (plain_twoDigits _)
    split <;> decide

theorem Date.plain_text {d : Date} (h : Digits d.digits) : Plain d.text := by
  have hstart : Plain "D:" := by decide
  exact (hstart.append h.numeral.plain).append d.plain_zone

namespace SpelledLine

def openDictionary : SpelledLine :=
  ⟨ascii "<<", [.beginDictionary], List.cons_ne_nil _ _, fun _ => rfl⟩

def closeDictionary : SpelledLine :=
  ⟨ascii ">>", [.endDictionary], List.cons_ne_nil _ _, fun _ => rfl⟩

def word (text : String) (h : IsWord (ascii text)) : SpelledLine where
  bytes := ascii text
  tokens := [keyword text]
  ne_nil := List.cons_ne_nil _ _
  lexed _ := .keyword text h (endsWord_cons rfl _)

def nat (n : Nat) : SpelledLine where
  bytes := ascii (toString n)
  tokens := (Value.nat n).tokens
  ne_nil := List.cons_ne_nil _ _
  lexed _ := Lexed.nat n (endsWord_cons rfl _)

def reference (n : Nat) : SpelledLine where
  bytes := ascii (Pdf.reference n)
  tokens := (Value.reference n).tokens
  ne_nil := List.cons_ne_nil _ _
  lexed _ := Lexed.reference n (endsWord_cons rfl _)

def name (text : String) (h : IsWord (ascii text)) : SpelledLine where
  bytes := ascii "/" ++ ascii text
  tokens := (Value.name (ascii text)).tokens
  ne_nil := List.cons_ne_nil _ _
  lexed next := .single (token?_name h.regular (endsWord_cons rfl next))

def string (text : String) : SpelledLine where
  bytes := textString text
  tokens := (Value.string (textBytes text)).tokens
  ne_nil := List.cons_ne_nil _ _
  lexed _ := .single (token?_textString text _)

def date (d : Date) (h : Digits d.digits) : SpelledLine where
  bytes := ascii "(" ++ (ascii d.text ++ ascii ")")
  tokens := (Value.string (ascii d.text)).tokens
  ne_nil := List.cons_ne_nil _ _
  lexed next := by
    rw [← (Date.plain_text h).literalString]
    exact .single (token?_literalString _ _)

def box (width height : Single) : SpelledLine where
  bytes := ascii "[0 0 " ++ (ascii (number width) ++ (ascii " " ++ (ascii (number height) ++
    ascii "]")))
  tokens := (Value.array [.nat 0, .nat 0, .number width, .number height]).tokens
  ne_nil := List.cons_ne_nil _ _
  lexed next := by
    have hend : Lexed (ascii "]" ++ 10 :: next) [.endArray] (10 :: next) := rfl
    have hheight := (Lexed.numeral height (endsWord_cons rfl _)).trans hend
    have hwidth := (Lexed.numeral width (endsWord_cons rfl _)).trans
      (hheight.blank (List.cons_ne_nil _ _))
    have hstart : ∀ rest : Bytes, Lexed (ascii "[0 0 " ++ rest)
      [.beginArray, keyword "0", keyword "0"] (ascii " " ++ rest) := fun _ => rfl
    simp only [List.append_assoc]
    exact (hstart _).trans (hwidth.blank (List.cons_ne_nil _ _))

def references (numbers : List Nat) : SpelledLine where
  bytes := ascii "[" ++ (ascii (String.intercalate " " (numbers.map Pdf.reference)) ++ ascii "]")
  tokens := (Value.array (numbers.map .reference)).tokens
  ne_nil := List.cons_ne_nil _ _
  lexed next := by
    have hread : ∀ n ∈ numbers, (Value.reference n).tokens ≠ [] ∧ ∀ rest, EndsWord rest →
        Lexed (ascii (Pdf.reference n) ++ rest) (Value.reference n).tokens rest :=
      fun n _ => ⟨List.cons_ne_nil _ _, fun _ => Lexed.reference n⟩
    have hnumbers := Lexed.intercalate (s := 32) rfl (endsWord_cons rfl) hread
      (endsWord_cons (b := 93) rfl (10 :: next))
    have hend : Lexed (ascii "]" ++ 10 :: next) [.endArray] (10 :: next) := rfl
    have hstart : ∀ rest : Bytes, Lexed (ascii "[" ++ rest) [.beginArray] rest := fun _ => rfl
    have hitems := (hstart _).trans (hnumbers.trans hend)
    have htokens : (Value.array (numbers.map .reference)).tokens =
        [.beginArray] ++
          (numbers.flatMap (fun n => (Value.reference n).tokens) ++ [.endArray]) := by
      rw [Value.tokens, Value.itemTokens_eq, List.flatMap_map]
      rfl
    have hbytes : ascii (String.intercalate " " (numbers.map Pdf.reference)) =
        List.intercalate [32] (numbers.map fun n => ascii (Pdf.reference n)) := by
      rw [ascii_intercalate, List.map_map]
      rfl
    rw [htokens, hbytes, List.append_assoc, List.append_assoc]
    exact hitems

/-- The same identifier twice, for the file as it was made first and as it is. -/
def identifiers (id : Bytes) : SpelledLine where
  bytes := ascii "[" ++ (byteString id ++ (ascii " " ++ (byteString id ++ ascii "]")))
  tokens := (Value.array [.string id, .string id]).tokens
  ne_nil := List.cons_ne_nil _ _
  lexed next := by
    have hend : Lexed (ascii "]" ++ 10 :: next) [.endArray] (10 :: next) := rfl
    have hsecond := (Lexed.single (token?_byteString id _)).trans hend
    have hfirst := (Lexed.single (token?_byteString id _)).trans
      (hsecond.blank (List.cons_ne_nil _ _))
    have hstart : ∀ rest : Bytes, Lexed (ascii "[" ++ rest) [.beginArray] rest := fun _ => rfl
    simp only [List.append_assoc]
    exact (hstart _).trans hfirst

def indented (line : SpelledLine) : SpelledLine where
  bytes := ascii "  " ++ line.bytes
  tokens := line.tokens
  ne_nil := line.ne_nil
  lexed next := ((line.lexed next).blank line.ne_nil).blank line.ne_nil

def entry (key : String) (h : IsWord (ascii key)) (value : SpelledLine) : SpelledLine where
  bytes := ascii "  /" ++ (ascii key ++ (ascii " " ++ value.bytes))
  tokens := .name (ascii key) :: value.tokens
  ne_nil := List.cons_ne_nil _ _
  lexed next := by
    have hvalue := (value.lexed next).blank value.ne_nil
    have hname := Lexed.cons (token?_name h.regular (endsWord_cons rfl _)) hvalue
    simp only [List.append_assoc]
    exact (hname.blank (List.cons_ne_nil _ _)).blank (List.cons_ne_nil _ _)

def knownEntry (key : String) (h : IsWord (ascii key)) (value : Option String) :
    List SpelledLine :=
  value.toList.map fun text => entry key h (string text)

theorem bytes_knownEntry (key : String) (h : IsWord (ascii key)) (value : Option String) :
    (knownEntry key h value).flatMap (fun l => l.bytes ++ [10]) = infoEntry key value := by
  cases value with
  | none => rfl
  | some text =>
    simp only [knownEntry, infoEntry, entry, string, Option.toList_some, List.map_singleton,
      List.flatMap_singleton, ascii_append, List.append_assoc]
    rfl

end SpelledLine
end Typesetter.Pdf
