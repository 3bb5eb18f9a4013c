import Mathlib.Logic.Function.Basic
import Typesetter.Proofs.SpelledLines

/-! # Objects

Every object of a file has a value, and a reader of its bytes finds this value under the number of
the object, and behind it the data of a stream. -/
namespace Typesetter.Pdf
open Numeric (Single)

/-! ## Values -/

def Object.value : Object → Value
  | font face =>
    .dictionary [(ascii "Type", .name (ascii "Font")), (ascii "Subtype", .name (ascii "Type1")),
      (ascii "BaseFont", .name (ascii face.fontName)),
      (ascii "Encoding", .name (ascii "WinAnsiEncoding"))]
  | page parent contents width height fonts =>
    .dictionary [(ascii "Type", .name (ascii "Page")),
      (ascii "MediaBox", .array [.nat 0, .nat 0, .number width, .number height]),
      (ascii "Parent", .reference parent), (ascii "Contents", .reference contents),
      (ascii "Resources", .dictionary [(ascii "Font",
        .dictionary (fonts.map fun (face, n) => (ascii face.fontName, .reference n)))])]
  | stream data => .dictionary [(ascii "Length", .nat data.length)]
  | pageTree kids =>
    .dictionary [(ascii "Type", .name (ascii "Pages")),
      (ascii "Kids", .array (kids.map .reference)), (ascii "Count", .nat kids.length)]
  | catalog tree =>
    .dictionary [(ascii "Type", .name (ascii "Catalog")), (ascii "Pages", .reference tree)]
  | info title author date =>
    .dictionary (title.toList.map (fun text => (ascii "Title", .string (textBytes text)))
      ++ author.toList.map (fun text => (ascii "Author", .string (textBytes text)))
      ++ [(ascii "Creator", .string (textBytes "txtpdf")),
        (ascii "CreationDate", .string (ascii date.text))])

def Object.data? : Object → Option Bytes
  | stream data => some data
  | _ => none

/-- The date of a document is written as it is, so only digits are sure to read back. -/
def Object.Dated : Object → Prop
  | info _ _ date => Digits date.digits
  | _ => True

namespace Object
open SpelledLine

def infoLines (title author : Option String) : List SpelledLine :=
  [openDictionary] ++ knownEntry "Title" (by decide) title ++ knownEntry "Author" (by decide) author
    ++ knownEntry "Creator" (by decide) (some "txtpdf")

def fontLine (face : Face) (n : Nat) : SpelledLine :=
  (entry face.fontName (isWord_fontName face) (.reference n)).indented.indented

def lines : Object → List SpelledLine
  | font face =>
    [openDictionary, entry "Type" (by decide) (name "Font" (by decide)),
      entry "Subtype" (by decide) (name "Type1" (by decide)),
      entry "BaseFont" (by decide) (name face.fontName (isWord_fontName face)),
      entry "Encoding" (by decide) (name "WinAnsiEncoding" (by decide)), closeDictionary]
  | page parent contents width height fonts =>
    [openDictionary, entry "Type" (by decide) (name "Page" (by decide)),
      entry "MediaBox" (by decide) (box width height),
      entry "Parent" (by decide) (.reference parent),
      entry "Contents" (by decide) (.reference contents),
      entry "Resources" (by decide) openDictionary,
      (entry "Font" (by decide) openDictionary).indented]
    ++ fonts.map (fun (face, n) => fontLine face n)
    ++ [closeDictionary.indented.indented, closeDictionary.indented, closeDictionary]
  | stream data =>
    [openDictionary, entry "Length" (by decide) (.nat data.length), closeDictionary]
  | pageTree kids =>
    [openDictionary, entry "Type" (by decide) (name "Pages" (by decide)),
      entry "Kids" (by decide) (.references kids),
      entry "Count" (by decide) (.nat kids.length), closeDictionary]
  | catalog tree =>
    [openDictionary, entry "Type" (by decide) (name "Catalog" (by decide)),
      entry "Pages" (by decide) (.reference tree), closeDictionary]
  | info title author date =>
    if h : Digits date.digits then
      infoLines title author ++ [entry "CreationDate" (by decide) (.date date h), closeDictionary]
    else []

theorem lineBytes_page (parent contents : Nat) (width height : Single)
    (fonts : List (Face × Nat)) :
    lineBytes (page parent contents width height fonts).lines =
      (page parent contents width height fonts).bytes := by
  have hfont : ∀ (face : Face) (n : Nat), (fontLine face n).bytes =
      ascii ("      /" ++ face.fontName ++ " " ++ reference n) := by
    intro face n
    simp only [ascii_append, List.append_assoc]
    rfl
  refine lineBytes_eq_joinLines ?_
  simp only [lines, List.map_append, List.map_map]
  refine congrArg₂ (· ++ ·) (congrArg₂ (· ++ ·) ?_ ?_) rfl
  · simp only [List.map_cons, ascii_append, List.append_assoc]
    rfl
  · exact List.map_congr_left fun (face, n) _ => hfont face n

theorem flatMap_infoLines (title author : Option String) :
    (infoLines title author).flatMap (fun l => l.bytes ++ [10]) =
      ascii "<<\n" ++ (infoEntry "Title" title ++ (infoEntry "Author" author ++
        infoEntry "Creator" (some "txtpdf"))) := by
  simp only [infoLines, List.flatMap_append, List.flatMap_singleton, bytes_knownEntry,
    List.append_assoc]
  rfl

theorem lineBytes_info (title author : Option String) {date : Date} (h : Digits date.digits) :
    lineBytes (info title author date).lines = (info title author date).bytes := by
  have hlines : (info title author date).lines = (infoLines title author ++
      [entry "CreationDate" (by decide) (.date date h)]) ++ [closeDictionary] := by
    rw [lines, dif_pos h, List.append_assoc]
    rfl
  rw [hlines, lineBytes_concat, List.flatMap_append, flatMap_infoLines, List.flatMap_singleton]
  simp only [entry, SpelledLine.date, bytes, ascii_append, List.append_assoc]
  rfl

theorem lexed_info (title author : Option String) (date : Date) (rest : Bytes) :
    ∃ behind, Lexed ((info title author date).bytes ++ rest)
      ((infoLines title author).flatMap SpelledLine.tokens) behind := by
  have hlines := lexed_lineBytes (infoLines title author)
    (ascii ("  /CreationDate (" ++ date.text ++ ")\n>>") ++ rest)
  rw [lineBytes_next (by simp [infoLines]), flatMap_infoLines] at hlines
  refine ⟨10 :: (ascii ("  /CreationDate (" ++ date.text ++ ")\n>>") ++ rest), ?_⟩
  simp only [bytes, List.append_assoc] at hlines ⊢
  exact hlines

theorem lineBytes_lines {o : Object} (h : o.Dated) (hdata : o.data? = none) :
    lineBytes o.lines = o.bytes := by
  cases o with
  | stream data => simp [data?] at hdata
  | font | catalog | pageTree =>
    refine lineBytes_eq_joinLines ?_
    simp only [List.map_cons, ascii_append]
    rfl
  | page parent contents width height fonts => exact lineBytes_page ..
  | info title author date => exact lineBytes_info title author h

def closing (data : Option Bytes) : String := if data.isSome then "stream" else "endobj"

def remainder (data : Option Bytes) : Bytes :=
  match data with
  | none => ascii "\n\n"
  | some data => 10 :: (data ++ ascii "\nendstream\nendobj\n\n")

def ending (data : Option Bytes) : Bytes := ascii (closing data) ++ remainder data

theorem bytes_stream (data : Bytes) :
    (stream data).bytes ++ ascii "\nendobj\n\n" =
      lineBytes (stream data).lines ++ 10 :: ending (some data) := by
  have hend : ascii "\nendstream" ++ ascii "\nendobj\n\n" =
    ascii "\nendstream\nendobj\n\n" := rfl
  have hclosing : closing (some data) = "stream" := rfl
  simp only [bytes, ascii_append, List.append_assoc, hend, lines, lineBytes, List.map_cons,
    List.map_nil, List.intercalate_cons_cons, List.intercalate_singleton, entry, nat, ending,
    hclosing, remainder]
  rfl

theorem bytes_eq_lineBytes (o : Object) (h : o.Dated) :
    o.bytes ++ ascii "\nendobj\n\n" = lineBytes o.lines ++ 10 :: ending o.data? := by
  cases hdata : o.data? with
  | none =>
    rw [lineBytes_lines h hdata]
    rfl
  | some data =>
    obtain rfl : o = stream data := by cases o <;> simp_all [data?]
    exact bytes_stream data

theorem tokens_lines (o : Object) (h : o.Dated) :
    o.lines.flatMap SpelledLine.tokens = o.value.tokens := by
  cases o with
  | font | stream | catalog => rfl
  | pageTree kids =>
    simp [lines, entry, name, references, nat, openDictionary, closeDictionary, value,
      Value.tokens, Value.entryTokens]
  | page parent contents width height fonts =>
    have hfonts : (fonts.map fun (face, n) => fontLine face n).flatMap SpelledLine.tokens =
        Value.entryTokens (fonts.map fun (face, n) => (ascii face.fontName, .reference n)) := by
      rw [Value.entryTokens_eq, List.flatMap_map, List.flatMap_map]
      rfl
    rw [lines, List.flatMap_append, List.flatMap_append, hfonts]
    simp [entry, indented, name, box, SpelledLine.reference, openDictionary, closeDictionary,
      value, Value.tokens, Value.entryTokens]
  | info title author date =>
    have hdigits : Digits date.digits := h
    rw [lines, dif_pos hdigits]
    cases title <;> cases author <;>
      simp [infoLines, knownEntry, entry, string, SpelledLine.date, openDictionary,
        closeDictionary, value, Value.tokens, Value.entryTokens]

theorem lexed_value (o : Object) (h : o.Dated) (rest : Bytes) :
    Lexed (o.bytes ++ (ascii "\nendobj\n\n" ++ rest)) o.value.tokens
      (10 :: (ending o.data? ++ rest)) := by
  have hlines := lexed_lineBytes o.lines (ending o.data? ++ rest)
  rwa [tokens_lines o h, ← List.cons_append, ← List.append_assoc, ← bytes_eq_lineBytes o h,
    List.append_assoc] at hlines

end Object

/-! ## Reading -/

/-- An object as it is read: its number, its value, and the data that follows if it is a stream. -/
structure Entity where
  number : Nat
  value : Value
  data : Option Bytes

/-- The data of a stream of this length, which must be followed by the end of the stream. -/
def data? (length : Nat) : Bytes → Option Bytes
  | 10 :: rest =>
    if (ascii "\nendstream\nendobj\n").isPrefixOf (rest.drop length) then some (rest.take length)
    else none
  | _ => none

def object? (bytes : Bytes) : Option Entity :=
  match tokens? [ascii "endobj", ascii "stream"] bytes with
  | some (.word number :: .word generation :: .word start :: ts, rest) =>
    if nat? generation = some 0 ∧ start = ascii "obj" then
      match nat? number, values? ts.dropLast with
      | some n, some [v] =>
        if ts.getLast? = some (keyword "stream") then
          (((v.get? "Length").bind Value.nat?).bind (data? · rest)).map (⟨n, v, some ·⟩)
        else some ⟨n, v, none⟩
      | _, _ => none
    else none
  | _ => none

theorem data?_ending (data rest : Bytes) :
    data? data.length (10 :: (data ++ (ascii "\nendstream\nendobj\n\n" ++ rest))) = some data := by
  have hend : (ascii "\nendstream\nendobj\n").isPrefixOf
      (ascii "\nendstream\nendobj\n\n" ++ rest) = true := rfl
  rw [data?, List.drop_left, List.take_left, if_pos hend]

def objectStart (n : Nat) : List Token := [keyword (toString n), keyword "0", keyword "obj"]

theorem lexed_objectStart (n : Nat) (rest : Bytes) :
    Lexed (ascii (toString n ++ " 0 obj\n") ++ rest) (objectStart n) (10 :: rest) := by
  have hend : ∀ rest : Bytes, Lexed (ascii " 0 obj\n" ++ rest) [keyword "0", keyword "obj"]
    (10 :: rest) := fun _ => rfl
  rw [ascii_append, List.append_assoc]
  exact (Lexed.nat n (endsWord_cons rfl _)).trans (hend rest)

namespace NumberedObject

theorem lexed_bytes (o : NumberedObject) (h : o.object.Dated) (rest : Bytes) :
    Lexed (o.bytes ++ rest)
      ((objectStart o.number ++ o.object.value.tokens) ++ [keyword (Object.closing o.object.data?)])
      (Object.remainder o.object.data? ++ rest) := by
  have hword : IsWord (ascii (Object.closing o.object.data?)) := by
    unfold Object.closing
    split <;> decide
  have hends : EndsWord (Object.remainder o.object.data? ++ rest) := by
    cases o.object.data? <;> exact endsWord_cons rfl _
  have hclosing := (Lexed.keyword _ hword hends).space (b := 10) rfl (List.cons_ne_nil _ _)
  have hvalue := o.object.lexed_value h rest
  rw [Object.ending, List.append_assoc] at hvalue
  have hstart := lexed_objectStart o.number (o.object.bytes ++ (ascii "\nendobj\n\n" ++ rest))
  have hne : o.object.value.tokens ≠ [] := by cases o.object <;> exact List.cons_ne_nil _ _
  rw [NumberedObject.bytes, List.append_assoc, List.append_assoc]
  exact (hstart.trans (hvalue.space rfl hne)).trans hclosing

theorem tokens?_bytes (o : NumberedObject) (h : o.object.Dated) (rest : Bytes) :
    tokens? [ascii "endobj", ascii "stream"] (o.bytes ++ rest) =
      some ((objectStart o.number ++ o.object.value.tokens) ++
        [keyword (Object.closing o.object.data?)], Object.remainder o.object.data? ++ rest) := by
  have hstops : ∀ stop ∈ [ascii "endobj", ascii "stream"],
      stop ∈ reserved.map ascii ∧ stop ≠ ascii "R" := by decide
  have hkeywords : ∀ t ∈ [keyword "0", keyword "obj"],
      t ∉ [ascii "endobj", ascii "stream"].map Token.word := by decide
  refine (o.lexed_bytes h rest).tokens?_stop ?_ ?_
  · intro t ht
    rcases List.mem_append.mp ht with ht | ht
    · rcases List.mem_cons.mp ht with rfl | ht
      · exact Value.tokens_not_stop hstops (.nat o.number) _ List.mem_cons_self
      · exact hkeywords t ht
    · exact Value.tokens_not_stop hstops _ t ht
  · cases o.object.data? <;> simp [Object.closing, keyword]

/-- Every object of a file reads back from its bytes, whatever follows them. -/
theorem object?_bytes (o : NumberedObject) (h : o.object.Dated) (rest : Bytes) :
    object? (o.bytes ++ rest) = some ⟨o.number, o.object.value, o.object.data?⟩ := by
  have hzero : nat? (ascii "0") = some 0 := nat?_nat 0
  rw [object?, o.tokens?_bytes h rest]
  simp only [objectStart, keyword, List.cons_append, List.nil_append, and_true, if_pos hzero]
  rw [nat?_nat, List.dropLast_concat, values?_tokens]
  simp only [List.getLast?_concat]
  cases hdata : o.object.data? with
  | none => rw [if_neg (by decide)]
  | some data =>
    obtain ⟨n, object⟩ := o
    obtain rfl : object = .stream data := by cases object <;> simp_all [Object.data?]
    have hlength : ((Object.stream data).value.get? "Length").bind Value.nat? =
      some data.length := nat?_nat data.length
    have hclosing : Object.closing (some data) = "stream" := rfl
    have hend := data?_ending data rest
    rw [hclosing, if_pos rfl, hlength, Option.bind_some, Object.remainder, List.cons_append,
      List.append_assoc, hend]
    rfl

end NumberedObject

/-! ## The trailer -/

def File.trailerValue (f : File) : Value :=
  .dictionary [(ascii "Size", .nat f.size), (ascii "Root", .reference f.catalog),
    (ascii "Info", .reference f.info), (ascii "ID", .array [.string f.id, .string f.id])]

end Typesetter.Pdf
