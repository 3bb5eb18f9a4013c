import Typesetter.Font
import Typesetter.Formatting
import Typesetter.Numeric.Spelling

/-! # The file format

Bytes, numbers and strings of a file, the operators of its pages and its objects. -/
namespace Typesetter.Pdf
open Numeric (Single Binary Spelling)

/-! ## Bytes of a file

Everything but the data of strings is ASCII text, one byte for each character. -/

abbrev Bytes := List UInt8

def ascii (text : String) : Bytes := text.toList.map fun c => c.toNat.toUInt8

@[simp] theorem ascii_append (s t : String) : ascii (s ++ t) = ascii s ++ ascii t := by
  simp [ascii]

def hexDigits (upper : Bool) (b : UInt8) : List Char :=
  let digit (n : Nat) : Char :=
    Char.ofNat (if n < 10 then '0'.toNat + n else (if upper then 'A' else 'a').toNat + (n - 10))
  [digit (b.toNat / 16), digit (b.toNat % 16)]

def hex (bytes : Bytes) : Bytes :=
  bytes.flatMap fun b => (hexDigits true b).map fun c => c.toNat.toUInt8

/-! ## Numbers in a file

A whole number of 32 bits is written as an integer. Others show a point, unless they are so small or
so large that they are written as plain text. -/

def usualNumber : Spelling := ⟨.even, true, none⟩

/-- Numbers of at most a millionth or at least a million million. -/
def extremeNumber : Spelling := ⟨.up, false, none⟩

/-- The number just above the range of integers is written as the last of them. -/
def number (x : Single) : String :=
  let bound : Single := 2147483648
  if x.isWhole ∧ -bound ≤ x ∧ x ≤ bound then toString (x.truncate (-2147483648) 2147483647)
  else if 1e-6 < x.abs ∧ x.abs < 1e12 then usualNumber.write x
  else extremeNumber.write x

/-! ## Strings in a file

A string of ASCII bytes stands in parentheses, with escapes for what is not plain; a string with any
other byte is written in hexadecimal digits. Text beyond printable ASCII is coded as UTF-16. -/

def backslash : UInt8 := 92
def openParen : UInt8 := 40
def closeParen : UInt8 := 41

/-- Nesting depth after a byte; a closing parenthesis that opens nothing has none. -/
def nest (depth : Option Nat) (b : UInt8) : Option Nat :=
  match depth with
  | none => none
  | some d =>
    if b = openParen then some (d + 1)
    else if b = closeParen then (if d = 0 then none else some (d - 1))
    else some d

def isBalanced (bytes : Bytes) : Bool := bytes.foldl nest (some 0) = some 0

def octal (b : UInt8) : Bytes :=
  [48 + b / 64, 48 + b / 8 % 8, 48 + b % 8]

/-- Parentheses stay bare when those of the whole string are balanced. -/
def escapeByte (bare : Bool) (b : UInt8) : Bytes :=
  if b = backslash then [backslash, backslash]
  else if b = openParen ∨ b = closeParen then if bare then [b] else [backslash, b]
  else if 0x20 ≤ b ∧ b ≤ 0x7E then [b]
  else if b = 10 then ascii "\\n"
  else if b = 13 then ascii "\\r"
  else if b = 9 then ascii "\\t"
  else if b = 8 then ascii "\\b"
  else if b = 12 then ascii "\\f"
  else backslash :: octal b

def literalString (bytes : Bytes) : Bytes :=
  [openParen] ++ bytes.flatMap (escapeByte (isBalanced bytes)) ++ [closeParen]

def hexString (bytes : Bytes) : Bytes := ascii "<" ++ hex bytes ++ ascii ">"

def byteString (bytes : Bytes) : Bytes :=
  if bytes.all (· < 0x80) then literalString bytes else hexString bytes

def utf16Unit (n : Nat) : Bytes := [(n / 256).toUInt8, n.toUInt8]

def utf16 (c : Char) : Bytes :=
  let n := c.toNat
  if n < 0x10000 then utf16Unit n
  else utf16Unit (0xD800 + (n - 0x10000) / 0x400) ++ utf16Unit (0xDC00 + (n - 0x10000) % 0x400)

def textString (text : String) : Bytes :=
  if text.toList.all fun c => 0x20 ≤ c.toNat && c.toNat ≤ 0x7E then byteString (ascii text)
  else hexString (utf16Unit 0xFEFF ++ text.toList.flatMap utf16)

/-! ## Page content

The operators that set the text of a page, one on each line of its content stream. -/

inductive Operator where
  | beginText
  /-- Moves relative to the start of the line before. -/
  | moveBy (x y : Single)
  | setFont (face : Face) (size : Single)
  | showText (codes : Bytes)
  | endText
  deriving DecidableEq

def Operator.bytes : Operator → Bytes
  | beginText => ascii "BT"
  | moveBy x y => ascii (number x ++ " " ++ number y ++ " Td")
  | setFont face size => ascii ("/" ++ face.fontName ++ " " ++ number size ++ " Tf")
  | showText codes => byteString codes ++ ascii " Tj"
  | endText => ascii "ET"

def contentBytes (operators : List Operator) : Bytes :=
  List.intercalate (ascii "\n") (operators.map Operator.bytes)

/-! ## The file

A file is a sequence of numbered objects, followed by a table of their places and a trailer that
names the catalog and the document information. -/

/-- Local time, as fourteen digits, and how many seconds it is ahead of UTC. -/
structure Date where
  digits : String
  ahead : Int
  deriving DecidableEq

def twoDigits (n : Nat) : String := (if n < 10 then "0" else "") ++ toString n

/-- The distance from UTC, in which only the hours have a sign. -/
def Date.zone (d : Date) : String :=
  let minutes := d.ahead.tdiv 60
  let hours := minutes.tdiv 60
  let rest := (minutes.tmod 60).natAbs
  if hours = 0 ∧ rest = 0 then "Z"
  else (if hours < 0 then "-" else "+") ++ twoDigits hours.natAbs ++ "'" ++ twoDigits rest

def Date.text (d : Date) : String := "D:" ++ d.digits ++ d.zone

inductive Object where
  | font (face : Face)
  | page (parent contents : Nat) (width height : Single) (fonts : List (Face × Nat))
  | stream (data : Bytes)
  | pageTree (kids : List Nat)
  | catalog (pageTree : Nat)
  | info (title author : Option String) (date : Date)
  deriving DecidableEq

structure NumberedObject where
  number : Nat
  object : Object
  deriving DecidableEq

structure File where
  objects : List NumberedObject
  catalog : Nat
  info : Nat
  id : Bytes

def joinLines (lines : List String) : Bytes := ascii (String.intercalate "\n" lines)

def reference (n : Nat) : String := toString n ++ " 0 R"

def infoEntry (key : String) (value : Option String) : Bytes :=
  match value with
  | none => []
  | some text => ascii ("  /" ++ key ++ " ") ++ textString text ++ ascii "\n"

def Object.bytes : Object → Bytes
  | font face =>
    joinLines ["<<", "  /Type /Font", "  /Subtype /Type1", "  /BaseFont /" ++ face.fontName,
      "  /Encoding /WinAnsiEncoding", ">>"]
  | page parent contents width height fonts =>
    joinLines (["<<", "  /Type /Page",
      "  /MediaBox [0 0 " ++ number width ++ " " ++ number height ++ "]",
      "  /Parent " ++ reference parent, "  /Contents " ++ reference contents,
      "  /Resources <<", "    /Font <<"]
      ++ fonts.map (fun (face, n) => "      /" ++ face.fontName ++ " " ++ reference n)
      ++ ["    >>", "  >>", ">>"])
  | stream data =>
    ascii ("<<\n  /Length " ++ toString data.length ++ "\n>>\nstream\n") ++ data
      ++ ascii "\nendstream"
  | pageTree kids =>
    joinLines ["<<", "  /Type /Pages",
      "  /Kids [" ++ String.intercalate " " (kids.map reference) ++ "]",
      "  /Count " ++ toString kids.length, ">>"]
  | catalog tree => joinLines ["<<", "  /Type /Catalog", "  /Pages " ++ reference tree, ">>"]
  | info title author date =>
    ascii "<<\n" ++ infoEntry "Title" title ++ infoEntry "Author" author
      ++ infoEntry "Creator" (some "txtpdf")
      ++ ascii ("  /CreationDate (" ++ date.text ++ ")\n>>")

def NumberedObject.bytes (o : NumberedObject) : Bytes :=
  ascii (toString o.number ++ " 0 obj\n") ++ o.object.bytes ++ ascii "\nendobj\n\n"

def header : Bytes := ascii "%PDF-1.7\n%" ++ [0x80, 0x80, 0x80, 0x80] ++ ascii "\n\n"

def offsets (start : Nat) (chunks : List (Nat × Bytes)) : List (Nat × Nat) :=
  let place (state : Nat × Array (Nat × Nat)) (chunk : Nat × Bytes) :=
    (state.1 + chunk.2.length, state.2.push (chunk.1, state.1))
  (chunks.foldl place (start, #[])).2.toList

def padded (n : Nat) : String :=
  let digits := toString n
  "".pushn '0' (10 - digits.length) ++ digits

def tableEntry (offset : Nat) : String := padded offset ++ " 00000 n\r\n"

namespace File

def chunks (f : File) : List (Nat × Bytes) := f.objects.map fun o => (o.number, o.bytes)

def size (f : File) : Nat := f.objects.length + 1

/-- The offsets by object number; number zero stands for no object. -/
def offsetTable (f : File) (chunks : List (Nat × Bytes)) : Array Nat :=
  (offsets header.length chunks).foldl (fun table (number, offset) =>
    table.setIfInBounds number offset) (Array.replicate f.size 0)

def table (f : File) (chunks : List (Nat × Bytes)) : Bytes :=
  ascii ("xref\n0 " ++ toString f.size ++ "\n0000000000 65535 f\r\n")
    ++ ((f.offsetTable chunks).toList.drop 1).flatMap fun offset => ascii (tableEntry offset)

def trailer (f : File) (tableOffset : Nat) : Bytes :=
  joinLines ["trailer", "<<", "  /Size " ++ toString f.size, "  /Root " ++ reference f.catalog,
    "  /Info " ++ reference f.info, "  /ID ["] ++ byteString f.id ++ ascii " " ++ byteString f.id
    ++ joinLines ["]", ">>", "startxref", toString tableOffset, "%%EOF"]

def bytes (f : File) : Bytes :=
  let chunks := f.chunks
  let body := chunks.flatMap (·.2)
  header ++ body ++ f.table chunks ++ f.trailer (header.length + body.length)

end File

end Typesetter.Pdf
