import Typesetter.Config.Basic
import Typesetter.Json
import Typesetter.Text

/-! # Reading a configuration

A configuration is a JSON object of named fields, or an array of their values in order; fields left
out keep their defaults. The text is read from front to back and the first fault met is reported. -/
namespace Typesetter
open Numeric (Single Spelling)

inductive Field where
  | measure (measure : Measure)
  | title
  | author
  deriving DecidableEq

namespace Field

def name : Field → String
  | measure m => m.name
  | title => "title"
  | author => "author"

def all : List Field :=
  [.measure .pageWidth, .measure .pageHeight, .measure .pageMargin, .measure .normalFontSize,
    .measure .largeFontSize, .measure .indentUnit, .measure .lineSpacing,
    .measure .paragraphSpacing, .title, .author]

def ofName? (name : String) : Option Field := all.find? (·.name = name)

end Field

inductive Found where
  | null
  | boolean (value : Bool)
  | number (value : Json.Number)
  | text (value : String)
  | sequence
  | map
  deriving DecidableEq

inductive Wanted where
  | number
  | text
  | config
  deriving DecidableEq

inductive ReadFault where
  | json (fault : Json.Fault)
  | unknownField (name : String)
  | repeatedField (field : Field)
  | wrongType (found : Found) (wanted : Wanted)
  deriving DecidableEq

/-- Numbers in messages show a point, or a power of ten below `1e-5` and from `1e+16` on. -/
def Found.spelling : Spelling := ⟨.even, true, some ⟨-4, 16, true⟩⟩

def Found.message : Found → String
  | null => "null"
  | boolean value => "boolean `" ++ (if value then "true" else "false") ++ "`"
  | number (.integer n) => "integer `" ++ toString n ++ "`"
  | number (.float x) => "floating point `" ++ spelling.write x ++ "`"
  | text value => "string " ++ Text.quote value
  | sequence => "sequence"
  | map => "map"

def Wanted.message : Wanted → String
  | number => "f32"
  | text => "a string"
  | config => "struct Config"

/-- What is wrong with a key or a value of a proper text, without the place where it stands. -/
def ReadFault.reason? : ReadFault → Option String
  | json _ => none
  | unknownField name =>
    some ("unknown field `" ++ name ++ "`, expected one of "
      ++ String.intercalate ", " (Field.all.map fun f => "`" ++ f.name ++ "`"))
  | repeatedField field => some ("duplicate field `" ++ field.name ++ "`")
  | wrongType found wanted =>
    some ("invalid type: " ++ found.message ++ ", expected " ++ wanted.message)

/-- The words of a JSON library for the fault of a text; they also tell its place. -/
abbrev Wording := ReadFault → String

namespace Config

abbrev Read (α : Type) := List Char → Except ReadFault (α × List Char)

/-- A scalar of the wrong type is read to its end before it is refused, a bracket is refused at
once. -/
def refuse (wanted : Wanted) (text : List Char) : ReadFault :=
  match text with
  | [] => .json .unfinished
  | 'n' :: rest => scalar .null (Json.word "ull".toList rest)
  | 't' :: rest => scalar (.boolean true) (Json.word "rue".toList rest)
  | 'f' :: rest => scalar (.boolean false) (Json.word "alse".toList rest)
  | '"' :: rest =>
    match Json.quoted rest with
    | .ok (value, _) => .wrongType (.text value) wanted
    | .error e => .json e
  | '[' :: _ => .wrongType .sequence wanted
  | '{' :: _ => .wrongType .map wanted
  | c :: _ =>
    if c = '-' ∨ c.isDigit then
      match Json.number text with
      | .ok (value, _) => .wrongType (.number value) wanted
      | .error e => .json e
    else .json .malformed
where
  scalar (found : Found) : Except Json.Fault (List Char) → ReadFault
    | .ok _ => .wrongType found wanted
    | .error e => .json e

def readMeasure : Read Single := fun text =>
  match Json.skipBlanks text with
  | c :: rest =>
    if c = '-' ∨ c.isDigit then
      match Json.number (c :: rest) with
      | .ok (value, rest) => .ok (value.toSingle, rest)
      | .error e => .error (.json e)
    else .error (refuse .number (c :: rest))
  | [] => .error (.json .unfinished)

def readText : Read (Option String) := fun text =>
  match Json.skipBlanks text with
  | 'n' :: rest =>
    match Json.word "ull".toList rest with
    | .ok rest => .ok (none, rest)
    | .error e => .error (.json e)
  | '"' :: rest =>
    match Json.quoted rest with
    | .ok (value, rest) => .ok (some value, rest)
    | .error e => .error (.json e)
  | text => .error (refuse .text text)

def readField (c : Config) (field : Field) (text : List Char) :
    Except ReadFault (Config × List Char) :=
  match field with
  | .measure m => (readMeasure text).map fun (v, rest) => (c.set m v, rest)
  | .title => (readText text).map fun (v, rest) => ({ c with title := v }, rest)
  | .author => (readText text).map fun (v, rest) => ({ c with author := v }, rest)

def readKey (seen : List Field) (text : List Char) : Except ReadFault (Field × List Char) :=
  match Json.quoted text with
  | .error e => .error (.json e)
  | .ok (name, rest) =>
    match Field.ofName? name with
    | none => .error (.unknownField name)
    | some field => if field ∈ seen then .error (.repeatedField field) else .ok (field, rest)

def readMember (c : Config) (field : Field) (text : List Char) :
    Except ReadFault (Config × List Char) :=
  match Json.colon text with
  | .error e => .error (.json e)
  | .ok rest => c.readField field rest

/-- The members of an object; every one names a new field, so there is one step for each field and
one for the closing bracket. -/
def readMembers : Nat → List Field → Config → List Char → Except ReadFault (Config × List Char)
  | 0, _, _, _ => .error (.json .malformed)
  | steps + 1, seen, c, text =>
    match Json.nextMember seen.isEmpty text with
    | .error e => .error (.json e)
    | .ok (.done rest) => .ok (c, rest)
    | .ok (.item rest) => do
      let (field, rest) ← readKey seen rest
      let (c, rest) ← c.readMember field rest
      readMembers steps (field :: seen) c rest

/-- The elements of an array are the fields in order. -/
def readElements (c : Config) (first : Bool) (text : List Char) :
    List Field → Except ReadFault (Config × List Char)
  | [] => ((Json.closeArray text).mapError .json).map (c, ·)
  | field :: fields =>
    match Json.nextElement first text with
    | .error e => .error (.json e)
    | .ok (.done rest) => .ok (c, rest)
    | .ok (.item rest) => do
      let (c, rest) ← c.readField field rest
      c.readElements false rest fields

def read (text : String) : Except ReadFault Config := do
  let (c, rest) ← match Json.skipBlanks text.toList with
    | '[' :: rest => readElements {} true rest Field.all
    | '{' :: rest => readMembers (Field.all.length + 1) [] {} rest
    | text => .error (refuse .config text)
  ((Json.finish rest).mapError .json).map fun _ => c

end Config
end Typesetter
