import Typesetter.Text.Hidden

/-! # Text

Blank characters, pieces and lines of a text, the integers in it, and how it is quoted. -/
namespace Typesetter.Text

/-! ## Blank characters

The characters with the Unicode property `White_Space`. -/

def isBlank (c : Char) : Bool :=
  let n := c.toNat
  (0x09 ≤ n && n ≤ 0x0D) || n = 0x20 || n = 0x85 || n = 0xA0 || n = 0x1680
    || (0x2000 ≤ n && n ≤ 0x200A) || n = 0x2028 || n = 0x2029 || n = 0x202F || n = 0x205F
    || n = 0x3000

/-! ## Pieces of text

Cutting text at separators. Every separator ends a piece, so there is always a first one, and pieces
may be empty. -/

/-- The piece before the first separator and the pieces after each separator. -/
def pieces (separates : Char → Bool) (text : List Char) : List Char × List (List Char) :=
  text.foldr
    (fun c (first, rest) => if separates c then ([], first :: rest) else (c :: first, rest))
    ([], [])

@[simp] theorem pieces_nil (separates : Char → Bool) : pieces separates [] = ([], []) := rfl

theorem pieces_cons (separates : Char → Bool) (c : Char) (text : List Char) :
    pieces separates (c :: text) =
      if separates c then ([], (pieces separates text).1 :: (pieces separates text).2)
      else (c :: (pieces separates text).1, (pieces separates text).2) := rfl

def cutAt (c : Char) (text : List Char) : List Char × Option (List Char) :=
  match text.dropWhile (· != c) with
  | [] => (text, none)
  | _ :: rest => (text.takeWhile (· != c), some rest)

/-! ## Lines of text

A newline ends a line, together with a carriage return right before it. Text after the last newline
is a line of its own and keeps its carriage return. -/

def withoutReturn (line : List Char) : List Char :=
  if line.getLast? = some '\r' then line.dropLast else line

def lineChars (text : List Char) : List (List Char) :=
  let (first, rest) := pieces (· == '\n') text
  let all := first :: rest
  let last := rest.getLast?.getD first
  all.dropLast.map withoutReturn ++ (if last.isEmpty then [] else [last])

def lines (text : String) : List String := (lineChars text.toList).map String.ofList

/-! ## Decimal integers

An optional sign and at least one ASCII digit; leading zeros are allowed. -/

def digitsValue (digits : List Char) : Nat :=
  digits.foldl (fun n c => 10 * n + (c.toNat - '0'.toNat)) 0

def readNat? (text : List Char) : Option Nat :=
  if text.isEmpty || !text.all Char.isDigit then none else some (digitsValue text)

def readInt? (text : List Char) : Option Int :=
  match text with
  | '-' :: digits => (readNat? digits).map fun n => -(n : Int)
  | '+' :: digits => (readNat? digits).map fun n => (n : Int)
  | digits => (readNat? digits).map fun n => (n : Int)

/-! ## Quoted text

Text in double quotes on one line, for messages. Hidden characters are shown by their code. -/

def escapeCode (c : Char) : String :=
  "\\u\x7b" ++ String.ofList (Nat.toDigits 16 c.toNat) ++ "\x7d"

def escapeChar (c : Char) : String :=
  match c with
  | '"' => "\\\""
  | '\\' => "\\\\"
  | '\n' => "\\n"
  | '\r' => "\\r"
  | '\t' => "\\t"
  | '\x00' => "\\0"
  | c => if isHidden c then escapeCode c else String.singleton c

def quote (text : String) : String := "\"" ++ String.join (text.toList.map escapeChar) ++ "\""

end Typesetter.Text
