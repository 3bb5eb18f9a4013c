import Typesetter.Numeric.Binary
import Typesetter.Text

/-! # JSON

Scanners for the numbers and strings of a JSON text and for what stands between them. -/
namespace Typesetter.Json
open Numeric (Binary Single Double)
open scoped Numeric

/-! ## Scanning JSON text

A scanner takes a value off the front of the text. It fails when the text is wrong at some character
or when it ends too early. -/

inductive Fault where
  | malformed
  | unfinished
  deriving DecidableEq

abbrev Scan (α : Type) := List Char → Except Fault (α × List Char)

def isBlank (c : Char) : Bool := c = ' ' || c = '\n' || c = '\t' || c = '\r'

def skipBlanks (text : List Char) : List Char := text.dropWhile isBlank

/-- The rest of a word whose first letter has been seen. -/
def word : List Char → List Char → Except Fault (List Char)
  | [], text => .ok text
  | _ :: _, [] => .error .unfinished
  | c :: cs, d :: text => if c = d then word cs text else .error .malformed

/-! ## JSON numbers

An integer stays exact while it fits in 64 bits. Other numbers keep as many leading digits as fit
and are scaled by a power of ten in binary arithmetic, so they may be off in the last place. -/

inductive Number where
  | integer (value : Int)
  | float (value : Double)
  deriving DecidableEq

def Number.toSingle : Number → Single
  | integer n => Binary.ofInt n
  | float x => x.convert

/-- Leading digits of a number as a whole, and the power of ten they are multiplied by. -/
structure Significand where
  value : Nat
  exponent : Int

def digit (c : Char) : Nat := c.toNat - '0'.toNat

def Significand.fits (value : Nat) (c : Char) : Bool := 10 * value + digit c < 2 ^ (64 : Nat)

/-- Digits before the point; after the first that does not fit, all are dropped. -/
def Significand.ofWhole (digits : List Char) : Significand :=
  digits.foldl (fun s c =>
    if s.exponent = 0 ∧ fits s.value c then ⟨10 * s.value + digit c, 0⟩
    else ⟨s.value, s.exponent + 1⟩) ⟨0, 0⟩

def Significand.addFraction (s : Significand) : List Char → Significand
  | [] => s
  | c :: digits =>
    if fits s.value c then addFraction ⟨10 * s.value + digit c, s.exponent - 1⟩ digits else s

/-- Scales within the range of exact table entries, in steps of `10 ^ 308` where it is smaller;
a number out of range is refused. -/
def scale? : Nat → Double → Int → Option Double
  | 0, x, _ => some x
  | steps + 1, x, exponent =>
    if exponent.natAbs ≤ 308 then
      let power : Double := Binary.ofRatio false (10 ^ exponent.natAbs) 1
      if exponent < 0 then some (x / power)
      else match x * power with
        | .infinite _ => none
        | y => some y
    else if x = 0 then some x
    else if 0 ≤ exponent then none
    else scale? steps (x / Binary.ofRatio false (10 ^ (308 : Nat)) 1) (exponent + 308)

def withSign (negative : Bool) (x : Double) : Double := if negative then -x else x

/-- Two steps take any significand to zero, a third one ends. -/
def Significand.toDouble (s : Significand) (negative : Bool) : Except Fault Double :=
  match scale? 4 (Binary.ofRatio false s.value 1) s.exponent with
  | some x => .ok (withSign negative x)
  | none => .error .malformed

def digits (text : List Char) : Except Fault (List Char × List Char) :=
  match text with
  | [] => .error .unfinished
  | c :: _ => if c.isDigit then .ok (text.span Char.isDigit) else .error .malformed

/-- A positive power of ten beyond 32 bits is refused unless the number is zero. -/
def exponentPart (s : Significand) (negative : Bool) (text : List Char) :
    Except Fault (Double × List Char) := do
  let (down, unsigned) := match text with
    | '-' :: rest => (true, rest)
    | '+' :: rest => (false, rest)
    | rest => (false, rest)
  let (ds, rest) ← digits unsigned
  let power := Text.digitsValue ds
  if power < 2 ^ (31 : Nat) then
    let x ← Significand.toDouble
      ⟨s.value, if down then s.exponent - power else s.exponent + power⟩ negative
    return (x, rest)
  else if s.value ≠ 0 ∧ ¬ down then .error .malformed
  else return (withSign negative 0, rest)

def isExponentMark (c : Char) : Bool := c = 'e' || c = 'E'

def tail (s : Significand) (negative : Bool) : List Char → Except Fault (Double × List Char)
  | c :: rest =>
    if isExponentMark c then exponentPart s negative rest
    else (s.toDouble negative).map (·, c :: rest)
  | [] => (s.toDouble negative).map (·, [])

/-- A number without point and exponent; negative zero and what exceeds 64 bits are floats. -/
def whole (s : Significand) (negative : Bool) : Except Fault Number :=
  if s.exponent ≠ 0 then (s.toDouble negative).map .float
  else if negative then
    if s.value = 0 ∨ 2 ^ (63 : Nat) < s.value then
      .ok (.float (withSign true (Binary.ofRatio false s.value 1)))
    else .ok (.integer (-s.value))
  else .ok (.integer s.value)

/-- A number after its sign; a leading zero stands alone. -/
def unsignedNumber (negative : Bool) : Scan Number := fun text => do
  let (ds, rest) ← digits text
  if ds.head? = some '0' ∧ ds.length ≠ 1 then .error .malformed
  else
    let s := Significand.ofWhole ds
    match rest with
    | '.' :: rest =>
      let (fraction, rest) ← digits rest
      let (x, rest) ← tail (s.addFraction fraction) negative rest
      return (.float x, rest)
    | c :: _ =>
      if isExponentMark c then
        let (x, rest) ← tail s negative rest
        return (.float x, rest)
      else return (← whole s negative, rest)
    | [] => return (← whole s negative, rest)

def number : Scan Number
  | '-' :: text => unsignedNumber true text
  | text => unsignedNumber false text

/-! ## Quoted JSON strings

Escapes are decoded while reading. Characters beyond the basic plane are written as two hexadecimal
escapes, a high surrogate and a low one, and neither may stand alone. -/

def hexDigit? (c : Char) : Option Nat :=
  if c.isDigit then some (c.toNat - '0'.toNat)
  else if 'a' ≤ c ∧ c ≤ 'f' then some (c.toNat - 'a'.toNat + 10)
  else if 'A' ≤ c ∧ c ≤ 'F' then some (c.toNat - 'A'.toNat + 10)
  else none

def escaped? : Char → Option Char
  | '"' => some '"'
  | '\\' => some '\\'
  | '/' => some '/'
  | 'b' => some '\x08'
  | 'f' => some '\x0C'
  | 'n' => some '\n'
  | 'r' => some '\r'
  | 't' => some '\t'
  | _ => none

inductive QuotedState where
  | plain
  | escape
  /-- After some hexadecimal digits of an escape that may complete a high surrogate. -/
  | hex (high : Option Nat) (digits value : Nat)
  /-- After a high surrogate, before the escape that completes it. -/
  | surrogate (high : Nat)
  | surrogateEscape (high : Nat)

/-- Four more bytes have to follow before any hexadecimal digit is looked at. -/
def startHex (high : Option Nat) (rest : List Char) : Except Fault QuotedState :=
  if (String.ofList (rest.take 4)).utf8ByteSize < 4 then .error .unfinished
  else .ok (.hex high 0 0)

def codePoint (high : Option Nat) (value : Nat) : Except Fault (Option Char × QuotedState) :=
  match high with
  | some h =>
    if 0xDC00 ≤ value ∧ value ≤ 0xDFFF then
      .ok (some (Char.ofNat (0x10000 + (h - 0xD800) * 0x400 + (value - 0xDC00))), .plain)
    else .error .malformed
  | none =>
    if 0xDC00 ≤ value ∧ value ≤ 0xDFFF then .error .malformed
    else if 0xD800 ≤ value ∧ value ≤ 0xDBFF then .ok (none, .surrogate value)
    else .ok (some (Char.ofNat value), .plain)

/-- One character inside a string: the character it completes and the state after it. -/
def quotedStep (state : QuotedState) (c : Char) (rest : List Char) :
    Except Fault (Option Char × QuotedState) :=
  match state with
  | .plain =>
    if c = '\\' then .ok (none, .escape)
    else if c.toNat < 0x20 then .error .malformed
    else .ok (some c, .plain)
  | .escape =>
    match escaped? c with
    | some d => .ok (some d, .plain)
    | none => if c = 'u' then (startHex none rest).map (none, ·) else .error .malformed
  | .hex high digits value =>
    match hexDigit? c with
    | none => .error .malformed
    | some d =>
      if digits = 3 then codePoint high (16 * value + d)
      else .ok (none, .hex high (digits + 1) (16 * value + d))
  | .surrogate high => if c = '\\' then .ok (none, .surrogateEscape high) else .error .malformed
  | .surrogateEscape high =>
    if c = 'u' then (startHex (some high) rest).map (none, ·) else .error .malformed

def quotedFrom (state : QuotedState) (done : Array Char) : Scan String
  | [] => .error .unfinished
  | c :: rest =>
    match state with
    | .plain =>
      if c = '"' then .ok (String.ofList done.toList, rest)
      else match quotedStep .plain c rest with
        | .ok (new, state) => quotedFrom state (done ++ new.toList) rest
        | .error e => .error e
    | state =>
      match quotedStep state c rest with
      | .ok (new, state) => quotedFrom state (done ++ new.toList) rest
      | .error e => .error e

def quoted : Scan String := quotedFrom .plain #[]

/-! ## JSON objects and arrays

Moving from member to member of an object and from element to element of an array. Members and
elements are parted by commas, and none may follow the last. -/

inductive Next where
  /-- Behind the closing bracket. -/
  | done (rest : List Char)
  /-- At an item; for a member, behind the opening quote of its key. -/
  | item (rest : List Char)

def keyStart : List Char → Except Fault Next
  | '"' :: rest => .ok (.item rest)
  | _ => .error .malformed

def nextMember (first : Bool) (text : List Char) : Except Fault Next :=
  match skipBlanks text with
  | [] => .error .unfinished
  | '}' :: rest => .ok (.done rest)
  | c :: rest =>
    if first then keyStart (c :: rest)
    else if c = ',' then
      match skipBlanks rest with
      | [] => .error .unfinished
      | rest => keyStart rest
    else .error .malformed

def colon (text : List Char) : Except Fault (List Char) :=
  match skipBlanks text with
  | [] => .error .unfinished
  | ':' :: rest => .ok rest
  | _ => .error .malformed

def nextElement (first : Bool) (text : List Char) : Except Fault Next :=
  match skipBlanks text with
  | [] => .error .unfinished
  | ']' :: rest => .ok (.done rest)
  | c :: rest =>
    if first then .ok (.item (c :: rest))
    else if c = ',' then
      match skipBlanks rest with
      | [] => .error .unfinished
      | ']' :: _ => .error .malformed
      | rest => .ok (.item rest)
    else .error .malformed

def closeArray (text : List Char) : Except Fault (List Char) :=
  match skipBlanks text with
  | [] => .error .unfinished
  | ']' :: rest => .ok rest
  | _ => .error .malformed

def finish (text : List Char) : Except Fault Unit :=
  if (skipBlanks text).isEmpty then .ok () else .error .malformed

end Typesetter.Json
