import Typesetter.Numeric.Binary

/-! # Decimal spelling

The shortest digits of a number and the forms they are written in. -/
namespace Typesetter.Numeric

/-! ## Shortest decimals

The shortest decimal that reads back as a given number of a format. All reals between the midpoints
to its two neighbours read back; a midpoint itself does when the mantissa is even. -/

structure Decimal where
  digits : Nat
  exponent : Int
  deriving DecidableEq

inductive Tie where
  | up
  | even
  deriving DecidableEq

/-- The reals that round to one number, in quarters of the gap to its upper neighbour. -/
structure Window where
  low : Nat
  middle : Nat
  high : Nat
  closed : Bool

def Window.contains (w : Window) (num den : Nat) : Bool :=
  if w.closed then w.low * den ≤ num && num ≤ w.high * den
  else w.low * den < num && num < w.high * den

namespace Format

/-- Below a power of two the neighbours lie half as far apart. -/
def window (f : Format) (units : Nat) : Window :=
  let spacing := f.spacing units
  let mantissa := units / 2 ^ spacing
  let narrow := mantissa = 2 ^ (f.precision - 1) ∧ 0 < spacing
  { low := 4 * mantissa - (if narrow then 1 else 2)
    middle := 4 * mantissa
    high := 4 * mantissa + 2
    closed := mantissa % 2 = 0 }

/-- The multiple of `10 ^ exponent` nearest to the middle among its two neighbours that read back.
A quarter of the gap is `2 ^ spacing / 2 ^ (scale + 2)`. -/
def decimalOn? (f : Format) (tie : Tie) (w : Window) (spacing : Nat) (exponent : Int) :
    Option Decimal :=
  let fine := 2 ^ (spacing - f.scale) * 10 ^ (-exponent).toNat
  let coarse := 4 * 2 ^ (f.scale - spacing) * 10 ^ exponent.toNat
  let exact := w.middle * fine
  let below := exact / coarse
  match w.contains (below * coarse) fine, w.contains ((below + 1) * coarse) fine with
  | false, false => none
  | true, false => some ⟨below, exponent⟩
  | false, true => some ⟨below + 1, exponent⟩
  | true, true =>
    let twice := 2 * (exact % coarse)
    if twice < coarse then some ⟨below, exponent⟩
    else if coarse < twice then some ⟨below + 1, exponent⟩
    else match tie with
      | .up => some ⟨below + 1, exponent⟩
      | .even => some ⟨below + below % 2, exponent⟩

/-- The coarsest decimal grid from `10 ^ exponent` down that reads back. -/
def decimalFrom (f : Format) (tie : Tie) (w : Window) (spacing : Nat) : Nat → Int → Decimal
  | 0, exponent => ⟨0, exponent⟩
  | steps + 1, exponent =>
    match f.decimalOn? tie w spacing exponent with
    | some d => d
    | none => f.decimalFrom tie w spacing steps (exponent - 1)

def decimalBound (f : Format) (units : Nat) : Int :=
  ((units.log2 : Int) + 1 - f.scale) * 30103 / 100000 + 2

/-- A number has no more shortest digits than bits, and the search starts at most four places
early. -/
def shortest (f : Format) (tie : Tie) (units : Nat) : Decimal :=
  if units = 0 then ⟨0, 0⟩
  else f.decimalFrom tie (f.window units) (f.spacing units) (f.precision + 4) (f.decimalBound units)

end Format

/-! ## Spelling of numbers

A number is written with its shortest digits, either in full or with a power of ten. A spelling says
when which form is used, whether whole numbers show a point and whether positive powers show a
sign. -/

def Decimal.positional (d : Decimal) (point : Bool) : String :=
  let digits := toString d.digits
  let place := digits.length + d.exponent
  if 0 ≤ d.exponent then
    digits ++ "".pushn '0' d.exponent.toNat ++ (if point then ".0" else "")
  else if 0 < place then
    let whole := digits.toList.take place.toNat
    let fraction := digits.toList.drop place.toNat
    String.ofList whole ++ "." ++ String.ofList fraction
  else "0." ++ "".pushn '0' (-place).toNat ++ digits

def Decimal.scientific (d : Decimal) (plus : Bool) : String :=
  let digits := toString d.digits
  let power := d.exponent + digits.length - 1
  let rest := String.ofList (digits.toList.drop 1)
  String.ofList (digits.toList.take 1) ++ (if rest.isEmpty then "" else "." ++ rest)
    ++ "e" ++ (if plus && 0 < power then "+" else "") ++ toString power

/-- Digits are written in full while their point is within the places, and otherwise with a power of
ten. -/
structure Powers where
  least : Int
  greatest : Int
  /-- Positive powers start with a plus sign. -/
  plus : Bool

structure Spelling where
  tie : Tie
  /-- Whole numbers end in `.0`. -/
  point : Bool
  /-- Without powers of ten, digits are always written in full. -/
  powers : Option Powers

def Spelling.decimal (s : Spelling) (d : Decimal) : String :=
  let place := (toString d.digits).length + d.exponent
  match s.powers with
  | some p =>
    if d.digits = 0 ∨ (p.least ≤ place ∧ place ≤ p.greatest) then d.positional s.point
    else d.scientific p.plus
  | none => d.positional s.point

def Spelling.write {f : Format} (s : Spelling) : Binary f → String
  | .nan => "NaN"
  | .infinite negative => if negative then "-inf" else "inf"
  | .finite negative units _ =>
    (if negative then "-" else "") ++ s.decimal (f.shortest s.tie units)

def Spelling.plain : Spelling := ⟨.up, false, none⟩

def Binary.plain {f : Format} (x : Binary f) : String := Spelling.plain.write x

end Typesetter.Numeric
