import Typesetter.Formatting
import Typesetter.Numeric.Binary

/-! # Fonts

The codes that characters are shown by, and how wide these are. -/
namespace Typesetter.WinAnsi

/-! ## WinAnsiEncoding

One byte for each character of the standard Latin encoding. Printable ASCII and the upper half of
Latin-1 keep their codes, and typographic characters fill part of the gap between them. -/

/-- The characters of the codes from 0x80 to 0x9F, with NUL in the place of an open code. -/
def high : List Char := [
  '\u20AC', '\x00', '\u201A', '\u0192', '\u201E', '\u2026', '\u2020', '\u2021',
  '\u02C6', '\u2030', '\u0160', '\u2039', '\u0152', '\x00', '\u017D', '\x00',
  '\x00', '\u2018', '\u2019', '\u201C', '\u201D', '\u2022', '\u2013', '\u2014',
  '\u02DC', '\u2122', '\u0161', '\u203A', '\u0153', '\x00', '\u017E', '\u0178']

def code? (c : Char) : Option UInt8 :=
  let n := c.toNat
  if (0x20 ≤ n ∧ n ≤ 0x7E) ∨ (0xA0 ≤ n ∧ n ≤ 0xFF) then some n.toUInt8
  else if n = 0 then none
  else (high.findIdx? (· = c)).map fun index => (0x80 + index).toUInt8

def code (c : Char) : UInt8 := (code? c).getD 0x3F

def encode (text : String) : List UInt8 := text.toList.map code

end Typesetter.WinAnsi

namespace Typesetter
open Numeric (Single Binary)

/-! ## Helvetica

The advance widths of the Helvetica family in thousandths of the type size. A slanted face has the
widths of its upright one. -/

/-- Widths of the codes from 0x20 to 0x7E and from 0x80 to 0x9F. -/
structure Widths where
  ascii : Array Nat
  high : Array Nat

namespace Widths

def upright : Widths where
  ascii := #[
    278, 278, 355, 556, 556, 889, 667, 191, 333, 333, 389, 584, 278, 333, 278, 278,
    556, 556, 556, 556, 556, 556, 556, 556, 556, 556,
    278, 278, 584, 584, 584, 556, 1015,
    667, 667, 722, 722, 667, 611, 778, 722, 278, 500, 667, 556, 833,
    722, 778, 667, 778, 722, 667, 611, 722, 667, 944, 667, 667, 611,
    278, 278, 278, 469, 556, 333,
    556, 556, 500, 556, 556, 278, 556, 556, 222, 222, 500, 222, 833,
    556, 556, 556, 556, 333, 500, 278, 556, 500, 722, 500, 500, 500,
    334, 260, 334, 584]
  high := #[
    556, 556, 222, 556, 333, 1000, 556, 556, 333, 1000, 667, 333, 1000, 556, 611, 556,
    556, 222, 222, 333, 333, 350, 556, 1000, 333, 1000, 500, 333, 944, 556, 500, 667]

def bold : Widths where
  ascii := #[
    278, 333, 474, 556, 556, 889, 722, 238, 333, 333, 389, 584, 278, 333, 278, 278,
    556, 556, 556, 556, 556, 556, 556, 556, 556, 556,
    333, 333, 584, 584, 584, 611, 975,
    722, 722, 722, 722, 667, 611, 778, 722, 278, 556, 722, 611, 833,
    722, 778, 667, 778, 722, 667, 611, 722, 667, 944, 667, 667, 611,
    333, 278, 333, 584, 556, 333,
    556, 611, 556, 611, 556, 333, 611, 611, 278, 278, 556, 278, 889,
    611, 611, 611, 611, 389, 556, 333, 611, 556, 778, 556, 556, 500,
    389, 280, 389, 584]
  high := #[
    556, 556, 278, 556, 500, 1000, 556, 556, 333, 1000, 667, 333, 1000, 556, 611, 556,
    556, 278, 278, 500, 500, 350, 556, 1000, 333, 1000, 556, 333, 944, 556, 500, 667]

/-- Codes outside the tables have the width of a digit. -/
def ofCode (w : Widths) (code : UInt8) : Nat :=
  let n := code.toNat
  if 0x20 ≤ n ∧ n ≤ 0x7E then w.ascii.getD (n - 0x20) 556
  else if 0x80 ≤ n ∧ n ≤ 0x9F then w.high.getD (n - 0x80) 556
  else 556

end Widths

namespace Face

def widths : Face → Widths
  | regular | italics => .upright
  | bold | boldItalics => .bold

def fontName : Face → String
  | regular => "Helvetica"
  | bold => "Helvetica-Bold"
  | italics => "Helvetica-Oblique"
  | boldItalics => "Helvetica-BoldOblique"

def codeWidth (face : Face) (size : Single) (code : UInt8) : Single :=
  Binary.ofRatio false (face.widths.ofCode code) 1 * size / 1000

def charWidth (face : Face) (size : Single) (c : Char) : Single :=
  face.codeWidth size (WinAnsi.code c)

def textWidth (face : Face) (size : Single) (text : String) : Single :=
  Binary.sum (text.toList.map (face.charWidth size))

end Face

end Typesetter
