import Typesetter.Numeric.Binary

/-! # Formatting

Directives set five registers, and what the registers hold becomes the faces, sizes, margins and
alignment of paragraphs. -/
namespace Typesetter
open Numeric (Single)

/-! ## Indent levels

A level fits in 32 signed bits. Sums stop at the ends of that range. -/

structure Indent where
  levels : Int
  least : -2147483648 ≤ levels
  greatest : levels ≤ 2147483647
  deriving DecidableEq

namespace Indent

def ofInt? (n : Int) : Option Indent :=
  if h : -2147483648 ≤ n ∧ n ≤ 2147483647 then some ⟨n, h.1, h.2⟩ else none

def saturate (n : Int) : Indent :=
  ⟨max (-2147483648) (min n 2147483647), by omega, by omega⟩

instance : Zero Indent := ⟨⟨0, by decide, by decide⟩⟩
instance : Add Indent := ⟨fun a b => saturate (a.levels + b.levels)⟩

@[simp] theorem levels_zero : (0 : Indent).levels = 0 := rfl

theorem levels_add (a b : Indent) :
    (a + b).levels = max (-2147483648) (min (a.levels + b.levels) 2147483647) := rfl

@[ext] theorem ext {a b : Indent} (h : a.levels = b.levels) : a = b := by
  cases a; cases b; cases h; rfl

theorem ofInt?_levels (a : Indent) : ofInt? a.levels = some a := by
  simp [ofInt?, a.least, a.greatest]

end Indent

/-! ## Directives

The closed set of formatting commands. All but the indent are fixed words. -/

inductive Directive where
  | large
  | normal
  | regular
  | bold
  | italics
  | fill
  | noFill
  /-- Adds a signed number of levels. -/
  | indent (amount : Indent)
  | paragraph
  deriving DecidableEq

def Directive.ofName? (name : String) : Option Directive :=
  match name with
  | ".large" => some .large
  | ".normal" => some .normal
  | ".regular" => some .regular
  | ".bold" => some .bold
  | ".italics" => some .italics
  | ".fill" => some .fill
  | ".nofill" => some .noFill
  | ".paragraph" => some .paragraph
  | _ => none

/-! ## Registers

Five registers that directives set. A new paragraph leaves all of them as they are. -/

inductive Weight where
  | regular
  | bold
  deriving DecidableEq

inductive Slant where
  | upright
  | italics
  deriving DecidableEq

inductive TypeSize where
  | normal
  | large
  deriving DecidableEq

inductive Fill where
  | fill
  | noFill
  deriving DecidableEq

inductive Face where
  | regular
  | bold
  | italics
  | boldItalics
  deriving DecidableEq

inductive Alignment where
  | left
  | justify
  deriving DecidableEq

structure Formatting where
  weight : Weight := .regular
  slant : Slant := .upright
  size : TypeSize := .normal
  fill : Fill := .noFill
  indent : Indent := 0
  deriving DecidableEq

namespace Formatting

/-- No directive sets the slant back to upright. -/
def apply (f : Formatting) : Directive → Formatting
  | .large => { f with size := .large }
  | .normal => { f with size := .normal }
  | .regular => { f with weight := .regular }
  | .bold => { f with weight := .bold }
  | .italics => { f with slant := .italics }
  | .fill => { f with fill := .fill }
  | .noFill => { f with fill := .noFill }
  | .indent amount => { f with indent := f.indent + amount }
  | .paragraph => f

def face (f : Formatting) : Face :=
  match f.weight, f.slant with
  | .regular, .upright => .regular
  | .bold, .upright => .bold
  | .regular, .italics => .italics
  | .bold, .italics => .boldItalics

def alignment (f : Formatting) : Alignment :=
  match f.fill with
  | .fill => .justify
  | .noFill => .left

end Formatting

/-! ## Paragraphs

A paragraph is a sequence of runs, each of one face and size, with a margin and an alignment for the
whole. -/

structure Run where
  /-- May start with a space that parts it from the run before. -/
  content : String
  face : Face
  size : Single
  deriving DecidableEq

structure Paragraph where
  runs : Array Run := #[]
  /-- May be negative. -/
  leftMargin : Single := 0
  alignment : Alignment := .left
  deriving DecidableEq

def Paragraph.text (p : Paragraph) : String :=
  String.join (p.runs.toList.map Run.content)

structure Stylesheet where
  normalSize : Single
  largeSize : Single
  indentUnit : Single
  deriving DecidableEq

namespace Stylesheet

def size (s : Stylesheet) : TypeSize → Single
  | .normal => s.normalSize
  | .large => s.largeSize

def run (s : Stylesheet) (f : Formatting) (text : String) : Run := ⟨text, f.face, s.size f.size⟩

def leftMargin (s : Stylesheet) (f : Formatting) : Single :=
  Numeric.Binary.ofInt f.indent.levels * s.indentUnit

/-- Every run sets margin and alignment anew, so the last one decides them. -/
def append (s : Stylesheet) (f : Formatting) (p : Paragraph) (text : String) : Paragraph :=
  { runs := p.runs.push (s.run f text), leftMargin := s.leftMargin f, alignment := f.alignment }

end Stylesheet

end Typesetter
