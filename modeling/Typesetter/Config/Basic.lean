import Typesetter.Numeric.Spelling
import Typesetter.Formatting

/-! # Configuration

Page geometry, type sizes and document metadata, all with defaults, and the conditions under which
text can be laid out. -/
namespace Typesetter
open Numeric (Single)

inductive Measure where
  | pageWidth
  | pageHeight
  | pageMargin
  | normalFontSize
  | largeFontSize
  | indentUnit
  | lineSpacing
  | paragraphSpacing
  deriving DecidableEq

def Measure.name : Measure → String
  | pageWidth => "pageWidth"
  | pageHeight => "pageHeight"
  | pageMargin => "pageMargin"
  | normalFontSize => "normalFontSize"
  | largeFontSize => "largeFontSize"
  | indentUnit => "indentUnit"
  | lineSpacing => "lineSpacing"
  | paragraphSpacing => "paragraphSpacing"

/-- A4 portrait with 12 point text unless said otherwise. -/
structure Config where
  pageWidth : Single := 595
  pageHeight : Single := 842
  pageMargin : Single := 36
  normalFontSize : Single := 12
  largeFontSize : Single := 30
  /-- Width of one indent level. -/
  indentUnit : Single := 20
  /-- Line pitch as a multiple of the largest type size on the line. -/
  lineSpacing : Single := 1.2
  /-- Vertical gap after each paragraph. -/
  paragraphSpacing : Single := 6
  title : Option String := none
  author : Option String := none
  deriving DecidableEq

inductive ConfigFault where
  | notPositive (measure : Measure) (value : Single)
  | negative (measure : Measure) (value : Single)
  | noRoom (margin : Single)
  deriving DecidableEq

def ConfigFault.message : ConfigFault → String
  | notPositive m v => m.name ++ " must be positive, got " ++ v.plain
  | negative m v => m.name ++ " must not be negative, got " ++ v.plain
  | noRoom margin => "pageMargin " ++ margin.plain ++ " leaves no room for text"

namespace Config

def get (c : Config) : Measure → Single
  | .pageWidth => c.pageWidth
  | .pageHeight => c.pageHeight
  | .pageMargin => c.pageMargin
  | .normalFontSize => c.normalFontSize
  | .largeFontSize => c.largeFontSize
  | .indentUnit => c.indentUnit
  | .lineSpacing => c.lineSpacing
  | .paragraphSpacing => c.paragraphSpacing

def set (c : Config) (m : Measure) (v : Single) : Config :=
  match m with
  | .pageWidth => { c with pageWidth := v }
  | .pageHeight => { c with pageHeight := v }
  | .pageMargin => { c with pageMargin := v }
  | .normalFontSize => { c with normalFontSize := v }
  | .largeFontSize => { c with largeFontSize := v }
  | .indentUnit => { c with indentUnit := v }
  | .lineSpacing => { c with lineSpacing := v }
  | .paragraphSpacing => { c with paragraphSpacing := v }

def textWidth (c : Config) : Single := c.pageWidth - c.pageMargin * 2

def stylesheet (c : Config) : Stylesheet := ⟨c.normalFontSize, c.largeFontSize, c.indentUnit⟩

def positiveMeasures : List Measure :=
  [.pageWidth, .pageHeight, .normalFontSize, .largeFontSize, .lineSpacing]

def nonNegativeMeasures : List Measure := [.pageMargin, .indentUnit, .paragraphSpacing]

/-- The page holds no line of large text, or no text at all. -/
def NoRoom (c : Config) : Prop :=
  c.textWidth ≤ 0 ∨ c.pageHeight - c.pageMargin * 2 < c.largeFontSize * c.lineSpacing

instance (c : Config) : Decidable c.NoRoom := inferInstanceAs (Decidable (_ ∨ _))

/-- The first fault in the order of checks: positive measures, the others, then the room left. -/
def fault? (c : Config) : Option ConfigFault :=
  match positiveMeasures.find? fun m => ¬ 0 < c.get m with
  | some m => some (.notPositive m (c.get m))
  | none =>
    match nonNegativeMeasures.find? fun m => ¬ 0 ≤ c.get m with
    | some m => some (.negative m (c.get m))
    | none => if c.NoRoom then some (.noRoom c.pageMargin) else none

end Config
end Typesetter
