import Typesetter.Config.Basic
import Typesetter.Layout
import Typesetter.Pdf

/-! # The press

Blocks are written down the page from a write head, and a line that does not fit starts a new page.
Fonts and pages are numbered as objects of the file in the order of their making. -/
namespace Typesetter
open Numeric (Single)
open Pdf (Operator)

structure Page where
  number : Nat
  contentNumber : Nat
  content : Array Operator := #[]

structure FontObject where
  number : Nat
  face : Face
  deriving DecidableEq

structure Head where
  x : Single
  y : Single
  nextNumber : Nat
  fonts : List FontObject
  pageWidth : Single
  pageHeight : Single
  margin : Single
  lineSpacing : Single

namespace Head

def ofConfig (c : Config) : Head where
  x := c.pageMargin
  y := c.pageHeight - c.pageMargin
  nextNumber := 1
  fonts := []
  pageWidth := c.pageWidth
  pageHeight := c.pageHeight
  margin := c.pageMargin
  lineSpacing := c.lineSpacing

def bump (h : Head) : Nat × Head := (h.nextNumber, { h with nextNumber := h.nextNumber + 1 })

def register (h : Head) (face : Face) : Head :=
  let (number, h) := h.bump
  { h with fonts := h.fonts ++ [⟨number, face⟩] }

def top (h : Head) : Single := h.pageHeight - h.margin

/-- A page takes two numbers, and the head goes to its top margin. -/
def openPage (h : Head) : Page × Head :=
  let (number, h) := h.bump
  let (contentNumber, h) := h.bump
  ({ number, contentNumber }, { h with x := h.margin, y := h.top })

end Head

/-- There is always a current page, behind the finished ones. -/
structure Press extends Head where
  finished : Array Page
  current : Page

namespace Press

def new (c : Config) : Press :=
  let faces : List Face := [.regular, .bold, .italics, .boldItalics]
  let (page, head) := (faces.foldl Head.register (.ofConfig c)).openPage
  { head with finished := #[], current := page }

theorem fonts_new (c : Config) :
    (new c).fonts = [⟨1, .regular⟩, ⟨2, .bold⟩, ⟨3, .italics⟩, ⟨4, .boldItalics⟩] := rfl

def pages (p : Press) : Array Page := p.finished.push p.current

def bump (p : Press) : Nat × Press :=
  let (number, head) := p.toHead.bump
  (number, { p with toHead := head })

def feed (p : Press) (height : Single) : Press := { p with y := p.y - height }

def goTo (p : Press) (x y : Single) : Press := { p with x, y }

def textWidth (p : Press) : Single := p.pageWidth - p.margin * 2

def newPage (p : Press) : Press :=
  let (page, head) := p.openPage
  { head with finished := p.finished.push p.current, current := page }

/-- Nothing has been written on the current page. -/
def AtTop (p : Press) : Prop := p.top ≤ p.y

instance (p : Press) : Decidable p.AtTop := inferInstanceAs (Decidable (_ ≤ _))

/-- A line taller than a page is written at the top of one. -/
def Breaks (p : Press) (pitch : Single) : Prop := p.y - pitch < p.margin ∧ ¬ p.AtTop

instance (p : Press) (pitch : Single) : Decidable (p.Breaks pitch) :=
  inferInstanceAs (Decidable (_ ∧ _))

def makeRoom (p : Press) (pitch : Single) : Press := if p.Breaks pitch then p.newPage else p

/-- A word starts `advance` behind the start of the word before, and its gap behind that. A face
that is not among the fonts is not selected. -/
def wordOperators (fonts : List FontObject) (advance : Single) (w : Word) : List Operator :=
  [.moveBy (advance + w.offset) 0]
    ++ (if fonts.any (·.face = w.face) then [.setFont w.face w.size] else [])
    ++ [.showText (WinAnsi.encode w.text)]

def lineOperators (fonts : List FontObject) (x baseline : Single) (l : Line) : List Operator :=
  let words := l.words.toList
  let advances := 0 :: words.map Word.width
  [.beginText, .moveBy x baseline]
    ++ (advances.zip words).flatMap (fun (advance, w) => wordOperators fonts advance w)
    ++ [.endText]

def print (p : Press) (operators : List Operator) : Press :=
  { p with current := { p.current with content := p.current.content ++ operators } }

def lineHeight (b : Block) (l : Line) : Single := if l.words.isEmpty then b.size else l.height

/-- An empty line takes up room and prints nothing. -/
def writeLine (b : Block) (p : Press) (l : Line) : Press :=
  let height := lineHeight b l
  let pitch := height * p.lineSpacing
  let p := p.makeRoom pitch
  let baseline := p.y - height
  let p := p.feed pitch
  if l.words.isEmpty then p
  else
    let x := p.margin + b.indent
    let operators := lineOperators p.fonts x baseline l
    (p.goTo (x + l.width) p.y).print operators

def write (p : Press) (b : Block) : Press := b.lines.foldl (writeLine b) p

end Press
end Typesetter
