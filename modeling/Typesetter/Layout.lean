import Typesetter.Config.Basic
import Typesetter.Font
import Typesetter.Formatting
import Typesetter.Text

/-! # Layout

From the runs of a paragraph to the words of its lines. -/
namespace Typesetter
open Numeric (Single Binary)

/-! ## Words

The words of a paragraph are the pieces of its runs between blanks. A word with a blank before it,
in its own run or at the end of one before, stands a space apart from its predecessor; all others
are glued to it. -/

structure Word where
  text : String
  face : Face
  size : Single
  /-- The gap from the end of the word before. -/
  offset : Single
  width : Single
  /-- The gap before the word may grow when its line is justified. -/
  stretchable : Bool
  deriving DecidableEq

namespace Run

/-- A space is as wide as in the run of the word that follows it. -/
def word (r : Run) (spaced : Bool) (piece : List Char) : Word :=
  let text := String.ofList piece
  { text
    face := r.face
    size := r.size
    offset := if spaced then r.face.textWidth r.size " " else 0
    width := r.face.textWidth r.size text
    stretchable := spaced }

/-- The words so far, and whether a blank has come since the last of them. -/
def addPiece (r : Run) (state : Array Word × Bool) (piece : List Char) : Array Word × Bool :=
  if piece.isEmpty then state else (state.1.push (r.word state.2 piece), false)

def addWords (state : Array Word × Bool) (r : Run) : Array Word × Bool :=
  let (first, rest) := Text.pieces Text.isBlank r.content.toList
  rest.foldl (fun state piece => r.addPiece (state.1, true) piece) (r.addPiece state first)

end Run

def Paragraph.words (p : Paragraph) : List Word :=
  (p.runs.foldl Run.addWords (#[], false)).1.toList

/-! ## Blocks of lines

A block holds the lines of one paragraph, and words are added to its current line. Justifying a
block widens the gaps of all its lines but the last. -/

structure Line where
  words : Array Word := #[]
  width : Single := 0
  /-- The largest type size on the line. -/
  height : Single := 0
  deriving DecidableEq

namespace Line

def push (l : Line) (w : Word) : Line :=
  { words := l.words.push w
    width := l.width + (w.offset + w.width)
    height := max l.height w.size }

def gaps (l : Line) : Nat := l.words.countP Word.stretchable

def stretch (l : Line) (extra : Single) : Array Word :=
  l.words.map fun w => if w.stretchable then { w with offset := w.offset + extra } else w

def justify (area : Single) (l : Line) : Line :=
  if l.gaps = 0 ∨ area ≤ l.width then l
  else { l with
    words := l.stretch ((area - l.width) / Binary.ofRatio false l.gaps 1)
    width := area }

end Line

structure Block where
  alignment : Alignment := .left
  /-- The height of an empty line. -/
  size : Single := 12
  indent : Single := 0
  lines : Array Line := #[{}]
  /-- The position of the current line. -/
  index : Nat := 0
  deriving DecidableEq

namespace Block

def current? (b : Block) : Option Line := b.lines[b.index]?

def push? (b : Block) (w : Word) : Option Block :=
  if b.index < b.lines.size then some { b with lines := b.lines.modify b.index (·.push w) }
  else none

def next (b : Block) : Block :=
  { b with lines := b.lines.push {}, index := b.lines.size }

def justify (b : Block) (area : Single) : Block :=
  match b.alignment with
  | .left => b
  | .justify =>
    match b.lines.back? with
    | none => b
    | some last => { b with lines := (b.lines.pop.map (Line.justify area)).push last }

end Block

/-! ## Breaking paragraphs into lines

Words glued to one another form a cluster that must share a line. A cluster goes on the current line
if it fits or if the line is still empty, and otherwise starts the next one. -/

/-- A cluster starts at the first word and at every stretchable one. -/
def clusters (words : List Word) : List (List Word) := words.splitBy fun _ w => !w.stretchable

def clusterWidth (cluster : List Word) : Single :=
  Binary.sum (cluster.map fun w => w.offset + w.width)

/-- There is no gap at the start of a line. -/
def atLineStart : List Word → List Word
  | [] => []
  | w :: rest => { w with offset := 0, stretchable := false } :: rest

inductive LayoutFault where
  /-- Half the width between the margins is negative or no number, so it bounds no indent. -/
  | noIndentRange
  /-- Words were to be added to a line that does not exist. -/
  | noCurrentLine
  deriving DecidableEq

namespace Block

def pushAll? (b : Block) (words : List Word) : Option Block := words.foldlM push? b

def overflows (area : Single) (l : Line) (cluster : List Word) : Bool :=
  !l.words.isEmpty && area < l.width + clusterWidth cluster

def place? (area : Single) (b : Block) (cluster : List Word) : Option Block := do
  let line ← b.current?
  let b := if overflows area line cluster then b.next else b
  let line ← b.current?
  b.pushAll? (if line.words.isEmpty then atLineStart cluster else cluster)

def placeAll? (area : Single) (b : Block) (words : List Word) : Option Block :=
  (clusters words).foldlM (place? area) b

end Block

/-- A margin is kept between zero and half the width between the page margins. -/
def Config.indent? (c : Config) (p : Paragraph) : Option Single :=
  p.leftMargin.clamp? 0 (c.textWidth / 2)

def Config.layOut (c : Config) (p : Paragraph) : Except LayoutFault Block :=
  match c.indent? p with
  | none => .error .noIndentRange
  | some indent =>
    let area := c.textWidth - indent
    let empty : Block := { alignment := p.alignment, size := c.normalFontSize, indent }
    match empty.placeAll? area p.words with
    | none => .error .noCurrentLine
    | some b => .ok (b.justify area)

end Typesetter
