import Typesetter.Layout
import Typesetter.Pdf
import Typesetter.Press

/-! # Documents

The paragraphs of a document are laid out one after the other with a gap below each, and the pages
that this fills become a file. -/
namespace Typesetter
open Pdf (NumberedObject)

structure Document where
  config : Config := {}
  paragraphs : Array Paragraph := #[]

/-- What is no part of the text: the time of creation and a number that tells files apart. -/
structure Stamp where
  date : Pdf.Date
  id : List UInt8

structure Rendering where
  pageTree : Nat
  press : Press

def Press.writeParagraph (c : Config) (p : Press) (paragraph : Paragraph) :
    Except LayoutFault Press :=
  match c.layOut paragraph with
  | .error e => .error e
  | .ok block => .ok ((p.write block).feed c.paragraphSpacing)

namespace Document

/-- The page tree is numbered right after the first page. -/
def render (d : Document) : Except LayoutFault Rendering :=
  let (pageTree, press) := (Press.new d.config).bump
  (d.paragraphs.foldlM (Press.writeParagraph d.config) press).map (⟨pageTree, ·⟩)

end Document

namespace Rendering

def pages (r : Rendering) : List Page := r.press.pages.toList

def fontObjects (r : Rendering) : List NumberedObject :=
  r.press.fonts.map fun f => ⟨f.number, .font f.face⟩

def pageObjects (r : Rendering) : List NumberedObject :=
  r.pages.map fun page =>
    ⟨page.number, .page r.pageTree page.contentNumber r.press.pageWidth r.press.pageHeight
      (r.press.fonts.map fun f => (f.face, f.number))⟩

def streamObjects (r : Rendering) : List NumberedObject :=
  r.pages.map fun page => ⟨page.contentNumber, .stream (Pdf.contentBytes page.content.toList)⟩

/-- Fonts and pages come first, then the streams of all pages, then what ties them together. -/
def file (r : Rendering) (c : Config) (stamp : Stamp) : Pdf.File :=
  let (catalog, press) := r.press.bump
  let (info, _) := press.bump
  { objects := r.fontObjects ++ r.pageObjects ++ r.streamObjects ++
      [⟨r.pageTree, .pageTree (r.pages.map Page.number)⟩, ⟨catalog, .catalog r.pageTree⟩,
        ⟨info, .info c.title c.author stamp.date⟩]
    catalog
    info
    id := stamp.id }

end Rendering

def Document.bytes (d : Document) (stamp : Stamp) : Except LayoutFault (List UInt8) :=
  d.render.map fun r => (r.file d.config stamp).bytes

end Typesetter
