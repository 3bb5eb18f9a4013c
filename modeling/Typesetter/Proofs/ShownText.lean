import Typesetter.Proofs.Copies
import Typesetter.Proofs.Rendering
import Typesetter.Proofs.Words

/-! # Shown text

What a reader of the pages sees, string by string with its font, against a walk over the lines of
the source. Nothing here depends on where lines and pages break. -/
namespace Typesetter
open Numeric (Single)

/-- A string on a page, with the font resource and size selected last before it. -/
structure Shown where
  font : Option (String × Single)
  codes : Pdf.Bytes
  deriving DecidableEq

namespace Pdf

def shownFrom : Option (String × Single) → List Operator → List Shown
  | _, [] => []
  | _, .setFont face size :: rest => shownFrom (some (face.fontName, size)) rest
  | font, .showText codes :: rest => ⟨font, codes⟩ :: shownFrom font rest
  | font, .beginText :: rest | font, .moveBy _ _ :: rest | font, .endText :: rest =>
    shownFrom font rest

def shown (operators : List Operator) : List Shown := shownFrom none operators

theorem shownFrom_append {tail : List Operator} {strings : List Shown}
    (h : ∀ font, shownFrom font tail = strings) (font : Option (String × Single))
    (operators : List Operator) :
    shownFrom font (operators ++ tail) = shownFrom font operators ++ strings := by
  induction operators generalizing font with
  | nil => exact h font
  | cons o rest ih => cases o <;> simp [shownFrom, ih]

end Pdf

def Piece.shown (p : Piece) : Shown :=
  ⟨some (p.face.fontName, p.size), WinAnsi.encode (String.ofList p.text)⟩

def Word.shown (w : Word) : Shown := w.piece.shown

theorem Paragraph.words_shown (p : Paragraph) :
    p.words.map Word.shown = p.runs.toList.flatMap fun r => r.pieces.map Piece.shown := by
  rw [← List.map_flatMap, ← p.words_pieces, List.map_map]
  rfl

/-! ## The source -/

namespace Stylesheet
variable (s : Stylesheet)

def literalShown (f : Formatting) (text : String) : List Shown :=
  (Text.blankFree text.toList).map fun piece =>
    ⟨some (f.face.fontName, s.size f.size), WinAnsi.encode (String.ofList piece)⟩

/-- Walks over source lines: a directive changes the formatting, and only literals show text. -/
def walk : Formatting → List String → List Shown
  | _, [] => []
  | f, text :: rest =>
    match SourceLine.of? text with
    | some (.directive d) => walk (f.apply d) rest
    | some (.literal literal) => s.literalShown f literal ++ walk f rest
    | some .blank | none => walk f rest

theorem walk_eq_literals (f : Formatting) (texts : List String) :
    s.walk f texts =
      ((marked f (texts.filterMap SourceLine.of?)).filterMap Marked.literal?).flatMap
        fun l => s.literalShown l.formatting l.text := by
  induction texts generalizing f with
  | nil => rfl
  | cons text rest ih =>
    cases hl : SourceLine.of? text with
    | none => simp [walk, hl, ih]
    | some l =>
      rw [List.filterMap_cons, hl]
      dsimp only
      rw [marked_cons, walk, hl]
      cases l <;>
        simp [ih, List.filterMap_cons, Marked.literal?, Formatting.after, SourceLine.directive?]

theorem pieces_run (f : Formatting) (l : Literal) (position : Nat) :
    ((s.run f (l.content position)).pieces.map Piece.shown) = s.literalShown f l.text := by
  have hb : Text.blankFree (l.content position).toList = Text.blankFree l.text.toList := by
    unfold Literal.content
    split
    · rfl
    · rw [String.toList_append]
      exact Text.blankFree_blank_cons (by decide) _
  simp [Run.pieces, run, hb, literalShown, Piece.shown, Function.comp_def]

theorem runs_shown (start : Nat) (segment : List Literal) :
    (segment.mapIdx fun k l => s.run l.formatting (l.content (k + start))).flatMap
        (fun r => r.pieces.map Piece.shown) =
      segment.flatMap fun l => s.literalShown l.formatting l.text := by
  induction segment generalizing start with
  | nil => rfl
  | cons l rest ih =>
    have hrest := ih (start + 1)
    simp only [List.mapIdx_cons, List.flatMap_cons, pieces_run, ← hrest]
    simp [Nat.add_assoc, Nat.add_comm 1]

theorem paragraph?_shown (segment : List Literal) :
    (s.paragraph? segment).toList.flatMap (fun p => p.words.map Word.shown) =
      segment.flatMap fun l => s.literalShown l.formatting l.text := by
  cases hlast : segment.getLast? with
  | none => simp [paragraph?, List.getLast?_eq_none_iff.mp hlast]
  | some last =>
    have hruns := s.runs_shown 0 segment
    simp only [Nat.add_zero] at hruns
    simp [paragraph?_eq, hlast, Paragraph.words_shown, hruns]

end Stylesheet

theorem flatten_segmentsOf (es : List Marked) :
    (segmentsOf es).flatten = es.filterMap Marked.literal? := by
  induction es with
  | nil => rfl
  | cons e es ih =>
    unfold segmentsOf at ih ⊢
    rw [List.splitOnP_cons_eq_if_modifyHead]
    by_cases hb : e.isBreak = true
    · have hl : e.literal? = none := by
        obtain ⟨l, f⟩ := e
        obtain rfl : l = .directive .paragraph := by simpa [Marked.isBreak] using hb
        rfl
      simp [hb, ih, hl]
    · obtain ⟨first, rest, hs⟩ :=
        List.exists_cons_of_ne_nil (List.splitOnP_ne_nil Marked.isBreak es)
      rw [hs] at ih ⊢
      cases hl : e.literal? <;> simp [hb, ← ih, hl]

theorem sourceParagraphs_shown (s : Stylesheet) (texts : List String) :
    (sourceParagraphs s texts).flatMap (fun p => p.words.map Word.shown) =
      s.walk {} texts := by
  rw [s.walk_eq_literals, ← flatten_segmentsOf, sourceParagraphs]
  generalize segmentsOf (marked {} (texts.filterMap SourceLine.of?)) = segments
  induction segments with
  | nil => rfl
  | cons segment rest ih =>
    have hp := s.paragraph?_shown segment
    rw [List.flatten_cons, List.flatMap_append, ← ih, ← hp, List.filterMap_cons]
    cases s.paragraph? segment <;> simp

/-! ## The pages -/

namespace Press

theorem shownFrom_wordOperators {fonts : List FontObject}
    (hfonts : ∀ face, fonts.any (·.face = face) = true) (advances : List Single)
    (words : List Word) (hlen : words.length ≤ advances.length)
    (font : Option (String × Single)) :
    Pdf.shownFrom font ((advances.zip words).flatMap fun (advance, w) =>
      wordOperators fonts advance w) = words.map Word.shown := by
  induction words generalizing advances font with
  | nil => simp [Pdf.shownFrom]
  | cons w rest ih =>
    cases advances with
    | nil => simp at hlen
    | cons advance advances =>
      have hrest := ih advances (by simpa using hlen)
      rw [List.zip_cons_cons, List.flatMap_cons, Pdf.shownFrom_append hrest, List.map_cons]
      simp [wordOperators, hfonts, Pdf.shownFrom, Word.shown, Piece.shown, Word.piece]

theorem shownFrom_lineOperators {fonts : List FontObject}
    (hfonts : ∀ face, fonts.any (·.face = face) = true) (x baseline : Single) (l : Line)
    (font : Option (String × Single)) :
    Pdf.shownFrom font (lineOperators fonts x baseline l) = l.words.toList.map Word.shown := by
  have hend : ∀ font, Pdf.shownFrom font [.endText] = [] := fun _ => rfl
  have hwords := shownFrom_wordOperators hfonts (0 :: l.words.toList.map Word.width) l.words.toList
    (by simp)
  rw [lineOperators, Pdf.shownFrom_append hend, List.append_nil, Pdf.shownFrom_append hwords]
  simp [Pdf.shownFrom]

def shown (p : Press) : List Shown := p.contents.flatMap Pdf.shown

variable {c : Config} {p : Press}

theorem SetUp.any_face (h : SetUp c p) (face : Face) : p.fonts.any (·.face = face) = true := by
  rw [h.fonts]
  cases face <;> rfl

theorem shown_printed (h : SetUp c p) (b : Block) (l : Line) (font : Option (String × Single)) :
    Pdf.shownFrom font (printed b p l) = l.words.toList.map Word.shown := by
  unfold printed
  split
  · rename_i he
    simp [Pdf.shownFrom, Array.isEmpty_iff.mp he]
  · exact shownFrom_lineOperators h.any_face _ _ l font

theorem shown_writeLine (h : SetUp c p) (b : Block) (l : Line) :
    (writeLine b p l).shown = p.shown ++ l.words.toList.map Word.shown := by
  obtain ⟨before, last, hw, hlast⟩ := contents_writeLine b p l
  have hl : Pdf.shown (last ++ printed b (p.roomFor b l) l) =
      Pdf.shown last ++ l.words.toList.map Word.shown :=
    Pdf.shownFrom_append (shown_printed (h.roomFor b l) b l) none last
  have hp : p.shown = before.flatMap Pdf.shown ++ Pdf.shown last := by
    rcases hlast with hp | ⟨hp, rfl⟩ <;> simp [shown, hp, Pdf.shown, Pdf.shownFrom]
  rw [shown, hw, hp, List.flatMap_append, List.flatMap_singleton, hl, List.append_assoc]

theorem write_spec (h : SetUp c p) (b : Block) :
    SetUp c (p.write b) ∧ (p.write b).shown =
      p.shown ++ b.lines.toList.flatMap fun l => l.words.toList.map Word.shown := by
  rw [write, ← Array.foldl_toList]
  generalize b.lines.toList = lines
  induction lines generalizing p with
  | nil => exact ⟨h, by simp⟩
  | cons l rest ih =>
    obtain ⟨hup, hs⟩ := ih (h.writeLine b l)
    refine ⟨hup, ?_⟩
    rw [List.foldl_cons, hs, shown_writeLine h, List.flatMap_cons, List.append_assoc]

theorem shown_foldl_writeBlock (h : SetUp c p) (blocks : List Block) :
    (blocks.foldl (writeBlock c) p).shown = p.shown ++
      blocks.flatMap fun b => b.lines.toList.flatMap fun l => l.words.toList.map Word.shown := by
  induction blocks generalizing p with
  | nil => simp
  | cons b rest ih =>
    obtain ⟨hup, hs⟩ := write_spec h b
    have hfeed : (writeBlock c p b).shown = (p.write b).shown := rfl
    have hrest := ih (p := writeBlock c p b) (hup.feed _)
    rw [List.foldl_cons, hrest, hfeed, hs, List.flatMap_cons, List.append_assoc]

end Press

/-! ## The lines -/

theorem Line.justify_shown (area : Single) (l : Line) :
    (l.justify area).words.toList.map Word.shown = l.words.toList.map Word.shown := by
  unfold justify
  split
  · rfl
  · simp only [stretch, Array.toList_map, List.map_map]
    refine List.map_congr_left fun w _ => ?_
    simp only [Function.comp_apply]
    split <;> rfl

theorem Block.justify_shown (b : Block) (area : Single) :
    ((b.justify area).lines.toList.flatMap fun l => l.words.toList.map Word.shown) =
      b.lines.toList.flatMap fun l => l.words.toList.map Word.shown := by
  rcases b.justify_cases area with h | ⟨init, last, hinit, h⟩
  · rw [h]
  · simp [h, hinit, List.flatMap_map, Line.justify_shown]

theorem atLineStart_shown (words : List Word) :
    (atLineStart words).map Word.shown = words.map Word.shown := by
  cases words <;> rfl

theorem Config.layOut_shown {c : Config} {p : Paragraph} {b : Block} (h : c.layOut p = .ok b) :
    (b.lines.toList.flatMap fun l => l.words.toList.map Word.shown) = p.words.map Word.shown := by
  obtain ⟨indent, hi⟩ := Config.layOut_eq_ok h
  obtain ⟨a, groups, ha, _, _, _, hfit⟩ := c.layOut_of_indent hi
  obtain rfl : a.justify (c.textWidth - indent) = b := Except.ok.inj (ha.symm.trans h)
  calc
    _ = (a.lines.toList.map fun l => l.words.toList).flatMap fun ws => ws.map Word.shown := by
      rw [Block.justify_shown, List.flatMap_map]
    _ = groups.flatMap fun g => g.flatten.map Word.shown := by
      rw [hfit.map_words, List.flatMap_map]
      simp only [atLineStart_shown]
    _ = groups.flatten.flatten.map Word.shown := by
      rw [List.flatten_flatten, List.map_flatten, List.map_map, List.flatMap_def]
      rfl
    _ = p.words.map Word.shown := by rw [hfit.clustering.flatten]

theorem Document.render_shown {d : Document} {r : Rendering} (h : d.render = .ok r) :
    r.press.shown = d.paragraphs.toList.flatMap fun p => p.words.map Word.shown := by
  obtain ⟨blocks, hblocks, rfl⟩ := (d.render_eq_ok_iff r).mp h
  rw [Press.shown_foldl_writeBlock (Press.start_setUp d.config)]
  have hstart : (Press.start d.config).shown = [] := rfl
  rw [hstart, List.nil_append]
  clear h
  generalize d.paragraphs.toList = ps at hblocks
  induction hblocks with
  | nil => rfl
  | cons hb _ ih => rw [List.flatMap_cons, List.flatMap_cons, ih, Config.layOut_shown hb]

/-- From source to pages: with a proper width between the margins, a conversion that succeeds
renders, and the strings of all pages are those of one walk over the source lines, repeated for each
copy. No word is lost, doubled or moved, and none is shown in another font. -/
theorem source_text_shown (c : Config) (source : String) (copies : Nat)
    (hwidth : 0 ≤ c.textWidth / 2)
    (h : (convert c.stylesheet source copies).failure = none) :
    ∃ r, (Document.mk c (convert c.stylesheet source copies).paragraphs).render = .ok r ∧
      (r.pages.flatMap fun page => Pdf.shown page.content.toList) =
        (List.replicate copies (c.stylesheet.walk {} (Text.lines source))).flatten := by
  obtain ⟨r, hr⟩ := Document.render_isOk
    (d := ⟨c, (convert c.stylesheet source copies).paragraphs⟩) hwidth
  refine ⟨r, hr, ?_⟩
  have hpages : (r.pages.flatMap fun page => Pdf.shown page.content.toList) = r.press.shown := by
    rw [Press.shown, Press.contents, List.flatMap_map, Rendering.pages]
  rw [hpages, Document.render_shown hr, convert_paragraphs h, ← sourceParagraphs_shown]
  rw [List.flatMap_def, List.map_flatten, List.map_replicate, List.flatten_flatten,
    List.map_replicate, List.flatMap_def]

/-- Two copies of a bold line; the second starts again from plain formatting. -/
theorem source_text_shown_sample :
    0 ≤ ({} : Config).textWidth / 2 ∧
    (convert ({} : Config).stylesheet "I\n.bold\nam  so" 2).failure = none ∧
    ∃ r, (Document.mk {} (convert ({} : Config).stylesheet "I\n.bold\nam  so" 2).paragraphs).render
        = .ok r ∧
      (r.pages.flatMap fun page => Pdf.shown page.content.toList) =
        [⟨some ("Helvetica", 12), [73]⟩, ⟨some ("Helvetica-Bold", 12), [97, 109]⟩,
          ⟨some ("Helvetica-Bold", 12), [115, 111]⟩,
          ⟨some ("Helvetica", 12), [73]⟩, ⟨some ("Helvetica-Bold", 12), [97, 109]⟩,
          ⟨some ("Helvetica-Bold", 12), [115, 111]⟩] := by
  have hwidth : 0 ≤ ({} : Config).textWidth / 2 := by decide
  have hconvert : (convert ({} : Config).stylesheet "I\n.bold\nam  so" 2).failure = none := by
    decide
  obtain ⟨r, hr, hshown⟩ := source_text_shown {} "I\n.bold\nam  so" 2 hwidth hconvert
  refine ⟨hwidth, hconvert, r, hr, hshown.trans ?_⟩
  decide

end Typesetter
