import Mathlib.Data.List.Forall2
import Typesetter.Document
import Typesetter.Proofs.FirstFit

/-! # Rendering paragraph by paragraph

A document renders exactly when every paragraph is laid out, and then the press has written the
blocks in order. What the press was set up with at the start is in force all the way. -/
namespace Typesetter
open Numeric (Single)

/-! ## Layout -/

namespace Config

theorem layOut_of_indent (c : Config) {p : Paragraph} {indent : Single}
    (h : c.indent? p = some indent) :
    ∃ (b : Block) (groups : List (List Cluster)),
      c.layOut p = .ok (b.justify (c.textWidth - indent)) ∧
      b.alignment = p.alignment ∧ b.size = c.normalFontSize ∧ b.indent = indent ∧
      FirstFit (c.textWidth - indent) p.words groups b.lines.toList := by
  obtain ⟨b, groups, hplace, ha, hs, hi, _, hfit⟩ := Block.placeAll?_firstFit p.alignment
    c.normalFontSize indent (c.textWidth - indent) p.words
  refine ⟨b, groups, ?_, ha, hs, hi, hfit⟩
  simp [layOut, h, hplace]

theorem indent?_isSome_iff (c : Config) (p : Paragraph) :
    (∃ indent, c.indent? p = some indent) ↔ 0 ≤ c.textWidth / 2 := by
  unfold indent? Numeric.Binary.clamp?
  by_cases h : 0 ≤ c.textWidth / 2
  · rw [if_pos h]
    exact ⟨fun _ => h, fun _ => ⟨_, rfl⟩⟩
  · rw [if_neg h]
    exact ⟨fun ⟨_, hsome⟩ => absurd hsome (by simp), fun hle => absurd hle h⟩

theorem layOut_eq_ok {c : Config} {p : Paragraph} {b : Block} (h : c.layOut p = .ok b) :
    ∃ indent, c.indent? p = some indent := by
  cases hi : c.indent? p with
  | none => simp [layOut, hi] at h
  | some indent => exact ⟨indent, rfl⟩

end Config

/-! ## Writing blocks -/

theorem exists_left_of_forall₂ {α β : Type} {R : α → β → Prop} {as : List α} {bs : List β}
    (h : List.Forall₂ R as bs) : ∀ b ∈ bs, ∃ a ∈ as, R a b := by
  induction h with
  | nil => simp
  | @cons a b as bs hab _ ih =>
    refine List.forall_mem_cons.mpr ⟨⟨a, List.mem_cons_self, hab⟩, ?_⟩
    intro b' hb'
    obtain ⟨a', ha', hab'⟩ := ih b' hb'
    exact ⟨a', List.mem_cons_of_mem _ ha', hab'⟩

namespace Press

def writeBlock (c : Config) (p : Press) (b : Block) : Press := (p.write b).feed c.paragraphSpacing

theorem foldlM_writeParagraph_eq_ok_iff (c : Config) (ps : List Paragraph) (p q : Press) :
    ps.foldlM (writeParagraph c) p = .ok q ↔
      ∃ blocks, List.Forall₂ (fun p b => c.layOut p = .ok b) ps blocks ∧
        q = blocks.foldl (writeBlock c) p := by
  induction ps generalizing p with
  | nil =>
    constructor
    · intro h
      exact ⟨[], .nil, (Except.ok.inj h).symm⟩
    · rintro ⟨blocks, h, rfl⟩
      cases h
      rfl
  | cons paragraph ps ih =>
    rw [List.foldlM_cons]
    constructor
    · intro h
      cases hb : c.layOut paragraph with
      | error e =>
        simp [writeParagraph, hb, bind, Except.bind] at h
      | ok b =>
        simp only [writeParagraph, hb, bind, Except.bind] at h
        obtain ⟨blocks, hblocks, rfl⟩ := (ih _).mp h
        exact ⟨b :: blocks, .cons hb hblocks, rfl⟩
    · rintro ⟨blocks, h, rfl⟩
      cases h with
      | cons hb hrest =>
        simp only [writeParagraph, hb, bind, Except.bind]
        exact (ih _).mpr ⟨_, hrest, rfl⟩

/-- The press that a document is rendered with, once the page tree has its number. -/
def start (c : Config) : Press := (Press.new c).bump.2

end Press

theorem Document.render_eq (d : Document) :
    d.render = (d.paragraphs.toList.foldlM (Press.writeParagraph d.config)
      (Press.start d.config)).map (Rendering.mk 7) := by
  rw [Array.foldlM_toList]
  rfl

theorem Document.render_eq_ok_iff (d : Document) (r : Rendering) :
    d.render = .ok r ↔
      ∃ blocks, List.Forall₂ (fun p b => d.config.layOut p = .ok b) d.paragraphs.toList blocks ∧
        r = ⟨7, blocks.foldl (Press.writeBlock d.config) (Press.start d.config)⟩ := by
  rw [render_eq]
  constructor
  · intro h
    cases hp : d.paragraphs.toList.foldlM (Press.writeParagraph d.config)
        (Press.start d.config) with
    | error e => simp [hp, Except.map] at h
    | ok q =>
      obtain ⟨blocks, hblocks, rfl⟩ := (Press.foldlM_writeParagraph_eq_ok_iff _ _ _ _).mp hp
      rw [hp] at h
      exact ⟨blocks, hblocks, (Except.ok.inj h).symm⟩
  · rintro ⟨blocks, hblocks, rfl⟩
    rw [(Press.foldlM_writeParagraph_eq_ok_iff _ _ _ _).mpr ⟨blocks, hblocks, rfl⟩]
    rfl

theorem Document.exists_of_length_pages {d : Document} {n : Nat}
    (h : d.render.toOption.map (fun r => r.pages.length) = some n) :
    ∃ r, d.render = .ok r ∧ r.pages.length = n := by
  cases hr : d.render with
  | error e => simp [hr, Except.toOption] at h
  | ok r => exact ⟨r, rfl, by simpa [hr, Except.toOption] using h⟩

/-- A proper width between the margins is all that rendering asks for. -/
theorem Document.render_isOk {d : Document} (h : 0 ≤ d.config.textWidth / 2) :
    ∃ r, d.render = .ok r := by
  have hblocks : ∀ ps : List Paragraph,
      ∃ blocks, List.Forall₂ (fun p b => d.config.layOut p = .ok b) ps blocks := by
    intro ps
    induction ps with
    | nil => exact ⟨[], .nil⟩
    | cons p ps ih =>
      obtain ⟨blocks, hrest⟩ := ih
      obtain ⟨indent, hi⟩ := (d.config.indent?_isSome_iff p).mpr h
      obtain ⟨b, _, hb, _⟩ := d.config.layOut_of_indent hi
      exact ⟨_, .cons hb hrest⟩
  obtain ⟨blocks, hb⟩ := hblocks d.paragraphs.toList
  exact ⟨_, (d.render_eq_ok_iff _).mpr ⟨blocks, hb, rfl⟩⟩

/-! ## Blocks -/

namespace Block

theorem justify_cases (b : Block) (area : Single) :
    b.justify area = b ∨ ∃ (init : Array Line) (last : Line), b.lines = init.push last ∧
      b.justify area = { b with lines := (init.map (Line.justify area)).push last } := by
  unfold justify
  split
  · exact Or.inl rfl
  · split
    · exact Or.inl rfl
    · rename_i last hlast
      obtain ⟨init, hinit⟩ := Array.back?_eq_some_iff.mp hlast
      exact Or.inr ⟨init, last, hinit, by simp [hinit]⟩

theorem justify_size (b : Block) (area : Single) : (b.justify area).size = b.size := by
  rcases b.justify_cases area with h | ⟨_, _, _, h⟩ <;> rw [h]

theorem forall_line_justify {b : Block} {area : Single} {P : Line → Prop}
    (hkept : ∀ l ∈ b.lines.toList, P l)
    (hjustified : ∀ l ∈ b.lines.toList.dropLast, P (l.justify area)) :
    ∀ l ∈ (b.justify area).lines.toList, P l := by
  rcases b.justify_cases area with hj | ⟨init, last, hinit, hj⟩
  · rw [hj]
    exact hkept
  · rw [hinit, Array.toList_push] at hkept hjustified
    rw [List.dropLast_concat] at hjustified
    rw [hj, Array.toList_push, Array.toList_map, List.forall_mem_append, List.forall_mem_map]
    exact ⟨hjustified, (List.forall_mem_append.mp hkept).2⟩

theorem size_lines_justify (b : Block) (area : Single) :
    (b.justify area).lines.size = b.lines.size := by
  rcases b.justify_cases area with h | ⟨init, last, hinit, h⟩
  · rw [h]
  · simp [h, hinit]

end Block

theorem FirstFit.lines_ne_nil {area : Single} {words : List Word} {groups : List (List Cluster)}
    {lines : List Line} (h : FirstFit area words groups lines) : lines ≠ [] := by
  rintro rfl
  have hg : groups = [] := List.forall₂_nil_right_iff.mp h.bodies
  have hw : words = [] := by simpa [hg] using h.clustering.flatten.symm
  exact List.cons_ne_nil _ _ (h.single hw).symm

theorem Config.block_of_layOut {c : Config} {p : Paragraph} {b : Block}
    (h : c.layOut p = .ok b) : b.size = c.normalFontSize ∧ b.lines ≠ #[] := by
  obtain ⟨indent, hi⟩ := Config.layOut_eq_ok h
  obtain ⟨a, _, ha, _, hs, _, hfit⟩ := c.layOut_of_indent hi
  obtain rfl : a.justify (c.textWidth - indent) = b := Except.ok.inj (ha.symm.trans h)
  refine ⟨(a.justify_size _).trans hs, ?_⟩
  intro hempty
  have hsize := a.size_lines_justify (c.textWidth - indent)
  rw [hempty] at hsize
  refine hfit.lines_ne_nil ?_
  simpa using Array.eq_empty_of_size_eq_zero hsize.symm

/-! ## What a press keeps -/

namespace Press

structure SetUp (c : Config) (p : Press) : Prop where
  fonts : p.fonts = (Press.new c).fonts
  pageWidth : p.pageWidth = c.pageWidth
  pageHeight : p.pageHeight = c.pageHeight
  margin : p.margin = c.pageMargin
  lineSpacing : p.lineSpacing = c.lineSpacing

variable {c : Config} {p : Press}

theorem start_setUp (c : Config) : SetUp c (start c) := ⟨rfl, rfl, rfl, rfl, rfl⟩

theorem SetUp.feed (h : SetUp c p) (height : Single) : SetUp c (p.feed height) :=
  ⟨h.fonts, h.pageWidth, h.pageHeight, h.margin, h.lineSpacing⟩

theorem SetUp.newPage (h : SetUp c p) : SetUp c p.newPage :=
  ⟨h.fonts, h.pageWidth, h.pageHeight, h.margin, h.lineSpacing⟩

theorem SetUp.makeRoom (h : SetUp c p) (pitch : Single) : SetUp c (p.makeRoom pitch) := by
  unfold Press.makeRoom
  split
  · exact h.newPage
  · exact h

def roomFor (p : Press) (b : Block) (l : Line) : Press :=
  p.makeRoom (lineHeight b l * p.lineSpacing)

theorem SetUp.roomFor (h : SetUp c p) (b : Block) (l : Line) : SetUp c (p.roomFor b l) :=
  h.makeRoom _

def printed (b : Block) (p : Press) (l : Line) : List Pdf.Operator :=
  if l.words.isEmpty then []
  else lineOperators p.fonts (p.margin + b.indent) (p.y - lineHeight b l) l

theorem y_writeLine (b : Block) (p : Press) (l : Line) :
    (writeLine b p l).y = (p.roomFor b l).y - lineHeight b l * p.lineSpacing := by
  unfold writeLine
  dsimp only
  split <;> rfl

theorem size_pages_writeLine (b : Block) (p : Press) (l : Line) :
    (writeLine b p l).pages.size = (p.roomFor b l).pages.size := by
  unfold writeLine
  dsimp only
  split <;> simp [pages, roomFor, feed, print, goTo]

theorem SetUp.writeLine (h : SetUp c p) (b : Block) (l : Line) : SetUp c (writeLine b p l) := by
  have hq := h.makeRoom (lineHeight b l * p.lineSpacing)
  unfold Press.writeLine
  dsimp only
  split
  · exact hq.feed _
  · exact ⟨hq.fonts, hq.pageWidth, hq.pageHeight, hq.margin, hq.lineSpacing⟩

def contents (p : Press) : List (List Pdf.Operator) :=
  p.pages.toList.map fun page => page.content.toList

theorem length_contents (p : Press) : p.contents.length = p.pages.size := by
  simp [contents]

theorem contents_eq (p : Press) :
    p.contents = p.finished.toList.map (fun page => page.content.toList) ++
      [p.current.content.toList] := by
  simp [contents, pages]

/-- A line prints at the end of the last page, which is the page before or a new one. -/
theorem contents_writeLine (b : Block) (p : Press) (l : Line) :
    ∃ before last, (writeLine b p l).contents = before ++ [last ++ printed b (p.roomFor b l) l] ∧
      (p.contents = before ++ [last] ∨ p.contents = before ∧ last = []) := by
  have hw : (writeLine b p l).contents =
      (p.roomFor b l).finished.toList.map (fun page => page.content.toList) ++
        [(p.roomFor b l).current.content.toList ++ printed b (p.roomFor b l) l] := by
    unfold writeLine printed
    dsimp only
    split <;> simp [contents, pages, roomFor, feed, print, goTo]
  refine ⟨_, _, hw, ?_⟩
  unfold roomFor makeRoom
  split
  · exact Or.inr ⟨contents_eq p ▸ by simp [newPage], rfl⟩
  · exact Or.inl (contents_eq p)

end Press
end Typesetter
