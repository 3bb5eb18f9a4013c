import Mathlib.Data.List.TakeDrop
import Typesetter.Proofs.NoBlankPages
import Typesetter.Proofs.Operands

/-! # Word spacing

Where the words of a line start. The move to a word is counted from the start of the word before, so
two words do not overlap if the move is no less than the width of the first. Rounding does not get
in the way: a gap that is not negative never brings a sum below its other term. -/
namespace Typesetter
open Numeric (Single Binary)

/-- A line on a page: where it starts, and its words, each with the blanks before it in the source
and with the move that leads to it from the start of the word before. -/
structure TextLine where
  x : Single
  baseline : Single
  words : List (Single × Spaced)

def Spaced.extent (s : Spaced) : Single := s.word.face.textWidth s.word.size s.word.text

namespace TextLine

def wordOperators (m : Single × Spaced) : List Pdf.Operator :=
  [.moveBy m.1 0, .setFont m.2.word.face m.2.word.size, .showText (WinAnsi.encode m.2.word.text)]

def operators (t : TextLine) : List Pdf.Operator :=
  [.beginText, .moveBy t.x t.baseline] ++ t.words.flatMap wordOperators ++ [.endText]

/-- The second word starts behind the first, and right at its end if no blank is between them. -/
structure Follows (m n : Single × Spaced) : Prop where
  clear : m.2.extent ≤ n.1
  glued : n.2.gap = [] → n.1 = m.2.extent

structure Apart (t : TextLine) : Prop where
  inhabited : t.words ≠ []
  first : ∀ m ∈ t.words.head?, m.1 = 0
  later : t.words.IsChain Follows

/-- The words are consecutive words of the paragraph, with the blanks of its text before them. -/
def IsFrom (p : Paragraph) (t : TextLine) : Prop :=
  ∃ spaced rest, Reading p.text.toList p.words spaced rest ∧ t.words.map Prod.snd <:+: spaced

end TextLine

/-! ## Words on a line -/

/-- A word of a paragraph as it stands on a line. Only its gap may differ, and there is none if the
word is glued to the one before. -/
structure Spaced.Stands (s : Spaced) (w : Word) : Prop where
  text : w.text = s.word.text
  face : w.face = s.word.face
  size : w.size = s.word.size
  width : w.width = s.extent
  unsigned : w.width.Unsigned
  offset : 0 ≤ w.offset
  flush : w.stretchable = false → w.offset = 0
  glued : s.gap = [] → w.stretchable = false

structure Line.Sets (spaced : List Spaced) (l : Line) : Prop where
  words : List.Forall₂ Spaced.Stands spaced l.words.toList
  first : ∀ w ∈ l.words.toList.head?, w.stretchable = false

theorem Paragraph.stands {p : Paragraph} (hsize : ∀ r ∈ p.runs.toList, 0 < r.size)
    {spaced : List Spaced} {rest : List Char} (h : Reading p.text.toList p.words spaced rest) :
    List.Forall₂ Spaced.Stands spaced p.words := by
  rw [← h.words, List.forall₂_map_right_iff, List.forall₂_same]
  intro s hs
  have hproper := h.proper s hs
  have hmem : s.word ∈ p.words := by
    rw [← h.words]
    exact List.mem_map_of_mem hs
  obtain ⟨r, hr, words, hyields, hw⟩ := p.exists_yields hmem
  have hpos := hsize r hr
  have hwidth : s.word.width = s.extent := by
    rw [hyields.width _ hw, Spaced.extent, hyields.face _ hw, hyields.size _ hw]
  have hoffset := hyields.offset _ hw
  refine ⟨rfl, rfl, rfl, hwidth, ?_, ?_, ?_, ?_⟩
  · rw [hyields.width _ hw]
    exact Face.unsigned_textWidth hpos _ (Paragraph.text_ne_empty hmem)
  · rw [hoffset]
    split
    · exact (Face.unsigned_textWidth hpos _ (by decide)).nonneg
    · decide
  · intro hglued
    rw [hoffset, hglued]
    rfl
  · intro hgap
    rw [hproper.stretchable, hgap]
    rfl

theorem Line.sets_atLineStart {spaced : List Spaced} {body : List Word} {l : Line}
    (h : List.Forall₂ Spaced.Stands spaced body) (hl : l.words.toList = atLineStart body) :
    l.Sets spaced := by
  cases h with
  | nil =>
    constructor
    · rw [hl]
      exact .nil
    · rw [hl]
      simp [atLineStart]
  | cons hw hrest =>
    constructor
    · rw [hl]
      exact .cons ⟨hw.text, hw.face, hw.size, hw.width, hw.unsigned, Binary.le_refl (by decide),
        fun _ => rfl, fun _ => rfl⟩ hrest
    · rw [hl]
      simp [atLineStart]

theorem Spaced.Stands.stretch {s : Spaced} {w : Word} (h : s.Stands w) {extra : Single}
    (hextra : 0 ≤ extra) :
    s.Stands (if w.stretchable then { w with offset := w.offset + extra } else w) := by
  by_cases hw : w.stretchable = true
  · rw [if_pos hw]
    refine ⟨h.text, h.face, h.size, h.width, h.unsigned, Binary.add_nonneg h.offset hextra, ?_,
      h.glued⟩
    intro hglued
    cases hw.symm.trans hglued
  · rw [if_neg hw]
    exact h

namespace Line
variable {spaced : List Spaced} {l : Line}

theorem Sets.width_nonneg (h : l.Sets spaced) (hmeasured : l = pushAll {} l.words.toList) :
    0 ≤ l.width := by
  have hwords : ∀ w ∈ l.words.toList, 0 ≤ w.offset ∧ 0 ≤ w.width := by
    intro w hw
    obtain ⟨s, -, hs⟩ := exists_left_of_forall₂ h.words w hw
    exact ⟨hs.offset, hs.unsigned.nonneg⟩
  rw [hmeasured]
  exact (width_pushAll hwords).1

theorem Sets.stretch (h : l.Sets spaced) {extra : Single} (hextra : 0 ≤ extra) (width : Single) :
    ({ l with words := l.stretch extra, width } : Line).Sets spaced := by
  constructor
  · rw [Line.stretch, Array.toList_map, List.forall₂_map_right_iff]
    exact h.words.imp fun _ _ hs => hs.stretch hextra
  · intro w hw
    rw [Line.stretch, Array.toList_map, List.head?_map] at hw
    obtain ⟨v, hv, rfl⟩ := Option.map_eq_some_iff.mp hw
    have hglued := h.first v hv
    rw [if_neg (by simp [hglued])]
    exact hglued

/-- Where some number is larger than the area, the area is not infinite, and then the room that is
left on a line that is not full is no less than zero. -/
theorem Sets.justify (h : l.Sets spaced) (hmeasured : l = pushAll {} l.words.toList)
    {area beyond : Single} (harea : area < beyond) : (l.justify area).Sets spaced := by
  by_cases hfull : l.Full area
  · rw [justify_of_full hfull]
    exact h
  · rw [justify_of_not_full hfull]
    apply h.stretch
    have hwidth := h.width_nonneg hmeasured
    have hroom := width_lt_of_not_full hfull hwidth
      (Binary.ne_nan_of_le_left (Binary.le_of_lt harea))
    have hfinite := Binary.isFinite_of_nonneg_of_lt
      (Binary.le_trans hwidth (Binary.le_of_lt hroom)) harea
    exact (share_bounds hfull hwidth hfinite).1

end Line

/-! ## Lines of a paragraph -/

theorem exists_slice_of_forall₂ {α β : Type} {R : α → β → Prop} {as : List α} {bs part : List β}
    (h : List.Forall₂ R as bs) (hpart : part <:+: bs) :
    ∃ slice, slice <:+: as ∧ List.Forall₂ R slice part := by
  obtain ⟨before, after, rfl⟩ := hpart
  refine ⟨(as.drop before.length).take part.length, ?_, ?_⟩
  · exact (List.take_prefix _ _).isInfix.trans (List.drop_suffix _ _).isInfix
  · have hrest := List.forall₂_take part.length (List.forall₂_drop before.length h)
    rwa [List.append_assoc, List.drop_left, List.take_left] at hrest

theorem FirstFit.exists_area_lt {area : Single} {words : List Word} {groups : List (List Cluster)}
    {lines : List Line} (h : FirstFit area words groups lines) {l : Line}
    (hl : l ∈ lines.dropLast) : ∃ beyond, area < beyond := by
  have hlength := h.bodies.length_eq.symm
  have htwo := List.length_pos_of_mem hl
  rw [List.length_dropLast] at htwo
  have hfull := h.full
  cases groups with
  | nil =>
    rw [List.length_nil] at hlength
    omega
  | cons g rest =>
    cases rest with
    | nil =>
      rw [List.length_singleton] at hlength
      omega
    | cons next _ =>
      obtain ⟨⟨k, _, -, hlt⟩, -⟩ := List.isChain_cons_cons.mp hfull
      exact ⟨_, hlt⟩

theorem Config.exists_sets_of_layOut {c : Config} {p : Paragraph} {b : Block}
    (h : c.layOut p = .ok b) (hsize : ∀ r ∈ p.runs.toList, 0 < r.size) {spaced : List Spaced}
    {rest : List Char} (hreading : Reading p.text.toList p.words spaced rest) :
    ∀ l ∈ b.lines.toList, ∃ slice, slice <:+: spaced ∧ l.Sets slice := by
  obtain ⟨indent, hi⟩ := Config.layOut_eq_ok h
  obtain ⟨a, groups, ha, _, _, _, hfit⟩ := c.layOut_of_indent hi
  obtain rfl : a.justify (c.textWidth - indent) = b := Except.ok.inj (ha.symm.trans h)
  have hstands := p.stands hsize hreading
  have hsets : ∀ l ∈ a.lines.toList, ∃ slice, slice <:+: spaced ∧ l.Sets slice := by
    intro l hl
    obtain ⟨body, hbody, hpart⟩ := hfit.exists_words hl
    obtain ⟨slice, hslice, hwords⟩ := exists_slice_of_forall₂ hstands hpart
    exact ⟨slice, hslice, Line.sets_atLineStart hwords hbody⟩
  apply Block.forall_line_justify hsets
  intro l hl
  have hmem := List.mem_of_mem_dropLast hl
  obtain ⟨slice, hslice, hl'⟩ := hsets l hmem
  obtain ⟨beyond, hbeyond⟩ := hfit.exists_area_lt hl
  exact ⟨slice, hslice, hl'.justify (hfit.measured l hmem) hbeyond⟩

/-! ## What a line prints -/

namespace Line

def movesFrom (advance : Single) : List Word → List Single
  | [] => []
  | w :: rest => (advance + w.offset) :: movesFrom w.width rest

def textLine (x baseline : Single) (spaced : List Spaced) (l : Line) : TextLine :=
  ⟨x, baseline, (movesFrom 0 l.words.toList).zip spaced⟩

theorem length_movesFrom (advance : Single) (words : List Word) :
    (movesFrom advance words).length = words.length := by
  induction words generalizing advance with
  | nil => rfl
  | cons w rest ih => rw [movesFrom, List.length_cons, List.length_cons, ih]

variable {spaced : List Spaced} {l : Line}

theorem operators_movesFrom {fonts : List FontObject}
    (hfonts : ∀ face, fonts.any (·.face = face) = true) {words : List Word}
    (h : List.Forall₂ Spaced.Stands spaced words) (advance : Single) :
    ((advance :: words.map Word.width).zip words).flatMap
        (fun m => Press.wordOperators fonts m.1 m.2) =
      ((movesFrom advance words).zip spaced).flatMap TextLine.wordOperators := by
  induction h generalizing advance with
  | nil => rfl
  | @cons s w _ rest hw _ ih =>
    have hword : Press.wordOperators fonts advance w =
        TextLine.wordOperators (advance + w.offset, s) := by
      rw [Press.wordOperators, if_pos (hfonts w.face), hw.face, hw.size, hw.text]
      rfl
    rw [movesFrom, List.map_cons, List.zip_cons_cons, List.zip_cons_cons, List.flatMap_cons,
      List.flatMap_cons, hword, ih]

theorem Sets.lineOperators_eq (h : l.Sets spaced) {fonts : List FontObject}
    (hfonts : ∀ face, fonts.any (·.face = face) = true) (x baseline : Single) :
    Press.lineOperators fonts x baseline l = (l.textLine x baseline spaced).operators := by
  have hwords := operators_movesFrom hfonts h.words 0
  rw [Press.lineOperators, TextLine.operators, textLine, ← hwords]

theorem isChain_movesFrom {words : List Word} (h : List.Forall₂ Spaced.Stands spaced words)
    {s : Spaced} {w : Word} (hw : s.Stands w) (move : Single) :
    ((move, s) :: (movesFrom w.width words).zip spaced).IsChain TextLine.Follows := by
  induction h generalizing s w move with
  | nil => exact List.isChain_singleton _
  | @cons t v _ _ hv _ ih =>
    rw [movesFrom, List.zip_cons_cons, List.isChain_cons_cons]
    refine ⟨⟨?_, ?_⟩, ih hv _⟩
    · rw [← hw.width]
      exact Binary.le_add_right hw.unsigned.nonneg hv.offset
    · intro hgap
      rw [← hw.width, hv.flush (hv.glued hgap)]
      exact hw.unsigned.add_zero

theorem Sets.apart (h : l.Sets spaced) (hwords : l.words ≠ #[]) (x baseline : Single) :
    (l.textLine x baseline spaced).Apart := by
  obtain ⟨hstands, hfirst⟩ := h
  unfold textLine
  cases hl : l.words.toList with
  | nil => exact absurd (Array.toList_eq_nil_iff.mp hl) hwords
  | cons w rest =>
    rw [hl] at hstands hfirst
    cases hstands with
    | @cons s _ _ _ hw hrest =>
      have hzero : (0 : Single) + 0 = 0 := by decide
      have hoffset := hw.flush (hfirst w rfl)
      refine ⟨List.cons_ne_nil _ _, ?_, isChain_movesFrom hrest hw _⟩
      intro m hm
      obtain rfl : (0 + w.offset, s) = m := Option.some.inj hm
      rw [hoffset, hzero]

theorem Sets.map_words (h : l.Sets spaced) (x baseline : Single) :
    (l.textLine x baseline spaced).words.map Prod.snd = spaced := by
  apply List.map_snd_zip
  rw [length_movesFrom, h.words.length_eq]

end Line

/-! ## Pages -/

theorem exists_flatMap_eq {α β γ : Type} {f : α → List γ} {g : β → List γ} {P : β → Prop}
    {xs : List α} (h : ∀ x ∈ xs, ∃ ys : List β, f x = ys.flatMap g ∧ ∀ y ∈ ys, P y) :
    ∃ ys : List β, xs.flatMap f = ys.flatMap g ∧ ∀ y ∈ ys, P y := by
  induction xs with
  | nil => exact ⟨[], rfl, by simp⟩
  | cons x rest ih =>
    obtain ⟨hx, hrest⟩ := List.forall_mem_cons.mp h
    obtain ⟨ys, hys, hall⟩ := hx
    obtain ⟨zs, hzs, hall'⟩ := ih hrest
    refine ⟨ys ++ zs, ?_, List.forall_mem_append.mpr ⟨hall, hall'⟩⟩
    rw [List.flatMap_cons, List.flatMap_append, hys, hzs]

theorem Placement.exists_textLines {c : Config} {q : Placement} {p : Paragraph}
    {spaced : List Spaced} {rest : List Char} (h : Reading p.text.toList p.words spaced rest)
    {slice : List Spaced} (hslice : slice <:+: spaced) (hline : q.setting.line.Sets slice) :
    ∃ ts : List TextLine, q.printed c = ts.flatMap TextLine.operators ∧
      ∀ t ∈ ts, t.Apart ∧ t.IsFrom p := by
  by_cases hshows : q.ShowsText
  · let x := c.pageMargin + q.setting.block.indent
    refine ⟨[q.setting.line.textLine x (q.baseline c) slice], ?_,
      List.forall_mem_singleton.mpr ⟨?_, spaced, rest, h, ?_⟩⟩
    · rw [q.printed_of_showsText c hshows, List.flatMap_singleton]
      exact hline.lineOperators_eq (Press.start_setUp c).any_face _ _
    · exact hline.apart hshows _ _
    · rwa [hline.map_words]
  · exact ⟨[], q.printed_of_not_showsText c hshows, by simp⟩

/-- With an accepted configuration, no page of a source has overlapping words. A page is made of
lines that hold consecutive words of a paragraph. The first move of a line is none, the move to each
later word is no less than the width of the word before, and if the source has no blank between the
two it is just that width. -/
theorem words_never_overlap (json source : String) (copies : Nat) (c : Config) (r : Rendering)
    (hc : Config.ofJson json = .ok c)
    (hconvert : (convert c.stylesheet source copies).failure = none)
    (hr : (Document.mk c (convert c.stylesheet source copies).paragraphs).render = .ok r) :
    ∀ page ∈ r.pages, ∃ lines : List TextLine,
      page.content.toList = lines.flatMap TextLine.operators ∧
      ∀ t ∈ lines, t.Apart ∧
        ∃ p ∈ (convert c.stylesheet source copies).paragraphs, t.IsFrom p := by
  have haccepted := Config.accepted_of_ofJson hc
  obtain ⟨blocks, hblocks, -, hholds⟩ := Document.exists_holds hr
  intro page hpage
  obtain ⟨k, -, hcontent⟩ := hholds.exists_printedOn hpage
  rw [hcontent]
  apply exists_flatMap_eq
  intro q hq
  have hsetting := Press.setting_mem (List.mem_of_mem_filter hq)
  obtain ⟨b, hb, hs⟩ := List.mem_flatMap.mp hsetting
  obtain ⟨p, hp, hlayOut⟩ := exists_left_of_forall₂ hblocks b hb
  obtain ⟨segment, hsegment⟩ := exists_segment_of_convert hconvert hp
  have hsizes : ∀ run ∈ p.runs.toList, 0 < run.size := by
    intro run hrun
    obtain ⟨size, hsize⟩ := Stylesheet.exists_run_size hsegment run hrun
    rw [hsize]
    exact haccepted.size_pos size
  obtain ⟨spaced, rest, hreading⟩ := p.reads
  obtain ⟨slice, hslice, hline⟩ := Config.exists_sets_of_layOut hlayOut hsizes hreading _
    (Block.line_mem_of_mem_settings hs)
  obtain ⟨ts, hts, hall⟩ := Placement.exists_textLines (c := c) hreading hslice hline
  refine ⟨ts, hts, ?_⟩
  intro t ht
  obtain ⟨hapart, hfrom⟩ := hall t ht
  exact ⟨hapart, p, by simpa using hp, hfrom⟩

/-- Two lines, the first of them justified, with a comma in another face glued to its first word. -/
theorem words_never_overlap_justifiedLine :
    let json := "\x7b\"pageWidth\": 100, \"pageMargin\": 20\x7d"
    let source := ".fill\naway\n.bold\n, far away"
    let c : Config := { pageWidth := 100, pageMargin := 20 }
    Config.ofJson json = .ok c ∧ (convert c.stylesheet source 1).failure = none ∧
    ∃ r, (Document.mk c (convert c.stylesheet source 1).paragraphs).render = .ok r ∧
      r.pages.length = 1 ∧ ∀ page ∈ r.pages, ∃ lines : List TextLine,
        page.content.toList = lines.flatMap TextLine.operators ∧ ∀ t ∈ lines, t.Apart := by
  intro json source c
  have hc : Config.ofJson json = .ok c := by decide +kernel
  have hconvert : (convert c.stylesheet source 1).failure = none := by decide
  obtain ⟨r, hr, hlength⟩ := Document.exists_of_length_pages
    (show (Document.mk c (convert c.stylesheet source 1).paragraphs).render.toOption.map
      (fun r => r.pages.length) = some 1 by decide +kernel)
  refine ⟨hc, hconvert, r, hr, hlength, ?_⟩
  intro page hpage
  obtain ⟨lines, hlines, hall⟩ := words_never_overlap json source 1 c r hc hconvert hr page hpage
  exact ⟨lines, hlines, fun t ht => (hall t ht).1⟩

end Typesetter
