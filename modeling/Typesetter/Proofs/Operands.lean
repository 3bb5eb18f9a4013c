import Typesetter.Proofs.BottomMargin
import Typesetter.Proofs.FirstFault
import Typesetter.Proofs.Justification
import Typesetter.Proofs.LinePositions
import Typesetter.Proofs.Numerals
import Typesetter.Proofs.ShownText
import Typesetter.Proofs.TextWidths

/-! # Operands

The numbers on the pages of a document: the sizes of the pages, the places of lines and words, and
the sizes of type. -/
namespace Typesetter
open Numeric (Single Binary)

/-! ## Where the numbers come from -/

namespace Pdf

def Operator.operands : Operator → List Single
  | moveBy x y => [x, y]
  | setFont _ size => [size]
  | beginText | showText _ | endText => []

end Pdf

/-- The box of every page and the operands of all operators on it. -/
def Rendering.operands (r : Rendering) : List Single :=
  r.pages.flatMap fun page => [r.press.pageWidth, r.press.pageHeight] ++
    page.content.toList.flatMap Pdf.Operator.operands

/-- The words of a line, each with the width of the word before it. -/
def Line.advances (l : Line) : List (Single × Word) :=
  (0 :: l.words.toList.map Word.width).zip l.words.toList

def Line.operands (l : Line) : List Single :=
  l.advances.flatMap fun m => [m.1 + m.2.offset, 0, m.2.size]

theorem Press.operands_lineOperators {c : Config} {p : Press} (h : SetUp c p) (x y : Single)
    (l : Line) : (lineOperators p.fonts x y l).flatMap Pdf.Operator.operands =
      [x, y] ++ l.operands := by
  have hword : ∀ m : Single × Word, (wordOperators p.fonts m.1 m.2).flatMap Pdf.Operator.operands =
      [m.1 + m.2.offset, 0, m.2.size] := by
    intro m
    simp [wordOperators, h.any_face, Pdf.Operator.operands]
  simp [lineOperators, List.flatMap_assoc, hword, Pdf.Operator.operands, Line.operands,
    Line.advances]

theorem Placement.operands_printed (c : Config) {q : Placement} (h : q.ShowsText) :
    (q.printed c).flatMap Pdf.Operator.operands =
      [c.pageMargin + q.setting.block.indent, q.baseline c] ++ q.setting.line.operands := by
  rw [q.printed_of_showsText c h]
  exact Press.operands_lineOperators (Press.start_setUp c) _ _ _

theorem Press.Holds.mem_contents_iff {c : Config} {placed : List Placement} {p : Press}
    (h : Holds c placed p) (hpos : ∀ q ∈ placed, 0 < q.page) (o : Pdf.Operator) :
    (∃ operators ∈ p.contents, o ∈ operators) ↔ ∃ q ∈ placed, o ∈ q.printed c := by
  rw [h.contents]
  constructor
  · rintro ⟨operators, hoperators, ho⟩
    obtain ⟨k, -, rfl⟩ := List.mem_map.mp hoperators
    obtain ⟨q, hq, ho⟩ := List.mem_flatMap.mp ho
    exact ⟨q, (List.mem_filter.mp hq).1, ho⟩
  · rintro ⟨q, hq, ho⟩
    have hlow := hpos q hq
    have hhigh := h.bounded q hq
    refine ⟨printedOn c placed q.page, List.mem_map.mpr ⟨q.page - 1, ?_, ?_⟩, ?_⟩
    · exact List.mem_range.mpr (by omega)
    · rw [Nat.sub_add_cancel hlow]
    · exact List.mem_flatMap.mpr ⟨q, List.mem_filter.mpr ⟨hq, by simp⟩, ho⟩

theorem Rendering.mem_operands_iff {r : Rendering} {x : Single} :
    x ∈ r.operands ↔ x = r.press.pageWidth ∨ x = r.press.pageHeight ∨
      ∃ page ∈ r.pages, ∃ o ∈ page.content.toList, x ∈ o.operands := by
  have hcurrent : r.press.current ∈ r.pages := by simp [pages, Press.pages]
  constructor
  · intro hx
    obtain ⟨page, hpage, hx⟩ := List.mem_flatMap.mp hx
    simp only [List.cons_append, List.nil_append, List.mem_cons, List.mem_flatMap] at hx
    rcases hx with hwidth | hheight | ⟨o, ho, hx⟩
    · exact Or.inl hwidth
    · exact Or.inr (Or.inl hheight)
    · exact Or.inr (Or.inr ⟨page, hpage, o, ho, hx⟩)
  · rintro (rfl | rfl | ⟨page, hpage, o, ho, hx⟩)
    · exact List.mem_flatMap.mpr ⟨_, hcurrent, by simp⟩
    · exact List.mem_flatMap.mpr ⟨_, hcurrent, by simp⟩
    · refine List.mem_flatMap.mpr ⟨page, hpage, List.mem_append_right _ ?_⟩
      exact List.mem_flatMap.mpr ⟨o, ho, hx⟩

theorem Document.mem_operands_iff {d : Document} {r : Rendering} (h : d.render = .ok r) :
    ∃ blocks, List.Forall₂ (fun p b => d.config.layOut p = .ok b) d.paragraphs.toList blocks ∧
      ∀ x, x ∈ r.operands ↔ x = d.config.pageWidth ∨ x = d.config.pageHeight ∨
        ∃ q ∈ Press.placements d.config (Press.start d.config) (blocks.flatMap Block.settings),
          q.ShowsText ∧ x ∈ [d.config.pageMargin + q.setting.block.indent, q.baseline d.config] ++
            q.setting.line.operands := by
  obtain ⟨blocks, hblocks, hup, hholds⟩ := d.exists_holds h
  refine ⟨blocks, hblocks, fun x => ?_⟩
  have hmem := hholds.mem_contents_iff fun q hq => Press.page_pos_of_mem hq
  generalize Press.placements d.config (Press.start d.config) (blocks.flatMap Block.settings) =
    placed at hmem ⊢
  have hcontents : ∀ o : Pdf.Operator, (∃ page ∈ r.pages, o ∈ page.content.toList) ↔
      ∃ q ∈ placed, o ∈ q.printed d.config := by
    intro o
    rw [← hmem]
    simp [Press.contents, Rendering.pages]
  rw [Rendering.mem_operands_iff, hup.pageWidth, hup.pageHeight]
  refine or_congr Iff.rfl (or_congr Iff.rfl ?_)
  constructor
  · rintro ⟨page, hpage, o, ho, hx⟩
    obtain ⟨q, hq, ho⟩ := (hcontents o).mp ⟨page, hpage, ho⟩
    by_cases hshows : q.ShowsText
    · refine ⟨q, hq, hshows, ?_⟩
      rw [← q.operands_printed d.config hshows]
      exact List.mem_flatMap.mpr ⟨o, ho, hx⟩
    · rw [q.printed_of_not_showsText d.config hshows] at ho
      cases ho
  · rintro ⟨q, hq, hshows, hx⟩
    rw [← q.operands_printed d.config hshows] at hx
    obtain ⟨o, ho, hx⟩ := List.mem_flatMap.mp hx
    obtain ⟨page, hpage, ho⟩ := (hcontents o).mpr ⟨q, hq, ho⟩
    exact ⟨page, hpage, o, ho, hx⟩

/-! ## Words on a line -/

/-- The third largest number. -/
def widestArea : Single := .ofRatio false (2 ^ 128 - 3 * 2 ^ 104) 1

theorem isFinite_moved {advance offset : Single}
    (hadvance : 0 ≤ advance ∧ advance ≤ Binary.twoPow 127)
    (hoffset : 0 ≤ offset ∧ offset ≤ Binary.twoPow 103) : (advance + offset).IsFinite := by
  have hsum : (Binary.twoPow 127 + Binary.twoPow 103 : Single).IsFinite := by decide +kernel
  exact Binary.isFinite_of_nonneg_of_le (Binary.add_nonneg hadvance.1 hoffset.1)
    (Binary.add_le_add hadvance.1 hadvance.2 hoffset.1 hoffset.2) hsum

/-- The room that a line leaves is spread over its gaps, so together with any word of the line it
exceeds the area by roundings only. -/
theorem isFinite_justified {advance offset extra area width : Single} (hadvance : 0 ≤ advance)
    (hword : advance ≤ width) (hroom : width < area) (harea : area ≤ widestArea)
    (hoffset : 0 ≤ offset) (hspace : offset ≤ Binary.twoPow 103) (hextra : 0 ≤ extra)
    (hshare : extra ≤ area - width) : (advance + (offset + extra)).IsFinite := by
  have hlimit : widestArea.rank = some ((Binary.largest - 2 ^ 254 : Nat) : Int) := by decide +kernel
  have hwidth := Binary.le_trans hadvance hword
  obtain ⟨a, ha⟩ := Binary.exists_rank_of_nonneg hadvance
  obtain ⟨w, hw⟩ := Binary.exists_rank_of_nonneg hwidth
  obtain ⟨t, ht⟩ := Binary.exists_rank_of_nonneg (Binary.le_trans hwidth (Binary.le_of_lt hroom))
  obtain ⟨o, ho⟩ := Binary.exists_rank_of_nonneg hoffset
  obtain ⟨e, he⟩ := Binary.exists_rank_of_nonneg hextra
  have haw := (Binary.le_iff_of_rank ha hw).mp hword
  have hwt := (Binary.lt_iff_of_rank hw ht).mp hroom
  have htl := (Binary.le_iff_of_rank ht hlimit).mp harea
  have hos := (Binary.le_iff_of_rank ho Binary.rank_twoPow_103).mp hspace
  have hlargest : Binary.largest = (2 ^ 24 - 1) * 2 ^ 253 := rfl
  -- Each of the three results is rounded up by half of the widest step at most.
  obtain ⟨left, hleft, hroundLeft⟩ := Binary.exists_rank_sub
    (Binary.isFinite_of_rank ht (by omega)) (Binary.isFinite_of_rank hw (by omega)) ht hw (by omega)
  have hel := (Binary.le_iff_of_rank he hleft).mp hshare
  obtain ⟨gap, hgap, hroundGap, -⟩ := Binary.exists_rank_add (n := o + e)
    (Binary.isFinite_of_rank ho (by omega)) (Binary.isFinite_of_rank he (by omega)) ho he (by omega)
  obtain ⟨place, hplace, -, hbound⟩ := Binary.exists_rank_add (n := a + gap)
    (Binary.isFinite_of_rank ha (by omega)) (Binary.isFinite_of_rank hgap (by omega)) ha hgap
    (by omega)
  exact Binary.isFinite_of_rank hplace (hbound (by omega))

namespace Line

theorem share_bounds {l : Line} {area : Single} (hfull : ¬ l.Full area) (hwidth : 0 ≤ l.width)
    (harea : area.IsFinite) : 0 ≤ l.share area ∧ l.share area ≤ area - l.width := by
  have hroom := Binary.le_of_lt (width_lt_of_not_full hfull hwidth harea.ne_nan)
  have hleft := Binary.sub_nonneg hwidth hroom harea
  have hless := Binary.sub_le_self hwidth (Binary.ne_nan_of_le_right hleft)
  have hgaps : l.words.toList.countP Word.stretchable ≠ 0 := by
    rw [Array.countP_toList]
    exact fun hnone => hfull (full_iff.mpr (Or.inl hnone))
  exact Binary.div_nonneg_le hleft (Binary.isFinite_of_nonneg_of_le hleft hless harea)
    (Binary.one_le_ofRatio hgaps)

theorem mem_advances {l : Line} {m : Single × Word} (h : m ∈ l.advances) :
    (m.1 = 0 ∨ ∃ v ∈ l.words.toList, m.1 = v.width) ∧ m.2 ∈ l.words.toList := by
  obtain ⟨hadvance, hword⟩ := List.of_mem_zip h
  refine ⟨?_, hword⟩
  rcases List.mem_cons.mp hadvance with hzero | hwidth
  · exact Or.inl hzero
  · obtain ⟨v, hv, hm⟩ := List.mem_map.mp hwidth
    exact Or.inr ⟨v, hv, hm.symm⟩

theorem width_pushAll {words : List Word} (h : ∀ w ∈ words, 0 ≤ w.offset ∧ 0 ≤ w.width) :
    0 ≤ (pushAll {} words).width ∧ ∀ w ∈ words, w.width ≤ (pushAll {} words).width := by
  induction words using List.reverseRecOn with
  | nil => exact ⟨by decide, by simp⟩
  | append_singleton before w ih =>
    obtain ⟨hbefore, hw⟩ := List.forall_mem_append.mp h
    have hw := hw w List.mem_cons_self
    obtain ⟨hnonneg, hwords⟩ := ih hbefore
    have hwidth : (pushAll {} (before ++ [w])).width =
        (pushAll {} before).width + (w.offset + w.width) := by
      simp [pushAll, push]
    have hadded := Binary.add_nonneg hw.1 hw.2
    rw [hwidth]
    refine ⟨Binary.add_nonneg hnonneg hadded, List.forall_mem_append.mpr ⟨?_, ?_⟩⟩
    · intro v hv
      exact Binary.le_trans (hwords v hv) (Binary.le_add_right hnonneg hadded)
    · rw [List.forall_mem_singleton]
      exact Binary.le_trans (Binary.le_add_left hw.1 hw.2)
        (Binary.le_add_left hnonneg hadded)

theorem advance_bounds {l : Line} (h : ∀ w ∈ l.words.toList, w.Bounded) {m : Single × Word}
    (hm : m ∈ l.advances) : (0 ≤ m.1 ∧ m.1 ≤ Binary.twoPow 127) ∧ m.2.Bounded := by
  obtain ⟨hadvance, hword⟩ := mem_advances hm
  refine ⟨?_, h _ hword⟩
  rcases hadvance with hzero | ⟨v, hv, hwidth⟩
  · rw [hzero]
    decide +kernel
  · rw [hwidth]
    exact (h v hv).width

theorem advance_le_width {l : Line} (hmeasured : l = pushAll {} l.words.toList)
    (h : ∀ w ∈ l.words.toList, w.Bounded) {m : Single × Word} (hm : m ∈ l.advances) :
    m.1 ≤ l.width := by
  obtain ⟨hnonneg, hwords⟩ := width_pushAll fun w hw => (h w hw).nonneg
  rw [← hmeasured] at hnonneg hwords
  rcases (mem_advances hm).1 with hzero | ⟨v, hv, hwidth⟩
  · rw [hzero]
    exact hnonneg
  · rw [hwidth]
    exact hwords v hv

theorem operands_isFinite {l : Line}
    (h : ∀ m ∈ l.advances, (m.1 + m.2.offset).IsFinite ∧ m.2.size.IsFinite) :
    ∀ x ∈ l.operands, x.IsFinite := by
  intro x hx
  obtain ⟨m, hm, hx⟩ := List.mem_flatMap.mp hx
  simp only [List.mem_cons, List.not_mem_nil, or_false] at hx
  rcases hx with rfl | rfl | rfl
  · exact (h m hm).1
  · decide
  · exact (h m hm).2

theorem operands_isFinite_of_bounded {l : Line} (h : ∀ w ∈ l.words.toList, w.Bounded) :
    ∀ x ∈ l.operands, x.IsFinite := by
  refine operands_isFinite fun m hm => ?_
  obtain ⟨hadvance, hword⟩ := advance_bounds h hm
  exact ⟨isFinite_moved hadvance hword.offset, hword.size⟩

theorem mem_advances_stretch {l : Line} {extra area : Single} {m : Single × Word}
    (h : m ∈ ({ l with words := l.stretch extra, width := area } : Line).advances) :
    ∃ n ∈ l.advances, m.1 = n.1 ∧ m.2.size = n.2.size ∧
      (m.2.offset = n.2.offset ∨ m.2.offset = n.2.offset + extra) := by
  have hwidths : (l.stretch extra).toList.map Word.width = l.words.toList.map Word.width := by
    rw [stretch, Array.toList_map, List.map_map]
    refine List.map_congr_left fun w _ => ?_
    by_cases hs : w.stretchable = true <;> simp [hs]
  rw [advances, hwidths, stretch, Array.toList_map, List.zip_map_right] at h
  obtain ⟨n, hn, rfl⟩ := List.mem_map.mp h
  refine ⟨n, hn, rfl, ?_⟩
  by_cases hs : n.2.stretchable = true
  · simp [hs]
  · simp [hs]

theorem operands_isFinite_justify {l : Line} (hmeasured : l = pushAll {} l.words.toList)
    (h : ∀ w ∈ l.words.toList, w.Bounded) {area : Single} (harea : area ≤ widestArea) :
    ∀ x ∈ (l.justify area).operands, x.IsFinite := by
  by_cases hfull : l.Full area
  · rw [justify_of_full hfull]
    exact operands_isFinite_of_bounded h
  · rw [justify_of_not_full hfull]
    have hwidth := (width_pushAll fun w hw => (h w hw).nonneg).1
    rw [← hmeasured] at hwidth
    have hroom := width_lt_of_not_full hfull hwidth (Binary.ne_nan_of_le_left harea)
    have hfinite : area.IsFinite := Binary.isFinite_of_nonneg_of_le
      (Binary.le_trans hwidth (Binary.le_of_lt hroom)) harea (by decide +kernel)
    obtain ⟨hextra, hshare⟩ := share_bounds hfull hwidth hfinite
    refine operands_isFinite fun m hm => ?_
    obtain ⟨n, hn, hfirst, hsize, hoffset⟩ := mem_advances_stretch hm
    obtain ⟨hadvance, hword⟩ := advance_bounds h hn
    have hwithin := advance_le_width hmeasured h hn
    rw [hfirst, hsize]
    refine ⟨?_, hword.size⟩
    rcases hoffset with hkept | hgrown
    · rw [hkept]
      exact isFinite_moved hadvance hword.offset
    · rw [hgrown]
      exact isFinite_justified hadvance.1 hwithin hroom harea hword.offset.1 hword.offset.2
        hextra hshare

end Line

theorem atLineStart_bounded {words : List Word} (h : ∀ w ∈ words, w.Bounded) :
    ∀ w ∈ atLineStart words, w.Bounded := by
  cases words with
  | nil => exact h
  | cons w rest =>
    obtain ⟨hw, hrest⟩ := List.forall_mem_cons.mp h
    have hzero : (0 : Single) ≤ 0 ∧ (0 : Single) ≤ Binary.twoPow 103 := by decide +kernel
    exact List.forall_mem_cons.mpr ⟨⟨hw.size, hw.width, hzero⟩, hrest⟩

theorem Config.line_operands_isFinite {c : Config} {p : Paragraph} {b : Block} {indent : Single}
    (h : c.layOut p = .ok b) (hi : c.indent? p = some indent) (hwords : ∀ w ∈ p.words, w.Bounded)
    (harea : c.textWidth - indent ≤ widestArea) :
    ∀ l ∈ b.lines.toList, ∀ x ∈ l.operands, x.IsFinite := by
  obtain ⟨a, groups, ha, _, _, _, hfit⟩ := c.layOut_of_indent hi
  obtain rfl : a.justify (c.textWidth - indent) = b := Except.ok.inj (ha.symm.trans h)
  have hbounded : ∀ l ∈ a.lines.toList, ∀ w ∈ l.words.toList, w.Bounded := by
    intro l hl
    obtain ⟨body, hbody, hslice⟩ := hfit.exists_words hl
    rw [hbody]
    exact atLineStart_bounded fun w hw => hwords w (hslice.subset hw)
  apply Block.forall_line_justify
  · intro l hl
    exact Line.operands_isFinite_of_bounded (hbounded l hl)
  · intro l hl
    have hmem := List.mem_of_mem_dropLast hl
    exact Line.operands_isFinite_justify (hfit.measured l hmem) (hbounded l hmem) harea

end Typesetter
