import Typesetter.Proofs.BottomMargin
import Typesetter.Proofs.ShownText
import Typesetter.Proofs.WordGaps

/-! # No blank pages

A page after the first is opened for a line that is printed on it at once, so no page is blank if no
line is. Nothing is asked of the measures: at the top of a page a line never calls for another page,
be it higher than the page or the write head infinite or NaN. -/
namespace Typesetter

def Paragraph.HasText (p : Paragraph) : Prop := ∃ c ∈ p.text.toList, Text.isBlank c = false

/-- Some word of the paragraphs is shown on the page, and something is to be seen of it. -/
def Page.ShowsWord (ps : List Paragraph) (page : Page) : Prop :=
  ∃ p ∈ ps, ∃ w ∈ p.words, w.text ≠ "" ∧ w.shown.codes ≠ [] ∧
    w.shown ∈ Pdf.shown page.content.toList

/-! ## Lines with words -/

theorem Paragraph.HasText.words_ne_nil {p : Paragraph} (h : p.HasText) : p.words ≠ [] := by
  intro hnil
  obtain ⟨c, hc, hblank⟩ := h
  obtain ⟨spaced, rest, hreading⟩ := p.reads
  have hkept : c ∈ p.text.toList.filter fun c => !Text.isBlank c := by
    rw [List.mem_filter]
    exact ⟨hc, by simp [hblank]⟩
  rw [← hreading.flatMap_words, hnil] at hkept
  cases hkept

theorem Paragraph.text_ne_empty {p : Paragraph} {w : Word} (h : w ∈ p.words) : w.text ≠ "" := by
  obtain ⟨spaced, rest, hreading⟩ := p.reads
  rw [← hreading.words] at h
  obtain ⟨s, hs, rfl⟩ := List.mem_map.mp h
  intro hempty
  exact (hreading.proper s hs).nonempty (String.toList_eq_nil_iff.mpr hempty)

theorem Word.codes_shown_ne_nil {w : Word} (h : w.text ≠ "") : w.shown.codes ≠ [] := by
  intro hnil
  have htext : w.piece.text = w.text.toList := rfl
  simp only [Word.shown, Piece.shown, WinAnsi.encode, List.map_eq_nil_iff, htext] at hnil
  exact h (String.toList_eq_nil_iff.mp (by simpa using hnil))

theorem Config.words_ne_empty_of_layOut {c : Config} {p : Paragraph} {b : Block}
    (h : c.layOut p = .ok b) (hp : p.words ≠ []) : ∀ l ∈ b.lines.toList, l.words ≠ #[] := by
  obtain ⟨indent, hi⟩ := Config.layOut_eq_ok h
  obtain ⟨a, groups, ha, _, _, _, hfit⟩ := c.layOut_of_indent hi
  obtain rfl : a.justify (c.textWidth - indent) = b := Except.ok.inj (ha.symm.trans h)
  apply Block.forall_line_justify
  · exact hfit.inhabited hp
  · intro l hl
    rw [ne_eq, Line.justify_words_eq_empty_iff]
    exact hfit.inhabited hp l (List.mem_of_mem_dropLast hl)

theorem Config.exists_word_of_layOut {c : Config} {p : Paragraph} {b : Block}
    (h : c.layOut p = .ok b) {l : Line} (hl : l ∈ b.lines.toList) {v : Word}
    (hv : v ∈ l.words.toList) : ∃ w ∈ p.words, w.shown = v.shown := by
  have hshown : v.shown ∈ p.words.map Word.shown := by
    rw [← Config.layOut_shown h]
    exact List.mem_flatMap.mpr ⟨l, hl, List.mem_map_of_mem hv⟩
  exact List.mem_map.mp hshown

/-! ## Pages with lines -/

namespace Press
variable {c : Config} {p : Press}

theorem size_pages_set_le (h : SetUp c p) {s : Setting} (hs : s.block.size = c.normalFontSize) :
    (p.set c s).pages.size ≤ p.pages.size + 1 := by
  rw [(set_spec h s hs).1]
  rcases placement_cases h s hs with ⟨hpage, -⟩ | ⟨hpage, -⟩
  · rw [hpage]
    exact Nat.le_succ _
  · exact hpage.le

theorem size_pages_foldl_set_le (h : SetUp c p) {ss : List Setting}
    (hss : ∀ s ∈ ss, s.block.size = c.normalFontSize) :
    (ss.foldl (Press.set c) p).pages.size ≤ p.pages.size + ss.length := by
  induction ss generalizing p with
  | nil => exact Nat.le_refl _
  | cons s rest ih =>
    obtain ⟨hs, hrest⟩ := List.forall_mem_cons.mp hss
    have hone := size_pages_set_le h hs
    have hmore := ih (h.set s) hrest
    rw [List.foldl_cons, List.length_cons]
    omega

/-- Each page that the lines add to a press was opened for one of them. -/
theorem exists_placement_on (h : SetUp c p) {ss : List Setting}
    (hss : ∀ s ∈ ss, s.block.size = c.normalFontSize) {page : Nat} (hnew : p.pages.size < page)
    (hpage : page ≤ (ss.foldl (Press.set c) p).pages.size) :
    ∃ q ∈ placements c p ss, q.page = page := by
  induction ss generalizing p with
  | nil => exact absurd hpage (Nat.not_le.mpr hnew)
  | cons s rest ih =>
    obtain ⟨hs, hrest⟩ := List.forall_mem_cons.mp hss
    by_cases hfirst : page ≤ (p.set c s).pages.size
    · have hone := size_pages_set_le h hs
      refine ⟨p.placement s, List.mem_cons_self, ?_⟩
      rw [← (set_spec h s hs).1]
      omega
    · obtain ⟨q, hq, hqpage⟩ := ih (h.set s) hrest (Nat.not_le.mp hfirst) hpage
      exact ⟨q, List.mem_cons_of_mem _ hq, hqpage⟩

theorem start_set {s : Setting} (hs : s.block.size = c.normalFontSize) :
    ((start c).placement s).page = 1 ∧ ((start c).set c s).pages.size = 1 := by
  have hpage : ((start c).placement s).page = 1 :=
    (placement_at_top (start_setUp c) s rfl).1
  exact ⟨hpage, (set_spec (start_setUp c) s hs).1.trans hpage⟩

theorem size_pages_le_length {ss : List Setting} (hne : ss ≠ [])
    (hss : ∀ s ∈ ss, s.block.size = c.normalFontSize) :
    (ss.foldl (Press.set c) (start c)).pages.size ≤ ss.length := by
  obtain ⟨s, rest, rfl⟩ := List.exists_cons_of_ne_nil hne
  obtain ⟨hs, hrest⟩ := List.forall_mem_cons.mp hss
  have hmore := size_pages_foldl_set_le ((start_setUp c).set s) hrest
  rw [(start_set hs).2] at hmore
  rw [List.foldl_cons, List.length_cons]
  omega

theorem every_page_inhabited {ss : List Setting} (hne : ss ≠ [])
    (hss : ∀ s ∈ ss, s.block.size = c.normalFontSize) {page : Nat} (hpos : 0 < page)
    (hpage : page ≤ (ss.foldl (Press.set c) (start c)).pages.size) :
    ∃ q ∈ placements c (start c) ss, q.page = page := by
  obtain ⟨s, rest, rfl⟩ := List.exists_cons_of_ne_nil hne
  obtain ⟨hs, -⟩ := List.forall_mem_cons.mp hss
  by_cases hone : page = 1
  · refine ⟨(start c).placement s, List.mem_cons_self, ?_⟩
    rw [(start_set hs).1, hone]
  · have hstart : (start c).pages.size = 1 := rfl
    exact exists_placement_on (start_setUp c) hss (by omega) hpage

end Press

theorem Placement.shownFrom_printed (c : Config) (placed : List Placement)
    (font : Option (String × Numeric.Single)) :
    Pdf.shownFrom font (placed.flatMap (printed c)) =
      placed.flatMap fun q => q.setting.line.words.toList.map Word.shown := by
  induction placed generalizing font with
  | nil => rfl
  | cons q rest ih =>
    have hline : Pdf.shownFrom font (q.printed c) =
        q.setting.line.words.toList.map Word.shown := by
      by_cases hshows : q.ShowsText
      · rw [q.printed_of_showsText c hshows]
        exact Press.shownFrom_lineOperators (Press.start_setUp c).any_face _ _ _ font
      · rw [q.printed_of_not_showsText c hshows, not_not.mp hshows]
        rfl
    rw [List.flatMap_cons, Pdf.shownFrom_append ih, hline, List.flatMap_cons]

/-! ## Documents -/

theorem Page.showsWord_of_placement {c : Config} {ps : List Paragraph} {blocks : List Block}
    (h : List.Forall₂ (fun p b => c.layOut p = .ok b) ps blocks) (htext : ∀ p ∈ ps, p.HasText)
    {placed : List Placement} {q : Placement} (hq : q ∈ placed)
    (hsetting : q.setting ∈ blocks.flatMap Block.settings) {page : Page}
    (hpage : page.content.toList = Press.printedOn c placed q.page) : page.ShowsWord ps := by
  obtain ⟨b, hb, hsetting⟩ := List.mem_flatMap.mp hsetting
  obtain ⟨p, hp, hlayOut⟩ := exists_left_of_forall₂ h b hb
  have hline := Block.line_mem_of_mem_settings hsetting
  have hwords := Config.words_ne_empty_of_layOut hlayOut (htext p hp).words_ne_nil _ hline
  obtain ⟨v, hv⟩ := List.exists_mem_of_ne_nil _ (mt Array.toList_eq_nil_iff.mp hwords)
  obtain ⟨w, hw, hshown⟩ := Config.exists_word_of_layOut hlayOut hline hv
  have htext := Paragraph.text_ne_empty hw
  refine ⟨p, hp, w, hw, htext, Word.codes_shown_ne_nil htext, ?_⟩
  rw [hpage, Press.printedOn, Pdf.shown, Placement.shownFrom_printed, hshown, List.mem_flatMap]
  exact ⟨q, List.mem_filter.mpr ⟨hq, by simp⟩, List.mem_map_of_mem hv⟩

/-- If every paragraph has a character that is no blank, every page of the document shows a word,
and there are no more pages than lines. -/
theorem no_blank_pages (d : Document) (r : Rendering) (h : d.render = .ok r)
    (hne : d.paragraphs ≠ #[]) (htext : ∀ p ∈ d.paragraphs, p.HasText) :
    (∀ page ∈ r.pages, page.ShowsWord d.paragraphs.toList) ∧
      ∃ blocks, List.Forall₂ (fun p b => d.config.layOut p = .ok b) d.paragraphs.toList blocks ∧
        r.pages.length ≤ (blocks.flatMap fun b => b.lines.toList).length := by
  obtain ⟨blocks, hblocks, hpress⟩ := d.exists_press h
  have hsizes := block_size_of_settings hblocks
  have hlines : (blocks.flatMap Block.settings).map Setting.line =
      blocks.flatMap fun b => b.lines.toList := by
    simp only [List.map_flatMap, Block.map_line_settings]
  have hsettings := settings_ne_nil_of_layOut hblocks (mt Array.toList_eq_nil_iff.mp hne)
  constructor
  · intro page hpage
    rw [Rendering.pages, hpress] at hpage
    obtain ⟨k, hk, hcontent⟩ :=
      (Press.holds_foldl_set d.config _ hsizes).exists_printedOn hpage
    obtain ⟨q, hq, hqpage⟩ := Press.every_page_inhabited hsettings hsizes (Nat.succ_pos k) hk
    refine Page.showsWord_of_placement hblocks (by simpa using htext) hq
      (Press.setting_mem hq) ?_
    rw [hqpage]
    exact hcontent
  · refine ⟨blocks, hblocks, ?_⟩
    have hle := Press.size_pages_le_length hsettings hsizes
    rwa [← hpress, ← Array.length_toList, ← List.length_map Setting.line, hlines] at hle

/-- With no end to the pitch, the write head is infinitely low behind each line, and the next line
opens a page. -/
def endlessPitch : Document where
  config := { lineSpacing := .infinite false }
  paragraphs := #[{ runs := #[⟨" above", .regular, 12⟩] }, { runs := #[⟨"below", .bold, 30⟩] }]

theorem no_blank_pages_endlessPitch : ∃ r, endlessPitch.render = .ok r ∧
    endlessPitch.paragraphs ≠ #[] ∧ (∀ p ∈ endlessPitch.paragraphs, p.HasText) ∧
    r.pages.length = 2 ∧ ∀ page ∈ r.pages, page.ShowsWord endlessPitch.paragraphs.toList := by
  obtain ⟨r, hr, hlength⟩ := Document.exists_of_length_pages
    (show endlessPitch.render.toOption.map (fun r => r.pages.length) = some 2 by decide +kernel)
  have hne : endlessPitch.paragraphs ≠ #[] := by
    intro hempty
    cases congrArg Array.size hempty
  have htext : ∀ p ∈ endlessPitch.paragraphs.toList, p.HasText := by
    refine List.forall_mem_cons.mpr ⟨⟨'a', by decide⟩, ?_⟩
    exact List.forall_mem_cons.mpr ⟨⟨'b', by decide⟩, by simp⟩
  simp only [Array.mem_toList_iff] at htext
  exact ⟨r, hr, hne, htext, hlength, (no_blank_pages endlessPitch r hr hne htext).1⟩

end Typesetter
