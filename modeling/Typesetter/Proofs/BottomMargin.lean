import Typesetter.Proofs.LineHeights
import Typesetter.Proofs.Pagination
import Typesetter.Proofs.ValidConfig

/-! # The bottom margin

Where the text of a source stands above the bottom margin of its pages. The checks of a
configuration are not enough for this, so the condition is stated on the configuration itself. -/
namespace Typesetter
open Numeric (Single Binary)

/-! ## Baselines on a page -/

namespace Pdf

/-- How high each text of a page starts: the move right behind its beginning. -/
def baselines : List Operator → List Single
  | .beginText :: .moveBy _ y :: rest => y :: baselines rest
  | _ :: rest => baselines rest
  | [] => []

theorem baselines_append {operators : List Operator} (h : ∀ o ∈ operators, o ≠ .beginText)
    (rest : List Operator) : baselines (operators ++ rest) = baselines rest := by
  induction operators with
  | nil => rfl
  | cons o operators ih =>
    obtain ⟨ho, hrest⟩ := List.forall_mem_cons.mp h
    rw [List.cons_append, ← ih hrest]
    cases o with
    | beginText => exact absurd rfl ho
    | _ => rfl

theorem baselines_lineOperators (fonts : List FontObject) (x baseline : Single) (l : Line)
    (rest : List Operator) :
    baselines (Press.lineOperators fonts x baseline l ++ rest) = baseline :: baselines rest := by
  have hwords : ∀ o ∈ ((0 :: l.words.toList.map Word.width).zip l.words.toList).flatMap
      (fun pair => Press.wordOperators fonts pair.1 pair.2), o ≠ .beginText := by
    intro o ho
    obtain ⟨⟨advance, w⟩, -, ho⟩ := List.mem_flatMap.mp ho
    rintro rfl
    simp [Press.wordOperators] at ho
  have hend : ∀ o ∈ [Operator.endText], o ≠ .beginText := by simp
  have hrest := (baselines_append hwords ([.endText] ++ rest)).trans (baselines_append hend rest)
  unfold Press.lineOperators
  rw [List.append_assoc, List.append_assoc]
  exact congrArg (baseline :: ·) hrest

end Pdf

namespace Placement

def ShowsText (q : Placement) : Prop := q.setting.line.words ≠ #[]

instance (q : Placement) : Decidable q.ShowsText := inferInstanceAs (Decidable (_ ≠ _))

theorem height_of_showsText (c : Config) (q : Placement) (h : q.ShowsText) :
    q.height c = q.setting.line.height :=
  if_neg fun he => h (Array.isEmpty_iff.mp he)

theorem printed_of_showsText (c : Config) {q : Placement} (h : q.ShowsText) :
    q.printed c = Press.lineOperators (Press.new c).fonts
      (c.pageMargin + q.setting.block.indent) (q.baseline c) q.setting.line :=
  if_neg fun he => h (Array.isEmpty_iff.mp he)

theorem printed_of_not_showsText (c : Config) {q : Placement} (h : ¬ q.ShowsText) :
    q.printed c = [] :=
  if_pos (Array.isEmpty_iff.mpr (not_not.mp h))

theorem baselines_printed (c : Config) (placed : List Placement) :
    Pdf.baselines (placed.flatMap (printed c)) =
      (placed.filter fun q => q.ShowsText).map (baseline c) := by
  induction placed with
  | nil => rfl
  | cons q rest ih =>
    rw [List.flatMap_cons]
    by_cases hq : q.ShowsText
    · rw [q.printed_of_showsText c hq, Pdf.baselines_lineOperators, ih,
        List.filter_cons_of_pos (by simpa using hq), List.map_cons]
    · rw [q.printed_of_not_showsText c hq, List.nil_append, ih,
        List.filter_cons_of_neg (by simpa using hq)]

end Placement

theorem block_size_of_settings {c : Config} {ps : List Paragraph} {blocks : List Block}
    (h : List.Forall₂ (fun p b => c.layOut p = .ok b) ps blocks) :
    ∀ s ∈ blocks.flatMap Block.settings, s.block.size = c.normalFontSize := by
  intro s hs
  obtain ⟨b, hb, hs⟩ := List.mem_flatMap.mp hs
  rw [Block.block_of_mem_settings hs]
  exact (block_size_of_layOut h b hb).1

theorem Press.page_pos_of_mem {c : Config} {p : Press} {ss : List Setting} {q : Placement}
    (h : q ∈ placements c p ss) : 0 < q.page := by
  induction ss generalizing p with
  | nil => cases h
  | cons s rest ih =>
    rcases List.mem_cons.mp h with rfl | h
    · simp [placement, pages]
    · exact ih h

theorem Press.setting_mem {c : Config} {p : Press} {ss : List Setting} {q : Placement}
    (h : q ∈ placements c p ss) : q.setting ∈ ss := by
  have hmem := List.mem_map_of_mem (f := Placement.setting) h
  rwa [map_setting_placements] at hmem

theorem Document.exists_press {d : Document} {r : Rendering} (h : d.render = .ok r) :
    ∃ blocks, List.Forall₂ (fun p b => d.config.layOut p = .ok b) d.paragraphs.toList blocks ∧
      r.press = (blocks.flatMap Block.settings).foldl (Press.set d.config)
        (Press.start d.config) := by
  obtain ⟨blocks, hblocks, rfl⟩ := (d.render_eq_ok_iff r).mp h
  have hblock := block_size_of_layOut hblocks
  exact ⟨blocks, hblocks, Press.foldl_writeBlock d.config (fun b hb => (hblock b hb).2) _⟩

theorem Document.exists_holds {d : Document} {r : Rendering} (h : d.render = .ok r) :
    ∃ blocks, List.Forall₂ (fun p b => d.config.layOut p = .ok b) d.paragraphs.toList blocks ∧
      Press.SetUp d.config r.press ∧ Press.Holds d.config
        (Press.placements d.config (Press.start d.config) (blocks.flatMap Block.settings))
        r.press := by
  obtain ⟨blocks, hblocks, hpress⟩ := d.exists_press h
  refine ⟨blocks, hblocks, ?_, ?_⟩
  · rw [hpress]
    exact (Press.start_setUp d.config).foldl_set _
  · rw [hpress]
    exact Press.holds_foldl_set d.config _ (block_size_of_settings hblocks)

theorem Document.forall_baseline_iff {d : Document} {r : Rendering} (h : d.render = .ok r) :
    ∃ blocks, List.Forall₂ (fun p b => d.config.layOut p = .ok b) d.paragraphs.toList blocks ∧
      ∀ P : Single → Prop, (∀ page ∈ r.pages, ∀ y ∈ Pdf.baselines page.content.toList, P y) ↔
        ∀ q ∈ Press.placements d.config (Press.start d.config) (blocks.flatMap Block.settings),
          q.ShowsText → P (q.baseline d.config) := by
  obtain ⟨blocks, hblocks, -, hholds⟩ := d.exists_holds h
  refine ⟨blocks, hblocks, fun P => ?_⟩
  generalize hplaced : Press.placements d.config (Press.start d.config)
    (blocks.flatMap Block.settings) = placed at hholds ⊢
  have hpages : (∀ page ∈ r.pages, ∀ y ∈ Pdf.baselines page.content.toList, P y) ↔
      ∀ operators ∈ r.press.contents, ∀ y ∈ Pdf.baselines operators, P y := by
    simp only [Press.contents, Rendering.pages, List.forall_mem_map]
  rw [hpages, hholds.contents, List.forall_mem_map]
  simp only [Press.printedOn, Placement.baselines_printed, List.forall_mem_map, List.mem_filter,
    decide_eq_true_eq]
  constructor
  · intro h q hq hshows
    have hpos : 0 < q.page := Press.page_pos_of_mem (hplaced ▸ hq)
    have hbound := hholds.bounded q hq
    refine h (q.page - 1) (List.mem_range.mpr (by omega)) q ⟨⟨hq, by omega⟩, hshows⟩
  · rintro h k - q ⟨⟨hq, -⟩, hshows⟩
    exact h q hq hshows

/-! ## Lines of a source -/

/-- A line of a block, as high as one of the two sizes if it shows text. -/
structure Setting.Sized (c : Config) (s : Setting) : Prop where
  block : s.block.size = c.normalFontSize
  line : s.line.words ≠ #[] → ∃ size, s.line.height = c.stylesheet.size size

theorem Placement.exists_size {c : Config} {q : Placement} (h : q.setting.Sized c) :
    ∃ size, q.height c = c.stylesheet.size size := by
  by_cases hshows : q.ShowsText
  · obtain ⟨size, hsize⟩ := h.line hshows
    exact ⟨size, (q.height_of_showsText c hshows).trans hsize⟩
  · exact ⟨.normal, if_pos (Array.isEmpty_iff.mpr (not_not.mp hshows))⟩

theorem Block.line_mem_of_mem_settings {b : Block} {s : Setting} (h : s ∈ b.settings) :
    s.line ∈ b.lines.toList := by
  rw [← b.map_line_settings]
  exact List.mem_map_of_mem h

theorem sized_of_convert {c : Config} (hc : c.Accepted) {source : String} {copies : Nat}
    (h : (convert c.stylesheet source copies).failure = none) {blocks : List Block}
    (hblocks : List.Forall₂ (fun p b => c.layOut p = .ok b)
      (convert c.stylesheet source copies).paragraphs.toList blocks) :
    ∀ s ∈ blocks.flatMap Block.settings, s.Sized c := by
  intro s hs
  refine ⟨block_size_of_settings hblocks s hs, ?_⟩
  intro hne
  obtain ⟨b, hb, hs⟩ := List.mem_flatMap.mp hs
  obtain ⟨p, hp, hlayOut⟩ := exists_left_of_forall₂ hblocks b hb
  have hsizes : ∀ w ∈ p.words, ∃ size, w.size = c.stylesheet.size size := by
    intro w hw
    exact exists_size_of_convert h hp hw
  have hpos : ∀ w ∈ p.words, 0 < w.size := by
    intro w hw
    obtain ⟨size, hsize⟩ := hsizes w hw
    rw [hsize]
    exact hc.size_pos size
  have hheight := Config.height_mem_sizes hlayOut hpos (Block.line_mem_of_mem_settings hs) hne
  obtain ⟨w, hw, hwsize⟩ := List.mem_map.mp hheight
  rw [← hwsize]
  exact hsizes w hw

/-! ## Down the pages -/

/-- What holds at the top and is kept by every pitch and gap holds at every line. -/
theorem Press.head_induction {c : Config} {P : Single → Prop} (htop : P c.top)
    (hpitch : ∀ y size, P y → P (y - c.stylesheet.size size * c.lineSpacing))
    (hgap : ∀ y, P y → P (y - c.paragraphSpacing)) {p : Press} (hup : SetUp c p) (hy : P p.y)
    {ss : List Setting} (hss : ∀ s ∈ ss, s.Sized c) :
    ∀ q ∈ placements c p ss, P q.head := by
  induction ss generalizing p with
  | nil => simp [placements]
  | cons s rest ih =>
    obtain ⟨hs, hrest⟩ := List.forall_mem_cons.mp hss
    have hhead : P (p.placement s).head := by
      rcases placement_cases hup s hs.block with ⟨_, hh, _⟩ | ⟨_, hh, _⟩
      · rw [hh]
        exact hy
      · rw [hh]
        exact htop
    have hnext : P (p.set c s).y := by
      obtain ⟨size, hsize⟩ := Placement.exists_size (q := p.placement s) hs
      have hline := hpitch _ size hhead
      rw [(set_spec hup s hs.block).2, Placement.leaves, Placement.pitch, hsize]
      by_cases hcloses : (p.placement s).setting.closes = true
      · rw [if_pos hcloses]
        exact hgap _ hline
      · rw [if_neg hcloses]
        exact hline
    exact List.forall_mem_cons.mpr ⟨hhead, ih (hup.set s) hnext hrest⟩

namespace Config

/-- Below the top there is room for a line of either size, and from an infinite top no measure takes
away all height at once. -/
structure LeavesRoom (c : Config) : Prop where
  line : ∀ size, c.pageMargin ≤ c.top - c.stylesheet.size size
  pitch : ∀ size, c.top - c.stylesheet.size size * c.lineSpacing ≠ .nan
  gap : c.top - c.paragraphSpacing ≠ .nan

variable {c : Config}

theorem LeavesRoom.top_ne_nan (h : c.LeavesRoom) : c.top ≠ .nan := by
  intro hnan
  have hline := Binary.ne_nan_of_le_right (h.line .normal)
  exact hline (Binary.sub_eq_nan_iff.mpr (Or.inl hnan))

theorem Accepted.head_le_top (hc : c.Accepted) (htop : c.top ≠ .nan)
    (hpitch : ∀ size, c.top - c.stylesheet.size size * c.lineSpacing ≠ .nan)
    (hgap : c.top - c.paragraphSpacing ≠ .nan) {ss : List Setting} (hss : ∀ s ∈ ss, s.Sized c) :
    ∀ q ∈ Press.placements c (Press.start c) ss, q.head ≤ c.top := by
  have hdown : ∀ y x : Single, 0 ≤ x → c.top - x ≠ .nan → y ≤ c.top → y - x ≤ c.top := by
    intro y x hx hne hy
    exact Binary.le_trans (Binary.sub_le_self hx (Binary.sub_ne_nan_of_le hy hx hne)) hy
  have hspacing : 0 ≤ c.paragraphSpacing := hc.nonNegative .paragraphSpacing (by decide)
  exact Press.head_induction (P := (· ≤ c.top)) (Binary.le_refl htop)
    (fun y size hy => hdown y _ (hc.pitch_nonneg size) (hpitch size) hy)
    (fun y hy => hdown y _ hspacing hgap hy) (Press.start_setUp c) (Binary.le_refl htop) hss

theorem LeavesRoom.margin_le (h : c.LeavesRoom) (hc : c.Accepted) (hspacing : 1 ≤ c.lineSpacing)
    {q : Placement} (hhead : q.head ≤ c.top) {size : TypeSize}
    (hheight : q.height c = c.stylesheet.size size)
    (hstays : c.top ≤ q.head ∨ ¬ q.head - q.pitch c < c.pageMargin) :
    c.pageMargin ≤ q.baseline c := by
  have hsize := hc.size_pos size
  have hroom := Binary.ne_nan_of_le_right (h.line size)
  have hline := Binary.sub_ne_nan_of_le hhead (Binary.le_of_lt hsize) hroom
  have hpitch := Binary.sub_ne_nan_of_le hhead (hc.pitch_nonneg size) (h.pitch size)
  rw [Placement.pitch, hheight] at hstays
  rw [Placement.baseline, hheight]
  -- A line stands at the top, where there is room, or its pitch fits, which is no less than it.
  rcases hstays with htop | hfits
  · exact Binary.le_trans (h.line size) (Binary.sub_le_sub_right htop hroom hline)
  · have hmargin := Binary.le_of_not_lt hpitch hc.pageMargin_ne_nan hfits
    have hspaced := Binary.le_mul_of_one_le hsize hspacing
    exact Binary.le_trans hmargin (Binary.sub_le_sub_left hspaced hpitch hline)

end Config

/-! ## Two letters -/

def Stylesheet.letter (s : Stylesheet) (size : TypeSize) : Paragraph := s.append { size } {} "a"

def twoLetters : TypeSize → String
  | .normal => "a\n.paragraph\na"
  | .large => ".large\na\n.paragraph\na"

theorem convert_twoLetters (s : Stylesheet) (size : TypeSize) :
    (convert s (twoLetters size) 1).failure = none ∧
      (convert s (twoLetters size) 1).paragraphs = #[s.letter size, s.letter size] := by
  cases size <;> exact ⟨rfl, rfl⟩

theorem words_letter (s : Stylesheet) (size : TypeSize) :
    (s.letter size).words = [(s.run { size } "a").word false ['a']] := by
  have hpieces : Text.pieces Text.isBlank ['a'] = (['a'], []) := by decide
  simp [Paragraph.words, Stylesheet.letter, Stylesheet.append, Run.addWords, Run.addPiece,
    Stylesheet.run, hpieces]

theorem Block.placeAll?_singleton (alignment : Alignment) (size indent area : Single) (w : Word) :
    placeAll? area { alignment, size, indent } [w] =
      some { alignment, size, indent,
             lines := #[Line.push {} { w with offset := 0, stretchable := false }] } := rfl

structure Setting.Letter (c : Config) (size : TypeSize) (s : Setting) : Prop where
  block : s.block.size = c.normalFontSize
  words : s.line.words ≠ #[]
  height : s.line.height = c.stylesheet.size size
  closes : s.closes = true

theorem Config.settings_letter {c : Config} (hc : c.Accepted) {size : TypeSize} {b : Block}
    (h : c.layOut (c.stylesheet.letter size) = .ok b) :
    ∃ s : Setting, b.settings = [s] ∧ s.Letter c size := by
  obtain ⟨indent, hi⟩ := Config.layOut_eq_ok h
  simp only [layOut, hi, words_letter, Block.placeAll?_singleton] at h
  obtain rfl := Except.ok.inj h
  exact ⟨_, rfl, rfl, by simp [Line.push], Binary.max_zero (hc.size_pos size), rfl⟩

theorem Config.settings_twoLetters {c : Config} (hc : c.Accepted) (size : TypeSize)
    {blocks : List Block} (h : List.Forall₂ (fun p b => c.layOut p = .ok b)
      (convert c.stylesheet (twoLetters size) 1).paragraphs.toList blocks) :
    ∃ s t : Setting, blocks.flatMap Block.settings = [s, t] ∧ s.Letter c size ∧
      t.Letter c size := by
  rw [(convert_twoLetters c.stylesheet size).2] at h
  cases h with
  | cons hb hrest =>
    cases hrest with
    | cons hb' hnil =>
      cases hnil
      obtain ⟨s, hs, hletter⟩ := settings_letter hc hb
      obtain ⟨t, ht, hletter'⟩ := settings_letter hc hb'
      exact ⟨s, t, by simp [hs, ht], hletter, hletter'⟩

namespace Setting.Letter
variable {c : Config} {size : TypeSize} {s t : Setting}

theorem showsText (h : s.Letter c size) (p : Press) : (p.placement s).ShowsText := h.words

theorem height_placement (h : s.Letter c size) (p : Press) :
    (p.placement s).height c = c.stylesheet.size size :=
  ((p.placement s).height_of_showsText c h.words).trans h.height

theorem head_first (s : Setting) : ((Press.start c).placement s).head = c.top :=
  (Press.placement_at_top (Press.start_setUp c) s rfl).2

theorem y_set_first (h : s.Letter c size) : ((Press.start c).set c s).y =
    c.top - c.stylesheet.size size * c.lineSpacing - c.paragraphSpacing := by
  rw [(Press.set_spec (Press.start_setUp c) s h.block).2, Placement.leaves, Placement.pitch,
    head_first, h.height_placement]
  exact if_pos h.closes

theorem ne_nan_of_second (h : s.Letter c size) (h' : t.Letter c size)
    (hsecond : (((Press.start c).set c s).placement t).baseline c ≠ .nan) :
    c.top - c.stylesheet.size size * c.lineSpacing ≠ .nan ∧ c.top - c.paragraphSpacing ≠ .nan := by
  apply Binary.sub_ne_nan_of_sub_sub
  rw [← h.y_set_first]
  rintro hnan
  rcases Press.placement_cases ((Press.start_setUp c).set s) t h'.block with
    ⟨_, hhead, _⟩ | ⟨_, _, hlt⟩
  · apply hsecond
    rw [Placement.baseline, hhead, hnan]
    rfl
  · rw [hnan] at hlt
    exact Binary.not_lt_of_nan _ hlt

end Setting.Letter

/-! ## The condition -/

/-- A line at the top of its page that reaches below the margin, and that no page break can help. -/
def Placement.Overfull (c : Config) (q : Placement) : Prop :=
  c.top ≤ q.head ∧ q.head - q.pitch c < c.pageMargin

namespace Config

/-- Whatever the source, all text on its pages starts at or above the bottom margin. -/
def ClearsMargin (c : Config) : Prop :=
  ∀ source copies r, (convert c.stylesheet source copies).failure = none →
    (Document.mk c (convert c.stylesheet source copies).paragraphs).render = .ok r →
    ∀ page ∈ r.pages, ∀ y ∈ Pdf.baselines page.content.toList, c.pageMargin ≤ y

/-- Whatever the source, every line that shows text fits its page. -/
def NeverOverfull (c : Config) : Prop :=
  ∀ source copies blocks, (convert c.stylesheet source copies).failure = none →
    List.Forall₂ (fun p b => c.layOut p = .ok b)
      (convert c.stylesheet source copies).paragraphs.toList blocks →
    ∀ q ∈ Press.placements c (Press.start c) (blocks.flatMap Block.settings),
      q.ShowsText → ¬ q.Overfull c

variable {c : Config}

theorem Accepted.leavesRoom (hc : c.Accepted) (hb : ¬ c.Boundless) (h : c.ClearsMargin) :
    c.LeavesRoom := by
  have hroom : ∀ size, c.pageMargin ≤ c.top - c.stylesheet.size size ∧
      c.top - c.stylesheet.size size * c.lineSpacing ≠ .nan ∧
      c.top - c.paragraphSpacing ≠ .nan := by
    intro size
    obtain ⟨r, hr⟩ := Document.render_isOk_of_accepted
      (d := ⟨c, (convert c.stylesheet (twoLetters size) 1).paragraphs⟩) hc hb
    have hclear := h _ _ r (convert_twoLetters c.stylesheet size).1 hr
    obtain ⟨blocks, hblocks, hiff⟩ := Document.forall_baseline_iff hr
    obtain ⟨s, t, hst, hs, ht⟩ := settings_twoLetters hc size hblocks
    have hplaced := (hiff (c.pageMargin ≤ ·)).mp hclear
    rw [hst] at hplaced
    have hfirst := hplaced _ List.mem_cons_self (hs.showsText _)
    have hsecond := hplaced _ (List.mem_cons_of_mem _ List.mem_cons_self) (ht.showsText _)
    rw [Placement.baseline, hs.height_placement, Setting.Letter.head_first] at hfirst
    exact ⟨hfirst, hs.ne_nan_of_second ht (Binary.ne_nan_of_le_right hsecond)⟩
  exact ⟨fun size => (hroom size).1, fun size => (hroom size).2.1, (hroom .normal).2.2⟩

theorem Accepted.blocks_eq_nil (hc : c.Accepted) (hb : c.Boundless) {ps : List Paragraph}
    {blocks : List Block} (h : List.Forall₂ (fun p b => c.layOut p = .ok b) ps blocks) :
    blocks = [] := by
  cases h with
  | nil => rfl
  | @cons p b _ _ hb' _ =>
    have hindent := (c.indent?_isSome_iff p).mp (layOut_eq_ok hb')
    exact absurd hb (hc.half_textWidth_iff.mp hindent)

theorem Accepted.clearsMargin (hc : c.Accepted) (hspacing : 1 ≤ c.lineSpacing)
    (h : c.Boundless ∨ c.LeavesRoom) : c.ClearsMargin := by
  intro source copies r hconvert hr
  obtain ⟨blocks, hblocks, hiff⟩ := Document.forall_baseline_iff hr
  rw [hiff]
  intro q hq hshows
  rcases h with hb | hroom
  · rw [hc.blocks_eq_nil hb hblocks] at hq
    cases hq
  · have hsized := sized_of_convert hc hconvert hblocks
    have hbelow := hc.head_le_top hroom.top_ne_nan hroom.pitch hroom.gap hsized q hq
    have hstays := Press.placements_stay (Press.start_setUp c) _ (fun s hs => (hsized s hs).block)
      q hq
    obtain ⟨size, hsize⟩ := (hsized _ (Press.setting_mem hq)).line hshows
    have hheight := (q.height_of_showsText c hshows).trans hsize
    exact hroom.margin_le hc hspacing hbelow hheight hstays

theorem Accepted.not_overfull (hc : c.Accepted) {q : Placement} {size : TypeSize}
    (hheight : q.height c = c.stylesheet.size size)
    (hfits : ¬ c.top - c.stylesheet.size size * c.lineSpacing < c.pageMargin) :
    ¬ q.Overfull c := by
  rintro ⟨htop, hlt⟩
  rw [Placement.pitch, hheight] at hlt
  have hhead := Binary.ne_nan_of_le_left (Binary.le_of_lt hlt)
  have hpitch := Binary.sub_ne_nan_of_le htop (hc.pitch_nonneg size) hhead
  have hmargin := Binary.le_of_not_lt hpitch hc.pageMargin_ne_nan hfits
  have hhigher := Binary.sub_le_sub_right htop hpitch hhead
  exact Binary.not_lt_of_le (Binary.le_trans hmargin hhigher) hlt

theorem Accepted.neverOverfull_iff (hc : c.Accepted) :
    c.NeverOverfull ↔ c.Boundless ∨
      ∀ size, ¬ c.top - c.stylesheet.size size * c.lineSpacing < c.pageMargin := by
  constructor
  · intro h
    by_cases hb : c.Boundless
    · exact Or.inl hb
    · refine Or.inr fun size hlt => ?_
      obtain ⟨r, hr⟩ := Document.render_isOk_of_accepted
        (d := ⟨c, (convert c.stylesheet (twoLetters size) 1).paragraphs⟩) hc hb
      obtain ⟨blocks, hblocks, -⟩ := (Document.render_eq_ok_iff _ r).mp hr
      obtain ⟨s, t, hst, hs, -⟩ := settings_twoLetters hc size hblocks
      have hfirst := h _ _ blocks (convert_twoLetters c.stylesheet size).1 hblocks
      rw [hst] at hfirst
      refine hfirst _ List.mem_cons_self (hs.showsText _) ?_
      rw [Placement.Overfull, Placement.pitch, hs.height_placement, Setting.Letter.head_first]
      exact ⟨Binary.sub_lt_imp_le_refl hlt, hlt⟩
  · intro h source copies blocks hconvert hblocks q hq hshows
    rcases h with hb | hfits
    · rw [hc.blocks_eq_nil hb hblocks] at hq
      cases hq
    · have hsized := sized_of_convert hc hconvert hblocks
      obtain ⟨size, hsize⟩ := (hsized _ (Press.setting_mem hq)).line hshows
      exact hc.not_overfull ((q.height_of_showsText c hshows).trans hsize) (hfits size)

end Config

/-- With an accepted configuration, text keeps above the bottom margin only where the page is
boundless or leaves room for a line of either size. At a line spacing of one or more that is enough.
A line taller than the room on its page occurs unless neither size makes one at the top. -/
theorem text_above_bottom_margin (json : String) (c : Config) (hc : Config.ofJson json = .ok c) :
    (c.ClearsMargin → c.Boundless ∨ c.LeavesRoom) ∧
    (1 ≤ c.lineSpacing → c.Boundless ∨ c.LeavesRoom → c.ClearsMargin) ∧
    (c.NeverOverfull ↔ c.Boundless ∨
      ∀ size, ¬ c.top - c.stylesheet.size size * c.lineSpacing < c.pageMargin) := by
  have haccepted := Config.accepted_of_ofJson hc
  refine ⟨?_, haccepted.clearsMargin, haccepted.neverOverfull_iff⟩
  intro hclears
  by_cases hb : c.Boundless
  · exact Or.inl hb
  · exact Or.inr (haccepted.leavesRoom hb hclears)

/-- Text of 700 points keeps above the margin, but its line pitch does not. -/
theorem text_above_bottom_margin_hugeText :
    let c : Config := { normalFontSize := 700 }
    Config.ofJson "\x7b\"normalFontSize\": 700\x7d" = .ok c ∧ 1 ≤ c.lineSpacing ∧
    c.LeavesRoom ∧ c.ClearsMargin ∧ ¬ c.NeverOverfull := by
  intro c
  have hc : Config.ofJson "\x7b\"normalFontSize\": 700\x7d" = .ok c := by decide +kernel
  have hspacing : 1 ≤ c.lineSpacing := by decide
  have hroom : c.LeavesRoom := by
    constructor
    · intro size
      cases size <;> decide +kernel
    · intro size
      cases size <;> decide +kernel
    · decide +kernel
  obtain ⟨-, hclears, hfull⟩ := text_above_bottom_margin _ c hc
  refine ⟨hc, hspacing, hroom, hclears hspacing (Or.inr hroom), ?_⟩
  rw [hfull]
  rintro (hb | hfits)
  · exact absurd hb.width (by decide)
  · exact hfits .normal (by decide +kernel)

/-- Only the large size is checked, so text of 1000 points is accepted and starts below its page. -/
theorem text_below_bottom_margin :
    let c : Config := { normalFontSize := 1000 }
    Config.ofJson "\x7b\"normalFontSize\":1000\x7d" = .ok c ∧
    (convert c.stylesheet "a" 1).failure = none ∧
    ∃ r, (Document.mk c (convert c.stylesheet "a" 1).paragraphs).render = .ok r ∧
      ∃ page ∈ r.pages, ∃ y ∈ Pdf.baselines page.content.toList, ¬ c.pageMargin ≤ y := by
  intro c
  refine ⟨by decide +kernel, by decide, ?_⟩
  have hbaselines : (Document.mk c (convert c.stylesheet "a" 1).paragraphs).render.toOption.map
      (fun r => r.pages.map fun page => Pdf.baselines page.content.toList) = some [[-194]] := by
    decide +kernel
  cases hr : (Document.mk c (convert c.stylesheet "a" 1).paragraphs).render with
  | error e => simp [hr, Except.toOption] at hbaselines
  | ok r =>
    simp only [hr, Except.toOption, Option.map_some, Option.some.injEq] at hbaselines
    obtain ⟨page, hpages, hpage⟩ := List.map_eq_singleton_iff.mp hbaselines
    refine ⟨r, rfl, page, ?_, -194, ?_, by decide⟩
    · rw [hpages]
      exact List.mem_cons_self
    · rw [hpage]
      exact List.mem_cons_self

end Typesetter
