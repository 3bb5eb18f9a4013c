import Mathlib.Data.List.Chain
import Typesetter.Proofs.Arithmetic
import Typesetter.Proofs.Rendering

/-! # Pagination

Where each line of a document goes. The law is stated on the placements of consecutive lines, and
the pages of a rendering hold what it says. -/
namespace Typesetter
open Numeric (Single)

/-- A laid out line in its block, and whether its paragraph ends with it. -/
structure Setting where
  block : Block
  line : Line
  closes : Bool

def Block.settingsOf (b : Block) : List Line → List Setting
  | [] => []
  | l :: rest => ⟨b, l, rest.isEmpty⟩ :: b.settingsOf rest

def Block.settings (b : Block) : List Setting := b.settingsOf b.lines.toList

/-- The page of a line, counted from one, and the write head on that page just before the line. -/
structure Placement where
  setting : Setting
  page : Nat
  head : Single

def Config.top (c : Config) : Single := c.pageHeight - c.pageMargin

namespace Placement

def height (c : Config) (q : Placement) : Single :=
  if q.setting.line.words.isEmpty then c.normalFontSize else q.setting.line.height

def pitch (c : Config) (q : Placement) : Single := q.height c * c.lineSpacing

def baseline (c : Config) (q : Placement) : Single := q.head - q.height c

/-- The write head behind a line, and behind the gap below its paragraph if that ends here. -/
def leaves (c : Config) (q : Placement) : Single :=
  let y := q.head - q.pitch c
  if q.setting.closes then y - c.paragraphSpacing else y

def printed (c : Config) (q : Placement) : List Pdf.Operator :=
  if q.setting.line.words.isEmpty then []
  else Press.lineOperators (Press.new c).fonts (c.pageMargin + q.setting.block.indent)
    (q.baseline c) q.setting.line

end Placement

namespace Press

def set (c : Config) (p : Press) (s : Setting) : Press :=
  let p := writeLine s.block p s.line
  if s.closes then p.feed c.paragraphSpacing else p

def placement (p : Press) (s : Setting) : Placement :=
  let p := p.roomFor s.block s.line
  ⟨s, p.pages.size, p.y⟩

def placements (c : Config) : Press → List Setting → List Placement
  | _, [] => []
  | p, s :: rest => p.placement s :: placements c (p.set c s) rest

end Press

/-- How lines run down the pages of a document. -/
structure Pagination (c : Config) (placed : List Placement) : Prop where
  first : ∀ q ∈ placed.head?, q.page = 1
  grows : placed.IsChain fun a b => b.page = a.page ∨ b.page = a.page + 1
  opens : ∀ before q after, placed = before ++ q :: after → (∀ a ∈ before, a.page ≠ q.page) →
    q.baseline c = c.top - q.height c
  overflows : placed.IsChain fun a b => b.page ≠ a.page → a.leaves c - b.pitch c < c.pageMargin
  stays : ∀ q ∈ placed, c.top ≤ q.head ∨ ¬ q.head - q.pitch c < c.pageMargin
  descends : placed.IsChain fun a b => b.page = a.page → b.head = a.leaves c

/-! ## One line -/

/-- The line below stays on the page if it fits, and otherwise opens the next one at its top. -/
def Placement.Follows (c : Config) (a b : Placement) : Prop :=
  (b.page = a.page ∧ b.head = a.leaves c) ∨
    (b.page = a.page + 1 ∧ b.head = c.top ∧ a.leaves c - b.pitch c < c.pageMargin)

namespace Press
variable {c : Config} {p : Press}

theorem SetUp.top (h : SetUp c p) : p.top = c.top := by
  simp [Head.top, Config.top, h.pageHeight, h.margin]

theorem lineHeight_eq (p : Press) {s : Setting} (hs : s.block.size = c.normalFontSize) :
    lineHeight s.block s.line = (p.placement s).height c := by
  simp [lineHeight, Placement.height, placement, hs]

theorem SetUp.pitch_eq (h : SetUp c p) {s : Setting} (hs : s.block.size = c.normalFontSize) :
    lineHeight s.block s.line * p.lineSpacing = (p.placement s).pitch c := by
  rw [p.lineHeight_eq hs, h.lineSpacing, Placement.pitch]

theorem SetUp.set (h : SetUp c p) (s : Setting) : SetUp c (p.set c s) := by
  unfold Press.set
  dsimp only
  split
  · exact (h.writeLine s.block s.line).feed _
  · exact h.writeLine s.block s.line

theorem size_pages_newPage (p : Press) : p.newPage.pages.size = p.pages.size + 1 := by
  simp [pages, newPage]

theorem placement_cases (h : SetUp c p) (s : Setting) (hs : s.block.size = c.normalFontSize) :
    ((p.placement s).page = p.pages.size ∧ (p.placement s).head = p.y ∧
      (c.top ≤ p.y ∨ ¬ p.y - (p.placement s).pitch c < c.pageMargin)) ∨
    ((p.placement s).page = p.pages.size + 1 ∧ (p.placement s).head = c.top ∧
      p.y - (p.placement s).pitch c < c.pageMargin) := by
  rw [← h.pitch_eq hs, ← h.top, ← h.margin]
  unfold placement roomFor makeRoom
  dsimp only
  split
  · rename_i hb
    exact Or.inr ⟨size_pages_newPage p, rfl, hb.1⟩
  · rename_i hb
    refine Or.inl ⟨rfl, rfl, ?_⟩
    by_cases ht : p.AtTop
    · exact Or.inl ht
    · exact Or.inr fun hlt => hb ⟨hlt, ht⟩

theorem set_spec (h : SetUp c p) (s : Setting) (hs : s.block.size = c.normalFontSize) :
    (p.set c s).pages.size = (p.placement s).page ∧ (p.set c s).y = (p.placement s).leaves c := by
  have hy := y_writeLine s.block p s.line
  rw [h.pitch_eq hs] at hy
  unfold Press.set Placement.leaves
  dsimp only
  by_cases hc : s.closes
  · rw [if_pos hc, if_pos (show (p.placement s).setting.closes = true from hc)]
    exact ⟨size_pages_writeLine s.block p s.line, congrArg (· - c.paragraphSpacing) hy⟩
  · rw [if_neg hc, if_neg (show ¬ (p.placement s).setting.closes = true from hc)]
    exact ⟨size_pages_writeLine s.block p s.line, hy⟩

theorem set_follows (h : SetUp c p) (s t : Setting) (hs : s.block.size = c.normalFontSize)
    (ht : t.block.size = c.normalFontSize) :
    (p.placement s).Follows c ((p.set c s).placement t) := by
  obtain ⟨hpage, hhead⟩ := set_spec h s hs
  rcases placement_cases (h.set s) t ht with ⟨hp, hh, _⟩ | ⟨hp, hh, hlt⟩
  · exact Or.inl ⟨hp.trans hpage, hh.trans hhead⟩
  · exact Or.inr ⟨hp.trans (by rw [hpage]), hh, hhead ▸ hlt⟩

theorem placement_stays (h : SetUp c p) (s : Setting) (hs : s.block.size = c.normalFontSize) :
    c.top ≤ (p.placement s).head ∨
      ¬ (p.placement s).head - (p.placement s).pitch c < c.pageMargin := by
  rcases placement_cases h s hs with ⟨_, hh, hstay⟩ | ⟨_, hh, _⟩
  · rwa [hh]
  · rw [hh]
    -- Right at the top a line stays in any case, unless the top is NaN, and then nothing overflows.
    by_cases hlt : c.top - (p.placement s).pitch c < c.pageMargin
    · exact Or.inl (Numeric.Binary.sub_lt_imp_le_refl hlt)
    · exact Or.inr hlt

/-! ## All lines -/

theorem placements_append (c : Config) (p : Press) (ss ts : List Setting) :
    placements c p (ss ++ ts) =
      placements c p ss ++ placements c (ss.foldl (Press.set c) p) ts := by
  induction ss generalizing p with
  | nil => rfl
  | cons s rest ih => simp [placements, ih]

theorem map_setting_placements (c : Config) (p : Press) (ss : List Setting) :
    (placements c p ss).map Placement.setting = ss := by
  induction ss generalizing p with
  | nil => rfl
  | cons s rest ih => simp [placements, ih, placement]

theorem SetUp.foldl_set (h : SetUp c p) (ss : List Setting) :
    SetUp c (ss.foldl (Press.set c) p) := by
  induction ss generalizing p with
  | nil => exact h
  | cons s rest ih => exact ih (h.set s)

theorem placements_follow (h : SetUp c p) (ss : List Setting)
    (hss : ∀ s ∈ ss, s.block.size = c.normalFontSize) :
    (placements c p ss).IsChain (Placement.Follows c) := by
  induction ss generalizing p with
  | nil => exact List.isChain_nil
  | cons s rest ih =>
    cases rest with
    | nil => exact List.isChain_singleton _
    | cons t rest =>
      obtain ⟨hs, hrest⟩ := List.forall_mem_cons.mp hss
      exact List.isChain_cons_cons.mpr
        ⟨set_follows h s t hs (hrest t List.mem_cons_self), ih (h.set s) hrest⟩

theorem placements_stay (h : SetUp c p) (ss : List Setting)
    (hss : ∀ s ∈ ss, s.block.size = c.normalFontSize) :
    ∀ q ∈ placements c p ss, c.top ≤ q.head ∨ ¬ q.head - q.pitch c < c.pageMargin := by
  induction ss generalizing p with
  | nil => simp [placements]
  | cons s rest ih =>
    obtain ⟨hs, hrest⟩ := List.forall_mem_cons.mp hss
    intro q hq
    rcases List.mem_cons.mp hq with rfl | hq
    · exact placement_stays h s hs
    · exact ih (h.set s) hrest q hq

theorem placement_at_top (h : SetUp c p) (s : Setting) (hy : p.y = c.top) :
    (p.placement s).page = p.pages.size ∧ (p.placement s).head = c.top := by
  rw [← h.top] at hy ⊢
  have hb : ¬ p.Breaks (lineHeight s.block s.line * p.lineSpacing) := by
    rintro ⟨hlt, htop⟩
    rw [hy] at hlt
    refine htop ?_
    rw [AtTop, hy]
    exact Numeric.Binary.sub_lt_imp_le_refl hlt
  unfold placement roomFor makeRoom
  rw [if_neg hb]
  exact ⟨rfl, hy⟩

theorem head_of_new_page {placed : List Placement}
    (hchain : placed.IsChain (Placement.Follows c))
    (hfirst : ∀ q ∈ placed.head?, q.head = c.top) {before after : List Placement} {q : Placement}
    (hplaced : placed = before ++ q :: after) (hnew : ∀ a ∈ before, a.page ≠ q.page) :
    q.head = c.top := by
  rcases List.eq_nil_or_concat before with rfl | ⟨init, a, rfl⟩
  · exact hfirst q (by simp [hplaced])
  · rw [hplaced] at hchain
    have haq : a.Follows c q := (List.isChain_append.mp hchain).2.2 a (by simp) q (by simp)
    rcases haq with ⟨hpage, _⟩ | ⟨_, hq, _⟩
    · exact absurd hpage.symm (hnew a (by simp))
    · exact hq

theorem pagination_of_start (c : Config) (ss : List Setting)
    (hss : ∀ s ∈ ss, s.block.size = c.normalFontSize) :
    Pagination c (placements c (start c) ss) := by
  have hchain := placements_follow (start_setUp c) ss hss
  have hfirst : ∀ q ∈ (placements c (start c) ss).head?, q.page = 1 ∧ q.head = c.top := by
    cases ss with
    | nil => simp [placements]
    | cons s rest =>
      intro q hq
      obtain rfl : (start c).placement s = q := by simpa [placements] using hq
      exact placement_at_top (start_setUp c) s rfl
  constructor
  · exact fun q hq => (hfirst q hq).1
  · exact hchain.imp fun a b hab => hab.imp And.left And.left
  · intro before q after hplaced hnew
    rw [Placement.baseline, head_of_new_page hchain (fun q hq => (hfirst q hq).2) hplaced hnew]
  · refine hchain.imp fun a b hab hne => ?_
    rcases hab with ⟨hpage, _⟩ | ⟨_, _, hlt⟩
    · exact absurd hpage hne
    · exact hlt
  · exact placements_stay (start_setUp c) ss hss
  · refine hchain.imp fun a b hab heq => ?_
    rcases hab with ⟨_, hb⟩ | ⟨hpage, _, _⟩
    · exact hb
    · omega

/-! ## What the pages hold -/

def printedOn (c : Config) (placed : List Placement) (page : Nat) : List Pdf.Operator :=
  (placed.filter fun q => q.page = page).flatMap (Placement.printed c)

theorem printed_roomFor (h : SetUp c p) (s : Setting) (hs : s.block.size = c.normalFontSize) :
    Press.printed s.block (p.roomFor s.block s.line) s.line = (p.placement s).printed c := by
  have hq := h.roomFor s.block s.line
  unfold Press.printed Placement.printed Placement.baseline
  rw [hq.fonts, hq.margin, p.lineHeight_eq hs]
  rfl

theorem contents_set (h : SetUp c p) (s : Setting) (hs : s.block.size = c.normalFontSize) :
    ∃ before last, (p.set c s).contents = before ++ [last ++ (p.placement s).printed c] ∧
      (p.contents = before ++ [last] ∨ p.contents = before ∧ last = []) := by
  obtain ⟨before, last, hw, hlast⟩ := contents_writeLine s.block p s.line
  have hset : (p.set c s).contents = (writeLine s.block p s.line).contents := by
    unfold Press.set
    dsimp only
    split <;> rfl
  exact ⟨before, last, by rw [hset, hw, printed_roomFor h s hs], hlast⟩

theorem printedOn_concat (c : Config) (placed : List Placement) (q : Placement) (page : Nat) :
    printedOn c (placed ++ [q]) page =
      printedOn c placed page ++ if q.page = page then q.printed c else [] := by
  by_cases hq : q.page = page <;> simp [printedOn, List.filter_append, hq]

/-- Every page holds what is printed for the lines placed on it, in their order. -/
structure Holds (c : Config) (placed : List Placement) (p : Press) : Prop where
  bounded : ∀ q ∈ placed, q.page ≤ p.pages.size
  contents : p.contents = (List.range p.pages.size).map fun k => printedOn c placed (k + 1)

theorem Holds.exists_printedOn {placed : List Placement} (h : Holds c placed p) {page : Page}
    (hpage : page ∈ p.pages.toList) :
    ∃ k < p.pages.size, page.content.toList = printedOn c placed (k + 1) := by
  have hcontent : page.content.toList ∈ p.contents := List.mem_map_of_mem hpage
  rw [h.contents] at hcontent
  obtain ⟨k, hk, hcontent⟩ := List.mem_map.mp hcontent
  exact ⟨k, List.mem_range.mp hk, hcontent.symm⟩

theorem printedOn_eq_nil {placed : List Placement} {page : Nat}
    (h : ∀ q ∈ placed, q.page < page) : printedOn c placed page = [] := by
  have hnone : placed.filter (fun q => q.page = page) = [] := by
    rw [List.filter_eq_nil_iff]
    intro q hq
    have := h q hq
    simp only [decide_eq_true_eq]
    omega
  rw [printedOn, hnone, List.flatMap_nil]

/-- The last page of a press may also be one that is still to be opened and holds nothing. -/
theorem Holds.last {placed : List Placement} (h : Holds c placed p)
    {before : List (List Pdf.Operator)} {last : List Pdf.Operator}
    (hlast : p.contents = before ++ [last] ∨ p.contents = before ∧ last = []) :
    p.pages.size ≤ before.length + 1 ∧
      before = ((List.range before.length).map fun k => printedOn c placed (k + 1)) ∧
      last = printedOn c placed (before.length + 1) := by
  have hlen := length_contents p
  have hcontents := h.contents
  rcases hlast with hp | ⟨hp, rfl⟩
  · rw [hp] at hlen hcontents
    have hn : p.pages.size = before.length + 1 := by simpa using hlen.symm
    rw [hn, List.range_succ, List.map_append] at hcontents
    obtain ⟨hb, hl⟩ := List.append_inj' hcontents rfl
    exact ⟨hn.le, hb, by simpa using hl⟩
  · rw [hp] at hlen hcontents
    have hbounded := h.bounded
    rw [← hlen] at hbounded hcontents
    refine ⟨by omega, hcontents, ?_⟩
    exact (printedOn_eq_nil fun q hq => Nat.lt_succ_of_le (hbounded q hq)).symm

theorem Holds.set {placed : List Placement} (h : Holds c placed p) (hup : SetUp c p) (s : Setting)
    (hs : s.block.size = c.normalFontSize) :
    Holds c (placed ++ [p.placement s]) (p.set c s) := by
  obtain ⟨hsize, _⟩ := set_spec hup s hs
  obtain ⟨before, last, hset, hlast⟩ := contents_set hup s hs
  obtain ⟨hle, hbefore, hprinted⟩ := h.last hlast
  have hlen : before.length + 1 = (p.set c s).pages.size := by
    rw [← length_contents, hset]
    simp
  constructor
  · intro q hq
    rcases List.mem_append.mp hq with hq | hq
    · have := h.bounded q hq
      omega
    · rw [List.mem_singleton.mp hq, hsize]
  · have hpage : (p.placement s).page = before.length + 1 := by omega
    have hkept : ((List.range before.length).map
          fun k => printedOn c (placed ++ [p.placement s]) (k + 1)) = before := by
      conv_rhs => rw [hbefore]
      refine List.map_congr_left fun k hk => ?_
      have := List.mem_range.mp hk
      rw [printedOn_concat, if_neg (by omega), List.append_nil]
    rw [hset, ← hlen, List.range_succ, List.map_append, hkept]
    simp [printedOn_concat, hpage, ← hprinted]

theorem holds_foldl_set (c : Config) (ss : List Setting)
    (hss : ∀ s ∈ ss, s.block.size = c.normalFontSize) :
    Holds c (placements c (start c) ss) (ss.foldl (Press.set c) (start c)) := by
  induction ss using List.reverseRecOn with
  | nil => exact ⟨by simp [placements], rfl⟩
  | append_singleton ss s ih =>
    have hup := (start_setUp c).foldl_set ss
    have hstep := (ih fun t ht => hss t (List.mem_append_left _ ht)).set hup s (hss s (by simp))
    rw [placements_append, List.foldl_append]
    exact hstep

/-! ## Whole documents -/

theorem foldl_settingsOf (c : Config) (b : Block) {lines : List Line} (hne : lines ≠ [])
    (p : Press) :
    (b.settingsOf lines).foldl (Press.set c) p =
      (lines.foldl (writeLine b) p).feed c.paragraphSpacing := by
  induction lines generalizing p with
  | nil => exact absurd rfl hne
  | cons l rest ih =>
    cases rest with
    -- Only the last line closes its paragraph, so the gap below it comes once.
    | nil => simp [Block.settingsOf, Press.set]
    | cons m rest =>
      have hs : p.set c ⟨b, l, false⟩ = writeLine b p l := rfl
      have hr := ih (List.cons_ne_nil m rest) (writeLine b p l)
      rw [List.foldl_cons, ← hr, ← hs]
      rfl

theorem foldl_writeBlock (c : Config) {blocks : List Block} (hne : ∀ b ∈ blocks, b.lines ≠ #[])
    (p : Press) :
    blocks.foldl (writeBlock c) p = (blocks.flatMap Block.settings).foldl (Press.set c) p := by
  induction blocks generalizing p with
  | nil => rfl
  | cons b rest ih =>
    obtain ⟨hb, hrest⟩ := List.forall_mem_cons.mp hne
    have hlines : b.lines.toList ≠ [] := by simpa using hb
    have hw : b.settings.foldl (Press.set c) p = writeBlock c p b := by
      rw [Block.settings, foldl_settingsOf c b hlines, writeBlock, write, Array.foldl_toList]
    rw [List.foldl_cons, List.flatMap_cons, List.foldl_append, hw]
    exact ih hrest _

end Press

theorem Block.block_of_mem_settings {b : Block} {s : Setting} (h : s ∈ b.settings) :
    s.block = b := by
  have hof : ∀ lines : List Line, ∀ s ∈ b.settingsOf lines, s.block = b := by
    intro lines
    induction lines with
    | nil => simp [settingsOf]
    | cons l rest ih =>
      intro s hs
      rcases List.mem_cons.mp hs with rfl | hs
      · rfl
      · exact ih s hs
  exact hof _ s h

theorem Block.map_line_settings (b : Block) : b.settings.map Setting.line = b.lines.toList := by
  unfold settings
  induction b.lines.toList with
  | nil => rfl
  | cons l rest ih => rw [settingsOf, List.map_cons, ih]

theorem block_size_of_layOut {c : Config} {ps : List Paragraph} {blocks : List Block}
    (h : List.Forall₂ (fun p b => c.layOut p = .ok b) ps blocks) :
    ∀ b ∈ blocks, b.size = c.normalFontSize ∧ b.lines ≠ #[] := by
  induction h with
  | nil => simp
  | cons hb _ ih => exact List.forall_mem_cons.mpr ⟨Config.block_of_layOut hb, ih⟩

theorem settings_ne_nil_of_layOut {c : Config} {ps : List Paragraph} {blocks : List Block}
    (h : List.Forall₂ (fun p b => c.layOut p = .ok b) ps blocks) (hne : ps ≠ []) :
    blocks.flatMap Block.settings ≠ [] := by
  cases h with
  | nil => exact absurd rfl hne
  | @cons p b _ _ hb _ =>
    intro hnil
    rw [List.flatMap_cons] at hnil
    have hsettings := (List.append_eq_nil_iff.mp hnil).1
    apply (Config.block_of_layOut hb).2
    rw [← Array.toList_eq_nil_iff, ← b.map_line_settings, hsettings, List.map_nil]

/-- Over all laid out lines of a document that renders, pages fill from the top, lines go down by
their pitch and the gap between paragraphs, and a page ends only where the next line does not fit.
The placements are those of the press, and the pages hold what is printed at them. -/
theorem document_pagination_law (d : Document) (r : Rendering) (h : d.render = .ok r) :
    ∃ blocks placed,
      List.Forall₂ (fun p b => d.config.layOut p = .ok b) d.paragraphs.toList blocks ∧
      placed = Press.placements d.config (Press.start d.config) (blocks.flatMap Block.settings) ∧
      placed.map Placement.setting = blocks.flatMap Block.settings ∧
      Pagination d.config placed ∧
      r.press.contents = (List.range r.pages.length).map fun k =>
        (placed.filter fun q => q.page = k + 1).flatMap (Placement.printed d.config) := by
  obtain ⟨blocks, hblocks, rfl⟩ := (d.render_eq_ok_iff r).mp h
  have hb := block_size_of_layOut hblocks
  have hsettings : ∀ s ∈ blocks.flatMap Block.settings, s.block.size = d.config.normalFontSize := by
    intro s hs
    obtain ⟨b, hmem, hs⟩ := List.mem_flatMap.mp hs
    rw [Block.block_of_mem_settings hs]
    exact (hb b hmem).1
  refine ⟨blocks, _, hblocks, rfl, Press.map_setting_placements _ _ _,
    Press.pagination_of_start d.config _ hsettings, ?_⟩
  have hcontents := (Press.holds_foldl_set d.config _ hsettings).contents
  simp only [Rendering.pages, Array.length_toList]
  rw [Press.foldl_writeBlock d.config fun b hmem => (hb b hmem).2]
  exact hcontents

/-- Two lines of large text, each a paragraph of its own, on a page with room for one and a half. -/
def tallLines : Document where
  config := { pageHeight := 90, pageMargin := 10 }
  paragraphs := #[{ runs := #[⟨"above", .regular, 30⟩] }, { runs := #[⟨"below", .bold, 30⟩] }]

theorem document_pagination_law_tallLines : ∃ r placed, tallLines.render = .ok r ∧
    r.pages.length = 2 ∧ Pagination tallLines.config placed ∧
    r.press.contents = (List.range r.pages.length).map fun k =>
      (placed.filter fun q => q.page = k + 1).flatMap (Placement.printed tallLines.config) := by
  have hlen : tallLines.render.toOption.map (fun r => r.pages.length) = some 2 := by
    decide +kernel
  cases hr : tallLines.render with
  | error e => simp [hr, Except.toOption] at hlen
  | ok r =>
    obtain ⟨_, placed, _, _, _, hlaw, hcontents⟩ := document_pagination_law tallLines r hr
    exact ⟨r, placed, rfl, by simpa [hr, Except.toOption] using hlen, hlaw, hcontents⟩

end Typesetter
