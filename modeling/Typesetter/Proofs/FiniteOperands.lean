import Typesetter.Proofs.BottomMargin
import Typesetter.Proofs.LinePositions
import Typesetter.Proofs.Operands
import Typesetter.Proofs.SourceGrammar
import Typesetter.Proofs.TextWidths

/-! # Finite operands

When every number on the pages of a document is finite. The checks of a configuration compare with
zero and refuse NaN, but they let infinities pass, and lengths that overflow. -/
namespace Typesetter
open Numeric (Single Binary)

/-! ## Long words

A source with a word of any length and a comma glued to it, so that the place of the comma tells how
wide the word is. -/

/-- A word of at signs, and a comma on a line of its own. -/
def longWord : TypeSize → Nat → String
  | .normal, n => Face.atSigns (n + 1) ++ "\n" ++ ","
  | .large, n => ".large" ++ "\n" ++ (Face.atSigns (n + 1) ++ "\n" ++ ",")

def Stylesheet.longWord (s : Stylesheet) (size : TypeSize) (n : Nat) : Paragraph :=
  s.append { size } (s.append { size } {} (Face.atSigns (n + 1))) ","

theorem Face.toList_atSigns (n : Nat) : (atSigns n).toList = List.replicate n '@' :=
  String.toList_ofList

theorem Directive.head_of_ofName? {name : String} {d : Directive} (h : ofName? name = some d) :
    name.toList.head? = some '.' := by
  unfold ofName? at h
  split at h <;> first | rfl | simp at h

theorem SourceLine.read_literal {text : String} {c : Char} (h : text.toList.head? = some c)
    (hdot : c ≠ '.') (number : Nat) :
    read number text = .ok (.literal text) := by
  apply read_other
  · rintro rfl
    cases h
  · by_contra hsome
    obtain ⟨d, hd⟩ := Option.ne_none_iff_exists'.mp hsome
    exact hdot (Option.some.inj (h.symm.trans (Directive.head_of_ofName? hd)))
  · intro hindent
    exact hdot (Option.some.inj (h.symm.trans hindent.head))

theorem Face.read_atSigns (n number : Nat) :
    SourceLine.read number (atSigns (n + 1)) = .ok (.literal (atSigns (n + 1))) := by
  apply SourceLine.read_literal (c := '@')
  · rw [toList_atSigns]
    rfl
  · decide

theorem Text.lines_cons {line : String} (h : '\n' ∉ line.toList)
    (hend : line.toList.getLast? ≠ some '\r') (rest : String) :
    lines (line ++ "\n" ++ rest) = line :: lines rest := by
  have htext : (line ++ "\n" ++ rest).toList = line.toList ++ '\n' :: rest.toList := by
    rw [String.toList_append, String.toList_append, List.append_assoc]
    rfl
  rw [lines, htext, lineChars_append_newline h, withoutReturn, if_neg hend, List.map_cons,
    String.ofList_toList, lines]

theorem lines_longWord (size : TypeSize) (n : Nat) : Text.lines (longWord size n) =
    (match size with | .normal => [] | .large => [".large"]) ++ [Face.atSigns (n + 1), ","] := by
  have hnewline : '\n' ∉ (Face.atSigns (n + 1)).toList := by
    intro h
    rw [Face.toList_atSigns] at h
    exact absurd (List.eq_of_mem_replicate h) (by decide)
  have hreturn : (Face.atSigns (n + 1)).toList.getLast? ≠ some '\r' := by
    simp [Face.toList_atSigns, List.getLast?_replicate]
  have hword : Text.lines (Face.atSigns (n + 1) ++ "\n" ++ ",") = [Face.atSigns (n + 1), ","] :=
    Text.lines_cons hnewline hreturn ","
  cases size with
  | normal => exact hword
  | large =>
    have hlarge : Text.lines (longWord .large n) = ".large" :: _ :=
      Text.lines_cons (by decide) (by decide) _
    rw [hlarge, hword]
    rfl

theorem convert_longWord (s : Stylesheet) (size : TypeSize) (n : Nat) :
    (convert s (longWord size n) 1).failure = none ∧
      (convert s (longWord size n) 1).paragraphs = #[s.longWord size n] := by
  rw [convert, lines_longWord]
  cases size with
  | normal =>
    simp only [List.nil_append, convertFrom, Interpreter.runFrom, Face.read_atSigns]
    exact ⟨rfl, rfl⟩
  | large =>
    have hlarge : SourceLine.read 1 ".large" = .ok (.directive .large) := rfl
    simp only [List.singleton_append, convertFrom, Interpreter.runFrom, hlarge, Face.read_atSigns]
    exact ⟨rfl, rfl⟩

theorem Run.addWords_single {r : Run} {text : List Char} (htext : r.content.toList = text)
    (hne : text ≠ []) (hblank : ∀ c ∈ text, Text.isBlank c = false) (state : Array Word × Bool) :
    addWords state r = (state.1.push (r.word state.2 text), false) := by
  have hpieces := Text.pieces_of_forall hblank
  simp [addWords, htext, hpieces, addPiece, hne]

theorem words_longWord (s : Stylesheet) (size : TypeSize) (n : Nat) :
    (s.longWord size n).words = [(s.run { size } (Face.atSigns (n + 1))).word false
        (List.replicate (n + 1) '@'), (s.run { size } ",").word false [',']] := by
  have hword : (s.run { size } (Face.atSigns (n + 1))).content.toList =
      List.replicate (n + 1) '@' := Face.toList_atSigns (n + 1)
  have hcomma : (s.run { size } ",").content.toList = [','] := by simp [Stylesheet.run]
  have hblank : ∀ c ∈ List.replicate (n + 1) '@', Text.isBlank c = false := by
    intro c hc
    rw [List.eq_of_mem_replicate hc]
    rfl
  have hfirst := Run.addWords_single hword (by simp) hblank (#[], false)
  have hsecond := Run.addWords_single hcomma (by simp) (List.forall_mem_singleton.mpr rfl)
  simp [Paragraph.words, Stylesheet.longWord, Stylesheet.append, hfirst, hsecond]

theorem Block.placeAll?_glued (alignment : Alignment) (size indent area : Single) (v : Word)
    {w : Word} (hw : w.stretchable = false) :
    placeAll? area { alignment, size, indent } [v, w] =
      some { alignment, size, indent,
             lines := #[(Line.push {} { v with offset := 0, stretchable := false }).push w] } := by
  have hcluster : clusters [v, w] = [[v, w]] := by
    simp [clusters, List.splitBy, List.splitBy.loop, hw]
  rw [placeAll?, hcluster]
  rfl

theorem Config.settings_longWord {c : Config} {size : TypeSize} {n : Nat} {b : Block}
    (h : c.layOut (c.stylesheet.longWord size n) = .ok b) :
    ∃ s : Setting, b.settings = [s] ∧ s.block = b ∧ ∃ v w, s.line.words = #[v, w] ∧
      v.width = Face.regular.textWidth (c.stylesheet.size size) (Face.atSigns (n + 1)) := by
  obtain ⟨indent, hi⟩ := Config.layOut_eq_ok h
  simp only [layOut, hi, words_longWord] at h
  rw [Block.placeAll?_glued _ _ _ _ _ rfl] at h
  obtain rfl := Except.ok.inj h
  exact ⟨_, rfl, rfl, _, _, rfl, rfl⟩

/-! ## Ranges -/

namespace Numeric.Binary

theorem clamp?_bounds {f : Format} {x low high y : Binary f} (h : x.clamp? low high = some y)
    (hx : x ≠ nan) : low ≤ y ∧ y ≤ high := by
  unfold clamp? at h
  by_cases hrange : low ≤ high
  · have hlow := ne_nan_of_le_left hrange
    have hhigh := ne_nan_of_le_right hrange
    rw [if_pos hrange] at h
    obtain rfl := Option.some.inj h
    by_cases hbelow : x < low
    · rw [if_pos hbelow, if_neg (not_lt_of_le hrange)]
      exact ⟨le_refl hlow, hrange⟩
    · rw [if_neg hbelow]
      by_cases habove : high < x
      · rw [if_pos habove]
        exact ⟨hrange, le_refl hhigh⟩
      · rw [if_neg habove]
        exact ⟨le_of_not_lt hx hlow hbelow, le_of_not_lt hhigh hx habove⟩
  · rw [if_neg hrange] at h
    cases h

theorem clamp?_nan {f : Format} {low high y : Binary f} (h : nan.clamp? low high = some y) :
    y = nan := by
  have hbelow : ¬ (nan : Binary f) < low := not_lt_of_nan low
  have habove : ¬ high < nan := fun hlt => ne_nan_of_le_right (le_of_lt hlt) rfl
  unfold clamp? at h
  by_cases hrange : low ≤ high
  · simp only [if_pos hrange, if_neg hbelow, if_neg habove, Option.some.injEq] at h
    exact h.symm
  · rw [if_neg hrange] at h
    cases h

theorem isFinite_round {num den : Nat} (h : Format.single.nearest num den ≤ largest)
    (negative : Bool) : (round negative num den : Single).IsFinite := by
  have hrange : Format.single.nearest num den < 2 ^ Format.single.overflow := by
    rw [two_pow_overflow]
    omega
  have hlog := Format.log2_lt_of_lt_two_pow (by decide) hrange
  rw [round, ofUnits, dif_pos hlog]
  trivial

theorem IsFinite.mul_ne_nan {a b : Single} (ha : a.IsFinite) (hb : b.IsFinite) : a * b ≠ nan := by
  cases a with
  | nan => exact ha.elim
  | infinite s => exact ha.elim
  | finite s u hu =>
    cases b with
    | nan => exact hb.elim
    | infinite t => exact hb.elim
    | finite t v hv => exact round_ne_nan _ _ _

theorem IsFinite.of_add {a b : Single} (h : (a + b).IsFinite) : a.IsFinite ∧ b.IsFinite := by
  change (add a b).IsFinite at h
  cases a with
  | nan => exact h.elim
  | infinite s =>
    cases b with
    | nan => exact h.elim
    | infinite t =>
      simp only [add] at h
      split at h <;> exact h.elim
    | finite t v hv => exact h.elim
  | finite s u hu =>
    cases b with
    | nan => exact h.elim
    | infinite t => exact h.elim
    | finite t v hv => exact ⟨trivial, trivial⟩

end Numeric.Binary

/-! ## Margins -/

theorem Indent.isFinite_levels (i : Indent) : (Binary.ofInt i.levels : Single).IsFinite := by
  have hlevels : i.levels.natAbs ≤ 2147483648 := by
    have hleast := i.least
    have hgreatest := i.greatest
    omega
  have hmono := Numeric.Format.single.nearest_mono 1 (Binary.shiftLeft_mono hlevels)
  have hlarge : Numeric.Format.single.nearest (2147483648 <<< Numeric.Format.single.scale) 1 ≤
      Binary.largest := by
    decide +kernel
  exact Binary.isFinite_round (Nat.le_trans hmono hlarge) _

namespace Stylesheet
variable {s : Stylesheet}

theorem exists_leftMargin {segment : List Literal} {p : Paragraph}
    (h : s.paragraph? segment = some p) : ∃ f, p.leftMargin = s.leftMargin f := by
  obtain ⟨last, _, rfl⟩ := Option.map_eq_some_iff.mp h
  exact ⟨_, rfl⟩

theorem leftMargin_ne_nan (h : s.indentUnit.IsFinite) (f : Formatting) : s.leftMargin f ≠ .nan :=
  f.indent.isFinite_levels.mul_ne_nan h

end Stylesheet

namespace Config

theorem indent_of_layOut {c : Config} {p : Paragraph} {b : Block} (h : c.layOut p = .ok b) :
    c.indent? p = some b.indent := by
  obtain ⟨indent, hi⟩ := layOut_eq_ok h
  obtain ⟨a, _, ha, _, _, hindent, _⟩ := c.layOut_of_indent hi
  obtain rfl : a.justify (c.textWidth - indent) = b := Except.ok.inj (ha.symm.trans h)
  rw [hi]
  rcases a.justify_cases (c.textWidth - indent) with hj | ⟨_, _, _, hj⟩
  · rw [hj, hindent]
  · rw [hj]
    exact congrArg some hindent.symm

/-- Whatever the source, every number on its pages is finite. -/
def FiniteOperands (c : Config) : Prop :=
  ∀ source copies r, (convert c.stylesheet source copies).failure = none →
    (Document.mk c (convert c.stylesheet source copies).paragraphs).render = .ok r →
    ∀ x ∈ r.operands, x.IsFinite

/-- The page has an end, and no word reaches infinitely far. -/
structure Bounded (c : Config) : Prop where
  pageWidth : c.pageWidth.IsFinite
  pageHeight : c.pageHeight.IsFinite
  indentUnit : c.indentUnit.IsFinite
  widest : ∀ size, Face.widest (c.stylesheet.size size) ≤ Binary.twoPow 103

variable {c : Config}

namespace Bounded

theorem not_boundless (h : c.Bounded) : ¬ c.Boundless := by
  intro hb
  have hwidth := h.pageWidth
  rw [hb.width] at hwidth
  exact hwidth

theorem size_le (h : c.Bounded) (hc : c.Accepted) (size : TypeSize) :
    c.stylesheet.size size ≤ Binary.twoPow 103 :=
  Face.size_le (hc.size_pos size) (h.widest size)

theorem textWidth_pos (h : c.Bounded) (hc : c.Accepted) : 0 < c.textWidth := by
  refine Binary.lt_of_not_le ?_ (by decide) fun hle => hc.room (Or.inl hle)
  intro hnan
  exact h.not_boundless (hc.textWidth_eq_nan_iff.mp hnan)

theorem pageMargin_le (h : c.Bounded) (hc : c.Accepted) : c.pageMargin ≤ Binary.twoPow 127 := by
  refine Binary.le_of_not_lt (by decide +kernel) hc.pageMargin_ne_nan fun hlt => ?_
  have hdouble := Binary.mul_le_mul (by decide +kernel) (Binary.le_of_lt hlt)
    (by decide : (0 : Single) < 2) (Binary.le_refl (by decide))
  have hinf : (Binary.twoPow 127 : Single) * 2 = .infinite false := by decide +kernel
  rw [hinf] at hdouble
  have hnone : c.textWidth = .infinite true := by
    rw [textWidth, Binary.eq_infinite_of_le hdouble]
    exact Binary.finite_add_infinite h.pageWidth true
  have hpos := Binary.le_of_lt (h.textWidth_pos hc)
  rw [hnone] at hpos
  exact absurd (Binary.eq_infinite_of_le_infinite hpos) (by decide)

/-! ## Across the page -/

theorem textWidth_isFinite (h : c.Bounded) (hc : c.Accepted) (harea : c.textWidth ≤ widestArea) :
    c.textWidth.IsFinite :=
  Binary.isFinite_of_nonneg_of_le (Binary.le_of_lt (h.textWidth_pos hc)) harea (by decide +kernel)

theorem indent_bounds {segment : List Literal} {p : Paragraph} {indent : Single}
    (h : c.Bounded) (hp : c.stylesheet.paragraph? segment = some p)
    (hi : c.indent? p = some indent) : 0 ≤ indent ∧ indent ≤ c.textWidth / 2 := by
  obtain ⟨f, hf⟩ := Stylesheet.exists_leftMargin hp
  refine Binary.clamp?_bounds hi ?_
  rw [hf]
  exact Stylesheet.leftMargin_ne_nan h.indentUnit f

theorem isFinite_lineStart (h : c.Bounded) (hc : c.Accepted) (harea : c.textWidth ≤ widestArea)
    {indent : Single} (hindent : 0 ≤ indent ∧ indent ≤ c.textWidth / 2) :
    (c.pageMargin + indent).IsFinite := by
  have hhalf : c.textWidth / 2 ≤ widestArea / 2 :=
    Binary.div_le_div_right (Binary.le_of_lt (h.textWidth_pos hc)) harea (by decide) (by decide)
  have hmargin : 0 ≤ c.pageMargin := hc.nonNegative .pageMargin (by decide)
  have hsum : (Binary.twoPow 127 + widestArea / 2).IsFinite := by decide +kernel
  exact Binary.isFinite_of_nonneg_of_le (Binary.add_nonneg hmargin hindent.1)
    (Binary.add_le_add hmargin (h.pageMargin_le hc) hindent.1 (Binary.le_trans hindent.2 hhalf))
    hsum

theorem area_le (h : c.Bounded) (hc : c.Accepted) (harea : c.textWidth ≤ widestArea)
    {indent : Single} (hindent : 0 ≤ indent) : c.textWidth - indent ≤ widestArea := by
  have hne := (h.textWidth_isFinite hc harea).sub_ne_nan (Binary.ne_nan_of_le_right hindent)
  exact Binary.le_trans (Binary.sub_le_self hindent hne) harea

theorem bounded_words (h : c.Bounded) (hc : c.Accepted) {segment : List Literal} {p : Paragraph}
    (hp : c.stylesheet.paragraph? segment = some p) : ∀ w ∈ p.words, w.Bounded := by
  have hsizes := Stylesheet.exists_run_size hp
  apply Paragraph.bounded_words
  · intro r hr
    obtain ⟨size, hsize⟩ := hsizes r hr
    rw [hsize]
    exact hc.size_pos size
  · intro r hr
    obtain ⟨size, hsize⟩ := hsizes r hr
    rw [hsize]
    exact h.widest size

/-! ## Down the page -/

theorem top_bounds (h : c.Bounded) (hc : c.Accepted) :
    0 - Binary.twoPow 127 ≤ c.top ∧ c.top ≤ c.pageHeight := by
  have hmargin := hc.pageMargin_ne_nan
  have hnan := h.pageHeight.sub_ne_nan hmargin
  have hzero : (0 : Single).IsFinite := by decide
  have hheight : 0 < c.pageHeight := hc.positive .pageHeight (by decide)
  constructor
  · exact Binary.le_trans
      (Binary.sub_le_sub_left (h.pageMargin_le hc) (by decide +kernel) (hzero.sub_ne_nan hmargin))
      (Binary.sub_le_sub_right (Binary.le_of_lt hheight) (hzero.sub_ne_nan hmargin) hnan)
  · exact Binary.sub_le_self (hc.nonNegative .pageMargin (by decide)) hnan

theorem top_isFinite (h : c.Bounded) (hc : c.Accepted) : c.top.IsFinite := by
  obtain ⟨hlow, hhigh⟩ := h.top_bounds hc
  exact Binary.IsFinite.of_le_of_le (by decide +kernel) h.pageHeight hlow hhigh

/-- A line stands at the top or above the margin, and nowhere is it above the top. -/
theorem head_bounds (h : c.Bounded) (hc : c.Accepted) {ss : List Setting}
    (hss : ∀ s ∈ ss, s.Sized c) :
    ∀ q ∈ Press.placements c (Press.start c) ss,
      0 - Binary.twoPow 127 ≤ q.head ∧ q.head ≤ c.top := by
  have htop := h.top_isFinite hc
  have hpitch : ∀ size, c.top - c.stylesheet.size size * c.lineSpacing ≠ .nan :=
    fun size => htop.sub_ne_nan (Binary.ne_nan_of_le_right (hc.pitch_nonneg size))
  have hspacing : 0 ≤ c.paragraphSpacing := hc.nonNegative .paragraphSpacing (by decide)
  have hgap := htop.sub_ne_nan (Binary.ne_nan_of_le_right hspacing)
  intro q hq
  have hhead := hc.head_le_top htop.ne_nan hpitch hgap hss q hq
  refine ⟨?_, hhead⟩
  rcases Press.placements_stay (Press.start_setUp c) ss (fun s hs => (hss s hs).block) q hq with
    hstart | hfits
  · exact Binary.le_trans (h.top_bounds hc).1 hstart
  · obtain ⟨size, hsize⟩ := Placement.exists_size (hss _ (Press.setting_mem hq))
    have hpos := hc.pitch_nonneg size
    have hnan := Binary.sub_ne_nan_of_le hhead hpos (hpitch size)
    rw [Placement.pitch, hsize] at hfits
    have hmargin : 0 ≤ c.pageMargin := hc.nonNegative .pageMargin (by decide)
    have hroom := Binary.le_of_not_lt hnan hc.pageMargin_ne_nan hfits
    have hzero : (0 - Binary.twoPow 127 : Single) ≤ 0 := by decide +kernel
    exact Binary.le_trans hzero
      (Binary.le_trans hmargin (Binary.le_trans hroom (Binary.sub_le_self hpos hnan)))

theorem baseline_isFinite (h : c.Bounded) (hc : c.Accepted) {ss : List Setting}
    (hss : ∀ s ∈ ss, s.Sized c) :
    ∀ q ∈ Press.placements c (Press.start c) ss, (q.baseline c).IsFinite := by
  intro q hq
  obtain ⟨hlow, hhigh⟩ := h.head_bounds hc hss q hq
  obtain ⟨size, hsize⟩ := Placement.exists_size (hss _ (Press.setting_mem hq))
  have hlowest : (0 - Binary.twoPow 127 : Single).IsFinite := by decide +kernel
  have hbelow : (0 - Binary.twoPow 127 - Binary.twoPow 103 : Single).IsFinite := by decide +kernel
  have hhead := hlowest.of_le_of_le (h.top_isFinite hc) hlow hhigh
  have hpos := Binary.le_of_lt (hc.size_pos size)
  have hheight := Binary.ne_nan_of_le_right hpos
  have hlowestLine := Binary.sub_le_sub_left (h.size_le hc size) hbelow.ne_nan
    (hlowest.sub_ne_nan hheight)
  have hline := Binary.sub_le_sub_right hlow (hlowest.sub_ne_nan hheight)
    (hhead.sub_ne_nan hheight)
  rw [Placement.baseline, hsize]
  exact hbelow.of_le_of_le hhead (Binary.le_trans hlowestLine hline)
    (Binary.sub_le_self hpos (hhead.sub_ne_nan hheight))

end Bounded

/-- In an area that is not among the widest, words that stay finite make pages that do. -/
theorem Accepted.finiteOperands (hc : c.Accepted) (harea : c.textWidth ≤ widestArea)
    (h : c.Bounded) : c.FiniteOperands := by
  intro source copies r hconvert hr x hx
  obtain ⟨blocks, hblocks, hiff⟩ := Document.mem_operands_iff hr
  rcases (hiff x).mp hx with rfl | rfl | ⟨q, hq, -, hx⟩
  · exact h.pageWidth
  · exact h.pageHeight
  · obtain ⟨b, hb, hs⟩ := List.mem_flatMap.mp (Press.setting_mem hq)
    obtain ⟨p, hp, hlayOut⟩ := exists_left_of_forall₂ hblocks b hb
    obtain ⟨segment, hsegment⟩ := exists_segment_of_convert hconvert hp
    have hi := indent_of_layOut hlayOut
    have hindent := h.indent_bounds hsegment hi
    rcases List.mem_append.mp hx with hplace | hline
    · simp only [List.mem_cons, List.not_mem_nil, or_false] at hplace
      rcases hplace with rfl | rfl
      · rw [Block.block_of_mem_settings hs]
        exact h.isFinite_lineStart hc harea hindent
      · exact h.baseline_isFinite hc (sized_of_convert hc hconvert hblocks) q hq
    · exact line_operands_isFinite hlayOut hi (h.bounded_words hc hsegment)
        (h.area_le hc harea hindent.1) _ (Block.line_mem_of_mem_settings hs) x hline

/-! ## What the pages tell -/

theorem FiniteOperands.page_isFinite (h : c.FiniteOperands) :
    c.pageWidth.IsFinite ∧ c.pageHeight.IsFinite := by
  have hempty : (convert c.stylesheet "" 1).paragraphs = #[] := rfl
  obtain ⟨r, hr⟩ := (Document.mk c (convert c.stylesheet "" 1).paragraphs).render_isOk_iff.mpr
    (by simp [hempty])
  obtain ⟨_, _, hiff⟩ := Document.mem_operands_iff hr
  have hfinite := h "" 1 r rfl hr
  exact ⟨hfinite _ ((hiff _).mpr (Or.inl rfl)), hfinite _ ((hiff _).mpr (Or.inr (Or.inl rfl)))⟩

theorem FiniteOperands.longWord (h : c.FiniteOperands) (hc : c.Accepted) (hb : ¬ c.Boundless)
    (size : TypeSize) (n : Nat) :
    (Face.regular.textWidth (c.stylesheet.size size) (Face.atSigns (n + 1))).IsFinite ∧
      ∃ indent, c.indent? (c.stylesheet.longWord size n) = some indent ∧
        (c.pageMargin + indent).IsFinite := by
  -- The comma behind the word starts where the word ends, so the width of the word is printed.
  obtain ⟨hconvert, hparagraphs⟩ := convert_longWord c.stylesheet size n
  obtain ⟨r, hr⟩ := Document.render_isOk_of_accepted
    (d := ⟨c, (convert c.stylesheet (Typesetter.longWord size n) 1).paragraphs⟩) hc hb
  obtain ⟨blocks, hblocks, hiff⟩ := Document.mem_operands_iff hr
  have hfinite := h _ _ r hconvert hr
  rw [hparagraphs] at hblocks
  cases hblocks with
  | @cons _ b _ rest hb hrest =>
    cases hrest
    obtain ⟨s, hs, hblock, v, w, hwords, hwidth⟩ := settings_longWord hb
    have hsettings : [b].flatMap Block.settings = [s] := by simp [hs]
    have hplaced : ∀ x ∈
        [c.pageMargin + s.block.indent, ((Press.start c).placement s).baseline c] ++
          s.line.operands, x.IsFinite := by
      intro x hx
      refine hfinite x ((hiff x).mpr (Or.inr (Or.inr ⟨(Press.start c).placement s, ?_, ?_, hx⟩)))
      · rw [hsettings]
        exact List.mem_cons_self
      · change s.line.words ≠ #[]
        simp [hwords]
    refine ⟨?_, b.indent, indent_of_layOut hb, ?_⟩
    · rw [← hwidth]
      refine (Binary.IsFinite.of_add (b := w.offset) (hplaced _ ?_)).1
      simp [Line.operands, Line.advances, hwords]
    · rw [← hblock]
      exact hplaced _ (by simp)

theorem Accepted.bounded (hc : c.Accepted) (h : c.FiniteOperands) : c.Bounded := by
  obtain ⟨hwidth, hheight⟩ := h.page_isFinite
  have hb : ¬ c.Boundless := by
    intro hb
    rw [hb.width] at hwidth
    exact hwidth
  refine ⟨hwidth, hheight, ?_, ?_⟩
  · obtain ⟨-, indent, hi, hstart⟩ := h.longWord hc hb .normal 0
    have hunit : 0 ≤ c.indentUnit := hc.nonNegative .indentUnit (by decide)
    refine (Binary.infinite_or_isFinite hunit).resolve_left fun hinf => ?_
    -- No levels of an infinite unit are no number.
    have hmargin : (c.stylesheet.longWord .normal 0).leftMargin = .nan := by
      change Binary.ofInt 0 * c.indentUnit = .nan
      rw [hinf]
      rfl
    rw [indent?, hmargin] at hi
    rw [Binary.clamp?_nan hi] at hstart
    exact (Binary.IsFinite.of_add hstart).2
  · intro size
    refine Face.widest_le (hc.size_pos size) fun n => ?_
    cases n with
    | zero => trivial
    | succ n => exact (h.longWord hc hb size n).1

end Config

/-- With an accepted configuration, every number on the pages of every source is finite only if the
page, the unit of indents and the words of both sizes are, and in an area that is not among the
widest that is enough. A number is written with digits, a sign and a point if it is finite, and
otherwise as a word. -/
theorem finite_operands_of_accepted (json : String) (c : Config)
    (hc : Config.ofJson json = .ok c) :
    (c.FiniteOperands → c.Bounded) ∧
    (c.textWidth ≤ widestArea → c.Bounded → c.FiniteOperands) ∧
    ∀ x : Single, Pdf.Positional (Pdf.number x) ↔ x.IsFinite := by
  have haccepted := Config.accepted_of_ofJson hc
  exact ⟨haccepted.bounded, haccepted.finiteOperands, Pdf.positional_number_iff⟩

/-- Text as large as it may be, and an endless gap below it that only ends the page. -/
theorem finite_operands_of_accepted_hugeText :
    let c : Config := { normalFontSize := 9.99e30, paragraphSpacing := .infinite false }
    Config.ofJson "\x7b\"normalFontSize\": 9.99e30, \"paragraphSpacing\": 1e39\x7d" = .ok c ∧
    c.Bounded ∧ c.FiniteOperands := by
  intro c
  have hc : Config.ofJson "\x7b\"normalFontSize\": 9.99e30, \"paragraphSpacing\": 1e39\x7d" =
      .ok c := by
    decide +kernel
  have hbounded : c.Bounded := by
    refine ⟨by decide, by decide, by decide, ?_⟩
    intro size
    cases size <;> decide +kernel
  obtain ⟨-, hfinite, -⟩ := finite_operands_of_accepted _ c hc
  exact ⟨hc, hbounded, hfinite (by decide +kernel) hbounded⟩

/-- A size beyond the largest finite number is accepted and written. -/
theorem infinite_operand_accepted :
    let c : Config := { normalFontSize := .infinite false }
    Config.ofJson "\x7b\"normalFontSize\":1e39\x7d" = .ok c ∧
    (convert c.stylesheet "a" 1).failure = none ∧
    ∃ r, (Document.mk c (convert c.stylesheet "a" 1).paragraphs).render = .ok r ∧
      ∃ x ∈ r.operands, ¬ x.IsFinite ∧ Pdf.number x = "inf" := by
  intro c
  refine ⟨by decide +kernel, by decide, ?_⟩
  have hmem : (Document.mk c (convert c.stylesheet "a" 1).paragraphs).render.toOption.map
      (fun r => decide (.infinite false ∈ r.operands)) = some true := by
    decide +kernel
  cases hr : (Document.mk c (convert c.stylesheet "a" 1).paragraphs).render with
  | error e => simp [hr, Except.toOption] at hmem
  | ok r =>
    simp only [hr, Except.toOption, Option.map_some, Option.some.injEq, decide_eq_true_eq] at hmem
    exact ⟨r, rfl, _, hmem, id, by decide +kernel⟩

end Typesetter
