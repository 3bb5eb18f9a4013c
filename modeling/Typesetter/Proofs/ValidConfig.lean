import Typesetter.Interpreter
import Typesetter.Error
import Typesetter.Proofs.Arithmetic
import Typesetter.Proofs.Rendering

/-! # Accepted configurations

What the checks of a configuration establish, and what they leave open. A check fails only where a
comparison holds, so a width between the margins that is no number passes them all. -/
namespace Typesetter
open Numeric (Single Binary)

namespace Config

structure Accepted (c : Config) : Prop where
  positive : ∀ m ∈ positiveMeasures, 0 < c.get m
  nonNegative : ∀ m ∈ nonNegativeMeasures, 0 ≤ c.get m
  room : ¬ c.NoRoom

/-- The page reaches infinitely far each way, and so do its margins. -/
structure Boundless (c : Config) : Prop where
  width : c.pageWidth = .infinite false
  height : c.pageHeight = .infinite false
  margins : c.pageMargin * 2 = .infinite false

variable {c : Config}

theorem fault?_eq_none_iff (c : Config) : c.fault? = none ↔ c.Accepted := by
  have hpositive := List.find?_eq_none (p := fun m => decide (¬ 0 < c.get m))
    (l := positiveMeasures)
  have hnonNegative := List.find?_eq_none (p := fun m => decide (¬ 0 ≤ c.get m))
    (l := nonNegativeMeasures)
  simp only [decide_eq_true_eq, not_not] at hpositive hnonNegative
  constructor
  · intro h
    unfold fault? at h
    split at h
    · cases h
    · rename_i hp
      split at h
      · cases h
      · rename_i hn
        split at h
        · cases h
        · rename_i hroom
          exact ⟨hpositive.mp hp, hnonNegative.mp hn, hroom⟩
  · intro h
    unfold fault?
    rw [hpositive.mpr h.positive, hnonNegative.mpr h.nonNegative]
    exact if_neg h.room

theorem accepted_of_ofJson {json : String} (h : ofJson json = .ok c) : c.Accepted := by
  rw [← fault?_eq_none_iff]
  unfold ofJson at h
  split at h
  · cases h
  · split at h
    · cases h
    · rename_i hfault
      obtain rfl := Except.ok.inj h
      exact hfault

namespace Accepted

theorem size_pos (h : c.Accepted) (size : TypeSize) : 0 < c.stylesheet.size size := by
  cases size with
  | normal => exact h.positive .normalFontSize (by decide)
  | large => exact h.positive .largeFontSize (by decide)

theorem pitch_nonneg (h : c.Accepted) (size : TypeSize) :
    0 ≤ c.stylesheet.size size * c.lineSpacing :=
  Binary.mul_nonneg (h.size_pos size) (h.positive .lineSpacing (by decide))

theorem pageMargin_ne_nan (h : c.Accepted) : c.pageMargin ≠ .nan :=
  Binary.ne_nan_of_le_right (h.nonNegative .pageMargin (by decide))

theorem pageHeight_infinite (h : c.Accepted) (hmargins : c.pageMargin * 2 = .infinite false) :
    c.pageHeight = .infinite false := by
  have hheight : 0 < c.pageHeight := h.positive .pageHeight (by decide)
  rcases Binary.of_pos hheight with hinf | ⟨units, fits, hfin, -⟩
  · exact hinf
  · have hroom : c.pageHeight - c.pageMargin * 2 = .infinite true := by
      rw [hfin, hmargins]
      rfl
    have hpositive : 0 ≤ c.largeFontSize * c.lineSpacing := h.pitch_nonneg .large
    have hpitch : ¬ c.largeFontSize * c.lineSpacing ≤ .infinite true := by
      intro hle
      exact absurd (Binary.eq_infinite_of_le_infinite (Binary.le_trans hpositive hle)) (by decide)
    refine absurd (Or.inr ?_) h.room
    rw [hroom]
    exact Binary.lt_of_not_le (Binary.ne_nan_of_le_right hpositive) (by decide) hpitch

theorem textWidth_eq_nan_iff (h : c.Accepted) : c.textWidth = .nan ↔ c.Boundless := by
  constructor
  · intro hnan
    have hwidth : 0 < c.pageWidth := h.positive .pageWidth (by decide)
    rcases Binary.sub_eq_nan_iff.mp hnan with hw | hm | ⟨s, hw, hm⟩
    · exact absurd hw (Binary.ne_nan_of_le_right (Binary.le_of_lt hwidth))
    · exact absurd hm (Binary.double_ne_nan h.pageMargin_ne_nan)
    · cases s with
      | true =>
        rw [hw] at hwidth
        rcases Binary.of_pos hwidth with h | ⟨_, _, h, _⟩ <;> cases h
      | false => exact ⟨hw, h.pageHeight_infinite hm, hm⟩
  · intro hboundless
    exact Binary.sub_eq_nan_iff.mpr
      (Or.inr (Or.inr ⟨false, hboundless.width, hboundless.margins⟩))

theorem half_textWidth_iff (h : c.Accepted) : 0 ≤ c.textWidth / 2 ↔ ¬ c.Boundless := by
  rw [← h.textWidth_eq_nan_iff]
  constructor
  · intro hhalf hnan
    rw [hnan] at hhalf
    exact Binary.ne_nan_of_le_right hhalf rfl
  · intro hnan
    apply Binary.half_nonneg
    refine Binary.lt_of_not_le hnan (by decide) ?_
    exact fun hle => h.room (Or.inl hle)

end Accepted

/-! ## Rendering -/

/-- Only the indent of a paragraph can fail, since words always have a current line. -/
theorem layOut_eq_error {p : Paragraph} {e : LayoutFault} (h : c.layOut p = .error e) :
    e = .noIndentRange ∧ c.indent? p = none := by
  cases hi : c.indent? p with
  | none =>
    simp only [layOut, hi] at h
    exact ⟨(Except.error.inj h).symm, rfl⟩
  | some indent =>
    obtain ⟨b, _, hb, _⟩ := c.layOut_of_indent hi
    rw [hb] at h
    cases h

end Config

theorem Press.foldlM_writeParagraph_eq_error {c : Config} {ps : List Paragraph} {p : Press}
    {e : LayoutFault} (h : ps.foldlM (writeParagraph c) p = .error e) :
    ∃ paragraph ∈ ps, c.layOut paragraph = .error e := by
  induction ps generalizing p with
  | nil => cases h
  | cons paragraph ps ih =>
    cases hb : c.layOut paragraph with
    | error e' =>
      simp only [List.foldlM_cons, writeParagraph, hb, bind, Except.bind] at h
      obtain rfl := Except.error.inj h
      exact ⟨paragraph, List.mem_cons_self, hb⟩
    | ok b =>
      simp only [List.foldlM_cons, writeParagraph, hb, bind, Except.bind] at h
      obtain ⟨q, hq, he⟩ := ih h
      exact ⟨q, List.mem_cons_of_mem _ hq, he⟩

namespace Document

theorem render_eq_error {d : Document} {e : LayoutFault} (h : d.render = .error e) :
    ∃ p ∈ d.paragraphs, d.config.layOut p = .error e := by
  rw [render_eq] at h
  cases hp : d.paragraphs.toList.foldlM (Press.writeParagraph d.config)
      (Press.start d.config) with
  | ok q =>
    rw [hp] at h
    cases h
  | error e' =>
    rw [hp] at h
    obtain rfl := Except.error.inj h
    obtain ⟨paragraph, hmem, he⟩ := Press.foldlM_writeParagraph_eq_error hp
    exact ⟨paragraph, Array.mem_toList_iff.mp hmem, he⟩

theorem render_isOk_iff (d : Document) :
    (∃ r, d.render = .ok r) ↔ ∀ p ∈ d.paragraphs, ∃ indent, d.config.indent? p = some indent := by
  constructor
  · rintro ⟨r, hr⟩ p hp
    obtain ⟨blocks, hblocks, -⟩ := (d.render_eq_ok_iff r).mp hr
    have hflip := List.Forall₂.flip (R := fun b p => d.config.layOut p = .ok b) hblocks
    obtain ⟨b, -, hb⟩ := exists_left_of_forall₂ hflip p (Array.mem_toList_iff.mpr hp)
    exact Config.layOut_eq_ok hb
  · intro h
    cases hr : d.render with
    | ok r => exact ⟨r, rfl⟩
    | error e =>
      obtain ⟨p, hp, he⟩ := render_eq_error hr
      obtain ⟨indent, hi⟩ := h p hp
      rw [(Config.layOut_eq_error he).2] at hi
      cases hi

theorem render_isOk_of_accepted {d : Document} (h : d.config.Accepted) (hb : ¬ d.config.Boundless) :
    ∃ r, d.render = .ok r :=
  render_isOk (h.half_textWidth_iff.mpr hb)

theorem bytes_isOk_iff (d : Document) (stamp : Stamp) :
    (∃ bytes, d.bytes stamp = .ok bytes) ↔ ∃ r, d.render = .ok r := by
  unfold bytes
  cases d.render <;> simp [Except.map]

end Document

/-- With an accepted configuration every source renders, unless the page is boundless and there is
something to print on it. A paragraph is then refused for its indent, which has no range; there is
no other fault, and the range is never reversed. -/
theorem rendering_of_accepted (json source : String) (copies : Nat) (stamp : Stamp) (c : Config)
    (hc : Config.ofJson json = .ok c) :
    let d : Document := ⟨c, (convert c.stylesheet source copies).paragraphs⟩
    ((∃ bytes, d.bytes stamp = .ok bytes) ↔ ¬ c.Boundless ∨ d.paragraphs = #[]) ∧
    (c.textWidth / 2 = .nan ↔ c.Boundless) ∧
    (c.textWidth / 2 ≠ .nan → 0 ≤ c.textWidth / 2) ∧
    ∀ e, d.bytes stamp = .error e → e = .noIndentRange := by
  intro d
  have haccepted := Config.accepted_of_ofJson hc
  have hhalf := haccepted.half_textWidth_iff
  have hnan : c.textWidth / 2 = .nan ↔ c.Boundless := by
    constructor
    · intro hnan
      by_contra hb
      exact Binary.ne_nan_of_le_right (hhalf.mpr hb) hnan
    · intro hb
      rw [haccepted.textWidth_eq_nan_iff.mpr hb]
      rfl
  refine ⟨?_, hnan, ?_, ?_⟩
  · rw [d.bytes_isOk_iff, d.render_isOk_iff]
    simp only [show d.config = c from rfl, Config.indent?_isSome_iff, hhalf]
    constructor
    · intro h
      by_cases hempty : d.paragraphs = #[]
      · exact Or.inr hempty
      · obtain ⟨p, hp⟩ := Array.exists_mem_of_ne_empty _ hempty
        exact Or.inl (h p hp)
    · rintro (hb | hempty) p hp
      · exact hb
      · rw [hempty] at hp
        exact absurd hp (Array.not_mem_empty p)
  · intro hne
    exact hhalf.mpr fun hb => hne (hnan.mpr hb)
  · intro e he
    cases hr : d.render with
    | ok r =>
      rw [Document.bytes, hr] at he
      cases he
    | error e' =>
      rw [Document.bytes, hr] at he
      obtain rfl := Except.error.inj he
      obtain ⟨p, -, hp⟩ := Document.render_eq_error hr
      exact (Config.layOut_eq_error hp).1

/-- Finite margins leave room for text on an infinite page. -/
theorem rendering_of_accepted_endlessPage :
    let c : Config := { pageWidth := .infinite false, pageHeight := .infinite false }
    let stamp : Stamp := ⟨⟨"20240101000000", 0⟩, []⟩
    Config.ofJson "\x7b\"pageWidth\": 1e39, \"pageHeight\": 1e39\x7d" = .ok c ∧
    ∃ bytes, (Document.mk c (convert c.stylesheet "a\n.paragraph\nb" 2).paragraphs).bytes stamp =
      .ok bytes := by
  intro c stamp
  have hc : Config.ofJson "\x7b\"pageWidth\": 1e39, \"pageHeight\": 1e39\x7d" = .ok c := by
    decide +kernel
  have hbounded : ¬ c.Boundless := by
    intro hb
    exact absurd hb.margins (by decide)
  have h := rendering_of_accepted _ "a\n.paragraph\nb" 2 stamp c hc
  exact ⟨hc, h.1.mpr (Or.inl hbounded)⟩

/-- Three numbers beyond the largest finite one are accepted, and then nothing renders. -/
theorem accepted_without_room :
    let c : Config :=
      { pageWidth := .infinite false, pageHeight := .infinite false,
        pageMargin := .infinite false }
    let json := "\x7b\"pageWidth\":1e39,\"pageHeight\":1e39,\"pageMargin\":1e39\x7d"
    Config.ofJson json = .ok c ∧
    (convert c.stylesheet "a" 1).failure = none ∧
    ∀ stamp, (Document.mk c (convert c.stylesheet "a" 1).paragraphs).bytes stamp =
      .error .noIndentRange := by
  intro c json
  refine ⟨by decide +kernel, by decide, ?_⟩
  intro stamp
  rfl

end Typesetter
