import Typesetter.Proofs.BottomMargin

/-! # Down the page

Text runs down its page. Behind a line the write head stands no higher than the baseline of that
line, since the pitch of a line is no less than its height, and up to the next page the head goes no
higher again. A head that is no number stays so, and compares with nothing. -/
namespace Typesetter
open Numeric (Single Binary)

/-! ## Behind a line -/

namespace Placement
variable {c : Config} {q : Placement}

theorem height_pos (hc : c.Accepted) (hq : q.setting.Sized c) : 0 < q.height c := by
  obtain ⟨size, hsize⟩ := exists_size hq
  rw [hsize]
  exact hc.size_pos size

theorem pitch_nonneg (hc : c.Accepted) (hq : q.setting.Sized c) : 0 ≤ q.pitch c :=
  Binary.mul_nonneg (height_pos hc hq) (hc.positive .lineSpacing (by decide))

theorem baseline_le_head (hc : c.Accepted) (hq : q.setting.Sized c) (h : q.baseline c ≠ .nan) :
    q.baseline c ≤ q.head :=
  Binary.sub_le_self (Binary.le_of_lt (height_pos hc hq)) h

theorem leaves_le_sub_pitch (hc : c.Accepted) (h : q.leaves c ≠ .nan) :
    q.head - q.pitch c ≠ .nan ∧ q.leaves c ≤ q.head - q.pitch c := by
  unfold leaves at h ⊢
  dsimp only at h ⊢
  by_cases hcloses : q.setting.closes = true
  · rw [if_pos hcloses] at h ⊢
    have hgap : 0 ≤ c.paragraphSpacing := hc.nonNegative .paragraphSpacing (by decide)
    exact ⟨Binary.left_ne_nan_of_sub h, Binary.sub_le_self hgap h⟩
  · rw [if_neg hcloses] at h ⊢
    exact ⟨h, Binary.le_refl h⟩

theorem leaves_le_head (hc : c.Accepted) (hq : q.setting.Sized c) (h : q.leaves c ≠ .nan) :
    q.leaves c ≤ q.head := by
  obtain ⟨hpitch, hle⟩ := leaves_le_sub_pitch hc h
  exact Binary.le_trans hle (Binary.sub_le_self (pitch_nonneg hc hq) hpitch)

theorem leaves_le_baseline (hc : c.Accepted) (hspacing : 1 ≤ c.lineSpacing)
    (hq : q.setting.Sized c) (h : q.leaves c ≠ .nan) : q.leaves c ≤ q.baseline c := by
  obtain ⟨hpitch, hle⟩ := leaves_le_sub_pitch hc h
  have hheight := height_pos hc hq
  have hspaced : q.height c ≤ q.pitch c := Binary.le_mul_of_one_le hheight hspacing
  have hbaseline := Binary.sub_ne_nan_of_le_right hspaced (Binary.le_of_lt hheight) hpitch
  exact Binary.le_trans hle (Binary.sub_le_sub_left hspaced hpitch hbaseline)

end Placement

/-! ## Down to the next page -/

namespace Press
variable {c : Config} {p : Press} {ss : List Setting}

/-- No line goes back to a page before, and on the page of the press all stand below its head. -/
theorem placement_below (hc : c.Accepted) (hup : SetUp c p) (hss : ∀ s ∈ ss, s.Sized c) :
    ∀ q ∈ placements c p ss, p.pages.size ≤ q.page ∧
      (q.page = p.pages.size → q.head ≠ .nan → q.head ≤ p.y) := by
  induction ss generalizing p with
  | nil => simp [placements]
  | cons s rest ih =>
    obtain ⟨hs, hrest⟩ := List.forall_mem_cons.mp hss
    have hfirst : p.pages.size ≤ (p.placement s).page ∧
        ((p.placement s).page = p.pages.size → (p.placement s).head = p.y) := by
      rcases placement_cases hup s hs.block with ⟨hpage, hhead, _⟩ | ⟨hpage, _, _⟩
      · exact ⟨hpage.ge, fun _ => hhead⟩
      · exact ⟨by omega, fun heq => by omega⟩
    obtain ⟨hsize, hy⟩ := set_spec hup s hs.block
    refine List.forall_mem_cons.mpr ⟨⟨hfirst.1, ?_⟩, ?_⟩
    · intro hpage hnan
      rw [← hfirst.2 hpage]
      exact Binary.le_refl hnan
    · intro q hq
      obtain ⟨hlater, hbelow⟩ := ih (hup.set s) hrest q hq
      rw [hsize] at hlater hbelow
      rw [hy] at hbelow
      refine ⟨Nat.le_trans hfirst.1 hlater, ?_⟩
      intro hpage hnan
      have hsame : (p.placement s).page = p.pages.size := by omega
      have hleaves := hbelow (hpage.trans hsame.symm) hnan
      have hdown := (p.placement s).leaves_le_head hc hs (Binary.ne_nan_of_le_right hleaves)
      rw [← hfirst.2 hsame]
      exact Binary.le_trans hleaves hdown

theorem placements_descend (hc : c.Accepted) (hspacing : 1 ≤ c.lineSpacing) (hup : SetUp c p)
    (hss : ∀ s ∈ ss, s.Sized c) :
    (placements c p ss).Pairwise fun upper lower => lower.page = upper.page →
      lower.baseline c ≠ .nan → lower.baseline c ≤ upper.baseline c := by
  induction ss generalizing p with
  | nil => exact List.Pairwise.nil
  | cons s rest ih =>
    obtain ⟨hs, hrest⟩ := List.forall_mem_cons.mp hss
    refine List.pairwise_cons.mpr ⟨?_, ih (hup.set s) hrest⟩
    intro q hq hpage hnan
    obtain ⟨hsize, hy⟩ := set_spec hup s hs.block
    obtain ⟨-, hbelow⟩ := placement_below hc (hup.set s) hrest q hq
    rw [hsize, hy] at hbelow
    have hsized := hrest _ (setting_mem hq)
    have hhead := Placement.baseline_le_head hc hsized hnan
    have hleaves := hbelow hpage (Binary.ne_nan_of_le_right hhead)
    have hbehind := Placement.leaves_le_baseline hc hspacing hs (Binary.ne_nan_of_le_right hleaves)
    exact Binary.le_trans hhead (Binary.le_trans hleaves hbehind)

theorem pairwise_baselines {placed : List Placement} {R : Single → Single → Prop}
    (h : placed.Pairwise fun upper lower => lower.page = upper.page →
      R (upper.baseline c) (lower.baseline c)) (page : Nat) :
    (Pdf.baselines (printedOn c placed page)).Pairwise R := by
  rw [printedOn, Placement.baselines_printed, List.pairwise_map]
  refine ((h.filter _).filter _).imp_of_mem ?_
  intro upper lower hupper hlower hbelow
  have hpage := (List.mem_filter.mp (List.mem_of_mem_filter hupper)).2
  have hpage' := (List.mem_filter.mp (List.mem_of_mem_filter hlower)).2
  simp only [decide_eq_true_eq] at hpage hpage'
  exact hbelow (hpage'.trans hpage.symm)

end Press

/-! ## Pages with an end -/

namespace Config.Accepted
variable {c : Config}

theorem pageHeight_sub_ne_nan (hc : c.Accepted) (hfinite : c.pageHeight ≠ .infinite false)
    {x : Single} (hx : 0 ≤ x) : c.pageHeight - x ≠ .nan := by
  have hheight : 0 < c.pageHeight := hc.positive .pageHeight (by decide)
  intro hnan
  rcases Binary.sub_eq_nan_iff.mp hnan with hh | hx' | ⟨s, hh, -⟩
  · exact Binary.ne_nan_of_le_right (Binary.le_of_lt hheight) hh
  · exact Binary.ne_nan_of_le_right hx hx'
  · cases s with
    | false => exact hfinite hh
    | true =>
      rw [hh] at hheight
      exact absurd (Binary.eq_infinite_of_le_infinite (Binary.le_of_lt hheight)) (by decide)

/-- On a page of finite height, no line is placed where there is no number. -/
theorem baseline_ne_nan (hc : c.Accepted) (hfinite : c.pageHeight ≠ .infinite false)
    {ss : List Setting} (hss : ∀ s ∈ ss, s.Sized c) :
    ∀ q ∈ Press.placements c (Press.start c) ss, q.baseline c ≠ .nan := by
  have hmargin : 0 ≤ c.pageMargin := hc.nonNegative .pageMargin (by decide)
  have htop : c.top ≠ .nan := hc.pageHeight_sub_ne_nan hfinite hmargin
  have hbelow : c.top ≤ c.pageHeight := Binary.sub_le_self hmargin htop
  have hsub : ∀ x : Single, 0 ≤ x → c.top - x ≠ .nan := fun x hx =>
    Binary.sub_ne_nan_of_le hbelow hx (hc.pageHeight_sub_ne_nan hfinite hx)
  have hhead := hc.head_le_top htop (fun size => hsub _ (hc.pitch_nonneg size))
    (hsub _ (hc.nonNegative .paragraphSpacing (by decide))) hss
  intro q hq
  have hheight := Binary.le_of_lt (Placement.height_pos hc (hss _ (Press.setting_mem hq)))
  exact Binary.sub_ne_nan_of_le (hhead q hq) hheight (hsub _ hheight)

end Config.Accepted

/-- With an accepted configuration and a line spacing of one or more, no text on a page of a source
stands higher than text before it on the page. If pages have a finite height, it stands at the same
height or lower; if not, a height may also be no number. -/
theorem text_runs_down (json source : String) (copies : Nat) (c : Config) (r : Rendering)
    (hc : Config.ofJson json = .ok c) (hspacing : 1 ≤ c.lineSpacing)
    (hconvert : (convert c.stylesheet source copies).failure = none)
    (hr : (Document.mk c (convert c.stylesheet source copies).paragraphs).render = .ok r) :
    ∀ page ∈ r.pages, (Pdf.baselines page.content.toList).Pairwise fun upper lower =>
      ¬ upper < lower ∧ (c.pageHeight ≠ .infinite false → lower ≤ upper) := by
  have haccepted := Config.accepted_of_ofJson hc
  obtain ⟨blocks, hblocks, -, hholds⟩ := Document.exists_holds hr
  have hsized := sized_of_convert haccepted hconvert hblocks
  have hdescend := Press.placements_descend haccepted hspacing (Press.start_setUp c) hsized
  intro page hpage
  obtain ⟨k, -, hcontent⟩ := hholds.exists_printedOn hpage
  rw [hcontent]
  refine Press.pairwise_baselines (hdescend.imp_of_mem ?_) _
  intro upper lower hupper hlower hbelow hsame
  constructor
  · intro hlt
    have hnan := Binary.ne_nan_of_le_right (Binary.le_of_lt hlt)
    exact Binary.not_lt_of_le (hbelow hsame hnan) hlt
  · intro hfinite
    exact hbelow hsame (haccepted.baseline_ne_nan hfinite hsized lower hlower)

/-- Lines at their own height below one another: large text over two lines, an empty line and normal
text. -/
theorem text_runs_down_mixedLines :
    let json := "\x7b\"pageWidth\": 100, \"lineSpacing\": 1, \"paragraphSpacing\": 0\x7d"
    let source := ".large\naa bb\n.paragraph\n.normal\n \n.paragraph\ncc"
    let c : Config := { pageWidth := 100, lineSpacing := 1, paragraphSpacing := 0 }
    Config.ofJson json = .ok c ∧ 1 ≤ c.lineSpacing ∧
    (convert c.stylesheet source 1).failure = none ∧
    ∃ r, (Document.mk c (convert c.stylesheet source 1).paragraphs).render = .ok r ∧
      (∃ page ∈ r.pages, Pdf.baselines page.content.toList = [776, 746, 722]) ∧
      ∀ page ∈ r.pages, (Pdf.baselines page.content.toList).Pairwise fun upper lower =>
        ¬ upper < lower ∧ (c.pageHeight ≠ .infinite false → lower ≤ upper) := by
  intro json source c
  have hc : Config.ofJson json = .ok c := by decide +kernel
  have hspacing : 1 ≤ c.lineSpacing := by decide
  have hconvert : (convert c.stylesheet source 1).failure = none := by decide
  have hbaselines : (Document.mk c (convert c.stylesheet source 1).paragraphs).render.toOption.map
      (fun r => r.pages.map fun page => Pdf.baselines page.content.toList) =
        some [[776, 746, 722]] := by
    decide +kernel
  cases hr : (Document.mk c (convert c.stylesheet source 1).paragraphs).render with
  | error e => simp [hr, Except.toOption] at hbaselines
  | ok r =>
    simp only [hr, Except.toOption, Option.map_some, Option.some.injEq] at hbaselines
    obtain ⟨page, hpages, hpage⟩ := List.map_eq_singleton_iff.mp hbaselines
    refine ⟨hc, hspacing, hconvert, r, rfl, ⟨page, ?_, hpage⟩, ?_⟩
    · rw [hpages]
      exact List.mem_cons_self
    · exact text_runs_down json source 1 c r hc hspacing hconvert hr

end Typesetter
