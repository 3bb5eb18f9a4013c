import Typesetter.Proofs.Arithmetic
import Typesetter.Proofs.Copies
import Typesetter.Proofs.Rendering
import Typesetter.Proofs.Words

/-! # Heights of lines

A line with words is as high as one of them, and the words that come from a source have two sizes
only. -/
namespace Typesetter
open Numeric (Single Binary)

namespace Line

theorem height_mem_sizes {words : List Word} (hne : words ≠ []) (hpos : ∀ w ∈ words, 0 < w.size) :
    (pushAll {} words).height ∈ words.map Word.size := by
  induction words using List.reverseRecOn with
  | nil => exact absurd rfl hne
  | append_singleton before w ih =>
    obtain ⟨hbefore, hw⟩ := List.forall_mem_append.mp hpos
    have hheight : (pushAll {} (before ++ [w])).height =
        max (pushAll {} before).height w.size := by
      simp [pushAll, push]
    rw [List.map_append, List.map_singleton, hheight]
    by_cases hempty : before = []
    · subst hempty
      have hmax : max (pushAll {} []).height w.size = w.size :=
        Binary.max_zero (hw w List.mem_cons_self)
      exact List.mem_append_right _ (List.mem_singleton.mpr hmax)
    · rcases Binary.max_cases (pushAll {} before).height w.size with hmax | hmax
      · rw [hmax]
        exact List.mem_append_left _ (ih hempty hbefore)
      · rw [hmax]
        exact List.mem_append_right _ (List.mem_singleton.mpr rfl)

theorem justify_height (area : Single) (l : Line) : (l.justify area).height = l.height := by
  unfold justify
  split <;> rfl

theorem justify_words_eq_empty_iff (area : Single) (l : Line) :
    (l.justify area).words = #[] ↔ l.words = #[] := by
  unfold justify
  split
  · rfl
  · simp [stretch]

end Line

theorem atLineStart_sizes (words : List Word) :
    (atLineStart words).map Word.size = words.map Word.size := by
  cases words <;> rfl

/-- A line holds consecutive words, the first of them without its gap. -/
theorem FirstFit.exists_words {area : Single} {words : List Word} {groups : List (List Cluster)}
    {lines : List Line} (h : FirstFit area words groups lines) {l : Line} (hl : l ∈ lines) :
    ∃ body, l.words.toList = atLineStart body ∧ body <:+: words := by
  have hbody : l.words.toList ∈ groups.map fun g => atLineStart g.flatten := by
    rw [← h.map_words]
    exact List.mem_map_of_mem hl
  obtain ⟨g, hg, hgl⟩ := List.mem_map.mp hbody
  obtain ⟨before, after, rfl⟩ := List.mem_iff_append.mp hg
  refine ⟨g.flatten, hgl.symm, before.flatten.flatten, after.flatten.flatten, ?_⟩
  rw [← h.clustering.flatten]
  simp only [List.flatten_append, List.flatten_cons, List.append_assoc]

theorem FirstFit.height_mem_sizes {area : Single} {words : List Word}
    {groups : List (List Cluster)} {lines : List Line} (h : FirstFit area words groups lines)
    (hpos : ∀ w ∈ words, 0 < w.size) {l : Line} (hl : l ∈ lines) (hne : l.words ≠ #[]) :
    l.height ∈ words.map Word.size := by
  obtain ⟨body, hbody, hslice⟩ := h.exists_words hl
  have hsizes : ∀ size ∈ l.words.toList.map Word.size, size ∈ words.map Word.size := by
    rw [hbody, atLineStart_sizes]
    intro size hsize
    obtain ⟨w, hw, rfl⟩ := List.mem_map.mp hsize
    exact List.mem_map_of_mem (hslice.subset hw)
  have hlpos : ∀ w ∈ l.words.toList, 0 < w.size := by
    intro w hw
    obtain ⟨v, hv, hvw⟩ := List.mem_map.mp (hsizes _ (List.mem_map_of_mem hw))
    rw [← hvw]
    exact hpos v hv
  rw [h.measured l hl]
  exact hsizes _ (Line.height_mem_sizes (by simpa using hne) hlpos)

theorem Config.height_mem_sizes {c : Config} {p : Paragraph} {b : Block} (h : c.layOut p = .ok b)
    (hpos : ∀ w ∈ p.words, 0 < w.size) {l : Line} (hl : l ∈ b.lines.toList) (hne : l.words ≠ #[]) :
    l.height ∈ p.words.map Word.size := by
  obtain ⟨indent, hi⟩ := Config.layOut_eq_ok h
  obtain ⟨a, groups, ha, _, _, _, hfit⟩ := c.layOut_of_indent hi
  obtain rfl : a.justify (c.textWidth - indent) = b := Except.ok.inj (ha.symm.trans h)
  refine Block.forall_line_justify (P := fun l => l.words ≠ #[] → l.height ∈ p.words.map Word.size)
    ?_ ?_ l hl hne
  · intro m hm
    exact hfit.height_mem_sizes hpos hm
  · intro m hm hwords
    rw [ne_eq, Line.justify_words_eq_empty_iff] at hwords
    rw [Line.justify_height]
    exact hfit.height_mem_sizes hpos (List.mem_of_mem_dropLast hm) hwords

/-! ## Sizes of a source -/

theorem Paragraph.exists_run_size (p : Paragraph) {w : Word} (hw : w ∈ p.words) :
    ∃ r ∈ p.runs.toList, w.size = r.size := by
  have hpiece : w.piece ∈ p.runs.toList.flatMap Run.pieces := by
    rw [← p.words_pieces]
    exact List.mem_map_of_mem hw
  obtain ⟨r, hr, hp⟩ := List.mem_flatMap.mp hpiece
  obtain ⟨text, _, htext⟩ := List.mem_map.mp hp
  exact ⟨r, hr, (congrArg Piece.size htext).symm⟩

theorem Stylesheet.exists_run_size {s : Stylesheet} {segment : List Literal} {p : Paragraph}
    (h : s.paragraph? segment = some p) : ∀ r ∈ p.runs.toList, ∃ size, r.size = s.size size := by
  rw [s.paragraph?_eq] at h
  obtain ⟨last, _, rfl⟩ := Option.map_eq_some_iff.mp h
  intro r hr
  obtain ⟨k, hk, rfl⟩ := List.mem_mapIdx.mp hr
  exact ⟨_, rfl⟩

theorem exists_size_of_convert {s : Stylesheet} {source : String} {copies : Nat}
    (h : (convert s source copies).failure = none) {p : Paragraph}
    (hp : p ∈ (convert s source copies).paragraphs.toList) {w : Word} (hw : w ∈ p.words) :
    ∃ size, w.size = s.size size := by
  obtain ⟨segment, hsegment⟩ := exists_segment_of_convert h hp
  obtain ⟨r, hr, hsize⟩ := p.exists_run_size hw
  rw [hsize]
  exact Stylesheet.exists_run_size hsegment r hr

end Typesetter
