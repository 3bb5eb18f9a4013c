import Mathlib.Data.List.Forall2
import Typesetter.Proofs.Arithmetic
import Typesetter.Proofs.Rendering

/-! # Justification

What justifying a block may change, and what it must not. The room that a line leaves is shared out
over its gaps, which takes up all of it, so there is nothing to share out a second time. -/
namespace Typesetter
open Numeric (Single Binary)

/-- A word whose gap has grown, if it is one that may grow. -/
structure Word.Grows (extra : Single) (v w : Word) : Prop where
  stretchable : v.stretchable = true → w.offset = v.offset + extra
  glued : v.stretchable = false → w.offset = v.offset
  rest : { w with offset := v.offset } = v

namespace Line

/-- There is no gap to widen, or no room to widen one. -/
def Full (area : Single) (l : Line) : Prop :=
  (∀ w ∈ l.words.toList, w.stretchable = false) ∨ area ≤ l.width

def share (area : Single) (l : Line) : Single :=
  (area - l.width) / Binary.ofRatio false (l.words.toList.countP Word.stretchable) 1

/-- Every gap that may grow has grown by the same amount, and the line spans the area. -/
structure Spread (area : Single) (l m : Line) : Prop where
  width : m.width = area
  height : m.height = l.height
  words : List.Forall₂ (Word.Grows (l.share area)) l.words.toList m.words.toList

end Line

/-- What justifying a block may make of it. One that is set left stays as it is, and of the lines of
another only those change that are not full and not its last. -/
structure Block.Justified (area : Single) (b d : Block) : Prop where
  frame : { d with lines := b.lines } = b
  size : d.lines.size = b.lines.size
  left : b.alignment = .left → d = b
  last : d.lines.back? = b.lines.back?
  lines : b.alignment = .justify → List.Forall₂
    (fun l m => l.Full area ∧ m = l ∨ ¬ l.Full area ∧ l.Spread area m)
    b.lines.toList.dropLast d.lines.toList.dropLast

/-! ## One line -/

namespace Line
variable {area : Single} {l : Line}

theorem gaps_eq_zero_iff : l.gaps = 0 ↔ ∀ w ∈ l.words.toList, w.stretchable = false := by
  rw [gaps, ← Array.countP_toList, List.countP_eq_zero]
  simp only [Bool.not_eq_true]

theorem full_iff : l.Full area ↔ l.gaps = 0 ∨ area ≤ l.width := by
  rw [Full, gaps_eq_zero_iff]

theorem width_lt_of_not_full (h : ¬ l.Full area) (hwidth : 0 ≤ l.width) (harea : area ≠ .nan) :
    l.width < area := by
  apply Binary.lt_of_not_le harea (Binary.ne_nan_of_le_right hwidth)
  intro hle
  exact h (Or.inr hle)

theorem justify_of_full (h : l.Full area) : l.justify area = l :=
  if_pos (full_iff.mp h)

theorem justify_of_not_full (h : ¬ l.Full area) :
    l.justify area = { l with words := l.stretch (l.share area), width := area } := by
  rw [full_iff] at h
  rw [justify, if_neg h, share, Array.countP_toList, gaps]

theorem stretch_grows (l : Line) (extra : Single) :
    List.Forall₂ (Word.Grows extra) l.words.toList (l.stretch extra).toList := by
  rw [stretch, Array.toList_map, List.forall₂_map_right_iff, List.forall₂_same]
  intro w _
  by_cases hs : w.stretchable = true
  · rw [if_pos hs]
    refine ⟨fun _ => rfl, ?_, rfl⟩
    intro hglued
    exact absurd hs (by simp [hglued])
  · rw [if_neg hs]
    exact ⟨fun h => absurd h hs, fun _ => rfl, rfl⟩

theorem justify_spec (area : Single) (l : Line) :
    l.Full area ∧ l.justify area = l ∨ ¬ l.Full area ∧ l.Spread area (l.justify area) := by
  by_cases h : l.Full area
  · exact Or.inl ⟨h, justify_of_full h⟩
  · refine Or.inr ⟨h, ?_⟩
    rw [justify_of_not_full h]
    exact ⟨rfl, rfl, stretch_grows l _⟩

theorem full_of_width (hwidth : l.width = area) (harea : area ≠ .nan) : l.Full area := by
  apply Or.inr
  rw [hwidth]
  exact Binary.le_refl harea

theorem justify_justify {area : Single} (harea : area ≠ .nan) (l : Line) :
    (l.justify area).justify area = l.justify area := by
  by_cases h : l.Full area
  · rw [justify_of_full h, justify_of_full h]
  · rw [justify_of_not_full h]
    exact justify_of_full (full_of_width rfl harea)

end Line

/-! ## Blocks -/

namespace Block

theorem justify_left {b : Block} (h : b.alignment = .left) (area : Single) :
    b.justify area = b := by
  unfold justify
  rw [h]

theorem justify_empty {b : Block} (h : b.lines = #[]) (area : Single) : b.justify area = b := by
  unfold justify
  rw [h]
  split <;> rfl

theorem justify_push {b : Block} (h : b.alignment = .justify) {init : Array Line} {last : Line}
    (hlines : b.lines = init.push last) (area : Single) :
    b.justify area = { b with lines := (init.map (Line.justify area)).push last } := by
  unfold justify
  rw [h]
  simp [hlines]

theorem lines_cases (b : Block) :
    b.lines = #[] ∨ ∃ (init : Array Line) (last : Line), b.lines = init.push last := by
  cases hlast : b.lines.back? with
  | none => exact Or.inl (Array.back?_eq_none_iff.mp hlast)
  | some last =>
    obtain ⟨init, hlines⟩ := Array.back?_eq_some_iff.mp hlast
    exact Or.inr ⟨init, last, hlines⟩

theorem justified (b : Block) (area : Single) : b.Justified area (b.justify area) := by
  cases ha : b.alignment with
  | left =>
    rw [justify_left ha]
    exact ⟨rfl, rfl, fun _ => rfl, rfl, by simp [ha]⟩
  | justify =>
    have hleft : b.alignment ≠ .left := by simp [ha]
    rcases b.lines_cases with hempty | ⟨init, last, hlines⟩
    · rw [justify_empty hempty]
      exact ⟨rfl, rfl, fun _ => rfl, rfl, by simp [hempty]⟩
    · rw [justify_push ha hlines]
      refine ⟨rfl, by simp [hlines], fun h => absurd h hleft, by simp [hlines], ?_⟩
      intro _
      simp only [hlines, Array.toList_push, Array.toList_map, List.dropLast_concat]
      rw [List.forall₂_map_right_iff, List.forall₂_same]
      intro l _
      exact l.justify_spec area

theorem justify_justify {area : Single} (harea : area ≠ .nan) (b : Block) :
    (b.justify area).justify area = b.justify area := by
  cases ha : b.alignment with
  | left => rw [justify_left ha, justify_left ha]
  | justify =>
    rcases b.lines_cases with hempty | ⟨init, last, hlines⟩
    · rw [justify_empty hempty, justify_empty hempty]
    · have honce : ∀ l : Line, (Line.justify area ∘ Line.justify area) l = Line.justify area l :=
        Line.justify_justify harea
      rw [justify_push ha hlines]
      have hagain := justify_push
        (b := { b with lines := (init.map (Line.justify area)).push last }) ha rfl area
      rw [hagain, Array.map_map, funext honce]

end Block

/-- Justifying a block changes only lines before the last that have a gap and room to widen it. On
such a line the room left is shared out evenly over the gaps, in rounded arithmetic, and afterwards
it spans the area. Doing so once more changes nothing. -/
theorem justification_law (b : Block) (area : Single) (harea : area ≠ .nan) :
    b.Justified area (b.justify area) ∧ (b.justify area).justify area = b.justify area :=
  ⟨b.justified area, b.justify_justify harea⟩

/-- Lines of all kinds: with two gaps, with glued words only, wider than the area, and the last. -/
def mixedLines : Block :=
  let word (text : String) (offset : Single) (stretchable : Bool) : Word :=
    ⟨text, .regular, 12, offset, 10, stretchable⟩
  { alignment := .justify
    lines := #[
      ⟨#[word "a" 0 false, word "b" 5 true, word "," 0 false, word "c" 5 true], 50, 12⟩,
      ⟨#[word "d" 0 false, word "e" 0 false], 20, 12⟩,
      ⟨#[word "f" 0 false, word "g" 5 true], 101, 12⟩,
      ⟨#[word "h" 0 false, word "i" 5 true], 25, 12⟩]
    index := 3 }

theorem justification_law_mixedLines :
    let area : Single := 100
    area ≠ .nan ∧ mixedLines.Justified area (mixedLines.justify area) ∧
    (mixedLines.justify area).justify area = mixedLines.justify area ∧
    (mixedLines.justify area).lines.toList.map
        (fun l => (l.words.toList.map Word.offset, l.width)) =
      [([0, 30, 0, 30], 100), ([0, 0], 20), ([0, 5], 101), ([0, 5], 25)] := by
  intro area
  have harea : area ≠ .nan := by decide
  obtain ⟨hlaw, honce⟩ := justification_law mixedLines area harea
  exact ⟨harea, hlaw, honce, by decide +kernel⟩

end Typesetter
