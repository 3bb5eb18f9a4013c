import Mathlib.Data.List.Induction
import Typesetter.Proofs.FiniteNumbers
import Typesetter.Proofs.LineHeights
import Typesetter.Proofs.WordGaps

/-! # Widths of text

Totals of numbers without a sign, and how wide the characters and words of a text are. -/

/-! ## Numbers without a sign

Adding zero changes nothing but negative zero. Numbers that have no sign at all are closed under
sums, products and quotients, and so are totals of them, although a total starts at negative
zero. -/

namespace Typesetter.Numeric.Binary

/-- A number without a sign, not even that of negative zero. -/
def Unsigned {f : Format} : Binary f → Prop
  | nan => False
  | infinite s => s = false
  | finite s _ _ => s = false

theorem unsigned_round {f : Format} (num den : Nat) :
    (round false num den : Binary f).Unsigned := by
  unfold round ofUnits
  split
  · rfl
  · rfl

variable {a b c : Single}

theorem Unsigned.nonneg (h : a.Unsigned) : 0 ≤ a := by
  cases a with
  | nan => exact h.elim
  | infinite s =>
    obtain rfl : s = false := h
    exact le_infinite (by decide)
  | finite s u hu =>
    obtain rfl : s = false := h
    exact nonneg_of_rank rfl

theorem round_of_fits {u : Nat} (hu : Format.single.Fits u) :
    round false u 1 = finite false u hu := by
  have hnearest := Format.single.nearest_of_onGrid hu.onGrid Nat.one_pos
  rw [Nat.mul_one] at hnearest
  have hlog : (Format.single.nearest u 1).log2 < Format.single.overflow := by
    rw [hnearest]
    exact Format.log2_lt_of_lt_two_pow (by decide) hu.inRange
  rw [round, ofUnits, dif_pos hlog]
  simp only [hnearest]

theorem Unsigned.add_zero (h : a.Unsigned) : a + 0 = a := by
  have hzero : (0 : Single) = zero false := by decide
  rw [hzero]
  cases a with
  | nan => rfl
  | infinite s => rfl
  | finite s u hu =>
    obtain rfl : s = false := h
    change add _ _ = _
    simp only [add, zero, signed_false, Int.natCast_zero, Int.add_zero, Int.natAbs_natCast]
    by_cases hu0 : u = 0
    · subst hu0
      rfl
    · rw [if_neg (by omega), decide_eq_false (by omega), round_of_fits hu]

theorem unsigned_add_finite {s : Bool} {u v : Nat} (hu : Format.single.Fits u)
    (hv : Format.single.Fits v) (h : ¬ signed s u + signed false v < 0) :
    (finite s u hu + finite false v hv).Unsigned := by
  change (add _ _).Unsigned
  simp only [add, Bool.and_false]
  split
  · rfl
  · rw [decide_eq_false h]
    exact unsigned_round _ _

theorem unsigned_add (ha : 0 ≤ a) (hb : b.Unsigned) : (a + b).Unsigned := by
  rcases infinite_or_isFinite hb.nonneg with rfl | hbfin
  · rcases infinite_or_isFinite ha with rfl | hafin
    · rfl
    · rw [finite_add_infinite hafin]
      rfl
  · cases b with
    | nan => exact hb.elim
    | infinite t => exact hbfin.elim
    | finite t v hv =>
      obtain rfl : t = false := hb
      rcases nonneg_cases ha with rfl | rfl | ⟨u, hu, rfl⟩
      · rfl
      · exact unsigned_add_finite _ hv (by simp)
      · exact unsigned_add_finite hu hv (by rw [signed_false, signed_false]; omega)

theorem unsigned_mul (ha : 0 < a) (hb : 0 < b) : (a * b).Unsigned := by
  rcases mul_of_pos ha hb with hinf | ⟨_, _, _, _, -, -, hround⟩
  · rw [hinf]
    rfl
  · rw [hround]
    exact unsigned_round _ _

theorem Unsigned.div (h : a.Unsigned) (hb : 0 < b) (hfin : b.IsFinite) : (a / b).Unsigned := by
  rcases of_pos hb with rfl | ⟨v, hv, rfl, hpos⟩
  · exact hfin.elim
  · cases a with
    | nan => exact h.elim
    | infinite s =>
      obtain rfl : s = false := h
      rfl
    | finite s u hu =>
      obtain rfl : s = false := h
      change (div _ _).Unsigned
      simp only [div, if_neg hpos]
      exact unsigned_round _ _

theorem unsigned_sum {terms : List Single} (hne : terms ≠ []) (h : ∀ t ∈ terms, t.Unsigned) :
    (sum terms).Unsigned := by
  induction terms using List.reverseRecOn with
  | nil => exact absurd rfl hne
  | append_singleton before t ih =>
    obtain ⟨hbefore, ht⟩ := List.forall_mem_append.mp h
    have hnonneg : 0 ≤ sum before := by
      by_cases hempty : before = []
      · rw [hempty]
        decide
      · exact (ih hempty hbefore).nonneg
    rw [sum_concat]
    exact unsigned_add hnonneg (ht t List.mem_cons_self)

end Typesetter.Numeric.Binary

/-! ## Widths of text

No character is wider than the at sign in an upright regular face, so its width bounds all others.
Up to a certain width of that sign the width of a word stays finite however long the word is, and
beyond it some word is infinitely wide. -/

namespace Typesetter
open Numeric (Single Binary)

namespace Face

theorem ofCode_bounds (face : Face) (code : UInt8) :
    1 ≤ face.widths.ofCode code ∧ face.widths.ofCode code ≤ 1015 := by
  have hcodes : ∀ n : Fin 256, ∀ w ∈ [Widths.upright, Widths.bold],
      1 ≤ w.ofCode (.ofNat n) ∧ w.ofCode (.ofNat n) ≤ 1015 := by
    decide +kernel
  have hcode := hcodes ⟨code.toNat, code.toNat_lt⟩
  simp only [UInt8.ofNat_toNat] at hcode
  cases face
  · exact hcode _ (by simp [widths])
  · exact hcode _ (by simp [widths])
  · exact hcode _ (by simp [widths])
  · exact hcode _ (by simp [widths])

def widest (size : Single) : Single := regular.charWidth size '@'

variable {size : Single}

theorem codeWidth_mono {m n : Nat} {s t : Single} (hm : m ≠ 0) (hmn : m ≤ n) (hs : 0 < s)
    (hst : s ≤ t) : Binary.ofRatio false m 1 * s / 1000 ≤ Binary.ofRatio false n 1 * t / 1000 := by
  have hpos : (0 : Single) < Binary.ofRatio false m 1 :=
    Binary.lt_of_lt_of_le Binary.zero_lt_one (Binary.one_le_ofRatio hm)
  have hproduct := Binary.mul_le_mul hpos (Binary.ofRatio_le_ofRatio hmn) hs hst
  exact Binary.div_le_div_right (Binary.mul_nonneg hpos hs) hproduct (by decide) (by decide)

theorem widest_eq (size : Single) : widest size = Binary.ofRatio false 1015 1 * size / 1000 := rfl

theorem unsigned_charWidth (hsize : 0 < size) (face : Face) (c : Char) :
    (face.charWidth size c).Unsigned := by
  have hcode := (face.ofCode_bounds (WinAnsi.code c)).1
  have hpos : (0 : Single) < Binary.ofRatio false (face.widths.ofCode (WinAnsi.code c)) 1 :=
    Binary.lt_of_lt_of_le Binary.zero_lt_one (Binary.one_le_ofRatio (by omega))
  exact (Binary.unsigned_mul hpos hsize).div (by decide) (by decide)

theorem charWidth_bounds (hsize : 0 < size) (face : Face) (c : Char) :
    0 ≤ face.charWidth size c ∧ face.charWidth size c ≤ widest size := by
  obtain ⟨hlow, hhigh⟩ := face.ofCode_bounds (WinAnsi.code c)
  constructor
  · exact (unsigned_charWidth hsize face c).nonneg
  · rw [widest_eq]
    exact codeWidth_mono (by omega) hhigh hsize
      (Binary.le_refl (Binary.ne_nan_of_le_right (Binary.le_of_lt hsize)))

theorem unsigned_textWidth (hsize : 0 < size) (face : Face) {text : String} (h : text ≠ "") :
    (face.textWidth size text).Unsigned := by
  apply Binary.unsigned_sum
  · rw [ne_eq, List.map_eq_nil_iff, String.toList_eq_nil_iff]
    exact h
  · intro t ht
    obtain ⟨c, -, rfl⟩ := List.mem_map.mp ht
    exact unsigned_charWidth hsize face c

theorem textWidth_bounds (hsize : 0 < size) (hwidest : widest size ≤ Binary.twoPow 103)
    (face : Face) (text : String) :
    0 ≤ face.textWidth size text ∧ face.textWidth size text ≤ Binary.twoPow 127 := by
  refine Binary.sum_bounds fun t ht => ?_
  obtain ⟨c, -, rfl⟩ := List.mem_map.mp ht
  obtain ⟨hnonneg, hle⟩ := charWidth_bounds hsize face c
  exact ⟨hnonneg, Binary.le_trans hle hwidest⟩

theorem spaceWidth_bounds (hsize : 0 < size) (hwidest : widest size ≤ Binary.twoPow 103)
    (face : Face) :
    0 ≤ face.textWidth size " " ∧ face.textWidth size " " ≤ Binary.twoPow 103 := by
  obtain ⟨hnonneg, hle⟩ := charWidth_bounds hsize face ' '
  have hspace : face.textWidth size " " = .zero true + face.charWidth size ' ' := rfl
  have hlimit : (.zero true : Single) + Binary.twoPow 103 = Binary.twoPow 103 := by decide +kernel
  have hsum := Binary.add_le_add (a := .zero true) (by decide) (Binary.le_refl (by decide)) hnonneg
    (Binary.le_trans hle hwidest)
  rw [hlimit] at hsum
  rw [hspace]
  exact ⟨Binary.add_nonneg (by decide) hnonneg, hsum⟩

theorem size_le (hsize : 0 < size) (hwidest : widest size ≤ Binary.twoPow 103) :
    size ≤ Binary.twoPow 103 := by
  have hnan := Binary.ne_nan_of_le_right (Binary.le_of_lt hsize)
  refine Binary.le_of_not_lt (by decide +kernel) hnan fun hlt => ?_
  have hmono := codeWidth_mono (m := 1015) (by decide) (Nat.le_refl _) (by decide +kernel)
    (Binary.le_of_lt hlt)
  rw [← widest_eq] at hmono
  have hlarge : ¬ widest (Binary.twoPow 103) ≤ Binary.twoPow 103 := by decide +kernel
  exact hlarge (Binary.le_trans hmono hwidest)

def atSigns (n : Nat) : String := String.ofList (List.replicate n '@')

theorem textWidth_atSigns (n : Nat) :
    regular.textWidth size (atSigns n) = Binary.sum (List.replicate n (widest size)) := by
  rw [textWidth, atSigns, String.toList_ofList, List.map_replicate]
  rfl

theorem widest_le (hsize : 0 < size) (h : ∀ n, (regular.textWidth size (atSigns n)).IsFinite) :
    widest size ≤ Binary.twoPow 103 := by
  have hnonneg := (charWidth_bounds hsize regular '@').1
  refine Binary.le_of_not_lt (by decide +kernel) (Binary.ne_nan_of_le_right hnonneg) fun hlt => ?_
  obtain ⟨n, hn⟩ := Binary.exists_sum_replicate_not_isFinite hlt
  rw [← textWidth_atSigns] at hn
  exact hn (h n)

end Face

/-- A word of whatever text, and a gap before it that is a single space at most. -/
structure Word.Bounded (w : Word) : Prop where
  size : w.size.IsFinite
  width : 0 ≤ w.width ∧ w.width ≤ Binary.twoPow 127
  offset : 0 ≤ w.offset ∧ w.offset ≤ Binary.twoPow 103

theorem Word.Bounded.nonneg {w : Word} (h : w.Bounded) : 0 ≤ w.offset ∧ 0 ≤ w.width :=
  ⟨h.offset.1, h.width.1⟩

theorem Run.Yields.bounded_words {r : Run} {words : List Word} (h : r.Yields words)
    (hsize : 0 < r.size) (hwidest : Face.widest r.size ≤ Binary.twoPow 103) :
    ∀ w ∈ words, w.Bounded := by
  intro w hw
  have hfinite : r.size.IsFinite := Binary.isFinite_of_nonneg_of_le (Binary.le_of_lt hsize)
    (Face.size_le hsize hwidest) (by decide +kernel)
  constructor
  · rw [h.size w hw]
    exact hfinite
  · rw [h.width w hw]
    exact Face.textWidth_bounds hsize hwidest _ _
  · rw [h.offset w hw]
    by_cases hspaced : w.stretchable = true
    · rw [if_pos hspaced]
      exact Face.spaceWidth_bounds hsize hwidest _
    · rw [if_neg hspaced]
      decide +kernel

theorem Paragraph.exists_yields (p : Paragraph) {w : Word} (h : w ∈ p.words) :
    ∃ r ∈ p.runs.toList, ∃ words, r.Yields words ∧ w ∈ words := by
  obtain ⟨groups, hgroups, hyields⟩ := p.yields
  rw [hgroups] at h
  obtain ⟨words, hwords, hw⟩ := List.mem_flatten.mp h
  obtain ⟨r, hr, hyield⟩ := exists_left_of_forall₂ hyields words hwords
  exact ⟨r, hr, words, hyield, hw⟩

theorem Paragraph.bounded_words {p : Paragraph} (hsize : ∀ r ∈ p.runs.toList, 0 < r.size)
    (hwidest : ∀ r ∈ p.runs.toList, Face.widest r.size ≤ Binary.twoPow 103) :
    ∀ w ∈ p.words, w.Bounded := by
  intro w hw
  obtain ⟨r, hr, words, hyields, hw⟩ := p.exists_yields hw
  exact hyields.bounded_words (hsize r hr) (hwidest r hr) w hw

end Typesetter
