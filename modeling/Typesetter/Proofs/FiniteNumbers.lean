import Mathlib.Algebra.Group.Nat.Defs
import Mathlib.Tactic.ByContra
import Typesetter.Proofs.Arithmetic

/-! # Finite numbers

How far sums, products and quotients of numbers within bounds can go. Rounding keeps order, so a
bound on the terms bounds the result, and what lies between finite bounds is finite. -/
namespace Typesetter.Numeric

namespace Format

theorem log2_lt_of_lt_two_pow {n k : Nat} (hk : 0 < k) (h : n < 2 ^ k) : n.log2 < k := by
  by_cases hzero : n = 0
  · rwa [hzero, Nat.log2_zero]
  · exact (Nat.log2_lt hzero).mpr h

variable (f : Format)

theorem roundDiv_mul_le {den : Nat} (hden : 0 < den) (num : Nat) :
    2 * (roundDiv num den * den) ≤ 2 * num + den := by
  have hnum := Nat.div_add_mod num den
  have hrem := Nat.mod_lt num hden
  have hcell : (num / den) * den = den * (num / den) := Nat.mul_comm _ _
  have hnext : (num / den + 1) * den = den * (num / den) + den := by
    rw [Nat.add_mul, hcell, Nat.one_mul]
  dsimp only [roundDiv]
  split
  · omega
  · split
    · omega
    · -- A tie goes up at most.
      have htie : (num / den + num / den % 2) * den ≤ (num / den + 1) * den :=
        Nat.mul_le_mul_right den (by omega)
      omega

theorem succ_le_roundDiv {step more : Nat} (hstep : 0 < step) (n : Nat) (hmore : step < 2 * more) :
    n + 1 ≤ roundDiv (step * n + more) step := by
  have hquot : (step * n + more) / step = n + more / step := Nat.mul_add_div hstep n more
  have hrem : (step * n + more) % step = more % step := Nat.mul_add_mod step n more
  have hmod := Nat.div_add_mod more step
  dsimp only [roundDiv]
  rw [hquot, hrem]
  -- Either a whole step is added, or the remainder is more than half of one.
  rcases Nat.eq_zero_or_pos (more / step) with hzero | hwhole
  · rw [hzero, Nat.mul_zero] at hmod
    rw [hzero]
    split
    · omega
    · split <;> omega
  · split
    · omega
    · split <;> omega

/-- A sum is rounded up by half a step at most. -/
theorem nearest_le_add (num : Nat) : 2 * f.nearest num 1 ≤ 2 * num + 2 ^ f.spacing num := by
  have hround := roundDiv_mul_le (Nat.two_pow_pos (f.spacing num)) num
  rw [nearest_eq, Nat.div_one, Nat.one_mul]
  exact hround

theorem lt_nearest_add {units : Nat} (h : f.OnGrid units) (more : Nat)
    (hmore : 2 ^ f.spacing units < 2 * more) : units < f.nearest (units + more) 1 := by
  have hspacing := f.spacing_mono (Nat.le_add_right units more)
  rcases Nat.lt_or_eq_of_le hspacing with hlt | heq
  · -- The sum has passed a power of two that the number has not reached.
    have hwide : 0 < f.spacing ((units + more) / 1) := by
      rw [Nat.div_one]
      omega
    have hhigh := f.two_pow_le_nearest hwide
    have hlow := f.lt_two_pow_spacing units
    rw [← Nat.pow_add] at hlow
    rw [Nat.div_one] at hhigh
    refine Nat.lt_of_lt_of_le hlow (Nat.le_trans (Nat.pow_le_pow_right (by decide) ?_) hhigh)
    omega
  · obtain ⟨n, hn⟩ := f.two_pow_spacing_dvd h
    have hpos := Nat.two_pow_pos (f.spacing units)
    have hround := succ_le_roundDiv hpos n hmore
    rw [nearest_eq, Nat.div_one, Nat.one_mul, ← heq]
    calc
      units = n * 2 ^ f.spacing units := by rw [Nat.mul_comm, ← hn]
      _ < (n + 1) * 2 ^ f.spacing units := Nat.mul_lt_mul_of_pos_right (Nat.lt_succ_self n) hpos
      _ ≤ roundDiv (2 ^ f.spacing units * n + more) (2 ^ f.spacing units) * 2 ^ f.spacing units :=
        Nat.mul_le_mul_right _ hround
      _ = _ := by rw [← hn]

end Format

namespace Binary

def IsFinite {f : Format} : Binary f → Prop
  | finite _ _ _ => True
  | _ => False

instance {f : Format} : (a : Binary f) → Decidable a.IsFinite
  | nan => isFalse id
  | infinite _ => isFalse id
  | finite _ _ _ => isTrue trivial

def twoPow {f : Format} (n : Nat) : Binary f := ofRatio false (2 ^ n) 1

variable {a b c d : Single}

theorem IsFinite.ne_nan (h : a.IsFinite) : a ≠ nan := by
  rintro rfl
  exact h

theorem IsFinite.of_le_of_le (h : a.IsFinite) (hc : c.IsFinite) (hab : a ≤ b) (hbc : b ≤ c) :
    b.IsFinite := by
  cases b with
  | nan => exact ne_nan_of_le_right hab rfl
  | infinite s =>
    cases s with
    | false =>
      rw [eq_infinite_of_le hbc] at hc
      exact hc
    | true =>
      rw [eq_infinite_of_le_infinite hab] at h
      exact h
  | finite s u hu => trivial

theorem isFinite_of_nonneg_of_le (ha : 0 ≤ a) (hab : a ≤ b) (hb : b.IsFinite) : a.IsFinite :=
  IsFinite.of_le_of_le (by decide : (0 : Single).IsFinite) hb ha hab

theorem infinite_or_isFinite (h : 0 ≤ a) : a = infinite false ∨ a.IsFinite := by
  cases a with
  | nan => exact absurd rfl (ne_nan_of_le_right h)
  | infinite s =>
    cases s with
    | false => exact Or.inl rfl
    | true => exact absurd (eq_infinite_of_le_infinite h) (by decide)
  | finite s u hu => exact Or.inr trivial

theorem isFinite_of_nonneg_of_lt (ha : 0 ≤ a) (hab : a < b) : a.IsFinite := by
  refine (infinite_or_isFinite ha).resolve_left ?_
  rintro rfl
  have hb := eq_infinite_of_le (le_of_lt hab)
  rw [hb] at hab
  exact not_lt_of_le (le_of_lt hab) hab

theorem IsFinite.sub_ne_nan (ha : a.IsFinite) (hb : b ≠ nan) : a - b ≠ nan := by
  intro hnan
  rcases sub_eq_nan_iff.mp hnan with h | h | ⟨s, h, -⟩
  · exact ha.ne_nan h
  · exact hb h
  · rw [h] at ha
    exact ha

theorem IsFinite.neg (h : a.IsFinite) : (-a).IsFinite := by
  cases a with
  | nan => exact h
  | infinite s => exact h
  | finite s u hu => trivial

/-! ## Magnitudes -/

theorem le_iff_of_rank {x y : Int} (hx : a.rank = some x) (hy : b.rank = some y) :
    a ≤ b ↔ x ≤ y := by
  rw [le_iff, hx, hy]
  simp

theorem lt_iff_of_rank {x y : Int} (hx : a.rank = some x) (hy : b.rank = some y) :
    a < b ↔ x < y := by
  rw [lt_iff, hx, hy]
  simp

theorem nonneg_of_rank {n : Nat} (h : a.rank = some (n : Int)) : 0 ≤ a :=
  (le_iff_of_rank rank_zero h).mpr (Int.natCast_nonneg n)

theorem exists_rank_of_nonneg (h : 0 ≤ a) : ∃ n : Nat, a.rank = some (n : Int) := by
  obtain ⟨y, hy⟩ := ne_nan_iff.mp (ne_nan_of_le_right h)
  have hnonneg := (le_iff_of_rank rank_zero hy).mp h
  exact ⟨y.toNat, by rw [hy, Int.toNat_of_nonneg hnonneg]⟩

/-- Zero has a sign of its own, so not all of these are positive. -/
theorem nonneg_cases (h : 0 ≤ a) :
    a = infinite false ∨ a = zero true ∨ ∃ units fits, a = finite false units fits := by
  rcases infinite_or_isFinite h with hinf | hfin
  · exact Or.inl hinf
  · obtain ⟨n, hn⟩ := exists_rank_of_nonneg h
    cases a with
    | nan => exact hfin.elim
    | infinite s => exact hfin.elim
    | finite s u hu =>
      cases s with
      | false => exact Or.inr (Or.inr ⟨u, hu, rfl⟩)
      | true =>
        have hrank := Option.some.inj hn
        rw [signed_true] at hrank
        obtain rfl : u = 0 := by omega
        exact Or.inr (Or.inl rfl)

theorem fits_of_rank {n : Nat} (hfin : a.IsFinite) (h : a.rank = some (n : Int)) :
    Format.single.Fits n := by
  rcases nonneg_cases (nonneg_of_rank h) with rfl | rfl | ⟨u, hu, rfl⟩
  · exact hfin.elim
  · obtain rfl : 0 = n := Int.ofNat_inj.mp (Option.some.inj h)
    exact Format.single.zero_fits
  · obtain rfl : u = n := Int.ofNat_inj.mp (Option.some.inj h)
    exact hu

/-! ## Sums -/

theorem rank_add (ha : a.IsFinite) (hb : b.IsFinite) {x y : Int} (hx : a.rank = some x)
    (hy : b.rank = some y) : (a + b).rank = some (roundedRank Format.single (x + y)) := by
  cases a with
  | nan => exact ha.elim
  | infinite s => exact ha.elim
  | finite s u hu =>
    cases b with
    | nan => exact hb.elim
    | infinite t => exact hb.elim
    | finite t v hv => rw [rank_add_finite hu hv, ← Option.some.inj hx, ← Option.some.inj hy]

theorem finite_add_infinite (ha : a.IsFinite) (s : Bool) : a + infinite s = infinite s := by
  cases a with
  | nan => exact ha.elim
  | infinite t => exact ha.elim
  | finite t u hu => rfl

theorem infinite_add_nonneg (h : 0 ≤ a) : infinite false + a = infinite false := by
  rcases nonneg_cases h with rfl | rfl | ⟨_, _, rfl⟩ <;> rfl

theorem add_nonneg (ha : 0 ≤ a) (hb : 0 ≤ b) : 0 ≤ a + b := by
  rcases infinite_or_isFinite ha with rfl | hafin
  · rw [infinite_add_nonneg hb]
    exact ha
  · rcases infinite_or_isFinite hb with rfl | hbfin
    · rw [finite_add_infinite hafin]
      exact hb
    · obtain ⟨m, hm⟩ := exists_rank_of_nonneg ha
      obtain ⟨n, hn⟩ := exists_rank_of_nonneg hb
      have hrank := rank_add hafin hbfin hm hn
      rw [roundedRank_of_nonneg (by omega)] at hrank
      exact nonneg_of_rank hrank

theorem add_le_add (ha : 0 ≤ a) (hab : a ≤ b) (hc : 0 ≤ c) (hcd : c ≤ d) : a + c ≤ b + d := by
  have hb := le_trans ha hab
  have hd := le_trans hc hcd
  have hac := ne_nan_of_le_right (add_nonneg ha hc)
  have had := ne_nan_of_le_right (add_nonneg ha hd)
  have hbd := ne_nan_of_le_right (add_nonneg hb hd)
  refine le_trans (add_le_add_left hcd hac had) ?_
  rw [add_comm a] at had ⊢
  rw [add_comm b] at hbd ⊢
  exact add_le_add_left hab had hbd

theorem le_add_right (ha : 0 ≤ a) (hb : 0 ≤ b) : a ≤ a + b := by
  rcases infinite_or_isFinite ha with rfl | hafin
  · rw [infinite_add_nonneg hb]
    exact le_refl (by decide)
  · rcases infinite_or_isFinite hb with rfl | hbfin
    · rw [finite_add_infinite hafin]
      exact le_infinite hafin.ne_nan
    · obtain ⟨m, hm⟩ := exists_rank_of_nonneg ha
      obtain ⟨n, hn⟩ := exists_rank_of_nonneg hb
      have hexact := roundedRank_signed (fits_of_rank hafin hm) false
      rw [signed_false] at hexact
      refine (le_iff_of_rank hm (rank_add hafin hbfin hm hn)).mpr ?_
      calc
        (m : Int) = roundedRank Format.single m := hexact.symm
        _ ≤ roundedRank Format.single (m + n) := roundedRank_mono (by omega)

theorem le_add_left (ha : 0 ≤ a) (hb : 0 ≤ b) : b ≤ a + b := by
  rw [add_comm]
  exact le_add_right hb ha

def largest : Nat := (2 ^ 24 - 1) * 2 ^ 253

theorem two_pow_overflow : 2 ^ Format.single.overflow = largest + 2 ^ 253 := by
  have hexponent : Format.single.overflow = 24 + 253 := rfl
  have hlargest : 2 ^ 24 * 2 ^ 253 = largest + 2 ^ 253 := by decide
  rw [hexponent, Nat.pow_add, hlargest]

theorem largest_fits : Format.single.Fits largest :=
  ⟨⟨2 ^ 24 - 1, 253, by decide, rfl⟩, by rw [two_pow_overflow]; omega⟩

theorem isFinite_of_rank {n : Nat} (h : a.rank = some (n : Int)) (hn : n ≤ largest) :
    a.IsFinite := by
  refine (infinite_or_isFinite (nonneg_of_rank h)).resolve_left ?_
  rintro rfl
  have hinf : 2 ^ Format.single.overflow = n := Int.ofNat_inj.mp (Option.some.inj h)
  rw [two_pow_overflow] at hinf
  omega

theorem spacing_le {units : Nat} (h : units < 2 ^ Format.single.overflow) :
    Format.single.spacing units ≤ 253 := by
  have hlog := Format.log2_lt_of_lt_two_pow (by decide) h
  unfold Format.spacing
  change units.log2 + 1 - 24 ≤ 253
  change units.log2 < 277 at hlog
  omega

theorem exists_rank_add {x y : Int} {n : Nat} (ha : a.IsFinite) (hb : b.IsFinite)
    (hx : a.rank = some x) (hy : b.rank = some y) (hn : x + y = n) :
    ∃ z : Nat, (a + b).rank = some (z : Int) ∧ z ≤ n + 2 ^ 252 ∧ (n ≤ largest → z ≤ largest) := by
  have hrank := rank_add ha hb hx hy
  rw [hn, roundedRank_of_nonneg (by omega), Int.natAbs_natCast] at hrank
  refine ⟨_, hrank, ?_, ?_⟩
  · by_cases hlarge : n < 2 ^ Format.single.overflow
    · have hround := Format.single.nearest_le_add n
      have hstep := Nat.pow_le_pow_right (by decide : 0 < 2) (spacing_le hlarge)
      omega
    · omega
  · intro hle
    have hmono := Format.single.nearest_mono 1 hle
    have hexact := Format.single.nearest_of_onGrid largest_fits.onGrid Nat.one_pos
    rw [Nat.mul_one] at hexact
    omega

theorem exists_rank_sub {m n : Nat} (ha : a.IsFinite) (hb : b.IsFinite)
    (hm : a.rank = some (m : Int)) (hn : b.rank = some (n : Int)) (hle : n ≤ m) :
    ∃ z : Nat, (a - b).rank = some (z : Int) ∧ z ≤ m - n + 2 ^ 252 := by
  have hneg : (-b).rank = some (-(n : Int)) := by rw [rank_neg, hn, Option.map_some]
  obtain ⟨z, hz, hbound, -⟩ := exists_rank_add (n := m - n) ha hb.neg hm hneg (by omega)
  exact ⟨z, hz, hbound⟩

theorem sub_nonneg (hb : 0 ≤ b) (hba : b ≤ a) (ha : a.IsFinite) : 0 ≤ a - b := by
  have hbfin : b.IsFinite := isFinite_of_nonneg_of_le hb hba ha
  obtain ⟨m, hm⟩ := exists_rank_of_nonneg (le_trans hb hba)
  obtain ⟨n, hn⟩ := exists_rank_of_nonneg hb
  have hle := Int.ofNat_le.mp ((le_iff_of_rank hn hm).mp hba)
  obtain ⟨z, hz, -⟩ := exists_rank_sub ha hbfin hm hn hle
  exact nonneg_of_rank hz

/-! ## Products and quotients -/

theorem shiftLeft_mono {m n : Nat} (h : m ≤ n) :
    m <<< Format.single.scale ≤ n <<< Format.single.scale := by
  rw [Nat.shiftLeft_eq, Nat.shiftLeft_eq]
  exact Nat.mul_le_mul_right _ h

theorem round_le_round {num num' den den' : Nat}
    (h : Format.single.nearest num den ≤ Format.single.nearest num' den') :
    (round false num den : Single) ≤ round false num' den' := by
  refine (le_iff_of_rank (rank_round _ _ _) (rank_round _ _ _)).mpr (Int.ofNat_le.mpr ?_)
  omega

theorem mul_le_mul (ha : 0 < a) (hab : a ≤ b) (hc : 0 < c) (hcd : c ≤ d) : a * c ≤ b * d := by
  have hb := lt_of_lt_of_le ha hab
  have hd := lt_of_lt_of_le hc hcd
  rcases mul_of_pos hb hd with hinf | ⟨u, v, hu, hv, rfl, rfl, hbd⟩
  · rw [hinf]
    exact le_infinite (ne_nan_of_le_right (mul_nonneg ha hc))
  · -- What is below a finite number is finite too.
    rcases of_pos ha with rfl | ⟨m, hm, rfl, -⟩
    · cases eq_infinite_of_le hab
    · rcases of_pos hc with rfl | ⟨n, hn, rfl, -⟩
      · cases eq_infinite_of_le hcd
      · have hm := Int.ofNat_le.mp ((le_iff_of_rank rfl rfl).mp hab)
        have hn := Int.ofNat_le.mp ((le_iff_of_rank rfl rfl).mp hcd)
        rw [hbd]
        exact round_le_round (Format.single.nearest_mono _ (Nat.mul_le_mul hm hn))

theorem nearest_zero (den : Nat) : Format.single.nearest 0 den = 0 := by
  rw [Format.nearest_eq]
  simp [roundDiv]

theorem rank_div {n w : Nat} (ha : a.IsFinite) (hn : a.rank = some (n : Int))
    (hw : Format.single.Fits w) (hpos : w ≠ 0) : (a / finite false w hw).rank =
      some ((min (Format.single.nearest (n <<< Format.single.scale) w)
        (2 ^ Format.single.overflow) : Nat) : Int) := by
  rcases nonneg_cases (nonneg_of_rank hn) with rfl | rfl | ⟨u, hu, rfl⟩
  · exact ha.elim
  · obtain rfl : n = 0 := by
      have hzero : (0 : Int) = n := Option.some.inj hn
      omega
    change (div _ _).rank = _
    simp only [div, zero, if_neg hpos]
    rw [rank_round, Nat.zero_shiftLeft, nearest_zero]
    rfl
  · obtain rfl : u = n := Int.ofNat_inj.mp (Option.some.inj hn)
    change (div _ _).rank = _
    simp only [div, if_neg hpos]
    exact rank_round _ _ _

theorem div_le_div_right (ha : 0 ≤ a) (hab : a ≤ b) (hc : 0 < c) (hfin : c.IsFinite) :
    a / c ≤ b / c := by
  rcases of_pos hc with rfl | ⟨w, hw, rfl, hpos⟩
  · exact hfin.elim
  · have hinf : infinite false / finite false w hw = infinite false := rfl
    rcases infinite_or_isFinite ha with rfl | hafin
    · rw [eq_infinite_of_le hab, hinf]
      exact le_refl (by decide)
    · obtain ⟨n, hn⟩ := exists_rank_of_nonneg ha
      have hquot := rank_div hafin hn hw hpos
      rcases infinite_or_isFinite (le_trans ha hab) with rfl | hbfin
      · rw [hinf]
        exact le_infinite (ne_nan_iff.mpr ⟨_, hquot⟩)
      · obtain ⟨m, hm⟩ := exists_rank_of_nonneg (le_trans ha hab)
        have hnm := Int.ofNat_le.mp ((le_iff_of_rank hn hm).mp hab)
        have hmono := Format.single.nearest_mono w (shiftLeft_mono hnm)
        refine (le_iff_of_rank hquot (rank_div hbfin hm hw hpos)).mpr (Int.ofNat_le.mpr ?_)
        omega

theorem div_nonneg_le (ha : 0 ≤ a) (hfin : a.IsFinite) (hb : 1 ≤ b) : 0 ≤ a / b ∧ a / b ≤ a := by
  obtain ⟨n, hn⟩ := exists_rank_of_nonneg ha
  rcases of_pos (lt_of_lt_of_le zero_lt_one hb) with rfl | ⟨w, hw, rfl, hpos⟩
  · have hzero : (a / infinite false).rank = some 0 := by
      cases a with
      | nan => exact hfin.elim
      | infinite s => exact hfin.elim
      | finite s u hu => cases s <;> rfl
    exact ⟨nonneg_of_rank hzero, (le_iff_of_rank hzero hn).mpr (Int.natCast_nonneg n)⟩
  · have hrank := rank_div hfin hn hw hpos
    refine ⟨nonneg_of_rank hrank, (le_iff_of_rank hrank hn).mpr (Int.ofNat_le.mpr ?_)⟩
    have hone : 1 <<< Format.single.scale ≤ w :=
      Int.ofNat_le.mp ((le_iff_of_rank rank_one rfl).mp hb)
    have hshift : n <<< Format.single.scale ≤ n * w := by
      rw [Nat.shiftLeft_eq]
      rw [Nat.shiftLeft_eq, Nat.one_mul] at hone
      exact Nat.mul_le_mul_left n hone
    have hmono := Format.single.nearest_mono w hshift
    have hgrid := (fits_of_rank hfin hn).onGrid
    rw [Format.single.nearest_of_onGrid hgrid (Nat.pos_of_ne_zero hpos)] at hmono
    omega

theorem ofRatio_le_ofRatio {m n : Nat} (h : m ≤ n) :
    (ofRatio false m 1 : Single) ≤ ofRatio false n 1 :=
  round_le_round (Format.single.nearest_mono 1 (shiftLeft_mono h))

theorem one_le_ofRatio {n : Nat} (h : n ≠ 0) : (1 : Single) ≤ ofRatio false n 1 :=
  ofRatio_le_ofRatio (Nat.one_le_iff_ne_zero.mpr h)

/-! ## Totals -/

/-- Small terms stop counting before their total gets out of range. -/
theorem sum_bounds {terms : List Single} (h : ∀ t ∈ terms, 0 ≤ t ∧ t ≤ twoPow 103) :
    0 ≤ sum terms ∧ sum terms ≤ twoPow 127 := by
  have hstep : (twoPow 127 : Single) + twoPow 103 = twoPow 127 := by decide +kernel
  have hfold : ∀ (ts : List Single) (total : Single), (∀ t ∈ ts, 0 ≤ t ∧ t ≤ twoPow 103) →
      0 ≤ total → total ≤ twoPow 127 →
      0 ≤ ts.foldl (· + ·) total ∧ ts.foldl (· + ·) total ≤ twoPow 127 := by
    intro ts
    induction ts with
    | nil => exact fun total _ hnonneg hle => ⟨hnonneg, hle⟩
    | cons t ts ih =>
      intro total hts hnonneg hle
      obtain ⟨ht, hts⟩ := List.forall_mem_cons.mp hts
      refine ih _ hts (add_nonneg hnonneg ht.1) ?_
      have hsum := add_le_add hnonneg hle ht.1 ht.2
      rwa [hstep] at hsum
  exact hfold terms _ h (by decide) (by decide +kernel)

theorem sum_concat (terms : List Single) (a : Single) : sum (terms ++ [a]) = sum terms + a := by
  rw [sum, List.foldl_append]
  rfl

theorem rank_twoPow_103 : (twoPow 103 : Single).rank = some ((2 ^ 252 : Nat) : Int) := by
  decide +kernel

theorem lt_add (ha : 0 ≤ a) (hfin : a.IsFinite) (hb : twoPow 103 < b) : a < a + b := by
  obtain ⟨n, hn⟩ := exists_rank_of_nonneg ha
  have hfits := fits_of_rank hfin hn
  have hrange := hfits.inRange
  have hpos : (0 : Single) ≤ b := le_trans (by decide +kernel) (le_of_lt hb)
  rcases infinite_or_isFinite hpos with rfl | hbfin
  · rw [finite_add_infinite hfin]
    exact (lt_iff_of_rank hn rfl).mpr (Int.ofNat_lt.mpr hrange)
  · obtain ⟨m, hm⟩ := exists_rank_of_nonneg hpos
    have hlarge := Int.ofNat_lt.mp ((lt_iff_of_rank rank_twoPow_103 hm).mp hb)
    have hstep := Nat.pow_le_pow_right (by decide : 0 < 2) (spacing_le hrange)
    have hnext := Format.single.lt_nearest_add hfits.onGrid m (by omega)
    have hrank := rank_add hfin hbfin hn hm
    rw [← Int.natCast_add, roundedRank_of_nonneg (by omega), Int.natAbs_natCast] at hrank
    exact (lt_iff_of_rank hn hrank).mpr (by omega)

/-- A larger term always counts, so its totals leave every bound. -/
theorem exists_sum_replicate_not_isFinite (h : twoPow 103 < a) :
    ∃ n, ¬ (sum (List.replicate n a)).IsFinite := by
  by_contra hall
  rw [not_exists] at hall
  simp only [not_not] at hall
  have hgrows : ∀ n : Nat, ∃ total : Nat,
      (sum (List.replicate n a)).rank = some (total : Int) ∧ n ≤ total := by
    intro n
    induction n with
    | zero => exact ⟨0, rfl, Nat.le_refl 0⟩
    | succ n ih =>
      obtain ⟨total, hrank, hle⟩ := ih
      have hlt := lt_add (nonneg_of_rank hrank) (hall n) h
      rw [← sum_concat, ← List.replicate_succ'] at hlt
      obtain ⟨y, hy⟩ := exists_rank_of_nonneg (le_trans (nonneg_of_rank hrank) (le_of_lt hlt))
      have hless := (lt_iff_of_rank hrank hy).mp hlt
      exact ⟨y, hy, by omega⟩
  obtain ⟨total, hrank, hle⟩ := hgrows (2 ^ Format.single.overflow + 1)
  have hbound := (rank_bounds hrank).2
  omega

end Binary
end Typesetter.Numeric
