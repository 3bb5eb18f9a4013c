import Typesetter.Numeric.Binary

/-! # Order and arithmetic

Comparison, rounding, and how sums and products keep the order of the numbers in them. -/

/-! ## The order of floating-point numbers

NaN compares with nothing and stays NaN in sums; all other numbers are in order by rank. -/

namespace Typesetter.Numeric.Binary
variable {f : Format}

theorem not_lt_of_nan (a : Binary f) : ¬ nan < a := by
  intro h
  change lt nan a = true at h
  simp [lt, rank] at h

theorem le_refl {a : Binary f} (h : a ≠ nan) : a ≤ a := by
  change le a a = true
  cases a with
  | nan => exact absurd rfl h
  | infinite s => simp [le, rank]
  | finite s u fits => simp [le, rank]

theorem sub_lt_imp_le_refl {a b c : Binary f} (h : a - b < c) : a ≤ a := by
  apply le_refl
  rintro rfl
  -- NaN minus anything is NaN, by computation.
  exact not_lt_of_nan c h

end Typesetter.Numeric.Binary

/-! ## Rounding

Rounding to a grid is monotone and moves no grid point. -/

namespace Typesetter.Numeric

theorem roundDiv_mono {num num' : Nat} (den : Nat) (h : num ≤ num') :
    roundDiv num den ≤ roundDiv num' den := by
  have hquot : num / den ≤ num' / den := Nat.div_le_div_right h
  have hle := roundDiv_le_succ num den
  have hge := le_roundDiv num' den
  rcases Nat.lt_or_eq_of_le hquot with hlt | heq
  · omega
  · -- In one cell of the grid only the remainders decide.
    have hrem : num % den ≤ num' % den := by
      have hnum := Nat.div_add_mod num den
      have hnum' := Nat.div_add_mod num' den
      rw [heq] at hnum
      omega
    dsimp only [roundDiv]
    rw [heq]
    repeat' split
    all_goals omega

theorem roundDiv_mul_self {den : Nat} (hden : 0 < den) (n : Nat) : roundDiv (n * den) den = n := by
  dsimp only [roundDiv]
  rw [Nat.mul_div_cancel n hden, Nat.mul_mod_left, Nat.mul_zero, if_pos hden]

namespace Format
variable (f : Format)

theorem log2_mono {n m : Nat} (h : n ≤ m) : n.log2 ≤ m.log2 := by
  by_cases hn : n = 0
  · rw [hn, Nat.log2_zero]
    exact Nat.zero_le _
  · rw [Nat.le_log2 (by omega)]
    exact Nat.le_trans (Nat.log2_self_le hn) h

theorem spacing_mono {n m : Nat} (h : n ≤ m) : f.spacing n ≤ f.spacing m := by
  have hlog := log2_mono h
  unfold spacing
  omega

theorem nearest_eq (num den : Nat) :
    f.nearest num den = roundDiv num (den * 2 ^ f.spacing (num / den)) *
      2 ^ f.spacing (num / den) := by
  simp only [nearest, Nat.shiftLeft_eq]

theorem nearest_le_two_pow (num den : Nat) :
    f.nearest num den ≤ 2 ^ (f.precision + f.spacing (num / den)) := by
  rw [nearest_eq, Nat.pow_add]
  apply Nat.mul_le_mul_right
  have hround := roundDiv_le_succ num (den * 2 ^ f.spacing (num / den))
  have hquot : num / (den * 2 ^ f.spacing (num / den)) < 2 ^ f.precision := by
    rw [← Nat.div_div_eq_div_mul, Nat.div_lt_iff_lt_mul (Nat.two_pow_pos _)]
    exact f.lt_two_pow_spacing _
  omega

/-- Where numbers lie more than a unit apart, they have all their bits. -/
theorem two_pow_le_nearest {num den : Nat} (h : 0 < f.spacing (num / den)) :
    2 ^ (f.precision + f.spacing (num / den) - 1) ≤ f.nearest num den := by
  generalize hk : f.spacing (num / den) = k at h
  have hlog : f.precision + k - 1 = (num / den).log2 := by
    have := f.precision_pos
    unfold spacing at hk
    omega
  have hne : num / den ≠ 0 := by
    intro hzero
    have := f.precision_pos
    rw [hzero, Nat.log2_zero] at hlog
    omega
  have hpow : 2 ^ (f.precision + k - 1) = 2 ^ (f.precision - 1) * 2 ^ k := by
    rw [← Nat.pow_add]
    congr 1
    have := f.precision_pos
    omega
  have hquot : 2 ^ (f.precision - 1) ≤ num / (den * 2 ^ k) := by
    rw [← Nat.div_div_eq_div_mul, Nat.le_div_iff_mul_le (Nat.two_pow_pos k), ← hpow, hlog]
    exact Nat.log2_self_le hne
  rw [nearest_eq, hk, hpow]
  exact Nat.mul_le_mul_right _ (Nat.le_trans hquot (le_roundDiv _ _))

theorem nearest_mono {num num' : Nat} (den : Nat) (h : num ≤ num') :
    f.nearest num den ≤ f.nearest num' den := by
  have hspacing := f.spacing_mono (Nat.div_le_div_right (c := den) h)
  rcases Nat.lt_or_eq_of_le hspacing with hlt | heq
  · -- Between numbers of different spacing lies a power of two.
    have hlow := f.nearest_le_two_pow num den
    have hhigh := f.two_pow_le_nearest (Nat.lt_of_le_of_lt (Nat.zero_le _) hlt)
    refine Nat.le_trans hlow (Nat.le_trans (Nat.pow_le_pow_right (by decide) ?_) hhigh)
    omega
  · rw [nearest_eq, nearest_eq, heq]
    apply Nat.mul_le_mul_right
    exact roundDiv_mono _ h

theorem two_pow_spacing_dvd {units : Nat} (h : f.OnGrid units) : 2 ^ f.spacing units ∣ units := by
  obtain ⟨mantissa, exponent, hmantissa, rfl⟩ := h
  apply Nat.dvd_trans _ (Nat.dvd_mul_left (2 ^ exponent) mantissa)
  apply Nat.pow_dvd_pow 2
  by_cases hzero : mantissa * 2 ^ exponent = 0
  · rw [hzero]
    have := f.precision_pos
    unfold spacing
    rw [Nat.log2_zero]
    omega
  · have hlog : (mantissa * 2 ^ exponent).log2 < f.precision + exponent := by
      rw [Nat.log2_lt hzero, Nat.pow_add]
      exact Nat.mul_lt_mul_of_pos_right hmantissa (Nat.two_pow_pos exponent)
    unfold spacing
    omega

theorem nearest_of_onGrid {units den : Nat} (h : f.OnGrid units) (hden : 0 < den) :
    f.nearest (units * den) den = units := by
  obtain ⟨n, hn⟩ := f.two_pow_spacing_dvd h
  rw [nearest_eq, Nat.mul_div_cancel units hden]
  generalize f.spacing units = k at hn
  have hnum : units * den = n * (den * 2 ^ k) := by
    rw [hn, Nat.mul_comm (2 ^ k), Nat.mul_assoc, Nat.mul_comm (2 ^ k)]
  rw [hnum, roundDiv_mul_self (Nat.mul_pos hden (Nat.two_pow_pos k)), Nat.mul_comm, ← hn]

end Format
end Typesetter.Numeric

/-! ## Arithmetic and order

Rounded sums and differences keep the order of exact ones, as long as nothing is NaN. -/

namespace Typesetter.Numeric.Binary

section Order
variable {f : Format} {a b c : Binary f}

theorem le_iff : a ≤ b ↔ ∃ x y, a.rank = some x ∧ b.rank = some y ∧ x ≤ y := by
  change le a b = true ↔ _
  unfold le
  cases a.rank <;> cases b.rank <;> simp

theorem lt_iff : a < b ↔ ∃ x y, a.rank = some x ∧ b.rank = some y ∧ x < y := by
  change lt a b = true ↔ _
  unfold lt
  cases a.rank <;> cases b.rank <;> simp

theorem ne_nan_iff : a ≠ nan ↔ ∃ x, a.rank = some x := by
  cases a <;> simp [rank]

theorem ne_nan_of_le_left (h : a ≤ b) : a ≠ nan := by
  obtain ⟨x, _, hx, _⟩ := le_iff.mp h
  exact ne_nan_iff.mpr ⟨x, hx⟩

theorem ne_nan_of_le_right (h : a ≤ b) : b ≠ nan := by
  obtain ⟨_, y, _, hy, _⟩ := le_iff.mp h
  exact ne_nan_iff.mpr ⟨y, hy⟩

theorem le_trans (hab : a ≤ b) (hbc : b ≤ c) : a ≤ c := by
  obtain ⟨x, y, hx, hy, hxy⟩ := le_iff.mp hab
  obtain ⟨y', z, hy', hz, hyz⟩ := le_iff.mp hbc
  obtain rfl : y = y' := Option.some.inj (hy.symm.trans hy')
  exact le_iff.mpr ⟨x, z, hx, hz, by omega⟩

theorem le_of_lt (h : a < b) : a ≤ b := by
  obtain ⟨x, y, hx, hy, hxy⟩ := lt_iff.mp h
  exact le_iff.mpr ⟨x, y, hx, hy, by omega⟩

theorem lt_of_lt_of_le (hab : a < b) (hbc : b ≤ c) : a < c := by
  obtain ⟨x, y, hx, hy, hxy⟩ := lt_iff.mp hab
  obtain ⟨y', z, hy', hz, hyz⟩ := le_iff.mp hbc
  obtain rfl : y = y' := Option.some.inj (hy.symm.trans hy')
  exact lt_iff.mpr ⟨x, z, hx, hz, by omega⟩

theorem not_lt_of_le (h : a ≤ b) : ¬ b < a := by
  intro hlt
  obtain ⟨x, y, hx, hy, hxy⟩ := le_iff.mp h
  obtain ⟨y', x', hy', hx', hyx⟩ := lt_iff.mp hlt
  obtain rfl : y = y' := Option.some.inj (hy.symm.trans hy')
  obtain rfl : x = x' := Option.some.inj (hx.symm.trans hx')
  omega

theorem le_of_not_lt (ha : a ≠ nan) (hb : b ≠ nan) (h : ¬ a < b) : b ≤ a := by
  obtain ⟨x, hx⟩ := ne_nan_iff.mp ha
  obtain ⟨y, hy⟩ := ne_nan_iff.mp hb
  have hxy : ¬ x < y := fun hlt => h (lt_iff.mpr ⟨x, y, hx, hy, hlt⟩)
  exact le_iff.mpr ⟨y, x, hy, hx, by omega⟩

theorem lt_of_not_le (ha : a ≠ nan) (hb : b ≠ nan) (h : ¬ a ≤ b) : b < a := by
  obtain ⟨x, hx⟩ := ne_nan_iff.mp ha
  obtain ⟨y, hy⟩ := ne_nan_iff.mp hb
  have hxy : ¬ x ≤ y := fun hle => h (le_iff.mpr ⟨x, y, hx, hy, hle⟩)
  exact lt_iff.mpr ⟨y, x, hy, hx, by omega⟩

theorem rank_neg (a : Binary f) : (-a).rank = a.rank.map (- ·) := by
  change (neg a).rank = _
  cases a with
  | nan => rfl
  | infinite s => cases s <;> simp [neg, rank, signed]
  | finite s u h => cases s <;> simp [neg, rank, signed]

theorem neg_le_neg (h : a ≤ b) : -b ≤ -a := by
  obtain ⟨x, y, hx, hy, hxy⟩ := le_iff.mp h
  refine le_iff.mpr ⟨-y, -x, ?_, ?_, by omega⟩
  · rw [rank_neg, hy, Option.map_some]
  · rw [rank_neg, hx, Option.map_some]

theorem add_comm (a b : Binary f) : a + b = b + a := by
  change add a b = add b a
  cases a <;> cases b <;> simp only [add]
  · rename_i s t
    by_cases hst : s = t
    · rw [hst]
    · rw [if_neg hst, if_neg (Ne.symm hst)]
  · rename_i s u _ t v _
    rw [Int.add_comm, Bool.and_comm]

/-! ## Rounded sums -/

@[simp] theorem signed_false (units : Nat) : signed false units = units := rfl

@[simp] theorem signed_true (units : Nat) : signed true units = -(units : Int) := rfl

theorem signed_bounds (negative : Bool) (units : Nat) :
    -(units : Int) ≤ signed negative units ∧ signed negative units ≤ units := by
  cases negative
  · rw [signed_false]
    omega
  · rw [signed_true]
    omega

def roundedRank (f : Format) (total : Int) : Int :=
  signed (decide (total < 0)) (min (f.nearest total.natAbs 1) (2 ^ f.overflow))

theorem roundedRank_of_neg {total : Int} (h : total < 0) : roundedRank f total =
    -((min (f.nearest total.natAbs 1) (2 ^ f.overflow) : Nat) : Int) := by
  rw [roundedRank, decide_eq_true h, signed_true]

theorem roundedRank_of_nonneg {total : Int} (h : ¬ total < 0) : roundedRank f total =
    (min (f.nearest total.natAbs 1) (2 ^ f.overflow) : Nat) := by
  rw [roundedRank, decide_eq_false h, signed_false]

theorem roundedRank_mono {m n : Int} (h : m ≤ n) : roundedRank f m ≤ roundedRank f n := by
  by_cases hn : n < 0
  · have hm : m < 0 := by omega
    have hle : n.natAbs ≤ m.natAbs := by omega
    have hround := f.nearest_mono 1 hle
    rw [roundedRank_of_neg hm, roundedRank_of_neg hn]
    omega
  · by_cases hm : m < 0
    · have hpos := Nat.two_pow_pos f.overflow
      rw [roundedRank_of_neg hm, roundedRank_of_nonneg hn]
      omega
    · have hle : m.natAbs ≤ n.natAbs := by omega
      have hround := f.nearest_mono 1 hle
      rw [roundedRank_of_nonneg hm, roundedRank_of_nonneg hn]
      omega

theorem roundedRank_signed {units : Nat} (h : f.Fits units) (negative : Bool) :
    roundedRank f (signed negative units) = signed negative units := by
  have hnearest := f.nearest_of_onGrid h.onGrid Nat.one_pos
  rw [Nat.mul_one] at hnearest
  have hrange := Nat.min_eq_left (Nat.le_of_lt h.inRange)
  by_cases hneg : signed negative units < 0
  · cases negative with
    | false =>
      rw [signed_false] at hneg
      omega
    | true =>
      rw [roundedRank_of_neg hneg, signed_true, Int.natAbs_neg, Int.natAbs_natCast, hnearest,
        hrange]
  · have habs : (signed negative units).natAbs = units := by
      cases negative <;> simp
    rw [roundedRank_of_nonneg hneg, habs, hnearest, hrange]
    cases negative with
    | false => rfl
    | true =>
      rw [signed_true] at hneg ⊢
      omega

theorem rank_ofUnits (hf : 0 < f.overflow) (negative : Bool) (units : Nat)
    (onGrid : f.OnGrid units) :
    (ofUnits negative units onGrid).rank =
      some (signed negative (min units (2 ^ f.overflow))) := by
  unfold ofUnits
  split
  · rename_i hlog
    have hlt := Format.lt_two_pow_of_log2_lt hlog
    rw [rank, Nat.min_eq_left (Nat.le_of_lt hlt)]
  · rename_i hlog
    have hne : units ≠ 0 := by
      rintro rfl
      rw [Nat.log2_zero] at hlog
      exact hlog hf
    have hle : 2 ^ f.overflow ≤ units := by
      rw [← Nat.le_log2 hne]
      omega
    rw [rank, Nat.min_eq_right hle]

theorem rank_bounds {x : Int} (h : a.rank = some x) :
    -((2 ^ f.overflow : Nat) : Int) ≤ x ∧ x ≤ (2 ^ f.overflow : Nat) := by
  cases a with
  | nan => simp [rank] at h
  | infinite s =>
    obtain rfl := Option.some.inj h
    exact signed_bounds s _
  | finite s u hu =>
    obtain rfl := Option.some.inj h
    have hbounds := signed_bounds s u
    have hlt := hu.inRange
    omega

theorem le_infinite (h : a ≠ nan) : a ≤ infinite false := by
  obtain ⟨x, hx⟩ := ne_nan_iff.mp h
  exact le_iff.mpr ⟨x, _, hx, rfl, (rank_bounds hx).2⟩

theorem infinite_le (h : a ≠ nan) : infinite true ≤ a := by
  obtain ⟨x, hx⟩ := ne_nan_iff.mp h
  exact le_iff.mpr ⟨_, x, rfl, hx, (rank_bounds hx).1⟩

theorem eq_infinite_of_le (h : infinite false ≤ a) : a = infinite false := by
  obtain ⟨x, y, hx, hy, hxy⟩ := le_iff.mp h
  obtain rfl : ((2 ^ f.overflow : Nat) : Int) = x := Option.some.inj hx
  have hpos := Nat.two_pow_pos f.overflow
  cases a with
  | nan => simp [rank] at hy
  | infinite s =>
    cases s with
    | false => rfl
    | true =>
      obtain rfl : -((2 ^ f.overflow : Nat) : Int) = y := Option.some.inj hy
      omega
  | finite s u hu =>
    obtain rfl := Option.some.inj hy
    have hbounds := signed_bounds s u
    have hlt := hu.inRange
    omega

theorem eq_infinite_of_le_infinite (h : a ≤ infinite true) : a = infinite true := by
  have hneg : -a = infinite false := eq_infinite_of_le (neg_le_neg h)
  cases a with
  | nan => exact absurd rfl (ne_nan_of_le_left h)
  | infinite s =>
    cases s
    · exact absurd hneg (by simp [Neg.neg, neg])
    · rfl
  | finite s u hu => exact absurd hneg (by simp [Neg.neg, neg])

end Order

section Single
variable {a b c : Single}

theorem rank_round (negative : Bool) (num den : Nat) : (round negative num den : Single).rank =
    some (signed negative (min (Format.single.nearest num den) (2 ^ Format.single.overflow))) :=
  rank_ofUnits (by decide) negative _ _

theorem rank_add_finite {s t : Bool} {u v : Nat} (hu : Format.single.Fits u)
    (hv : Format.single.Fits v) :
    (finite s u hu + finite t v hv).rank =
      some (roundedRank Format.single (signed s u + signed t v)) := by
  change (add _ _).rank = _
  simp only [add]
  split
  · rename_i hzero
    have hsigned : signed (s && t) 0 = 0 := by cases s <;> cases t <;> rfl
    have hrounded := roundedRank_signed Format.single.zero_fits (s && t)
    rw [hsigned] at hrounded
    rw [hzero, hrounded, ← hsigned]
    rfl
  · exact rank_round _ _ _

theorem infinite_add {s : Bool} (h : infinite s + a ≠ nan) : infinite s + a = infinite s := by
  cases a with
  | nan => exact absurd rfl h
  | infinite t =>
    change add _ _ ≠ nan at h
    change add _ _ = _
    by_cases hst : s = t
    · simp only [add, if_pos hst]
    · simp only [add, if_neg hst, ne_eq, not_true_eq_false] at h
  | finite t v hv => rfl

theorem add_le_add_left (h : b ≤ c) (hab : a + b ≠ nan) (hac : a + c ≠ nan) : a + b ≤ a + c := by
  cases a with
  | nan => exact absurd rfl hab
  | infinite s =>
    rw [infinite_add hab, infinite_add hac]
    exact le_refl (by simp)
  | finite s u hu =>
    cases b with
    | nan => exact absurd rfl hab
    | infinite t =>
      cases t with
      | false =>
        rw [eq_infinite_of_le h]
        exact le_refl (by simp [HAdd.hAdd, Add.add, add])
      | true => exact infinite_le hac
    | finite t v hv =>
      cases c with
      | nan => exact absurd rfl hac
      | infinite r =>
        cases r with
        | false => exact le_infinite hab
        | true => exact absurd (eq_infinite_of_le_infinite h) (by simp)
      | finite r w hw =>
        refine le_iff.mpr ⟨_, _, rank_add_finite hu hv, rank_add_finite hu hw, ?_⟩
        obtain ⟨x, y, hx, hy, hxy⟩ := le_iff.mp h
        obtain rfl := Option.some.inj hx
        obtain rfl := Option.some.inj hy
        apply roundedRank_mono
        omega

theorem sub_eq_add_neg (a b : Single) : a - b = a + -b := rfl

theorem sub_le_sub_left (h : b ≤ c) (hac : a - c ≠ nan) (hab : a - b ≠ nan) : a - c ≤ a - b :=
  add_le_add_left (neg_le_neg h) hac hab

theorem sub_le_sub_right (h : a ≤ b) (hac : a - c ≠ nan) (hbc : b - c ≠ nan) : a - c ≤ b - c := by
  rw [sub_eq_add_neg, add_comm] at hac ⊢
  rw [sub_eq_add_neg, add_comm b] at hbc ⊢
  exact add_le_add_left h hac hbc

theorem rank_zero : (0 : Single).rank = some 0 := by decide

theorem sub_le_self (hb : 0 ≤ b) (h : a - b ≠ nan) : a - b ≤ a := by
  cases a with
  | nan => exact absurd rfl h
  | infinite s =>
    rw [sub_eq_add_neg] at h ⊢
    rw [infinite_add h]
    exact le_refl (by simp)
  | finite s u hu =>
    cases b with
    | nan => exact absurd rfl h
    | infinite t =>
      cases t with
      | false => exact infinite_le (by simp)
      | true => exact absurd (eq_infinite_of_le_infinite hb) (by decide)
    | finite t v hv =>
      obtain ⟨x, y, hx, hy, hxy⟩ := le_iff.mp hb
      obtain rfl := Option.some.inj (rank_zero.symm.trans hx)
      obtain rfl := Option.some.inj hy
      have hle : signed s u + signed (!t) v ≤ signed s u := by
        have hneg : signed (!t) v = -signed t v := by cases t <;> simp
        omega
      refine le_iff.mpr ⟨_, _, rank_add_finite hu hv, rfl, ?_⟩
      calc
        _ ≤ roundedRank Format.single (signed s u) := roundedRank_mono hle
        _ = signed s u := roundedRank_signed hu s

/-! ## Signs -/

theorem zero_le_round (num den : Nat) : (0 : Single) ≤ round false num den :=
  le_iff.mpr ⟨_, _, rank_zero, rank_round false num den, Int.natCast_nonneg _⟩

theorem of_pos (h : 0 < a) :
    a = infinite false ∨ ∃ units fits, a = finite false units fits ∧ units ≠ 0 := by
  obtain ⟨x, y, hx, hy, hxy⟩ := lt_iff.mp h
  obtain rfl := Option.some.inj (rank_zero.symm.trans hx)
  cases a with
  | nan => simp [rank] at hy
  | infinite s =>
    cases s with
    | false => exact Or.inl rfl
    | true => exact absurd (eq_infinite_of_le_infinite (le_of_lt h)) (by decide)
  | finite s u hu =>
    obtain rfl := Option.some.inj hy
    cases s with
    | false => exact Or.inr ⟨u, hu, rfl, by rintro rfl; exact absurd hxy (by decide)⟩
    | true =>
      rw [signed_true] at hxy
      omega

theorem half_nonneg (h : 0 < a) : 0 ≤ a / 2 := by
  rcases of_pos h with rfl | ⟨u, hu, rfl, -⟩
  · exact le_infinite (by decide)
  · exact zero_le_round _ _

theorem mul_of_pos (ha : 0 < a) (hb : 0 < b) :
    a * b = infinite false ∨ ∃ u v hu hv, a = finite false u hu ∧ b = finite false v hv ∧
      a * b = round false (u * v) (1 <<< Format.single.scale) := by
  rcases of_pos ha with rfl | ⟨u, hu, rfl, hu0⟩
  · rcases of_pos hb with rfl | ⟨v, hv, rfl, hv0⟩
    · exact Or.inl rfl
    · exact Or.inl (if_neg hv0)
  · rcases of_pos hb with rfl | ⟨v, hv, rfl, -⟩
    · exact Or.inl (if_neg hu0)
    · exact Or.inr ⟨u, v, hu, hv, rfl, rfl, rfl⟩

theorem mul_nonneg (ha : 0 < a) (hb : 0 < b) : 0 ≤ a * b := by
  rcases mul_of_pos ha hb with hinf | ⟨_, _, _, _, -, -, hround⟩
  · rw [hinf]
    exact le_infinite (by decide)
  · rw [hround]
    exact zero_le_round _ _

theorem rank_one : (1 : Single).rank = some ((1 <<< Format.single.scale : Nat) : Int) := by decide

theorem zero_lt_one : (0 : Single) < 1 := by decide

theorem le_mul_of_one_le (ha : 0 < a) (hb : 1 ≤ b) : a ≤ a * b := by
  rcases mul_of_pos ha (lt_of_lt_of_le zero_lt_one hb) with
    hinf | ⟨u, v, hu, hv, rfl, rfl, hround⟩
  · rw [hinf]
    exact le_infinite (ne_nan_of_le_right (le_of_lt ha))
  · have hle : 1 <<< Format.single.scale ≤ v := by
      obtain ⟨x, y, hx, hy, hxy⟩ := le_iff.mp hb
      obtain rfl := Option.some.inj (rank_one.symm.trans hx)
      obtain rfl := Option.some.inj hy
      exact Int.ofNat_le.mp hxy
    -- The grid holds `u` itself, and rounding a larger product does not go below it.
    have hgrid := Format.single.nearest_of_onGrid hu.onGrid
      (by decide : 0 < 1 <<< Format.single.scale)
    have hmono := Format.single.nearest_mono (1 <<< Format.single.scale)
      (Nat.mul_le_mul_left u hle)
    rw [hgrid] at hmono
    have hrange := Nat.le_of_lt hu.inRange
    rw [hround]
    refine le_iff.mpr ⟨_, _, rfl, rank_round _ _ _, ?_⟩
    exact Int.ofNat_le.mpr (Nat.le_min.mpr ⟨hmono, hrange⟩)

theorem round_ne_nan (negative : Bool) (num den : Nat) : (round negative num den : Single) ≠ nan :=
  ne_nan_iff.mpr ⟨_, rank_round negative num den⟩

theorem double_ne_nan (h : a ≠ nan) : a * 2 ≠ nan := by
  cases a with
  | nan => exact absurd rfl h
  | infinite s => cases s <;> decide
  | finite s u hu => exact round_ne_nan _ _ _

theorem sub_eq_nan_iff : a - b = nan ↔
    a = nan ∨ b = nan ∨ ∃ s, a = infinite s ∧ b = infinite s := by
  cases a with
  | nan => exact ⟨fun _ => Or.inl rfl, fun _ => rfl⟩
  | infinite s =>
    cases b with
    | nan => simp [HSub.hSub, Sub.sub, sub, neg, add]
    | infinite t => cases s <;> cases t <;> simp [HSub.hSub, Sub.sub, sub, neg, add]
    | finite t v hv => simp [HSub.hSub, Sub.sub, sub, neg, add]
  | finite s u hu =>
    cases b with
    | nan => simp [HSub.hSub, Sub.sub, sub, neg, add]
    | infinite t => simp [HSub.hSub, Sub.sub, sub, neg, add]
    | finite t v hv =>
      have hne : finite s u hu - finite t v hv ≠ nan :=
        ne_nan_iff.mpr ⟨_, rank_add_finite hu hv⟩
      simp [hne]

/-- Where a larger number leaves a difference, so does a smaller one. -/
theorem sub_ne_nan_of_le (hab : a ≤ b) (hc : 0 ≤ c) (h : b - c ≠ nan) : a - c ≠ nan := by
  intro hnan
  rcases sub_eq_nan_iff.mp hnan with ha | hc' | ⟨s, ha, hc'⟩
  · exact ne_nan_of_le_left hab ha
  · exact ne_nan_of_le_right hc hc'
  · cases s with
    | true =>
      rw [hc'] at hc
      exact absurd (eq_infinite_of_le_infinite hc) (by decide)
    | false =>
      rw [ha] at hab
      exact h (sub_eq_nan_iff.mpr (Or.inr (Or.inr ⟨false, eq_infinite_of_le hab, hc'⟩)))

theorem sub_ne_nan_of_le_right (hbc : b ≤ c) (hb : 0 ≤ b) (h : a - c ≠ nan) : a - b ≠ nan := by
  intro hnan
  rcases sub_eq_nan_iff.mp hnan with ha | hb' | ⟨s, ha, hb'⟩
  · exact h (sub_eq_nan_iff.mpr (Or.inl ha))
  · exact ne_nan_of_le_left hbc hb'
  · cases s with
    | true =>
      rw [hb'] at hb
      exact absurd (eq_infinite_of_le_infinite hb) (by decide)
    | false =>
      rw [hb'] at hbc
      exact h (sub_eq_nan_iff.mpr (Or.inr (Or.inr ⟨false, ha, eq_infinite_of_le hbc⟩)))

theorem left_ne_nan_of_sub (h : a - b ≠ nan) : a ≠ nan :=
  fun hnan => h (sub_eq_nan_iff.mpr (Or.inl hnan))

theorem sub_ne_nan_of_sub_sub (h : a - b - c ≠ nan) : a - b ≠ nan ∧ a - c ≠ nan := by
  have hab : a - b ≠ nan := fun hnan => h (sub_eq_nan_iff.mpr (Or.inl hnan))
  refine ⟨hab, ?_⟩
  intro hac
  apply h
  rcases sub_eq_nan_iff.mp hac with ha | hc | ⟨s, ha, hc⟩
  · exact absurd (sub_eq_nan_iff.mpr (Or.inl ha)) hab
  · exact sub_eq_nan_iff.mpr (Or.inr (Or.inl hc))
  · rw [ha] at hab
    have hstays : a - b = infinite s := by
      rw [ha]
      exact infinite_add hab
    exact sub_eq_nan_iff.mpr (Or.inr (Or.inr ⟨s, hstays, hc⟩))

theorem max_cases (a b : Single) : max a b = a ∨ max a b = b := by
  change Binary.max a b = a ∨ Binary.max a b = b
  unfold Binary.max
  split
  · exact Or.inl rfl
  · split
    · exact Or.inl rfl
    · exact Or.inr rfl

theorem max_zero (h : 0 < a) : max 0 a = a := by
  have hnan : ¬ a.isNaN = true := by
    rcases of_pos h with rfl | ⟨_, _, rfl, _⟩ <;> simp [isNaN]
  change Binary.max 0 a = a
  rw [Binary.max, if_neg hnan, if_neg (not_lt_of_le (le_of_lt h))]

end Single
end Typesetter.Numeric.Binary
