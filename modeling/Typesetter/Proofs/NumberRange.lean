import Mathlib
import Typesetter.Proofs.FiniteNumbers
import Typesetter.Proofs.JsonNumbers

/-! # Numbers within range

A number in the range of binary64 is read without overflow, however it is written. Digits that do
not fit are dropped and make it smaller, and a power of ten is multiplied in one rounded step. Only
close to the largest number may that step go out of range. -/
namespace Typesetter.Json
open Numeric (Binary Double Format)
open scoped Numeric

/-! ## Leading digits -/

namespace Significand

/-- Digits are a whole number `n` with some decimal places, and are kept exactly until one does not
fit. -/
structure Keeps (s : Significand) (n places : Nat) : Prop where
  fits : s.value < 2 ^ (64 : Nat)
  dropped : ∃ m : Nat, s.exponent + places = m ∧
    (m = 0 ∧ s.value = n ∨
      0 < m ∧ s.value * 10 ^ m ≤ n ∧ 2 ^ (64 : Nat) * 10 ^ m ≤ 10 * n)

structure Below (s : Significand) (n places : Nat) : Prop where
  fits : s.value < 2 ^ (64 : Nat)
  le : ∃ m : Nat, s.exponent + places = m ∧ s.value * 10 ^ m ≤ n

variable {s : Significand} {n places : Nat}

theorem Keeps.below (h : s.Keeps n places) : s.Below n places := by
  obtain ⟨m, hm, hcases⟩ := h.dropped
  refine ⟨h.fits, m, hm, ?_⟩
  rcases hcases with ⟨rfl, hvalue⟩ | ⟨-, hle, -⟩
  · rw [hvalue, Nat.pow_zero, Nat.mul_one]
  · exact hle

theorem keeps_zero : Keeps ⟨0, 0⟩ 0 0 := ⟨by decide, 0, rfl, Or.inl ⟨rfl, rfl⟩⟩

def next (s : Significand) (c : Char) : Significand :=
  if s.exponent = 0 ∧ fits s.value c then ⟨10 * s.value + digit c, 0⟩
  else ⟨s.value, s.exponent + 1⟩

theorem Keeps.next (h : s.Keeps n 0) (c : Char) : (s.next c).Keeps (10 * n + digit c) 0 := by
  obtain ⟨m, hm, hcases⟩ := h.dropped
  have hfits := h.fits
  unfold Significand.next
  split
  · rename_i hfit
    have hlt : 10 * s.value + digit c < 2 ^ (64 : Nat) := of_decide_eq_true hfit.2
    refine ⟨hlt, 0, rfl, Or.inl ⟨rfl, ?_⟩⟩
    rcases hcases with ⟨-, hvalue⟩ | ⟨hpos, -⟩
    · rw [hvalue]
    · omega
  · rename_i hfit
    refine ⟨hfits, m + 1, by push_cast; omega, Or.inr ⟨Nat.succ_pos m, ?_⟩⟩
    show s.value * 10 ^ (m + 1) ≤ _ ∧ _
    rcases hcases with ⟨rfl, hvalue⟩ | ⟨-, hle, hlow⟩
    · have hover : ¬ 10 * s.value + digit c < 2 ^ (64 : Nat) := by
        intro hlt
        exact hfit ⟨by omega, decide_eq_true hlt⟩
      have hpow : (10 : Nat) ^ (0 + 1) = 10 := rfl
      rw [hpow]
      omega
    · have hvalue : s.value * 10 ^ (m + 1) = 10 * (s.value * 10 ^ m) := by ring
      have hlimit : 2 ^ (64 : Nat) * 10 ^ (m + 1) = 10 * (2 ^ (64 : Nat) * 10 ^ m) := by ring
      rw [hvalue, hlimit]
      omega

def written (n : Nat) (ds : List Char) : Nat := ds.foldl (fun n c => 10 * n + digit c) n

theorem keeps_ofWhole (ds : List Char) : (ofWhole ds).Keeps (written 0 ds) 0 := by
  have hall : ∀ (ds : List Char) (s : Significand) (n : Nat), s.Keeps n 0 →
      (ds.foldl Significand.next s).Keeps (written n ds) 0 := by
    intro ds
    induction ds with
    | nil => exact fun s n h => h
    | cons c ds ih => exact fun s n h => ih (s.next c) (10 * n + digit c) (h.next c)
  exact hall ds ⟨0, 0⟩ 0 keeps_zero

theorem le_written (n : Nat) (ds : List Char) : n * 10 ^ ds.length ≤ written n ds := by
  induction ds generalizing n with
  | nil => simp [written]
  | cons c ds ih =>
    calc n * 10 ^ (c :: ds).length = 10 * n * 10 ^ ds.length := by
          rw [List.length_cons]
          ring
      _ ≤ (10 * n + digit c) * 10 ^ ds.length := Nat.mul_le_mul_right _ (Nat.le_add_right _ _)
      _ ≤ written n (c :: ds) := ih (10 * n + digit c)

theorem Keeps.decimal (h : s.Keeps n places) {c : Char} (hfit : Significand.fits s.value c = true) :
    Keeps ⟨10 * s.value + digit c, s.exponent - 1⟩ (10 * n + digit c) (places + 1) := by
  obtain ⟨m, hm, hcases⟩ := h.dropped
  have hlt : 10 * s.value + digit c < 2 ^ (64 : Nat) := of_decide_eq_true hfit
  refine ⟨hlt, m, by push_cast; omega, ?_⟩
  rcases hcases with ⟨rfl, hvalue⟩ | ⟨hpos, -, hlow⟩
  · exact Or.inl ⟨rfl, by rw [hvalue]⟩
  · -- The digit stands for no more than the first one dropped.
    refine Or.inr ⟨hpos, ?_, by omega⟩
    have hle : (10 * s.value + digit c) * 10 ^ m ≤ 2 ^ (64 : Nat) * 10 ^ m :=
      Nat.mul_le_mul_right _ (Nat.le_of_lt hlt)
    show (10 * s.value + digit c) * 10 ^ m ≤ 10 * n + digit c
    omega

theorem Keeps.addFraction : ∀ (ds : List Char) {s : Significand} {n places : Nat},
    s.Keeps n places → (s.addFraction ds).Below (written n ds) (places + ds.length)
  | [], _, _, _, h => h.below
  | c :: ds, s, n, places, h => by
    rw [Significand.addFraction]
    split
    · rename_i hfit
      have hnext := (h.decimal hfit).addFraction ds
      rw [List.length_cons, Nat.add_comm ds.length, ← Nat.add_assoc]
      exact hnext
    · obtain ⟨hfits, m, hm, hle⟩ := h.below
      refine ⟨hfits, m + (c :: ds).length, by push_cast; omega, ?_⟩
      calc s.value * 10 ^ (m + (c :: ds).length) = s.value * 10 ^ m * 10 ^ (c :: ds).length := by
            ring
        _ ≤ n * 10 ^ (c :: ds).length := Nat.mul_le_mul_right _ hle
        _ ≤ written n (c :: ds) := le_written n (c :: ds)

end Significand

/-! ## Scaling -/

/-- Two units of the last place below the largest number. -/
def scalable : Nat := (2 ^ (53 : Nat) - 3) * 2 ^ (971 : Nat)

theorem le_scalable {n : Nat} (h : n ≤ 2 ^ (53 : Nat) - 3) : n ≤ scalable := by
  rw [scalable]
  generalize 971 = place
  exact Nat.le_trans h (Nat.le_mul_of_pos_right _ (Nat.two_pow_pos _))

theorem nearest_relative (num : Nat) :
    2 ^ (53 : Nat) * Format.double.nearest num 1 ≤ (2 ^ (53 : Nat) + 1) * num := by
  have hround := Format.double.nearest_le_add num
  have hspacing : Format.double.spacing num = num.log2 + 1 - 53 := rfl
  rcases Nat.eq_zero_or_pos (Format.double.spacing num) with hzero | hpos
  · rw [hzero] at hround
    omega
  · have hlog : num.log2 = 52 + Format.double.spacing num := by omega
    have hne : num ≠ 0 := by
      rintro rfl
      rw [Nat.log2_zero] at hlog
      omega
    have hlow := Nat.log2_self_le hne
    rw [hlog, Nat.pow_add] at hlow
    omega

theorem top_fits {n : Nat} (h : n < 2 ^ (53 : Nat)) :
    Format.double.Fits (n * 2 ^ (971 : Nat) * 2 ^ Format.double.scale) := by
  have hexponent : 53 + (971 + Format.double.scale) = Format.double.overflow := rfl
  rw [Nat.mul_assoc, ← Nat.pow_add]
  refine ⟨⟨n, _, h, rfl⟩, ?_⟩
  rw [← hexponent, Nat.pow_add 2 53]
  exact Nat.mul_lt_mul_of_pos_right h (Nat.two_pow_pos _)

theorem log2_nearest_lt {num den : Nat} (n : Nat) (hn : n < 2 ^ (53 : Nat)) (hden : 0 < den)
    (h : num ≤ n * 2 ^ (971 : Nat) * 2 ^ Format.double.scale * den) :
    (Format.double.nearest num den).log2 < Format.double.overflow := by
  have htop := top_fits hn
  have hle := Format.double.nearest_mono den h
  rw [Format.double.nearest_of_onGrid htop.onGrid hden] at hle
  exact Format.log2_lt_of_lt_two_pow (by decide) (Nat.lt_of_le_of_lt hle htop.inRange)

/-- Up to the limit whole numbers are in range, and hardly larger after rounding. -/
theorem exists_ofRatio_eq {n : Nat} (h : n ≤ scalable) :
    ∃ units fits, (Binary.ofRatio false n 1 : Double) = .finite false units fits ∧
      2 ^ (53 : Nat) * units ≤ (2 ^ (53 : Nat) + 1) * (n * 2 ^ Format.double.scale) := by
  rw [scalable] at h
  have hle : n <<< Format.double.scale ≤
      (2 ^ (53 : Nat) - 3) * 2 ^ (971 : Nat) * 2 ^ Format.double.scale * 1 := by
    rw [Nat.shiftLeft_eq, Nat.mul_one]
    exact Nat.mul_le_mul_right (2 ^ Format.double.scale) h
  have hlog := log2_nearest_lt (2 ^ (53 : Nat) - 3) (by decide) Nat.one_pos hle
  refine ⟨_, _, dif_pos hlog, ?_⟩
  rw [← Nat.shiftLeft_eq]
  exact nearest_relative _

theorem product_le {u w v p unit : Nat}
    (hu : 2 ^ (53 : Nat) * u ≤ (2 ^ (53 : Nat) + 1) * (v * unit))
    (hw : 2 ^ (53 : Nat) * w ≤ (2 ^ (53 : Nat) + 1) * (p * unit)) (h : v * p ≤ scalable) :
    u * w ≤ (2 ^ (53 : Nat) - 1) * 2 ^ (971 : Nat) * unit * unit := by
  -- Both factors are rounded up by half a unit at most, which the limit leaves room for.
  have hconst : (2 ^ (53 : Nat) + 1) * (2 ^ (53 : Nat) + 1) * (2 ^ (53 : Nat) - 3) ≤
      2 ^ (53 : Nat) * 2 ^ (53 : Nat) * (2 ^ (53 : Nat) - 1) := by decide
  apply Nat.le_of_mul_le_mul_left _ (by decide : 0 < 2 ^ (53 : Nat) * 2 ^ (53 : Nat))
  calc 2 ^ (53 : Nat) * 2 ^ (53 : Nat) * (u * w)
      = (2 ^ (53 : Nat) * u) * (2 ^ (53 : Nat) * w) := by ring
    _ ≤ (2 ^ (53 : Nat) + 1) * (v * unit) * ((2 ^ (53 : Nat) + 1) * (p * unit)) :=
      Nat.mul_le_mul hu hw
    _ = (2 ^ (53 : Nat) + 1) * (2 ^ (53 : Nat) + 1) * (v * p) * (unit * unit) := by ring
    _ ≤ (2 ^ (53 : Nat) + 1) * (2 ^ (53 : Nat) + 1) * scalable * (unit * unit) :=
      Nat.mul_le_mul_right _ (Nat.mul_le_mul_left _ h)
    _ = (2 ^ (53 : Nat) + 1) * (2 ^ (53 : Nat) + 1) * (2 ^ (53 : Nat) - 3) *
        (2 ^ (971 : Nat) * (unit * unit)) := by
      rw [scalable]
      generalize 2 ^ (53 : Nat) - 3 = limit
      generalize 2 ^ (971 : Nat) = place
      ring
    _ ≤ 2 ^ (53 : Nat) * 2 ^ (53 : Nat) * (2 ^ (53 : Nat) - 1) *
        (2 ^ (971 : Nat) * (unit * unit)) :=
      Nat.mul_le_mul_right _ hconst
    _ = 2 ^ (53 : Nat) * 2 ^ (53 : Nat) *
        ((2 ^ (53 : Nat) - 1) * 2 ^ (971 : Nat) * unit * unit) := by
      generalize 2 ^ (53 : Nat) - 1 = limit
      generalize 2 ^ (971 : Nat) = place
      ring

theorem mul_ne_infinite {v p : Nat} (hv : v ≤ scalable) (hp : p ≤ scalable) (h : v * p ≤ scalable)
    (s : Bool) : (Binary.ofRatio false v 1 * Binary.ofRatio false p 1 : Double) ≠ .infinite s := by
  obtain ⟨u, hu, hx, hux⟩ := exists_ofRatio_eq hv
  obtain ⟨w, hw, hy, hwy⟩ := exists_ofRatio_eq hp
  have hunit : 1 <<< Format.double.scale = 2 ^ Format.double.scale := Nat.one_shiftLeft _
  have hle := product_le hux hwy h
  have hlog : (Format.double.nearest (u * w) (1 <<< Format.double.scale)).log2 <
      Format.double.overflow := by
    rw [hunit]
    exact log2_nearest_lt (2 ^ (53 : Nat) - 1) (by decide) (Nat.two_pow_pos _) hle
  have hmul : (Binary.ofRatio false v 1 * Binary.ofRatio false p 1 : Double) =
      Binary.round false (u * w) (1 <<< Format.double.scale) := by
    rw [hx, hy]
    rfl
  rw [hmul, Binary.round, Binary.ofUnits, dif_pos hlog]
  exact fun hinf => nomatch hinf

/-! ## Numbers -/

theorem scale?_of_neg : ∀ (steps : Nat) (x : Double) {exponent : Int}, exponent < 0 →
    ∃ y, scale? steps x exponent = some y
  | 0, x, _, _ => ⟨x, rfl⟩
  | steps + 1, x, exponent, h => by
    rw [scale?]
    split
    · exact ⟨_, rfl⟩
    · split
      · exact ⟨x, rfl⟩
      · rw [if_neg (by omega)]
        exact scale?_of_neg steps _ (by omega)

theorem two_pow_le_ten_pow (k : Nat) : 2 ^ (93 * k + 1) ≤ 10 ^ (28 * k + 1) := by
  rw [Nat.pow_succ, Nat.pow_succ, Nat.pow_mul, Nat.pow_mul]
  exact Nat.mul_le_mul (Nat.pow_le_pow_left (by decide) k) (by decide)

theorem le_of_ten_pow_le_scalable {e k : Nat} (hk : k = 11) (h : 10 ^ e ≤ scalable) :
    e ≤ 28 * k := by
  have hexponent : 93 * k + 1 = 53 + 971 := by omega
  have hlimit : scalable < 2 ^ (93 * k + 1) := by
    rw [scalable]
    generalize 971 = place at hexponent ⊢
    rw [hexponent, Nat.pow_add]
    exact Nat.mul_lt_mul_of_pos_right (by decide) (Nat.two_pow_pos _)
  by_contra hlarge
  have hpow : 10 ^ (28 * k + 1) ≤ 10 ^ e := Nat.pow_le_pow_right (by decide) (by omega)
  have hten := Nat.lt_of_lt_of_le hlimit (two_pow_le_ten_pow k)
  exact absurd (Nat.le_trans hpow h) (Nat.not_le.mpr hten)

theorem zero_mul_ne_infinite (y : Double) (s : Bool) : (0 : Double) * y ≠ .infinite s := by
  have hzero : (0 : Double) = .finite false 0 Format.double.zero_fits := by decide
  rw [hzero]
  cases y with
  | nan => exact fun h => nomatch h
  | infinite t => exact fun h => nomatch h
  | finite t u fits =>
    show (Binary.round (false ^^ t) (0 * u) (1 <<< Format.double.scale) : Double) ≠ .infinite s
    have hround : ∀ t s, (Binary.round t 0 (1 <<< Format.double.scale) : Double) ≠ .infinite s := by
      decide
    rw [Nat.zero_mul]
    exact hround _ s

theorem exists_scale_of_product {steps e : Nat} {x : Double}
    (h : ∀ s, x * Binary.ofRatio false (10 ^ e) 1 ≠ .infinite s) (hrange : e ≤ 308 ∨ x = 0) :
    ∃ y, scale? (steps + 1) x e = some y := by
  rw [scale?, Int.natAbs_natCast]
  split
  · simp only
    cases hmul : (x * Binary.ofRatio false (10 ^ e) 1 : Double) with
    | infinite s => exact absurd hmul (h s)
    | nan => exact ⟨_, rfl⟩
    | finite s u fits => exact ⟨_, rfl⟩
  · rename_i hfar
    rw [if_pos (hrange.resolve_left hfar)]
    exact ⟨x, rfl⟩

theorem exists_scale_of_le {value e : Nat} (h : value * 10 ^ e ≤ scalable) :
    ∃ y, scale? 4 (Binary.ofRatio false value 1) e = some y := by
  by_cases hzero : value = 0
  · have hx : (Binary.ofRatio false value 1 : Double) = 0 := by
      rw [hzero]
      rfl
    rw [hx]
    exact exists_scale_of_product (fun s => zero_mul_ne_infinite _ s) (Or.inr rfl)
  · have hten : 10 ^ e ≤ scalable :=
      Nat.le_trans (Nat.le_mul_of_pos_left _ (Nat.pos_of_ne_zero hzero)) h
    have hvalue : value ≤ scalable :=
      Nat.le_trans (Nat.le_mul_of_pos_right _ (Nat.pow_pos (by decide))) h
    exact exists_scale_of_product (fun s => mul_ne_infinite hvalue hten h s)
      (Or.inl (le_of_ten_pow_le_scalable rfl hten))

/-! ## Numbers -/

namespace NumberText

def exponentValue (t : NumberText) : Int :=
  match t.exponent with
  | none => 0
  | some e => if e.sign = .minus then -(e.power : Int) else e.power

def magnitude (t : NumberText) : ℚ :=
  Text.digitsValue (t.whole ++ t.fraction.getD []) *
    (10 : ℚ) ^ (t.exponentValue - (t.fraction.getD []).length)

/-- Not too close to the end of the range, and no positive exponent beyond 31 bits. -/
structure InRange (t : NumberText) : Prop where
  magnitude : t.magnitude ≤ scalable
  exponent : ∀ e ∈ t.exponent, e.sign ≠ .minus → e.power < 2 ^ (31 : Nat)

end NumberText

theorem toDouble_isOk {s : Significand} {exponent : Int}
    (h : (s.value : ℚ) * 10 ^ exponent ≤ scalable) (negative : Bool) :
    ∃ x, Significand.toDouble ⟨s.value, exponent⟩ negative = .ok x := by
  have hscale : ∃ x, scale? 4 (Binary.ofRatio false s.value 1) exponent = some x := by
    by_cases hneg : exponent < 0
    · exact scale?_of_neg 4 _ hneg
    · obtain ⟨e, rfl⟩ := Int.eq_ofNat_of_zero_le (Int.not_lt.mp hneg)
      apply exists_scale_of_le
      rw [zpow_natCast] at h
      exact_mod_cast h
  obtain ⟨x, hx⟩ := hscale
  exact ⟨withSign negative x, by rw [Significand.toDouble, hx]⟩

theorem written_eq (ds : List Char) : Significand.written 0 ds = Text.digitsValue ds := rfl

theorem written_append (n : Nat) (ds es : List Char) :
    Significand.written n (ds ++ es) = Significand.written (Significand.written n ds) es :=
  List.foldl_append

theorem NumberText.below (t : NumberText) : t.significand.Below
    (Text.digitsValue (t.whole ++ t.fraction.getD [])) (t.fraction.getD []).length := by
  have hfraction := (Significand.keeps_ofWhole t.whole).addFraction (t.fraction.getD [])
  rw [← written_append, Nat.zero_add, written_eq] at hfraction
  exact hfraction

theorem Significand.Below.le_magnitude {t : NumberText} {s : Significand}
    (h : s.Below (Text.digitsValue (t.whole ++ t.fraction.getD [])) (t.fraction.getD []).length) :
    (s.value : ℚ) * 10 ^ (s.exponent + t.exponentValue) ≤ t.magnitude := by
  obtain ⟨-, m, hm, hle⟩ := h
  have hexponent : s.exponent + t.exponentValue =
      m + (t.exponentValue - (t.fraction.getD []).length) := by omega
  have hcast : (s.value : ℚ) * 10 ^ m ≤ Text.digitsValue (t.whole ++ t.fraction.getD []) := by
    exact_mod_cast hle
  rw [hexponent, zpow_add₀ (by norm_num), zpow_natCast, ← mul_assoc]
  exact mul_le_mul_of_nonneg_right hcast (zpow_nonneg (by norm_num) _)

theorem NumberText.InRange.scaled_isOk {t : NumberText} (h : t.InRange) :
    ∃ x, t.scaled = .ok x := by
  have hle := le_trans t.below.le_magnitude h.magnitude
  rw [scaled]
  cases hexponent : t.exponent with
  | none =>
    rw [exponentValue, hexponent, add_zero] at hle
    exact toDouble_isOk hle t.negative
  | some e =>
    have hpower : (if e.sign = .minus then t.significand.exponent - e.power
        else t.significand.exponent + e.power) = t.significand.exponent + t.exponentValue := by
      rw [exponentValue, hexponent]
      simp only
      split
      · exact Int.sub_eq_add_neg
      · rfl
    simp only [ExponentText.scaled, hpower]
    split
    · exact toDouble_isOk hle t.negative
    · -- An exponent beyond 31 bits is negative, so the number is zero.
      rename_i hlarge
      have hsign : e.sign = .minus := by
        by_contra hne
        exact hlarge (h.exponent e hexponent hne)
      rw [if_neg fun hrefused => hrefused.2 hsign]
      exact ⟨_, rfl⟩

theorem whole_isOk {s : Significand} {negative : Bool} (h : ∃ x, s.toDouble negative = .ok x) :
    ∃ n, whole s negative = .ok n := by
  rw [whole]
  split
  · obtain ⟨x, hx⟩ := h
    exact ⟨.float x, by rw [hx]; rfl⟩
  · split
    · split <;> exact ⟨_, rfl⟩
    · exact ⟨_, rfl⟩

/-- A number in range is read, however it is written. -/
theorem NumberText.InRange.value_isOk {t : NumberText} (h : t.InRange) : ∃ n, t.value = .ok n := by
  obtain ⟨x, hx⟩ := h.scaled_isOk
  rw [value]
  split
  · rename_i hexponent
    rw [scaled, hexponent] at hx
    exact whole_isOk ⟨x, hx⟩
  · exact ⟨.float x, by rw [hx]; rfl⟩

end Typesetter.Json
