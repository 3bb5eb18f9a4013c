/-! # Binary floating-point numbers

Formats, numbers and their arithmetic. -/
namespace Typesetter.Numeric

/-! ## Binary floating-point formats

A format keeps a fixed number of significant bits. Every finite magnitude is a whole number of the
smallest positive one, its unit, so rounding to a format is exact arithmetic on natural numbers. -/

/-- Powers of natural numbers are computed directly, also where the powers of a monoid are known. -/
scoped instance (priority := high) powNat : Pow Nat Nat := instPowNat

structure Format where
  /-- Significant bits of a normal number. -/
  precision : Nat
  /-- One is `2 ^ scale` units. -/
  scale : Nat
  /-- Magnitudes from `2 ^ overflow` units on are out of range. -/
  overflow : Nat
  precision_pos : 0 < precision

/-- The quotient as the nearest whole number, a tie going to the even neighbour. -/
def roundDiv (num den : Nat) : Nat :=
  let quotient := num / den
  let twice := 2 * (num % den)
  if twice < den then quotient
  else if den < twice then quotient + 1
  else quotient + quotient % 2

theorem roundDiv_le_succ (num den : Nat) : roundDiv num den ≤ num / den + 1 := by
  dsimp only [roundDiv]
  split
  · omega
  · split <;> omega

theorem le_roundDiv (num den : Nat) : num / den ≤ roundDiv num den := by
  dsimp only [roundDiv]
  split
  · omega
  · split <;> omega

namespace Format

def single : Format := ⟨24, 149, 277, by decide⟩

def double : Format := ⟨53, 1074, 2098, by decide⟩

/-- Numbers near `units` lie `2 ^ spacing` units apart. -/
def spacing (f : Format) (units : Nat) : Nat := units.log2 + 1 - f.precision

def nearest (f : Format) (num den : Nat) : Nat :=
  let spacing := f.spacing (num / den)
  roundDiv num (den <<< spacing) <<< spacing

/-- A grid point is a multiple of a power of two by a number of at most `precision` bits. -/
def OnGrid (f : Format) (units : Nat) : Prop :=
  ∃ mantissa exponent : Nat, mantissa < 2 ^ f.precision ∧ units = mantissa * 2 ^ exponent

/-- The magnitudes a format has numbers for. -/
structure Fits (f : Format) (units : Nat) : Prop where
  onGrid : f.OnGrid units
  inRange : units < 2 ^ f.overflow

theorem zero_onGrid (f : Format) : f.OnGrid 0 :=
  ⟨0, 0, Nat.two_pow_pos _, rfl⟩

theorem zero_fits (f : Format) : f.Fits 0 :=
  ⟨f.zero_onGrid, Nat.two_pow_pos _⟩

theorem lt_two_pow_of_log2_lt {n k : Nat} (h : n.log2 < k) : n < 2 ^ k :=
  Nat.lt_of_lt_of_le Nat.lt_log2_self (Nat.pow_le_pow_right (by decide) h)

theorem lt_two_pow_spacing (f : Format) (units : Nat) :
    units < 2 ^ f.precision * 2 ^ f.spacing units := by
  rw [← Nat.pow_add]
  refine Nat.lt_of_lt_of_le Nat.lt_log2_self (Nat.pow_le_pow_right (by decide) ?_)
  unfold spacing
  omega

theorem nearest_onGrid (f : Format) (num den : Nat) : f.OnGrid (f.nearest num den) := by
  simp only [nearest, Nat.shiftLeft_eq]
  generalize hk : f.spacing (num / den) = k
  have hq : num / (den * 2 ^ k) < 2 ^ f.precision := by
    rw [← Nat.div_div_eq_div_mul, Nat.div_lt_iff_lt_mul (Nat.two_pow_pos k), ← hk]
    exact f.lt_two_pow_spacing _
  have hr := roundDiv_le_succ num (den * 2 ^ k)
  rcases Nat.lt_or_ge (roundDiv num (den * 2 ^ k)) (2 ^ f.precision) with h | h
  · exact ⟨_, k, h, rfl⟩
  · have he : roundDiv num (den * 2 ^ k) = 2 ^ f.precision := by omega
    have hp : 2 ^ f.precision = 2 ^ (f.precision - 1) * 2 := by
      rw [← Nat.pow_succ, Nat.succ_eq_add_one, Nat.sub_add_cancel f.precision_pos]
    refine ⟨2 ^ (f.precision - 1), k + 1, ?_, ?_⟩
    · exact Nat.pow_lt_pow_right (by decide) (Nat.sub_lt f.precision_pos (by decide))
    · rw [he, hp, Nat.pow_succ, Nat.mul_assoc, Nat.mul_comm 2]

end Format

/-! ## Floating-point numbers

The numbers of a format with the arithmetic of the interchange standard: every operation is the
exact result rounded once, to nearest with ties to even. Zero keeps its sign and there is one
NaN. -/

inductive Binary (f : Format) where
  | nan
  | infinite (negative : Bool)
  | finite (negative : Bool) (units : Nat) (fits : f.Fits units)
  deriving DecidableEq

abbrev Single := Binary Format.single
abbrev Double := Binary Format.double

namespace Binary
variable {f g : Format}

def zero (negative : Bool) : Binary f := finite negative 0 f.zero_fits

/-- A grid point as a number, infinite when it is out of range. -/
def ofUnits (negative : Bool) (units : Nat) (onGrid : f.OnGrid units) : Binary f :=
  if h : units.log2 < f.overflow then
    finite negative units ⟨onGrid, Format.lt_two_pow_of_log2_lt h⟩
  else infinite negative

def round (negative : Bool) (num den : Nat) : Binary f :=
  ofUnits negative (f.nearest num den) (f.nearest_onGrid num den)

def ofRatio (negative : Bool) (num den : Nat) : Binary f :=
  round negative (num <<< f.scale) den

def ofInt (n : Int) : Binary f := ofRatio (decide (n < 0)) n.natAbs 1

instance (n : Nat) : OfNat (Binary f) n := ⟨ofRatio false n 1⟩

instance : OfScientific (Binary f) where
  ofScientific digits negativeExponent exponent :=
    if negativeExponent then ofRatio false digits (10 ^ exponent)
    else ofRatio false (digits * 10 ^ exponent) 1

instance : Inhabited (Binary f) := ⟨zero false⟩

def convert : Binary f → Binary g
  | nan => nan
  | infinite s => infinite s
  | finite s u _ => round s (u <<< g.scale) (1 <<< f.scale)

def neg : Binary f → Binary f
  | nan => nan
  | infinite s => infinite (!s)
  | finite s u h => finite (!s) u h

def signed (negative : Bool) (units : Nat) : Int :=
  if negative then -(units : Int) else units

/-- An exact sum of zero is negative only when both terms are. -/
def add : Binary f → Binary f → Binary f
  | nan, _ => nan
  | _, nan => nan
  | infinite s, infinite t => if s = t then infinite s else nan
  | infinite s, finite _ _ _ => infinite s
  | finite _ _ _, infinite t => infinite t
  | finite s u _, finite t v _ =>
    let total := signed s u + signed t v
    if total = 0 then zero (s && t) else round (decide (total < 0)) total.natAbs 1

def sub (a b : Binary f) : Binary f := add a (neg b)

def mul : Binary f → Binary f → Binary f
  | nan, _ => nan
  | _, nan => nan
  | infinite s, infinite t => infinite (s ^^ t)
  | infinite s, finite t v _ => if v = 0 then nan else infinite (s ^^ t)
  | finite s u _, infinite t => if u = 0 then nan else infinite (s ^^ t)
  | finite s u _, finite t v _ => round (s ^^ t) (u * v) (1 <<< f.scale)

def div : Binary f → Binary f → Binary f
  | nan, _ => nan
  | _, nan => nan
  | infinite _, infinite _ => nan
  | infinite s, finite t _ _ => infinite (s ^^ t)
  | finite s _ _, infinite t => zero (s ^^ t)
  | finite s u _, finite t v _ =>
    if v = 0 then if u = 0 then nan else infinite (s ^^ t)
    else round (s ^^ t) (u <<< f.scale) v

instance : Neg (Binary f) := ⟨neg⟩
instance : Add (Binary f) := ⟨add⟩
instance : Sub (Binary f) := ⟨sub⟩
instance : Mul (Binary f) := ⟨mul⟩
instance : Div (Binary f) := ⟨div⟩

/-- The place of a number on the line, in units; infinities stand just out of range and NaN has
no place. -/
def rank : Binary f → Option Int
  | nan => none
  | infinite s => some (signed s (2 ^ f.overflow))
  | finite s u _ => some (signed s u)

def lt (a b : Binary f) : Bool :=
  match a.rank, b.rank with
  | some x, some y => decide (x < y)
  | _, _ => false

def le (a b : Binary f) : Bool :=
  match a.rank, b.rank with
  | some x, some y => decide (x ≤ y)
  | _, _ => false

/-- Comparisons with NaN fail, and the two zeros are equal. -/
instance : LT (Binary f) := ⟨fun a b => a.lt b = true⟩
instance : LE (Binary f) := ⟨fun a b => a.le b = true⟩
instance (a b : Binary f) : Decidable (a < b) := inferInstanceAs (Decidable (a.lt b = true))
instance (a b : Binary f) : Decidable (a ≤ b) := inferInstanceAs (Decidable (a.le b = true))

def isNaN : Binary f → Bool
  | nan => true
  | _ => false

/-- The larger number, and of two zeros the second; NaN gives way to the other. -/
protected def max (a b : Binary f) : Binary f :=
  if b.isNaN then a else if b < a then a else b

instance : Max (Binary f) := ⟨Binary.max⟩

/-- A total starts at negative zero, the neutral element of addition. -/
def sum (terms : List (Binary f)) : Binary f := terms.foldl (· + ·) (zero true)

def abs : Binary f → Binary f
  | nan => nan
  | infinite _ => infinite false
  | finite _ u h => finite false u h

/-- Drops the fraction and stops at the ends of a range; NaN becomes zero. -/
def truncate (low high : Int) : Binary f → Int
  | nan => 0
  | infinite negative => if negative then low else high
  | finite negative u _ => max low (min (signed negative (u >>> f.scale)) high)

def isWhole : Binary f → Bool
  | finite _ u _ => u % (1 <<< f.scale) = 0
  | _ => false

/-- Moves a number into a range; reversed or NaN bounds are no range. -/
def clamp? (x low high : Binary f) : Option (Binary f) :=
  if low ≤ high then
    let x := if x < low then low else x
    some (if high < x then high else x)
  else none

end Binary

end Typesetter.Numeric
