import Mathlib.Data.Rat.Floor

/-!
# Numbers

The arithmetic the domain entities use, as an interface: conversions, truthiness, comparison and
the field operations of whatever stands for Python's `int` and `float`.  Only what `int` does to a
number that is one already is a law.  Exact arithmetic is the instance for rational numbers.
-/

namespace QuantAgent.Domain

/-- Python numbers: what the code asks of an `int` or a finite `float` to record it. -/
class Number (N : Type) where
  natCast : ℕ → N
  /-- The literal `0.0`. -/
  zero : N
  /-- `int(x)`. -/
  toInt : N → N
  /-- `float(x)`; `none` when an integer is too large for a float. -/
  toFloat : N → Option N
  /-- `bool(x)`. -/
  truthy : N → Bool
  toInt_natCast : ∀ n, toInt (natCast n) = natCast n

/-- `x or 0.0`. -/
def Number.orZero {N : Type} [Number N] (x : N) : N :=
  if Number.truthy x then x else Number.zero

/-- Python numbers with their arithmetic and comparisons, of which nothing is assumed. -/
class Arithmetic (N : Type) extends Number N where
  add : N → N → N
  sub : N → N → N
  mul : N → N → N
  abs : N → N
  less : N → N → Bool
  /-- `x == y`. -/
  same : N → N → Bool
  /-- The literal `1e-9`. -/
  tolerance : N

/-- `abs(x - y) < 1e-9`. -/
def Arithmetic.near {N : Type} [Arithmetic N] (x y : N) : Bool :=
  Arithmetic.less (Arithmetic.abs (Arithmetic.sub x y)) Arithmetic.tolerance

def truncate (x : ℚ) : ℤ := if 0 ≤ x then ⌊x⌋ else ⌈x⌉

theorem truncate_natCast (n : ℕ) : truncate (n : ℚ) = n := by
  simp [truncate]

@[simp]
theorem truncate_intCast (n : ℤ) : truncate (n : ℚ) = n := by
  simp [truncate]

theorem truncate_le {x : ℚ} {n : ℤ} (hn : 0 ≤ n) (h : x ≤ n) : truncate x ≤ n := by
  unfold truncate
  split
  · exact Int.floor_le_iff.mpr (by linarith)
  · rename_i hneg
    exact (Int.ceil_le.mpr (by push_cast; linarith)).trans hn

instance : Arithmetic ℚ where
  natCast n := n
  zero := 0
  toInt x := truncate x
  toFloat x := some x
  truthy x := x ≠ 0
  toInt_natCast n := by simp [truncate_natCast]
  add := (· + ·)
  sub := (· - ·)
  mul := (· * ·)
  abs x := |x|
  less x y := x < y
  same x y := x = y
  tolerance := 1 / 1000000000

section Rat

@[simp]
theorem rat_natCast (n : ℕ) : (Number.natCast n : ℚ) = n := rfl

@[simp]
theorem rat_zero : (Number.zero : ℚ) = 0 := rfl

@[simp]
theorem rat_toInt (x : ℚ) : Number.toInt x = (truncate x : ℚ) := rfl

@[simp]
theorem rat_toFloat (x : ℚ) : Number.toFloat x = some x := rfl

@[simp]
theorem rat_add (x y : ℚ) : Arithmetic.add x y = x + y := rfl

@[simp]
theorem rat_sub (x y : ℚ) : Arithmetic.sub x y = x - y := rfl

@[simp]
theorem rat_mul (x y : ℚ) : Arithmetic.mul x y = x * y := rfl

@[simp]
theorem rat_less (x y : ℚ) : Arithmetic.less x y = decide (x < y) := rfl

@[simp]
theorem rat_same (x y : ℚ) : Arithmetic.same x y = decide (x = y) := rfl

@[simp]
theorem rat_orZero (x : ℚ) : Number.orZero x = x := by
  by_cases h : x = 0 <;> simp [Number.orZero, Number.truthy, h]

end Rat

end QuantAgent.Domain
