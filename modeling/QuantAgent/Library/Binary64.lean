import Mathlib.Algebra.Order.Field.Power
import Mathlib.Data.Int.Log
import Mathlib.Tactic.Positivity
import QuantAgent.Library.Rounding

/-!
# Binary64

The double-precision number nearest to a rational one, ties to the even significand.  The range is
left open above: an operation that overflows is recognised by its caller.  A result that is not
subnormal is off by at most the unit roundoff, so nothing is rounded to a larger whole number than
that error explains.
-/

namespace QuantAgent.Library

/-- The exponent of the last place of a double near `x`. -/
def lastPlace (x : ℚ) : ℤ := max (Int.log 2 |x|) (-1022) - 52

def roundDouble (x : ℚ) : ℚ := roundHalfEven (x / 2 ^ lastPlace x) * 2 ^ lastPlace x

/-- The least power of two that is no double any more. -/
def doubleLimit : ℚ := 2 ^ 1024

/-- A double as it is handed in: a number, or none. -/
inductive Double where
  | finite (value : ℚ)
  | nonFinite
  deriving DecidableEq, Repr

def unitRoundoff : ℚ := 2⁻¹ ^ 53

theorem unitRoundoff_pos : 0 < unitRoundoff := by
  unfold unitRoundoff
  positivity

@[simp]
theorem roundDouble_zero : roundDouble 0 = 0 := by
  have hround : roundHalfEven 0 = 0 := by simpa using roundHalfEven_intCast 0
  simp [roundDouble, hround]

/-- Rounding moves a number by at most half a unit of the last place. -/
theorem abs_roundDouble_sub_le (x : ℚ) : |roundDouble x - x| ≤ 2 ^ lastPlace x / 2 := by
  have hpos : (0 : ℚ) < 2 ^ lastPlace x := by positivity
  have hscaled : roundDouble x - x =
      (roundHalfEven (x / 2 ^ lastPlace x) - x / 2 ^ lastPlace x) * 2 ^ lastPlace x := by
    unfold roundDouble
    field_simp
  calc |roundDouble x - x|
      = |roundHalfEven (x / 2 ^ lastPlace x) - x / 2 ^ lastPlace x| * 2 ^ lastPlace x := by
        rw [hscaled, abs_mul, abs_of_pos hpos]
    _ ≤ 1 / 2 * 2 ^ lastPlace x := by
        have hnear := abs_roundHalfEven_sub_le (x / 2 ^ lastPlace x)
        gcongr
    _ = 2 ^ lastPlace x / 2 := by ring

theorem roundDouble_nonneg {x : ℚ} (hx : 0 ≤ x) : 0 ≤ roundDouble x := by
  have hfloor : 0 ≤ roundHalfEven (x / 2 ^ lastPlace x) := by
    have hscaled : 0 ≤ ⌊x / 2 ^ lastPlace x⌋ := Int.floor_nonneg.mpr (by positivity)
    rcases roundHalfEven_eq_or (x / 2 ^ lastPlace x) with hround | hround <;> omega
  unfold roundDouble
  positivity

/-- A number that is not subnormal is rounded up by at most the unit roundoff. -/
theorem roundDouble_le_mul {x : ℚ} (hx : 2 ^ (-1022 : ℤ) ≤ x) :
    roundDouble x ≤ x * (1 + unitRoundoff) := by
  have hpos := lt_of_lt_of_le (by positivity) hx
  have hlog : (-1022 : ℤ) ≤ Int.log 2 x := by
    rw [← Int.zpow_le_iff_le_log (by norm_num) hpos]
    exact_mod_cast hx
  have hplace : (2 : ℚ) ^ lastPlace x / 2 = 2 ^ Int.log 2 x * unitRoundoff := by
    rw [lastPlace, abs_of_pos hpos, max_eq_left hlog, unitRoundoff, sub_eq_add_neg,
      zpow_add₀ (by norm_num)]
    norm_num
    ring
  have hbase : (2 : ℚ) ^ Int.log 2 x ≤ x := by
    exact_mod_cast Int.zpow_log_le_self (b := 2) (by norm_num) hpos
  have hnear := (abs_le.mp (abs_roundDouble_sub_le x)).2
  have hunit := unitRoundoff_pos
  calc roundDouble x ≤ x + 2 ^ lastPlace x / 2 := by linarith
    _ = x + 2 ^ Int.log 2 x * unitRoundoff := by rw [hplace]
    _ ≤ x + x * unitRoundoff := by gcongr
    _ = x * (1 + unitRoundoff) := by ring

theorem roundDouble_lt_one {x : ℚ} (hx : 0 ≤ x) (hsmall : x < 2 ^ (-1022 : ℤ)) :
    roundDouble x < 1 := by
  rcases hx.eq_or_lt with rfl | hpos
  · simp
  · have hlog : Int.log 2 x < -1022 := by
      rw [← Int.lt_zpow_iff_log_lt (by norm_num) hpos]
      exact_mod_cast hsmall
    have hplace : lastPlace x ≤ -1 := by
      rw [lastPlace, abs_of_pos hpos]
      omega
    have hunit : (2 : ℚ) ^ lastPlace x ≤ 2 ^ (-1 : ℤ) := zpow_le_zpow_right₀ (by norm_num) hplace
    have hhalf : (2 : ℚ) ^ (-1022 : ℤ) ≤ 2 ^ (-1 : ℤ) :=
      zpow_le_zpow_right₀ (by norm_num) (by norm_num)
    have hinverse : (2 : ℚ) ^ (-1 : ℤ) = 1 / 2 := by norm_num
    rw [hinverse] at hunit hhalf
    have hnear := (abs_le.mp (abs_roundDouble_sub_le x)).2
    have hless := hsmall.trans_le hhalf
    calc roundDouble x ≤ x + 2 ^ lastPlace x / 2 := by linarith
      _ < 1 := by linarith

theorem floor_roundDouble_le {x : ℚ} (hx : 0 ≤ x) :
    ⌊roundDouble x⌋ ≤ ⌊x * (1 + unitRoundoff)⌋ := by
  have hunit := unitRoundoff_pos
  rcases lt_or_ge x (2 ^ (-1022 : ℤ)) with hsmall | hlarge
  · have hzero : ⌊roundDouble x⌋ ≤ 0 := by
      rw [← Int.lt_add_one_iff, Int.floor_lt]
      simpa using roundDouble_lt_one hx hsmall
    exact hzero.trans (Int.floor_nonneg.mpr (by positivity))
  · exact Int.floor_le_floor (roundDouble_le_mul hlarge)

/-- A whole number is rounded up by at most the unit roundoff. -/
theorem roundDouble_intCast_le {n : ℤ} (hn : 0 ≤ n) :
    roundDouble n ≤ n * (1 + unitRoundoff) := by
  rcases hn.eq_or_lt with rfl | hpos
  · simp
  · apply roundDouble_le_mul
    calc (2 : ℚ) ^ (-1022 : ℤ) ≤ 1 := zpow_le_one_of_nonpos₀ (by norm_num) (by norm_num)
      _ ≤ n := by exact_mod_cast hpos

end QuantAgent.Library
