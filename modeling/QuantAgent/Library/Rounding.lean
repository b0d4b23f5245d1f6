import Mathlib.Data.Rat.Floor

/-!
# Rounding

Rounding of rational numbers to the nearest integer with ties to the even neighbour, and to a
number of decimal places.
-/

namespace QuantAgent.Library

/-- The nearest integer; of two equally near ones the even one. -/
def roundHalfEven (x : ℚ) : ℤ :=
  if x - ⌊x⌋ < 1 / 2 then ⌊x⌋
  else if 1 / 2 < x - ⌊x⌋ then ⌊x⌋ + 1
  else if ⌊x⌋ % 2 = 0 then ⌊x⌋ else ⌊x⌋ + 1

def roundCents (x : ℚ) : ℚ := roundHalfEven (x * 100) / 100

@[simp]
theorem roundHalfEven_intCast (n : ℤ) : roundHalfEven (n : ℚ) = n := by
  simp [roundHalfEven]

theorem roundHalfEven_eq_or (x : ℚ) : roundHalfEven x = ⌊x⌋ ∨ roundHalfEven x = ⌊x⌋ + 1 := by
  unfold roundHalfEven
  split
  · exact .inl rfl
  · split
    · exact .inr rfl
    · split
      · exact .inl rfl
      · exact .inr rfl

variable {x ε : ℚ} {n k : ℤ}

/-- The nearest integer is the only one nearer than a half. -/
theorem roundHalfEven_of_near (h : |x - n| < 1 / 2) : roundHalfEven x = n := by
  obtain ⟨hlow, hhigh⟩ := abs_lt.mp h
  rcases le_or_gt (n : ℚ) x with hle | hlt
  · have hfloor := Int.floor_eq_iff.mpr ⟨hle, by linarith⟩
    rw [roundHalfEven, hfloor, if_pos hhigh]
  · have hfloor : ⌊x⌋ = n - 1 := Int.floor_eq_iff.mpr ⟨by push_cast; linarith, by push_cast; linarith⟩
    have hnear : ¬ x - ((n - 1 : ℤ) : ℚ) < 1 / 2 := by
      push_cast
      linarith
    have hfar : 1 / 2 < x - ((n - 1 : ℤ) : ℚ) := by
      push_cast
      linarith
    rw [roundHalfEven, hfloor, if_neg hnear, if_pos hfar, Int.sub_add_cancel]

/-- Rounding stays below an integer bound. -/
theorem roundHalfEven_le (h : x ≤ n) : roundHalfEven x ≤ n := by
  have hfloor : ⌊x⌋ ≤ n := Int.floor_le_iff.mpr (by linarith)
  rcases hfloor.lt_or_eq with hlt | heq
  · rcases roundHalfEven_eq_or x with hround | hround <;> omega
  · have hexact : x - ⌊x⌋ < 1 / 2 := by
      rw [heq]
      linarith
    rw [roundHalfEven, if_pos hexact, heq]

/-- A larger number does not round smaller. -/
theorem roundHalfEven_mono {y : ℚ} (h : x ≤ y) : roundHalfEven x ≤ roundHalfEven y := by
  rcases (Int.floor_le_floor h).lt_or_eq with hlt | hfloor
  · rcases roundHalfEven_eq_or x with hx | hx <;> rcases roundHalfEven_eq_or y with hy | hy <;>
      omega
  · -- within one step the two fractions decide
    have hfraction : x - ⌊x⌋ ≤ y - ⌊y⌋ := by
      rw [hfloor]
      linarith
    unfold roundHalfEven
    rw [hfloor] at hfraction ⊢
    by_cases hx : x - ⌊y⌋ < 1 / 2
    · rw [if_pos hx]
      split
      · exact le_rfl
      · split
        · omega
        · split <;> omega
    · have hy : ¬ y - ⌊y⌋ < 1 / 2 := by linarith
      rw [if_neg hx, if_neg hy]
      by_cases hx' : 1 / 2 < x - ⌊y⌋
      · rw [if_pos hx', if_pos (lt_of_lt_of_le hx' hfraction)]
      · rw [if_neg hx']
        by_cases heven : ⌊y⌋ % 2 = 0
        · rw [if_pos heven]
          split <;> omega
        · rw [if_neg heven]
          split <;> omega

/-- A higher price does not round lower. -/
theorem roundCents_mono : Monotone roundCents := by
  intro x y h
  have hscaled : x * 100 ≤ y * 100 := by linarith
  have hround : (roundHalfEven (x * 100) : ℚ) ≤ roundHalfEven (y * 100) :=
    Int.cast_le.mpr (roundHalfEven_mono hscaled)
  unfold roundCents
  linarith

@[simp]
theorem roundCents_roundCents (x : ℚ) : roundCents (roundCents x) = roundCents x := by
  have hscaled : roundCents x * 100 = (roundHalfEven (x * 100) : ℤ) := by
    rw [roundCents]
    ring
  rw [roundCents, hscaled, roundHalfEven_intCast]
  rfl

theorem abs_roundHalfEven_sub_le (x : ℚ) : |roundHalfEven x - x| ≤ 1 / 2 := by
  have hlow := Int.floor_le x
  have hhigh := Int.lt_floor_add_one x
  unfold roundHalfEven
  split
  · rw [abs_le]
    constructor <;> linarith
  · split
    · push_cast
      rw [abs_le]
      constructor <;> linarith
    · split
      · rw [abs_le]
        constructor <;> linarith
      · push_cast
        rw [abs_le]
        constructor <;> linarith

/-- Rounding to the cent moves a price by at most half a cent. -/
theorem abs_roundCents_sub_le (x : ℚ) : |roundCents x - x| ≤ 1 / 200 := by
  have hscaled : roundCents x - x = (roundHalfEven (x * 100) - x * 100) / 100 := by
    rw [roundCents]
    ring
  calc |roundCents x - x| = |roundHalfEven (x * 100) - x * 100| / 100 := by
        rw [hscaled, abs_div, abs_of_pos (by norm_num : (0 : ℚ) < 100)]
    _ ≤ 1 / 2 / 100 := by
        have hnear := abs_roundHalfEven_sub_le (x * 100)
        gcongr
    _ = 1 / 200 := by norm_num

/-- The nearest integer; of two equally near ones the larger. -/
def roundHalfUp (x : ℚ) : ℤ := ⌊x + 1 / 2⌋

/-- A step smaller than the mesh of a grid does not reach the next integer. -/
theorem floor_grid {d : ℕ} (hd : 0 < d) (hε : 0 ≤ ε) (hmesh : ε < 1 / d) :
    ⌊(k : ℚ) / d + ε⌋ = ⌊(k : ℚ) / d⌋ := by
  have hpos : (0 : ℚ) < d := by exact_mod_cast hd
  have hlow := Int.floor_le ((k : ℚ) / d)
  have hhigh := Int.lt_floor_add_one ((k : ℚ) / d)
  have hnext : ((k : ℚ) + 1) / d ≤ ⌊(k : ℚ) / d⌋ + 1 := by
    rw [div_lt_iff₀ hpos] at hhigh
    rw [div_le_iff₀ hpos]
    exact_mod_cast hhigh
  apply Int.floor_eq_iff.mpr
  refine ⟨by linarith, ?_⟩
  calc (k : ℚ) / d + ε < (k : ℚ) / d + 1 / d := by linarith
    _ = ((k : ℚ) + 1) / d := by rw [add_div]
    _ ≤ ⌊(k : ℚ) / d⌋ + 1 := hnext

/-- Halves are rounded up when a step smaller than the mesh is added first. -/
theorem roundHalfEven_grid {m : ℕ} (hm : 0 < m) (hε : 0 < ε) (hmesh : ε < 1 / (2 * m : ℕ)) :
    roundHalfEven ((k : ℚ) / (2 * m : ℕ) + ε) = roundHalfUp ((k : ℚ) / (2 * m : ℕ)) := by
  have hne : (m : ℚ) ≠ 0 := by exact_mod_cast hm.ne'
  have hhalf : (k : ℚ) / (2 * m : ℕ) + 1 / 2 = ((k + m : ℤ) : ℚ) / (2 * m : ℕ) := by
    push_cast
    field_simp
  have hstep := floor_grid (k := k + m) (by omega : 0 < 2 * m) hε.le hmesh
  rw [← hhalf] at hstep
  have hfrom := Int.floor_le ((k : ℚ) / (2 * m : ℕ) + 1 / 2)
  have hto := Int.lt_floor_add_one ((k : ℚ) / (2 * m : ℕ) + 1 / 2 + ε)
  rw [hstep] at hto
  apply roundHalfEven_of_near
  unfold roundHalfUp
  rw [abs_lt]
  constructor <;> linarith

end QuantAgent.Library
