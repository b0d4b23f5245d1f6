import QuantAgent.Domain.PyNumber

/-!
# Exact numbers in print

A printed form for rational numbers, numerator and denominator around a point, so that documents
over exact numbers can be digested.
-/

namespace QuantAgent.Domain

open Library

def printRat (value : ℚ) : List Char :=
  PyNumber.printInt value.num ++ '.' :: decimal value.den

/-- The quotient of what stands before and behind the point. -/
def readRat (chars : List Char) : Option ℚ :=
  match PyNumber.readInt (chars.takeWhile (· ≠ '.')) with
  | .int num => some (num / ofDecimal (chars.dropWhile (· ≠ '.')).tail)
  | .float _ => none

theorem readRat_printRat (value : ℚ) : readRat (printRat value) = some value := by
  have hpoint : ∀ c ∈ PyNumber.printInt value.num, (decide (c ≠ '.')) = true := by
    intro c hc
    rcases PyNumber.printInt_chars value.num c hc with hdigit | rfl
    · exact decide_eq_true fun h ↦ absurd (h ▸ hdigit) (by decide)
    · decide
  have htake : (printRat value).takeWhile (· ≠ '.') = PyNumber.printInt value.num := by
    rw [printRat, List.takeWhile_append_of_pos hpoint]
    simp
  have hdrop : (printRat value).dropWhile (· ≠ '.') = '.' :: decimal value.den := by
    rw [printRat, List.dropWhile_append_of_pos hpoint]
    simp
  rw [readRat, htake, hdrop, PyNumber.readInt_printInt, List.tail_cons, ofDecimal_decimal]
  simp [Rat.num_div_den]

instance : NumText ℚ where
  print := printRat
  read := readRat
  read_print := readRat_printRat
  print_chars value c hc := by
    rcases List.mem_append.mp hc with hc | hc
    · exact PyNumber.printInt_numeric _ c hc
    · rcases List.mem_cons.mp hc with rfl | hc
      · exact .inr (by decide)
      · exact .inl (decimal_isDigit _ c hc)
  print_start value := by
    obtain ⟨c, rest, h, hc⟩ := PyNumber.printInt_start value.num
    exact ⟨c, rest ++ '.' :: decimal value.den, by rw [printRat, h]; rfl, hc⟩

end QuantAgent.Domain
