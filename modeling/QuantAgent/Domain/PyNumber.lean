import QuantAgent.Domain.Number
import QuantAgent.Library.Decimal
import QuantAgent.Library.Json

/-!
# Integers and floats

The numbers that are recorded: unbounded integers, and finite floats known by their shortest
printed form.  A float token holds a point or an exponent, so the two kinds never print alike.
-/

namespace QuantAgent.Domain

open Library

structure FloatText where
  chars : List Char
  marked : '.' ∈ chars ∨ 'e' ∈ chars
  numeric : ∀ c ∈ chars, c.isDigit ∨ c ∈ ['-', '+', '.', 'e', 'E']
  start : (chars.head?.any fun c ↦ c.isDigit || c = '-') = true

namespace FloatText

/-- The float a numeral with a point or an exponent stands for. -/
def ofChars (chars : List Char) : Option FloatText :=
  if h : ('.' ∈ chars ∨ 'e' ∈ chars) ∧
      (chars.all fun c ↦ c.isDigit || ['-', '+', '.', 'e', 'E'].contains c) = true ∧
      (chars.head?.any fun c ↦ c.isDigit || c = '-') = true then
    some ⟨chars, h.1, by simpa using h.2.1, h.2.2⟩
  else none

theorem ofChars_chars (token : FloatText) : ofChars token.chars = some token :=
  dif_pos ⟨token.marked, by simpa using token.numeric, token.start⟩

/-- The value of the digits before the exponent, without their sign and point. -/
def mantissa (token : FloatText) : ℕ :=
  ofDecimal ((token.chars.takeWhile (· ≠ 'e')).filter Char.isDigit)

/-- The number of digits behind the point. -/
def scale (token : FloatText) : ℕ :=
  ((token.chars.takeWhile (· ≠ 'e')).dropWhile (· ≠ '.')).tail.length

def exponent (token : FloatText) : ℤ :=
  match (token.chars.dropWhile (· ≠ 'e')).tail with
  | '-' :: digits => -(ofDecimal digits : ℤ)
  | '+' :: digits => ofDecimal digits
  | digits => ofDecimal digits

def value (token : FloatText) : ℚ :=
  (if token.chars.head? = some '-' then -1 else 1) * token.mantissa *
    (10 : ℚ) ^ (token.exponent - token.scale)

end FloatText

inductive PyNumber where
  | int (value : ℤ)
  | float (token : FloatText)

namespace PyNumber

def printInt (value : ℤ) : List Char :=
  if value < 0 then '-' :: decimal value.natAbs else decimal value.natAbs

theorem printInt_chars (value : ℤ) : ∀ c ∈ printInt value, c.isDigit ∨ c = '-' := by
  intro c hc
  unfold printInt at hc
  split at hc
  · rcases List.mem_cons.mp hc with rfl | hc
    · exact .inr rfl
    · exact .inl (decimal_isDigit _ c hc)
  · exact .inl (decimal_isDigit _ c hc)

theorem printInt_numeric (value : ℤ) :
    ∀ c ∈ printInt value, c.isDigit ∨ c ∈ ['-', '+', '.', 'e', 'E'] := by
  intro c hc
  rcases printInt_chars value c hc with hd | rfl
  · exact .inl hd
  · exact .inr (by decide)

theorem printInt_start (value : ℤ) :
    ∃ c rest, printInt value = c :: rest ∧ (c.isDigit ∨ c = '-') := by
  unfold printInt
  split
  · exact ⟨'-', _, rfl, .inr rfl⟩
  · obtain ⟨c, rest, h⟩ := List.exists_cons_of_ne_nil (decimal_ne_nil value.natAbs)
    exact ⟨c, rest, h, .inl (decimal_isDigit value.natAbs c (by simp [h]))⟩

/-- The float an integer is converted to, for integers that are printed without an exponent. -/
def floatOfInt (value : ℤ) : FloatText where
  chars := printInt value ++ ['.', '0']
  marked := .inl (by simp)
  numeric := by
    intro c hc
    rcases List.mem_append.mp hc with hc | hc
    · exact printInt_numeric value c hc
    · simp only [List.mem_cons, List.not_mem_nil, or_false] at hc
      rcases hc with rfl | rfl
      · exact .inr (by decide)
      · exact .inl (by decide)
  start := by
    obtain ⟨c, rest, h, hc⟩ := printInt_start value
    rw [h]
    simpa using hc

/-- Integers of sixteen digits and more are beyond this instance: their floats are rounded. -/
instance : Number PyNumber where
  natCast n := .int n
  zero := .float (floatOfInt 0)
  toInt
    | .int value => .int value
    | .float token => .int (truncate token.value)
  toFloat
    | .int value => if value.natAbs < 10 ^ 15 then some (.float (floatOfInt value)) else none
    | .float token => some (.float token)
  truthy
    | .int value => value ≠ 0
    | .float token => token.mantissa ≠ 0
  toInt_natCast _ := rfl

def print : PyNumber → List Char
  | .int value => printInt value
  | .float token => token.chars

def readInt : List Char → PyNumber
  | '-' :: digits => .int (-(ofDecimal digits : ℤ))
  | digits => .int (ofDecimal digits)

theorem readInt_printInt (value : ℤ) : readInt (printInt value) = .int value := by
  unfold printInt
  split
  · rw [readInt, ofDecimal_decimal]
    congr 1
    omega
  · rw [readInt, ofDecimal_decimal]
    · congr 1
      omega
    · intro digits h
      exact absurd (decimal_isDigit _ '-' (by rw [h]; exact List.mem_cons_self)) (by decide)

/-- A numeral with a point or an exponent is a float, any other one an integer. -/
def read (chars : List Char) : Option PyNumber :=
  match FloatText.ofChars chars with
  | some token => some (.float token)
  | none =>
    if chars.all (fun c ↦ c.isDigit || c = '-') then some (readInt chars) else none

theorem ofChars_printInt (value : ℤ) : FloatText.ofChars (printInt value) = none := by
  refine dif_neg ?_
  rintro ⟨h | h, -, -⟩
  · exact absurd (printInt_chars value _ h) (by decide)
  · exact absurd (printInt_chars value _ h) (by decide)

instance : NumText PyNumber where
  print := print
  read := read
  read_print
    | .int value => by
        have hall : (printInt value).all (fun c ↦ c.isDigit || c = '-') = true := by
          rw [List.all_eq_true]
          intro c hc
          simpa using printInt_chars value c hc
        rw [print, read, ofChars_printInt, if_pos hall, readInt_printInt]
    | .float token => by
        rw [print, read, token.ofChars_chars]
  print_chars
    | .int value => printInt_numeric value
    | .float token => token.numeric
  print_start
    | .int value => printInt_start value
    | .float token => by
        have hstart := token.start
        cases hchars : token.chars with
        | nil => simp [hchars] at hstart
        | cons c rest =>
          rw [hchars] at hstart
          exact ⟨c, rest, hchars, by simpa using hstart⟩

end PyNumber

end QuantAgent.Domain
