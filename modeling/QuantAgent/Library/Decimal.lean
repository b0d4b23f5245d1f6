import Mathlib.Data.Nat.Digits.Defs

/-!
# Decimal numerals

The decimal form of a natural number as characters, and the number it stands for.
-/

namespace QuantAgent.Library

/-- The decimal digits of a number, most significant first. -/
def decimal (n : ℕ) : List Char :=
  if n = 0 then ['0'] else (Nat.digits 10 n).reverse.map Nat.digitChar

/-- The number a list of decimal digits stands for. -/
def ofDecimal (chars : List Char) : ℕ :=
  chars.foldl (fun value c ↦ 10 * value + (c.toNat - 48)) 0

def characterDigest (text : String) : String :=
  String.ofList (Nat.toDigits 16
    (text.toList.foldl (fun digest c ↦ (digest * 131 + c.toNat) % 2 ^ 96) 7))

theorem digitChar_toNat : ∀ d < 10, (Nat.digitChar d).toNat - 48 = d := by
  decide

theorem digitChar_isDigit : ∀ d < 10, (Nat.digitChar d).isDigit = true := by
  decide

theorem foldr_digits (digits : List ℕ) (h : ∀ d ∈ digits, d < 10) :
    (digits.map Nat.digitChar).foldr (fun c value ↦ 10 * value + (c.toNat - 48)) 0 =
      Nat.ofDigits 10 digits := by
  induction digits with
  | nil => rfl
  | cons d digits ih =>
    rw [List.map_cons, List.foldr_cons, ih fun e he ↦ h e (by simp [he]),
      digitChar_toNat d (h d (by simp)), Nat.ofDigits_cons]
    omega

/-- A number is read back from its decimal form. -/
theorem ofDecimal_decimal (n : ℕ) : ofDecimal (decimal n) = n := by
  unfold ofDecimal decimal
  split
  · rename_i h
    rw [h]
    rfl
  · rw [List.map_reverse, List.foldl_reverse,
      foldr_digits _ fun d hd ↦ Nat.digits_lt_base (by omega) hd, Nat.ofDigits_digits]

theorem decimal_isDigit (n : ℕ) : ∀ c ∈ decimal n, c.isDigit = true := by
  intro c hc
  unfold decimal at hc
  split at hc
  · rw [List.mem_singleton.mp hc]
    rfl
  · obtain ⟨d, hd, rfl⟩ := List.mem_map.mp hc
    exact digitChar_isDigit d (Nat.digits_lt_base (by omega) (List.mem_reverse.mp hd))

theorem decimal_ne_nil (n : ℕ) : decimal n ≠ [] := by
  unfold decimal
  split
  · exact List.cons_ne_nil _ _
  · rename_i h
    simpa [Nat.digits_ne_nil_iff_ne_zero] using h

end QuantAgent.Library
