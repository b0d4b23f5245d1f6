import Mathlib.Tactic.Common

/-!
# Computations that may raise

What is known of two computations in sequence from what is known of the whole.
-/

namespace QuantAgent.Library

variable {ε α β : Type} {first : Except ε α} {next : α → Except ε β}

theorem exists_of_bind_ok {result : β} (h : first >>= next = .ok result) :
    ∃ value, first = .ok value ∧ next value = .ok result := by
  cases first with
  | error error => cases h
  | ok value => exact ⟨value, rfl, h⟩

theorem exists_of_bind_error {error : ε} (h : first >>= next = .error error) :
    first = .error error ∨ ∃ value, first = .ok value ∧ next value = .error error := by
  cases first with
  | error other => exact .inl (congrArg _ (Except.error.inj h))
  | ok value => exact .inr ⟨value, rfl, h⟩

end QuantAgent.Library
