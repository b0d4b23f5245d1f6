import QuantAgent.Library.Decimal

/-!
# Dates as text

The texts that are the exact ISO form of a calendar date.
-/

namespace QuantAgent.Library.IsoDate

def daysIn (year month : ℕ) : ℕ :=
  if month = 2 then if year % 4 = 0 && (year % 100 ≠ 0 || year % 400 = 0) then 29 else 28
  else if month ∈ [4, 6, 9, 11] then 30 else 31

/-- `YYYY-MM-DD`, with a day that exists. -/
def isExact (text : String) : Bool :=
  match text.toList with
  | [y₁, y₂, y₃, y₄, first, m₁, m₂, second, d₁, d₂] =>
    let year := ofDecimal [y₁, y₂, y₃, y₄]
    let month := ofDecimal [m₁, m₂]
    let day := ofDecimal [d₁, d₂]
    [y₁, y₂, y₃, y₄, m₁, m₂, d₁, d₂].all Char.isDigit && first = '-' && second = '-' &&
      1 ≤ year && 1 ≤ month && month ≤ 12 && 1 ≤ day && day ≤ daysIn year month
  | _ => false

theorem isDigit_lt {c : Char} (h : c.isDigit = true) : c.toNat < 128 := by
  simp only [Char.isDigit, Bool.and_eq_true, decide_eq_true_eq] at h
  have hle : c.val.toNat ≤ 57 := by simpa using UInt32.le_iff_toNat_le.mp h.2
  have htoNat : c.toNat = c.val.toNat := rfl
  omega

theorem isExact_ascii {text : String} (h : isExact text = true) :
    ∀ c ∈ text.toList, c.toNat < 128 := by
  unfold isExact at h
  split at h
  · rename_i y₁ y₂ y₃ y₄ first m₁ m₂ second d₁ d₂ htext
    simp only [List.all_cons, List.all_nil, Bool.and_true, Bool.and_eq_true, decide_eq_true_eq] at h
    intro c hc
    rw [htext] at hc
    obtain ⟨⟨⟨⟨⟨⟨⟨hdigits, hfirst⟩, hsecond⟩, _⟩, _⟩, _⟩, _⟩, _⟩ := h
    obtain ⟨hy₁, hy₂, hy₃, hy₄, hm₁, hm₂, hd₁, hd₂⟩ := hdigits
    have hdash : '-'.toNat < 128 := by decide
    simp only [List.mem_cons, List.not_mem_nil, or_false] at hc
    rcases hc with rfl | rfl | rfl | rfl | rfl | rfl | rfl | rfl | rfl | rfl
    · exact isDigit_lt hy₁
    · exact isDigit_lt hy₂
    · exact isDigit_lt hy₃
    · exact isDigit_lt hy₄
    · exact hfirst ▸ hdash
    · exact isDigit_lt hm₁
    · exact isDigit_lt hm₂
    · exact hsecond ▸ hdash
    · exact isDigit_lt hd₁
    · exact isDigit_lt hd₂
  · cases h

example : isExact "2024-02-29" = true := by decide

end QuantAgent.Library.IsoDate
