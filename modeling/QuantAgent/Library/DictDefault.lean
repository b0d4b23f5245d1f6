import QuantAgent.Library.Dict

/-!
# Values stored once

Storing a value only where there is none: the first value under a key stays.
-/

namespace QuantAgent.Library.Dict

variable {K V : Type} [DecidableEq K]

/-- `d.setdefault(key, value)`. -/
def setDefault (d : Dict K V) (key : K) (value : V) : Dict K V :=
  if (d.get? key).isSome then d else d.insert key value

/-- `d.get(key)` after a store where there was nothing. -/
theorem get?_setDefault (d : Dict K V) (key other : K) (value : V) :
    (d.setDefault key value).get? other =
      if other = key then some ((d.get? key).getD value) else d.get? other := by
  unfold setDefault
  cases hfound : d.get? key with
  | none =>
    rw [if_neg (by simp), get?_insert]
    rfl
  | some found =>
    rw [Option.isSome_some, if_pos rfl]
    split
    · rename_i h
      rw [h, hfound]
      rfl
    · rfl

/-- A value is held under some key exactly when it is among the values. -/
theorem mem_values_iff {d : Dict K V} {value : V} :
    value ∈ d.values ↔ ∃ key, d.get? key = some value := by
  constructor
  · intro h
    obtain ⟨entry, hentry, heq⟩ := List.mem_map.mp h
    exact ⟨entry.1, get?_of_mem_entries (by rw [← heq]; exact hentry)⟩
  · intro h
    obtain ⟨key, hkey⟩ := h
    exact List.mem_map.mpr ⟨(key, value), mem_entries_of_get? hkey, rfl⟩

end QuantAgent.Library.Dict
