import Mathlib.Algebra.BigOperators.Group.Finset.Basic

/-!
# Sums by group

The entries of a list that carry a key, group by group: summing within the groups and then over the
keys is summing over the list, as long as the entries without a key of the set contribute nothing.
-/

namespace QuantAgent.Library

variable {α K R : Type} [DecidableEq K] [AddCommMonoid R]

def withKey (key : α → Option K) (entries : List α) (k : K) : List α :=
  entries.filter fun entry ↦ key entry = some k

/-- Entries that contribute nothing can be left out of a sum. -/
theorem sum_filter {p : α → Bool} {amount : α → R} {entries : List α}
    (h : ∀ entry ∈ entries, p entry = false → amount entry = 0) :
    ((entries.filter p).map amount).sum = (entries.map amount).sum := by
  induction entries with
  | nil => rfl
  | cons entry entries ih =>
    have hrest := ih fun other hother ↦ h other (List.mem_cons_of_mem _ hother)
    cases hentry : p entry with
    | true => rw [List.filter_cons_of_pos hentry, List.map_cons, List.map_cons, List.sum_cons,
        List.sum_cons, hrest]
    | false => rw [List.filter_cons_of_neg (by simp [hentry]), List.map_cons, List.sum_cons,
        h entry List.mem_cons_self hentry, zero_add, hrest]

theorem sum_withKey (key : α → Option K) (amount : α → R) {entries : List α} {keys : Finset K}
    (hkeys : ∀ entry ∈ entries, (∃ k ∈ keys, key entry = some k) ∨ amount entry = 0) :
    ∑ k ∈ keys, ((withKey key entries k).map amount).sum = (entries.map amount).sum := by
  induction entries with
  | nil => simp [withKey]
  | cons entry entries ih =>
    have hrest := ih fun other hother ↦ hkeys other (List.mem_cons_of_mem _ hother)
    have hsplit : ∀ k, ((withKey key (entry :: entries) k).map amount).sum =
        (if key entry = some k then amount entry else 0) +
          ((withKey key entries k).map amount).sum := by
      intro k
      rw [withKey, List.filter_cons]
      by_cases h : key entry = some k
      · rw [if_pos (by simpa using h), if_pos h, List.map_cons, List.sum_cons]
        rfl
      · rw [if_neg (by simpa using h), if_neg h, zero_add]
        rfl
    rw [Finset.sum_congr rfl fun k _ ↦ hsplit k, Finset.sum_add_distrib, hrest, List.map_cons,
      List.sum_cons]
    congr 1
    rcases hkeys entry List.mem_cons_self with ⟨k, hk, hkey⟩ | hzero
    · rw [Finset.sum_eq_single k]
      · exact if_pos hkey
      · intro other _ hne
        apply if_neg
        intro hother
        exact hne (Option.some.inj (hother.symm.trans hkey))
      · exact fun hnot ↦ absurd hk hnot
    · rw [hzero]
      apply Finset.sum_eq_zero
      intro k _
      exact ite_self 0

end QuantAgent.Library
