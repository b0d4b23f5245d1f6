import Mathlib.Data.List.Perm.Basic

/-!
# Taking the smallest first

What a priority queue hands out: an entry that no other entry precedes, and of several such entries
the one that came in first.  Nothing is assumed of the comparison here; where it is consistent on
the entries, what is taken precedes or equals everything left behind.
-/

namespace QuantAgent.Library

variable {α : Type}

/-- The smallest entry of a queue and what is left, in order of arrival. -/
def takeLeast (less : α → α → Bool) : List α → Option (α × List α)
  | [] => none
  | entry :: rest =>
    match takeLeast less rest with
    | none => some (entry, [])
    | some (least, others) =>
      if less least entry then some (least, entry :: others) else some (entry, rest)

/-- The comparison is that of a total preorder on the entries of a list. -/
def Consistent (less : α → α → Bool) (entries : List α) : Prop :=
  ∀ first ∈ entries, ∀ second ∈ entries, ∀ third ∈ entries,
    less second first = false → less third second = false → less third first = false

variable {less : α → α → Bool}

theorem Consistent.subset {entries part : List α} (h : Consistent less entries)
    (hsubset : part ⊆ entries) : Consistent less part :=
  fun first hfirst second hsecond third hthird ↦
    h first (hsubset hfirst) second (hsubset hsecond) third (hsubset hthird)

variable {queue rest : List α}

@[simp]
theorem takeLeast_eq_none_iff : takeLeast less queue = none ↔ queue = [] := by
  cases queue with
  | nil => simp [takeLeast]
  | cons entry rest =>
    simp only [takeLeast, reduceCtorEq, iff_false]
    split
    · simp
    · split <;> simp

variable {least : α}

/-- Taking moves an entry and loses none. -/
theorem perm_of_takeLeast (h : takeLeast less queue = some (least, rest)) :
    queue.Perm (least :: rest) := by
  induction queue generalizing least rest with
  | nil => cases h
  | cons entry others ih =>
    simp only [takeLeast] at h
    split at h
    · rename_i hnone
      cases h
      rw [takeLeast_eq_none_iff.mp hnone]
    · rename_i smallest left hsome
      have hperm := ih hsome
      split at h
      · cases h
        exact (hperm.cons entry).trans (.swap ..)
      · cases h
        exact .refl _

section

variable (hasymm : ∀ first second, less first second = true → less second first = false)
include hasymm

/-- What is left does not precede what was taken. -/
theorem least_of_takeLeast (hconsistent : Consistent less queue)
    (h : takeLeast less queue = some (least, rest)) :
    ∀ entry ∈ rest, less entry least = false := by
  induction queue generalizing least rest with
  | nil => cases h
  | cons entry others ih =>
    have hothers := hconsistent.subset (List.subset_cons_self _ _)
    simp only [takeLeast] at h
    split at h
    · cases h
      simp
    · rename_i smallest left hsome
      have hperm := perm_of_takeLeast hsome
      have hsmallest := hperm.mem_iff.mpr (List.mem_cons_self ..)
      split at h
      · rename_i hless
        cases h
        intro other hother
        rcases List.mem_cons.mp hother with rfl | hleft
        · exact hasymm _ _ hless
        · exact ih hothers hsome other hleft
      · rename_i hless
        cases h
        intro other hother
        rcases List.mem_cons.mp (hperm.mem_iff.mp hother) with rfl | hleft
        · simpa using hless
        · exact hconsistent entry (List.mem_cons_self ..) smallest
            (List.mem_cons_of_mem _ hsmallest) other (List.mem_cons_of_mem _ hother)
            (by simpa using hless) (ih hothers hsome other hleft)

/-- Where the order of the entries is strict, what is taken does not depend on how they came in. -/
theorem takeLeast_perm {queue' : List α} (hperm : queue'.Perm queue)
    (htotal : ∀ first ∈ queue, ∀ second ∈ queue, first = second ∨ less first second = true ∨ less
      second first = true) (hconsistent : Consistent less queue)
    (h : takeLeast less queue = some (least, rest)) :
    ∃ rest', takeLeast less queue' = some (least, rest') ∧ rest'.Perm rest := by
  cases h' : takeLeast less queue' with
  | none =>
    rw [takeLeast_eq_none_iff.mp h'] at hperm
    rw [hperm.symm.eq_nil] at h
    cases h
  | some taken =>
    obtain ⟨least', rest'⟩ := taken
    have hsplit := perm_of_takeLeast h
    have hsplit' := perm_of_takeLeast h'
    have hmem := hsplit.mem_iff.mpr (List.mem_cons_self ..)
    have hmem' := hperm.mem_iff.mp (hsplit'.mem_iff.mpr (List.mem_cons_self ..))
    have hconsistent' := hconsistent.subset hperm.subset
    have heq : least' = least := by
      by_contra hne
      have hleft := (List.mem_cons.mp (hsplit.mem_iff.mp hmem')).resolve_left hne
      have hleft' := (List.mem_cons.mp (hsplit'.mem_iff.mp (hperm.mem_iff.mpr hmem))).resolve_left
        (Ne.symm hne)
      have hafter := least_of_takeLeast hasymm hconsistent h least' hleft
      have hafter' := least_of_takeLeast hasymm hconsistent' h' least hleft'
      rcases htotal least hmem least' hmem' with hsame | hless | hless
      · exact hne hsame.symm
      · rw [hafter'] at hless
        cases hless
      · rw [hafter] at hless
        cases hless
    rw [heq] at hsplit' ⊢
    refine ⟨rest', rfl, ?_⟩
    exact List.Perm.cons_inv (hsplit'.symm.trans (hperm.trans hsplit))

end

end QuantAgent.Library
