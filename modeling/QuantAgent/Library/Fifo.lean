import Mathlib.Algebra.BigOperators.Group.List.Basic
import Mathlib.Algebra.Order.Group.Defs
import Mathlib.Tactic.Abel

/-!
# First in, first out

Parcels of a divisible stock in the order they came in, some of which may be taken from.  Taking a
quantity goes through the eligible parcels from the front, removes what is used up and shortens the
last one; the others stay as they are.
-/

namespace QuantAgent.Library

/-- How much a parcel holds, and how it is made to hold less. -/
structure Parcels (α R : Type) where
  size : α → R
  resize : α → R → α
  size_resize : ∀ parcel amount, size (resize parcel amount) = amount

namespace Parcels

variable {α R : Type} [AddCommGroup R] [LinearOrder R] (P : Parcels α R)

def total (parcels : List α) : R := (parcels.map P.size).sum

def available (eligible : α → Bool) (parcels : List α) : R := P.total (parcels.filter eligible)

def consume (eligible : α → Bool) : R → List α → List α
  | _, [] => []
  | amount, parcel :: rest =>
    if amount ≤ 0 ∨ eligible parcel = false then parcel :: consume eligible amount rest
    else
      let taken := min amount (P.size parcel)
      if taken < P.size parcel then
        P.resize parcel (P.size parcel - taken) :: consume eligible (amount - taken) rest
      else consume eligible (amount - taken) rest

section

omit [LinearOrder R]

@[simp]
theorem total_nil : P.total ([] : List α) = 0 := rfl

@[simp]
theorem total_cons (parcel : α) (rest : List α) :
    P.total (parcel :: rest) = P.size parcel + P.total rest := rfl

theorem total_append (first second : List α) :
    P.total (first ++ second) = P.total first + P.total second := by
  simp [total]

theorem total_filter_add (eligible : α → Bool) (parcels : List α) :
    P.available eligible parcels + P.available (fun parcel ↦ !eligible parcel) parcels =
      P.total parcels := by
  induction parcels with
  | nil => simp [available]
  | cons parcel rest ih =>
    simp only [available] at ih ⊢
    cases h : eligible parcel <;> simp only [List.filter_cons, h, Bool.not_true, Bool.not_false,
      if_true, Bool.false_eq_true, if_false, total_cons, ← ih]
    · abel
    · abel

end

variable {P}

variable {eligible wider : α → Bool} {amount : R}

theorem consume_of_nonpos (h : amount ≤ 0) (parcels : List α) :
    P.consume eligible amount parcels = parcels := by
  induction parcels with
  | nil => rfl
  | cons parcel rest ih => rw [consume, if_pos (.inl h), ih]

theorem filter_not_consume
    (hresize : ∀ parcel amount, eligible (P.resize parcel amount) = eligible parcel) (amount : R)
    (parcels : List α) :
    (P.consume eligible amount parcels).filter (fun parcel ↦ !eligible parcel) =
      parcels.filter fun parcel ↦ !eligible parcel := by
  induction parcels generalizing amount with
  | nil => rfl
  | cons parcel rest ih =>
    rw [consume]
    split
    · rw [List.filter_cons, List.filter_cons, ih]
    · rename_i hnot
      have heligible : eligible parcel = true := by
        cases h : eligible parcel
        · exact absurd (.inr h) hnot
        · rfl
      simp only
      split
      · rw [List.filter_cons, List.filter_cons, ih, hresize, heligible]
        simp
      · rw [List.filter_cons, ih, heligible]
        simp

variable {parcels : List α}

/-- No parcel is emptied without being removed. -/
theorem pos_of_mem_consume [IsOrderedAddMonoid R] (hpos : ∀ parcel ∈ parcels, 0 < P.size parcel) :
    ∀ parcel ∈ P.consume eligible amount parcels, 0 < P.size parcel := by
  induction parcels generalizing amount with
  | nil => intro parcel h; cases h
  | cons first rest ih =>
    have hrest : ∀ parcel ∈ rest, 0 < P.size parcel :=
      fun parcel h ↦ hpos parcel (List.mem_cons_of_mem _ h)
    rw [consume]
    split
    · intro parcel h
      rcases List.mem_cons.mp h with rfl | h
      · exact hpos parcel List.mem_cons_self
      · exact ih hrest parcel h
    · simp only
      split
      · rename_i hless
        intro parcel h
        rcases List.mem_cons.mp h with rfl | h
        · rw [P.size_resize]
          exact sub_pos.mpr hless
        · exact ih hrest parcel h
      · exact ih hrest

theorem of_mem_consume {parcel : α} (h : parcel ∈ P.consume eligible amount parcels) :
    ∃ before ∈ parcels, parcel = before ∨ ∃ left, parcel = P.resize before left := by
  induction parcels generalizing amount with
  | nil => cases h
  | cons first rest ih =>
    have hlater : ∀ amount, parcel ∈ P.consume eligible amount rest →
        ∃ before ∈ first :: rest, parcel = before ∨ ∃ left, parcel = P.resize before left := by
      intro amount hmem
      obtain ⟨before, hbefore, heq⟩ := ih hmem
      exact ⟨before, List.mem_cons_of_mem _ hbefore, heq⟩
    rw [consume] at h
    split at h
    · rcases List.mem_cons.mp h with rfl | h
      · exact ⟨parcel, List.mem_cons_self, .inl rfl⟩
      · exact hlater _ h
    · simp only at h
      split at h
      · rcases List.mem_cons.mp h with rfl | h
        · exact ⟨first, List.mem_cons_self, .inr ⟨_, rfl⟩⟩
        · exact hlater _ h
      · exact hlater _ h

/-- What can be taken is taken, and no more. -/
theorem available_consume [IsOrderedAddMonoid R]
    (hresize : ∀ parcel amount, eligible (P.resize parcel amount) = eligible parcel)
    (hpos : ∀ parcel ∈ parcels, 0 < P.size parcel) (hamount : 0 ≤ amount)
    (henough : amount ≤ P.available eligible parcels) :
    P.available eligible (P.consume eligible amount parcels) =
      P.available eligible parcels - amount := by
  induction parcels generalizing amount with
  | nil =>
    have hzero := le_antisymm henough hamount
    simp [consume, available, hzero]
  | cons first rest ih =>
    have hrest : ∀ parcel ∈ rest, 0 < P.size parcel :=
      fun parcel h ↦ hpos parcel (List.mem_cons_of_mem _ h)
    rcases hamount.eq_or_lt with rfl | hpositive
    · rw [consume_of_nonpos le_rfl, sub_zero]
    · rw [consume]
      cases heligible : eligible first
      · rw [if_pos (.inr rfl)]
        simp only [available, List.filter_cons, heligible, Bool.false_eq_true, if_false] at henough ⊢
        exact ih hrest hamount henough
      · rw [if_neg (by simp [hpositive])]
        simp only [available, List.filter_cons, heligible, if_true, total_cons] at henough ⊢
        by_cases hless : amount < P.size first
        · simp only [min_eq_left hless.le, hless, if_true, sub_self]
          rw [consume_of_nonpos le_rfl, List.filter_cons, hresize, heligible, if_pos rfl,
            total_cons, P.size_resize]
          abel
        · have hused := not_lt.mp hless
          simp only [min_eq_right hused, lt_self_iff_false, if_false]
          have hleft := sub_le_iff_le_add'.mpr henough
          have hih := ih hrest (sub_nonneg.mpr hused) hleft
          simp only [available] at hih
          rw [hih]
          abel

section

variable (himp : ∀ parcel, eligible parcel = true → wider parcel = true)
include himp

omit [LinearOrder R] in
/-- What a wider condition makes available splits into what the narrower one does and the rest. -/
theorem available_of_imp (parcels : List α) :
    P.available wider parcels = P.available eligible parcels +
      P.available wider (parcels.filter fun parcel ↦ !eligible parcel) := by
  have hinner : (parcels.filter wider).filter eligible = parcels.filter eligible := by
    rw [List.filter_filter]
    refine List.filter_congr ?_
    intro parcel _
    cases heligible : eligible parcel with
    | false => rfl
    | true => rw [himp parcel heligible, Bool.and_self]
  calc P.available wider parcels
      = P.available eligible (parcels.filter wider) +
          P.available (fun parcel ↦ !eligible parcel) (parcels.filter wider) :=
        (total_filter_add P eligible (parcels.filter wider)).symm
    _ = _ := by
        simp only [available]
        rw [hinner, List.filter_comm]

/-- What is taken is no longer available under a wider condition either, and nothing else is gone. -/
theorem available_consume_of_imp [IsOrderedAddMonoid R]
    (hresize : ∀ parcel amount, eligible (P.resize parcel amount) = eligible parcel)
    (hpos : ∀ parcel ∈ parcels, 0 < P.size parcel) (hamount : 0 ≤ amount)
    (henough : amount ≤ P.available eligible parcels) :
    P.available wider (P.consume eligible amount parcels) = P.available wider parcels - amount := by
  rw [available_of_imp himp, filter_not_consume hresize,
    available_consume hresize hpos hamount henough, available_of_imp himp parcels]
  abel

end

/-- Taking leaves no more of anything than there was. -/
theorem available_consume_le [IsOrderedAddMonoid R] {counted : α → Bool}
    (hresize : ∀ parcel amount, counted (P.resize parcel amount) = counted parcel)
    (hpos : ∀ parcel ∈ parcels, 0 < P.size parcel) :
    P.available counted (P.consume eligible amount parcels) ≤ P.available counted parcels := by
  induction parcels generalizing amount with
  | nil => exact le_refl _
  | cons first rest ih =>
    have hfirst := hpos first List.mem_cons_self
    have hrest : ∀ parcel ∈ rest, 0 < P.size parcel :=
      fun parcel h ↦ hpos parcel (List.mem_cons_of_mem _ h)
    have hsplit : ∀ parcel parcels, P.available counted (parcel :: parcels) =
        (if counted parcel = true then P.size parcel else 0) + P.available counted parcels := by
      intro parcel parcels
      unfold available
      rw [List.filter_cons]
      split
      · exact P.total_cons _ _
      · exact (zero_add _).symm
    rw [consume]
    split
    · rw [hsplit, hsplit]
      exact add_le_add_right (ih hrest) _
    · rename_i hnot
      have hsome := not_le.mp fun h ↦ hnot (.inl h)
      simp only
      split
      · rw [hsplit, hsplit, hresize, P.size_resize]
        refine add_le_add ?_ (ih hrest)
        split
        · exact sub_le_self _ (le_min hsome.le hfirst.le)
        · exact le_refl 0
      · rw [hsplit]
        refine (ih hrest).trans (le_add_of_nonneg_left ?_)
        split
        · exact hfirst.le
        · exact le_refl 0

theorem total_consume [IsOrderedAddMonoid R]
    (hresize : ∀ parcel amount, eligible (P.resize parcel amount) = eligible parcel)
    (hpos : ∀ parcel ∈ parcels, 0 < P.size parcel) (hamount : 0 ≤ amount)
    (henough : amount ≤ P.available eligible parcels) :
    P.total (P.consume eligible amount parcels) = P.total parcels - amount := by
  have hall : ∀ parcels : List α, P.available (fun _ ↦ true) parcels = P.total parcels := by
    intro parcels
    rw [available, List.filter_true]
  rw [← hall, ← hall parcels]
  exact available_consume_of_imp (fun _ _ ↦ rfl) hresize hpos hamount henough

end Parcels

end QuantAgent.Library
