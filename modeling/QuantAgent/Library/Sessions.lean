import Mathlib.Data.List.Nodup
import Mathlib.Order.Lattice

/-!
# Dates on an axis

An axis is a strictly increasing list of dates.  A date stands before a position of the axis exactly
when no more dates than that are up to it, and two axes that are counted over the same span differ
by the dates the one has and the other has not.
-/

namespace QuantAgent.Library

variable {D : Type*} [LinearOrder D]

/-- How many dates of an axis there are up to a date. -/
def upTo (axis : List D) (date : D) : ℕ :=
  axis.countP fun other ↦ other ≤ date

/-- How many dates of an axis fall behind one date and up to another. -/
def spanned (axis : List D) (first last : D) : ℕ :=
  axis.countP fun other ↦ first < other ∧ other ≤ last

/-- How many of these another axis does not have. -/
def unmatched (axis other : List D) (first last : D) : ℕ :=
  axis.countP fun date ↦ (first < date ∧ date ≤ last) ∧ date ∉ other

theorem upTo_eq_add (axis : List D) {first last : D} (h : first ≤ last) :
    upTo axis last = upTo axis first + spanned axis first last := by
  induction axis with
  | nil => rfl
  | cons date axis ih =>
    simp only [upTo, spanned, List.countP_cons] at ih ⊢
    rcases le_or_gt date first with hfirst | hfirst
    · have hlast := hfirst.trans h
      simp [hfirst, hlast, hfirst.not_gt, ih]
      omega
    · by_cases hlast : date ≤ last
      · simp [hfirst, hlast, hfirst.not_ge, ih]
        omega
      · simp [hlast, hfirst.not_ge, ih]

variable {axis : List D} {position steps count first last : ℕ}

section

variable (h : axis.Pairwise (· < ·))
include h

/-- A date stands before a position exactly when no more dates than that are up to it. -/
theorem lt_getElem_iff (hposition : position < axis.length) (date : D) :
    date < axis[position] ↔ upTo axis date ≤ position := by
  induction axis generalizing position with
  | nil => cases hposition
  | cons first axis ih =>
    obtain ⟨hfirst, haxis⟩ := List.pairwise_cons.mp h
    rcases le_or_gt first date with hle | hlt
    · have hcount : upTo (first :: axis) date = upTo axis date + 1 := by
        simp [upTo, hle]
      rw [hcount]
      cases position with
      | zero => simp [hle]
      | succ position =>
        rw [List.getElem_cons_succ, ih haxis, Nat.add_le_add_iff_right]
    · have hcount : upTo (first :: axis) date = 0 := by
        refine List.countP_eq_zero.mpr fun other hother ↦ ?_
        rcases List.mem_cons.mp hother with rfl | hother
        · simpa using hlt
        · simpa using hlt.trans (hfirst other hother)
      rw [hcount]
      refine iff_of_true ?_ (Nat.zero_le _)
      cases position with
      | zero => exact hlt
      | succ position => exact hlt.trans (hfirst _ (List.getElem_mem _))

theorem upTo_getElem (hposition : position < axis.length) :
    upTo axis axis[position] = position + 1 := by
  refine le_antisymm ?_ ?_
  · by_cases hnext : position + 1 < axis.length
    · exact (lt_getElem_iff h hnext _).mp (List.pairwise_iff_getElem.mp h _ _ _ _ (by omega))
    · have hall : upTo axis axis[position] ≤ axis.length := List.countP_le_length
      omega
  · by_contra hless
    exact lt_irrefl _ ((lt_getElem_iff h hposition _).mpr (by omega))

theorem getElem_le_getElem (hfirst : position < axis.length)
    (hlast : position + steps < axis.length) :
    axis[position] ≤ axis[position + steps] := by
  rcases Nat.eq_zero_or_pos steps with rfl | hpos
  · exact le_rfl
  · exact (List.pairwise_iff_getElem.mp h _ _ _ _ (by omega)).le

/-- Between two positions lie as many dates as steps. -/
theorem spanned_getElem (hfirst : position < axis.length) (hlast : position + steps < axis.length) :
    spanned axis axis[position] axis[position + steps] = steps := by
  have hsum := upTo_eq_add axis (getElem_le_getElem h hfirst hlast)
  rw [upTo_getElem h hlast, upTo_getElem h hfirst] at hsum
  omega

end

theorem spanned_eq_add (axis other : List D) (first last : D) :
    spanned axis first last =
      (axis.filter fun date ↦ (first < date ∧ date ≤ last) ∧ date ∈ other).length +
        unmatched axis other first last := by
  induction axis with
  | nil => rfl
  | cons date axis ih =>
    simp only [spanned, unmatched, List.countP_cons, List.filter_cons] at ih ⊢
    rw [ih]
    by_cases hspan : first < date ∧ date ≤ last
    · by_cases hmem : date ∈ other
      · simp [hspan, hmem]
        omega
      · simp [hspan, hmem]
        omega
    · simp [hspan]

/-- What two axes have over a span, up to the dates that only one of them has. -/
theorem spanned_add_unmatched {other : List D} (haxis : axis.Nodup) (hother : other.Nodup)
    (first last : D) :
    spanned axis first last + unmatched other axis first last =
      spanned other first last + unmatched axis other first last := by
  have hboth : (axis.filter fun date ↦ (first < date ∧ date ≤ last) ∧ date ∈ other).Perm
      (other.filter fun date ↦ (first < date ∧ date ≤ last) ∧ date ∈ axis) := by
    refine (List.perm_ext_iff_of_nodup (haxis.filter _) (hother.filter _)).mpr fun date ↦ ?_
    simp only [List.mem_filter, decide_eq_true_eq]
    tauto
  rw [spanned_eq_add axis other, spanned_eq_add other axis, hboth.length_eq]
  omega

omit [LinearOrder D] in
def block (axis : List D) (position count : ℕ) : List D := (axis.drop position).take count

variable {date other lower upper : D}

omit [LinearOrder D] in
theorem mem_block :
    date ∈ block axis position count ↔
      ∃ steps, steps < count ∧ axis[position + steps]? = some date := by
  rw [block, List.mem_iff_getElem?]
  constructor
  · rintro ⟨steps, hsteps⟩
    rw [List.getElem?_take] at hsteps
    split at hsteps
    · rename_i hless
      exact ⟨steps, hless, by rwa [List.getElem?_drop] at hsteps⟩
    · cases hsteps
  · rintro ⟨steps, hless, hdate⟩
    exact ⟨steps, by rwa [List.getElem?_take, if_pos hless, List.getElem?_drop]⟩

omit [LinearOrder D] in
theorem length_block (h : position + count ≤ axis.length) :
    (block axis position count).length = count := by
  rw [block, List.length_take, List.length_drop]
  omega

section

variable (h : axis.Pairwise (· < ·))
include h

theorem nodup_block (position count : ℕ) :
    (block axis position count).Nodup :=
  ((h.imp fun hless ↦ hless.ne).sublist (List.drop_sublist _ _)).sublist (List.take_sublist _ _)

theorem getElem?_lt (hdate : axis[first]? = some date) (hother : axis[last]? = some other) :
    date < other ↔ first < last := by
  obtain ⟨hfirst, rfl⟩ := List.getElem?_eq_some_iff.mp hdate
  obtain ⟨hlast, rfl⟩ := List.getElem?_eq_some_iff.mp hother
  constructor
  · intro hless
    by_contra hnot
    rcases eq_or_lt_of_le (not_lt.mp hnot) with heq | hback
    · subst heq
      exact lt_irrefl _ hless
    · exact lt_asymm hless (List.pairwise_iff_getElem.mp h _ _ _ _ hback)
  · exact fun hless ↦ List.pairwise_iff_getElem.mp h _ _ _ _ hless

theorem getElem?_le (hdate : axis[first]? = some date) (hother : axis[last]? = some other) :
    date ≤ other ↔ first ≤ last := by
  rw [← not_lt, ← not_lt, getElem?_lt h hother hdate]

/-- The dates from one position to another are a block. -/
theorem mem_between_iff (hlower : axis[first]? = some lower) (hupper : axis[last]? = some upper)
    (date : D) :
    date ∈ axis ∧ lower ≤ date ∧ date ≤ upper ↔ date ∈ block axis first (last + 1 - first) := by
  rw [mem_block]
  constructor
  · rintro ⟨hmem, hfrom, hto⟩
    obtain ⟨position, hposition⟩ := List.mem_iff_getElem?.mp hmem
    rw [getElem?_le h hlower hposition] at hfrom
    rw [getElem?_le h hposition hupper] at hto
    exact ⟨position - first, by omega, by rwa [Nat.add_sub_cancel' hfrom]⟩
  · rintro ⟨steps, hless, hdate⟩
    refine ⟨List.mem_of_getElem? hdate, ?_, ?_⟩
    · rw [getElem?_le h hlower hdate]
      omega
    · rw [getElem?_le h hdate hupper]
      omega

/-- Between two positions with a block between them lie the dates of the block. -/
theorem le_length_between (hlower : axis[first]? = some lower) (hupper : axis[last]? = some upper)
    (hcount : first + count < last) :
    count ≤ (axis.filter fun date ↦ lower < date ∧ date < upper).length := by
  obtain ⟨hlast, -⟩ := List.getElem?_eq_some_iff.mp hupper
  have hlength : (block axis (first + 1) count).length = count := length_block (by omega)
  have hsublist : (block axis (first + 1) count).Sublist axis :=
    (List.take_sublist _ _).trans (List.drop_sublist _ _)
  have hkept : (block axis (first + 1) count).filter (fun date ↦ lower < date ∧ date < upper) =
      block axis (first + 1) count := by
    apply List.filter_eq_self.mpr
    intro date hdate
    obtain ⟨steps, hless, hposition⟩ := mem_block.mp hdate
    rw [decide_eq_true_eq, getElem?_lt h hlower hposition, getElem?_lt h hposition hupper]
    omega
  calc
    count = ((block axis (first + 1) count).filter fun date ↦
        lower < date ∧ date < upper).length := by rw [hkept, hlength]
    _ ≤ _ := (hsublist.filter _).length_le

end

end QuantAgent.Library
