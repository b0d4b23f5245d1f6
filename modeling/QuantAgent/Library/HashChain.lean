import Mathlib.Data.List.Basic
import Mathlib.Data.Nat.Find

/-!
# Hash chains

A list of entries in which every entry carries the digest of its content behind the digest of its
predecessor.  With an injective digest that never yields the start of a chain, a digest stands for
everything before it: two chains that share a digest have it at the same place and agree up to it.
So two chains agree for some entries, and behind these no digest of one occurs in the other.
-/

namespace QuantAgent.Library

variable {E D H : Type}

def Sealed (digest : H → D → H) (content : E → D) (hash : E → H) : H → List E → Prop
  | _, [] => True
  | previous, entry :: rest =>
    hash entry = digest previous (content entry) ∧ Sealed digest content hash (hash entry) rest

namespace Sealed

variable {digest : H → D → H} {content : E → D} {hash : E → H}

theorem first {start : H} {entries : List E} (h : Sealed digest content hash start entries)
    {entry : E} (hentry : entries[0]? = some entry) : hash entry = digest start (content entry) := by
  cases entries with
  | nil => cases hentry
  | cons head rest =>
    rw [List.getElem?_cons_zero] at hentry
    rw [← Option.some.inj hentry]
    exact h.1

/-- Every later entry is sealed behind the one before it. -/
theorem next {start : H} {entries : List E} (h : Sealed digest content hash start entries)
    {index : ℕ} {previous entry : E} (hprevious : entries[index]? = some previous)
    (hentry : entries[index + 1]? = some entry) :
    hash entry = digest (hash previous) (content entry) := by
  induction entries generalizing start index with
  | nil => cases hentry
  | cons head rest ih =>
    rw [List.getElem?_cons_succ] at hentry
    cases index with
    | zero =>
      rw [List.getElem?_cons_zero] at hprevious
      rw [← Option.some.inj hprevious]
      exact h.2.first hentry
    | succ index =>
      rw [List.getElem?_cons_succ] at hprevious
      exact ih h.2 hprevious hentry

/-- An entry behind another one has that one at hand. -/
theorem exists_previous {entries : List E} {index : ℕ} {entry : E}
    (h : entries[index + 1]? = some entry) : ∃ previous, entries[index]? = some previous := by
  have hlength := (List.getElem?_eq_some_iff.mp h).1
  exact ⟨entries[index], List.getElem?_eq_getElem (by omega)⟩

section Injective

variable {same : D → D → Prop} {start : H} {left right : List E}
  (hdigest : ∀ previous previous' document document',
    digest previous document = digest previous' document' →
      previous = previous' ∧ same document document')
  (hstart : ∀ previous document, digest previous document ≠ start)
  (hleft : Sealed digest content hash start left)
  (hright : Sealed digest content hash start right)

include hstart hleft in
/-- No entry carries the digest a chain starts with. -/
theorem hash_ne_start {index : ℕ} {entry : E} (h : left[index]? = some entry) :
    hash entry ≠ start := by
  cases index with
  | zero =>
    rw [hleft.first h]
    exact hstart _ _
  | succ index =>
    obtain ⟨previous, hprevious⟩ := exists_previous h
    rw [hleft.next hprevious h]
    exact hstart _ _

include hdigest hstart hleft hright in
/-- A digest that two chains share stands at the same place in both. -/
theorem index_eq {i j : ℕ} {entry other : E} (hentry : left[i]? = some entry)
    (hother : right[j]? = some other) (hhash : hash entry = hash other) : i = j := by
  induction i generalizing j entry other with
  | zero =>
    cases j with
    | zero => rfl
    | succ j =>
      obtain ⟨previous, hprevious⟩ := exists_previous hother
      rw [hleft.first hentry, hright.next hprevious hother] at hhash
      exact absurd (hdigest _ _ _ _ hhash).1.symm (hash_ne_start hstart hright hprevious)
  | succ i ih =>
    obtain ⟨before, hbefore⟩ := exists_previous hentry
    cases j with
    | zero =>
      rw [hleft.next hbefore hentry, hright.first hother] at hhash
      exact absurd (hdigest _ _ _ _ hhash).1 (hash_ne_start hstart hleft hbefore)
    | succ j =>
      obtain ⟨previous, hprevious⟩ := exists_previous hother
      rw [hleft.next hbefore hentry, hright.next hprevious hother] at hhash
      rw [ih hbefore hprevious (hdigest _ _ _ _ hhash).1]

include hdigest hleft hright in
/-- Two chains that share a digest at a place agree up to it. -/
theorem agree_upto {index : ℕ} {entry other : E} (hentry : left[index]? = some entry)
    (hother : right[index]? = some other) (hhash : hash entry = hash other) {i : ℕ}
    (hi : i ≤ index) : ∃ first second, left[i]? = some first ∧ right[i]? = some second ∧
      hash first = hash second ∧ same (content first) (content second) := by
  induction index generalizing entry other with
  | zero =>
    obtain rfl : i = 0 := by omega
    refine ⟨entry, other, hentry, hother, hhash, ?_⟩
    rw [hleft.first hentry, hright.first hother] at hhash
    exact (hdigest _ _ _ _ hhash).2
  | succ index ih =>
    obtain ⟨before, hbefore⟩ := exists_previous hentry
    obtain ⟨previous, hprevious⟩ := exists_previous hother
    have hsealed := hhash
    rw [hleft.next hbefore hentry, hright.next hprevious hother] at hsealed
    obtain ⟨hbehind, hsame⟩ := hdigest _ _ _ _ hsealed
    by_cases hlast : i = index + 1
    · rw [hlast]
      exact ⟨entry, other, hentry, hother, hhash, hsame⟩
    · exact ih hbefore hprevious hbehind (by omega)

include hdigest hstart hleft hright in
/-- Two chains agree for some entries, and behind these they share no digest. -/
theorem exists_fork : ∃ common ≤ left.length,
    (∀ i < common, ∃ first second, left[i]? = some first ∧ right[i]? = some second ∧
      hash first = hash second ∧ same (content first) (content second)) ∧
    ∀ entry ∈ left.drop common, ∀ other ∈ right, hash entry ≠ hash other := by
  classical
  let Shares (index : ℕ) : Prop := ∃ entry other, left[index]? = some entry ∧
    right[index]? = some other ∧ hash entry = hash other
  -- the last shared digest ends the agreement
  let Common (count : ℕ) : Prop := ∀ index, count = index + 1 → Shares index
  have hzero : Common 0 := fun _ h ↦ absurd h (by omega)
  let common := Nat.findGreatest Common left.length
  have hcommon : Common common := Nat.findGreatest_spec (Nat.zero_le _) hzero
  refine ⟨common, Nat.findGreatest_le _, ?_, ?_⟩
  · intro i hi
    obtain ⟨entry, other, hentry, hother, hhash⟩ := hcommon (common - 1) (by omega)
    exact agree_upto hdigest hleft hright hentry hother hhash (by omega)
  · intro entry hmem other hother hhash
    obtain ⟨offset, hoffset⟩ := List.mem_iff_getElem?.mp hmem
    rw [List.getElem?_drop] at hoffset
    obtain ⟨j, hj⟩ := List.mem_iff_getElem?.mp hother
    have hindex := index_eq hdigest hstart hleft hright hoffset hj hhash
    have hshares : Common (common + offset + 1) := by
      intro index heq
      obtain rfl : common + offset = index := by omega
      exact ⟨entry, other, hoffset, by rw [hindex]; exact hj, hhash⟩
    have hlength := (List.getElem?_eq_some_iff.mp hoffset).1
    have hle := Nat.le_findGreatest (P := Common) (n := left.length)
      (m := common + offset + 1) (by omega) hshares
    have hdef : Nat.findGreatest Common left.length = common := rfl
    omega

def headOf (hash : E → H) (start : H) (entries : List E) : H :=
  (entries.getLast?.map hash).getD start

include hstart hleft in
/-- A chain that ends with the digest it starts with holds nothing. -/
theorem eq_nil_of_head (h : headOf hash start left = start) : left = [] := by
  unfold headOf at h
  cases hlast : left.getLast? with
  | none => exact List.getLast?_eq_none_iff.mp hlast
  | some last =>
    rw [hlast] at h
    rw [List.getLast?_eq_getElem?] at hlast
    exact absurd h (hash_ne_start hstart hleft hlast)

include hdigest hstart hleft hright in
/-- Two chains that end with the same digest agree entry by entry. -/
theorem agree_of_head (h : headOf hash start left = headOf hash start right) :
    left.length = right.length ∧
      ∀ i < left.length, ∃ first second, left[i]? = some first ∧ right[i]? = some second ∧
        hash first = hash second ∧ same (content first) (content second) := by
  cases hlast : left.getLast? with
  | none =>
    obtain rfl := List.getLast?_eq_none_iff.mp hlast
    obtain rfl := eq_nil_of_head hstart hright h.symm
    exact ⟨rfl, fun i hi ↦ absurd hi (Nat.not_lt_zero i)⟩
  | some last =>
    cases hother : right.getLast? with
    | none =>
      obtain rfl := List.getLast?_eq_none_iff.mp hother
      obtain rfl := eq_nil_of_head hstart hleft h
      cases hlast
    | some other =>
      unfold headOf at h
      rw [hlast, hother] at h
      rw [List.getLast?_eq_getElem?] at hlast hother
      have hindex := index_eq hdigest hstart hleft hright hlast hother h
      have hleft' := (List.getElem?_eq_some_iff.mp hlast).1
      have hright' := (List.getElem?_eq_some_iff.mp hother).1
      refine ⟨by omega, fun i hi ↦ ?_⟩
      rw [← hindex] at hother
      exact agree_upto hdigest hleft hright hlast hother h (by omega)

end Injective

end Sealed

end QuantAgent.Library
