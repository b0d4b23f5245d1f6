import Mathlib.Algebra.BigOperators.Group.Finset.Basic
import Mathlib.Tactic.Abel
import QuantAgent.Library.Dict

/-!
# Totals over a dictionary

The sum of a quantity over the entries of a dictionary.  Storing a value replaces what its key
contributed, whatever the quantity makes of the other keys, as long as it makes the same of them.
-/

namespace QuantAgent.Library.Dict

variable {K V R : Type} [AddCommGroup R]

def total (quantity : K → V → R) (d : Dict K V) : R :=
  (d.entries.map fun entry ↦ quantity entry.1 entry.2).sum

@[simp]
theorem total_empty (quantity : K → V → R) : (empty : Dict K V).total quantity = 0 := rfl

theorem total_add (first second : K → V → R) (d : Dict K V) :
    (d.total fun key value ↦ first key value + second key value) =
      d.total first + d.total second :=
  List.sum_map_add

variable [DecidableEq K]

def share (quantity : K → V → R) (d : Dict K V) (key : K) : R := ((d.get? key).map (quantity key)).getD 0

variable {quantity quantity' : K → V → R} {d : Dict K V} {key : K}

theorem share_of_get? {value : V} (h : d.get? key = some value) :
    d.share quantity key = quantity key value := by
  simp [share, h]

theorem share_of_none (h : d.get? key = none) :
    d.share quantity key = 0 := by
  simp [share, h]

theorem sum_filter_ne {entries : List (K × V)} (key : K) (hnodup : (entries.map Prod.fst).Nodup) :
    ((entries.filter fun entry ↦ entry.1 ≠ key).map fun entry ↦ quantity entry.1 entry.2).sum +
        ((entries.lookup key).map (quantity key)).getD 0 =
      (entries.map fun entry ↦ quantity entry.1 entry.2).sum := by
  induction entries with
  | nil => simp
  | cons entry entries ih =>
    rw [List.map_cons, List.nodup_cons] at hnodup
    have hrest := ih hnodup.2
    rw [lookup_cons, List.map_cons, List.sum_cons, List.filter_cons]
    by_cases hkey : entry.1 = key
    · have hnone : entries.lookup key = none := by
        rw [← Option.not_isSome_iff_eq_none, lookup_isSome, ← hkey]
        exact hnodup.1
      rw [hnone, Option.map_none, Option.getD_none, add_zero] at hrest
      rw [if_neg (by simpa using hkey), if_pos hkey.symm, hrest, ← hkey]
      simp only [Option.map_some, Option.getD_some]
      abel
    · rw [if_pos (by simpa using hkey), if_neg (Ne.symm hkey), List.map_cons, List.sum_cons,
        ← hrest]
      abel

theorem total_erase (quantity : K → V → R) (d : Dict K V) (key : K) :
    (d.erase key).total quantity + d.share quantity key = d.total quantity :=
  sum_filter_ne key d.nodup

theorem erase_insert (d : Dict K V) (key : K) (value : V) :
    (d.insert key value).erase key = d.erase key := by
  ext1
  by_cases h : key ∈ d.keys
  · rw [insert, dif_pos h]
    simp only [erase, replace]
    induction d.entries with
    | nil => rfl
    | cons entry entries ih =>
      rw [List.map_cons, List.filter_cons, List.filter_cons, ih]
      by_cases hkey : entry.1 = key <;> simp [hkey]
  · rw [insert, dif_neg h]
    simp [erase]

omit [DecidableEq K] in
theorem total_congr (h : ∀ key ∈ d.keys, quantity key = quantity' key) :
    d.total quantity = d.total quantity' := by
  rw [total, total]
  congr 1
  exact List.map_congr_left fun entry hentry ↦
    congrFun (h entry.1 (List.mem_map_of_mem hentry)) entry.2

theorem notMem_keys_erase (d : Dict K V) (key : K) : key ∉ (d.erase key).keys := by
  simp [keys, erase]

/-- The total after removing a key, in terms of a quantity that agrees elsewhere. -/
theorem total_erase_of_agree (d : Dict K V)
    (hagree : ∀ other, other ≠ key → quantity other = quantity' other) :
    (d.erase key).total quantity' + d.share quantity key = d.total quantity := by
  rw [← total_erase quantity d key]
  congr 1
  refine total_congr fun other hother ↦ (hagree other fun hsame ↦ ?_).symm
  rw [hsame] at hother
  exact notMem_keys_erase d key hother

/-- The total after a store, in terms of a quantity that agrees elsewhere. -/
theorem total_insert_of_agree (d : Dict K V) (value : V)
    (hagree : ∀ other, other ≠ key → quantity other = quantity' other) :
    (d.insert key value).total quantity' + d.share quantity key =
      d.total quantity + quantity' key value := by
  have hstored : (d.insert key value).share quantity' key = quantity' key value :=
    share_of_get? (get?_insert_self d key value)
  calc
    _ = ((d.insert key value).erase key).total quantity' + quantity' key value +
        d.share quantity key := by rw [← total_erase quantity' (d.insert key value) key, hstored]
    _ = ((d.erase key).total quantity' + d.share quantity key) + quantity' key value := by
      rw [erase_insert]
      abel
    _ = _ := by rw [total_erase_of_agree d hagree]

theorem sum_filter_eq_share (quantity : K → V → R) (d : Dict K V) (key : K) :
    ((d.entries.filter fun entry ↦ entry.1 = key).map fun entry ↦ quantity entry.1 entry.2).sum =
      d.share quantity key := by
  have hsplit := List.sum_map_filter_add_sum_map_filter_not
    (fun entry : K × V ↦ entry.1 = key) (fun entry ↦ quantity entry.1 entry.2) d.entries
  have hrest : _ + d.share quantity key =
      (d.entries.map fun entry ↦ quantity entry.1 entry.2).sum := sum_filter_ne key d.nodup
  rw [← hrest, add_comm] at hsplit
  exact add_left_cancel hsplit

theorem share_eq_zero_of_notMem (h : key ∉ d.keys) :
    d.share quantity key = 0 :=
  share_of_none (get?_eq_none_iff.mpr h)

/-- The total over any set of keys that the other ones contribute nothing to. -/
theorem total_eq_sum_share (quantity : K → V → R) (d : Dict K V) (keys : Finset K)
    (h : ∀ key, d.share quantity key ≠ 0 → key ∈ keys) :
    d.total quantity = ∑ key ∈ keys, d.share quantity key := by
  have hown : d.total quantity = ∑ key ∈ d.keys.toFinset, d.share quantity key := by
    rw [Dict.keys, List.sum_toFinset _ d.nodup, List.map_map, total]
    congr 1
    apply List.map_congr_left
    intro entry hentry
    exact (share_of_get? (get?_of_mem_entries hentry)).symm
  rw [hown]
  apply Finset.sum_congr_of_eq_on_inter
  · intro key _ hkey
    by_contra hne
    exact hkey (h key hne)
  · intro key _ hkey
    exact share_eq_zero_of_notMem fun hmem ↦ hkey (List.mem_toFinset.mpr hmem)
  · exact fun _ _ _ ↦ rfl

theorem total_insert (quantity : K → V → R) (d : Dict K V) (key : K) (value : V) :
    (d.insert key value).total quantity + d.share quantity key =
      d.total quantity + quantity key value :=
  total_insert_of_agree d value fun _ _ ↦ rfl

end QuantAgent.Library.Dict
