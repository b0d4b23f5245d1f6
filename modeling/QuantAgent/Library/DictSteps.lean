import QuantAgent.Library.Dict

/-!
# Dictionaries changed key by key

A map whose values are transformed by their keys, and a loop over entries that changes one key at a
time.  What such a loop leaves under a key is decided by the entry of that key alone.
-/

namespace QuantAgent.Library.Dict

variable {K V W : Type}

/-- The map with every value transformed by its key. -/
def mapKeyed (f : K → V → V) (d : Dict K V) : Dict K V :=
  ⟨d.entries.map fun entry ↦ (entry.1, f entry.1 entry.2), by
    rw [List.map_map]
    exact d.nodup⟩

variable [DecidableEq K]

theorem get?_mapKeyed (f : K → V → V) (d : Dict K V) (key : K) :
    (d.mapKeyed f).get? key = (d.get? key).map (f key) := by
  change (d.entries.map fun entry ↦ (entry.1, f entry.1 entry.2)).lookup key =
    (d.entries.lookup key).map (f key)
  induction d.entries with
  | nil => rfl
  | cons entry entries ih =>
    rw [List.map_cons, lookup_cons, lookup_cons]
    split
    · rename_i heq
      rw [heq]
      rfl
    · exact ih

/-- A fold over entries whose steps each decide one key decides every key once. -/
theorem get?_foldl {step : Dict K V → K × W → Dict K V} {result : K → W → Option V → Option V}
    (hstep : ∀ d entry key, (step d entry).get? key =
      if key = entry.1 then result entry.1 entry.2 (d.get? key) else d.get? key)
    (d : Dict K V) {entries : List (K × W)} (hnodup : (entries.map Prod.fst).Nodup) (key : K) :
    (entries.foldl step d).get? key =
      (entries.lookup key).elim (d.get? key) fun value ↦ result key value (d.get? key) := by
  induction entries generalizing d with
  | nil => rfl
  | cons entry entries ih =>
    rw [List.map_cons, List.nodup_cons] at hnodup
    rw [List.foldl_cons, ih _ hnodup.2, hstep, lookup_cons]
    by_cases hkey : key = entry.1
    · have hrest : entries.lookup key = none := by
        rw [← Option.not_isSome_iff_eq_none, lookup_isSome, hkey]
        exact hnodup.1
      rw [hrest, if_pos hkey, if_pos hkey, hkey]
      rfl
    · rw [if_neg hkey, if_neg hkey]

end QuantAgent.Library.Dict
