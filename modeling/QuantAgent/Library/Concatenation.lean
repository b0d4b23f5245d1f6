import Mathlib.Data.List.Nodup

/-!
# Lists put together from lists

What is left of a list of lists where only one member counts, where every member gives the same
list, and where a member gives one entry or none.
-/

namespace QuantAgent.Library

variable {A B K : Type}

/-- Where only one key counts, the rest of the keys can be left out. -/
theorem flatMap_of_single {keys : List K} (hnodup : keys.Nodup) {key : K}
    (hkey : key ∈ keys) {f : K → List A} (hother : ∀ other ∈ keys, other ≠ key → f other = []) :
    keys.flatMap f = f key := by
  induction keys with
  | nil => cases hkey
  | cons first rest ih =>
    obtain ⟨hfirst, hrest⟩ := List.nodup_cons.mp hnodup
    rw [List.flatMap_cons]
    by_cases h : first = key
    · subst h
      have hnone : rest.flatMap f = [] := by
        apply List.flatMap_eq_nil_iff.mpr
        intro other hmem
        exact hother other (List.mem_cons_of_mem _ hmem) fun heq ↦ hfirst (heq ▸ hmem)
      rw [hnone, List.append_nil]
    · have hmem := (List.mem_cons.mp hkey).resolve_left (Ne.symm h)
      rw [hother first List.mem_cons_self h, List.nil_append]
      exact ih hrest hmem fun other hother' ↦ hother other (List.mem_cons_of_mem _ hother')

/-- The same list over and over ends like the list. -/
theorem getLast?_flatMap_const {inputs : List A} (h : inputs ≠ []) (values : List B) :
    (inputs.flatMap fun _ ↦ values).getLast? = values.getLast? := by
  induction inputs with
  | nil => exact absurd rfl h
  | cons input inputs ih =>
    rw [List.flatMap_cons, List.getLast?_append]
    by_cases hrest : inputs = []
    · rw [hrest]
      rfl
    · rw [ih hrest, Option.or_self]

theorem flatMap_ite (inputs : List A) (p : A → Bool) (f : A → B) :
    (inputs.flatMap fun input ↦ if p input then [f input] else []) = (inputs.filter p).map f := by
  induction inputs with
  | nil => rfl
  | cons input inputs ih =>
    rw [List.flatMap_cons, ih]
    by_cases h : p input = true
    · rw [if_pos h, List.filter_cons_of_pos h]
      rfl
    · rw [if_neg h, List.filter_cons_of_neg h]
      rfl

end QuantAgent.Library
