import Mathlib.Data.List.Forall2

/-!
# Lists of computations that may raise

The results of a computation on every member of a list: there are results exactly when every member
has one, and they stand in the order of the members.
-/

namespace QuantAgent.Library

variable {α β ε : Type} {f : α → Except ε β}

variable {inputs : List α} {outputs : List β}

theorem mapM_eq_ok_iff :
    inputs.mapM f = .ok outputs ↔
      List.Forall₂ (fun input output ↦ f input = .ok output) inputs outputs := by
  induction inputs generalizing outputs with
  | nil =>
    rw [List.mapM_nil, List.forall₂_nil_left_iff]
    exact ⟨fun h ↦ (Except.ok.inj h).symm, fun h ↦ congrArg Except.ok h.symm⟩
  | cons input inputs ih =>
    rw [List.mapM_cons, List.forall₂_cons_left_iff]
    cases hfirst : f input with
    | error error => simp [bind, Except.bind]
    | ok output =>
      cases hrest : inputs.mapM f with
      | error error =>
        have hnone : ∀ rest, ¬ List.Forall₂ (fun input output ↦ f input = .ok output)
            inputs rest := by
          intro rest hmembers
          rw [← ih, hrest] at hmembers
          cases hmembers
        simp [bind, Except.bind, hnone]
      | ok rest =>
        have hmembers := ih.mp hrest
        constructor
        · intro h
          exact ⟨output, rest, rfl, hmembers, (Except.ok.inj h).symm⟩
        · rintro ⟨found, others, hfound, hothers, rfl⟩
          cases hfound
          rw [← ih, hrest] at hothers
          cases hothers
          rfl

/-- Every member of a list with results has one among them. -/
theorem exists_of_mapM (h : inputs.mapM f = .ok outputs) {input : α} (hmem : input ∈ inputs) :
    ∃ output ∈ outputs, f input = .ok output := by
  obtain ⟨i, hi, rfl⟩ := List.getElem_of_mem hmem
  obtain ⟨hlength, hresults⟩ := List.forall₂_iff_get.mp (mapM_eq_ok_iff.mp h)
  exact ⟨_, List.get_mem .., hresults i hi (hlength ▸ hi)⟩

/-- Every result comes from a member. -/
theorem exists_of_mem_mapM (h : inputs.mapM f = .ok outputs) {output : β}
    (hmem : output ∈ outputs) : ∃ input ∈ inputs, f input = .ok output := by
  obtain ⟨i, hi, rfl⟩ := List.getElem_of_mem hmem
  obtain ⟨hlength, hresults⟩ := List.forall₂_iff_get.mp (mapM_eq_ok_iff.mp h)
  exact ⟨_, List.get_mem .., hresults i (hlength ▸ hi) hi⟩

/-- There are results when every member has one. -/
theorem exists_mapM (h : ∀ input ∈ inputs, ∃ output, f input = .ok output) :
    ∃ outputs, inputs.mapM f = .ok outputs := by
  induction inputs with
  | nil => exact ⟨[], rfl⟩
  | cons input inputs ih =>
    obtain ⟨output, houtput⟩ := h input List.mem_cons_self
    obtain ⟨rest, hrest⟩ := ih fun other hother ↦ h other (List.mem_cons_of_mem _ hother)
    exact ⟨output :: rest, by rw [List.mapM_cons, houtput, hrest]; rfl⟩

end QuantAgent.Library
