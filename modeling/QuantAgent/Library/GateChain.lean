import Mathlib.Tactic.Common

/-!
# Chains of gates

Gates in a fixed order look at one input.  Every gate leaves a result or raises, and the first
result that does not pass ends the chain.  A chain cannot tell an input from those that are alike
exactly when no gate that it gets to can, as long as what a gate tells apart is not hidden by a
later one that raises.
-/

namespace QuantAgent.Library

variable {G C R E : Type}

/-- The results of the gates, up to the first that does not pass. -/
def runGates (gate : G → C → Except E R) (passed : R → Bool) : List G → C → Except E (List R)
  | [], _ => .ok []
  | first :: rest, input =>
    match gate first input with
    | .error error => .error error
    | .ok result =>
      if passed result then (runGates gate passed rest input).map (result :: ·)
      else .ok [result]

/-- A function does not tell an input from those that are alike. -/
def Blind {A : Type} (alike : C → C → Prop) (f : C → A) (input : C) : Prop :=
  ∀ other, alike input other → f other = f input

/-- Every gate that the chain gets to has a property of the input. -/
def Reached (gate : G → C → Except E R) (passed : R → Bool) (settled : G → C → Prop) :
    List G → C → Prop
  | [], _ => True
  | first :: rest, input => settled first input ∧
      ∀ result, gate first input = .ok result → passed result = true →
        Reached gate passed settled rest input

/-- What is known of the gates: a settled one is blind, and one that is not tells two inputs apart.
The first of these, and the second too unless the gate raises on it, is calm: no gate raises. -/
structure Telling (gate : G → C → Except E R) (alike : C → C → Prop) (settled : G → C → Prop)
    (calm : C → Prop) : Prop where
  blind : ∀ g input, settled g input → Blind alike (gate g) input
  returns : ∀ g input, calm input → ∃ result, gate g input = .ok result
  tells : ∀ g input, ¬ settled g input → ∃ first second, alike input first ∧ alike input second ∧
    calm first ∧ gate g first ≠ gate g second ∧
    (calm second ∨ ∃ error, gate g second = .error error)

variable {gate : G → C → Except E R} {passed : R → Bool} {alike : C → C → Prop}
  {settled : G → C → Prop} {calm : C → Prop} {gates : List G} {input : C} {g : G} {result : R}

theorem reached_of_forall (h : ∀ g ∈ gates, settled g input) :
    Reached gate passed settled gates input := by
  induction gates with
  | nil => trivial
  | cons g gates ih =>
    exact ⟨h g List.mem_cons_self,
      fun _ _ _ ↦ ih fun other hother ↦ h other (List.mem_cons_of_mem _ hother)⟩

theorem runGates_of_error {error : E} (h : gate g input = .error error) :
    runGates gate passed (g :: gates) input = .error error := by
  rw [runGates, h]

theorem runGates_of_passed (h : gate g input = .ok result) (hpassed : passed result = true) :
    runGates gate passed (g :: gates) input =
      (runGates gate passed gates input).map (result :: ·) := by
  rw [runGates, h]
  exact if_pos hpassed

theorem runGates_of_failed (h : gate g input = .ok result) (hpassed : passed result = false) :
    runGates gate passed (g :: gates) input = .ok [result] := by
  rw [runGates, h]
  exact if_neg (by simp [hpassed])

theorem passed_of_runGates {results : List R} (h : runGates gate passed gates input = .ok results)
    (hpassed : ∀ result ∈ results, passed result = true) (hmem : g ∈ gates) :
    ∃ result, gate g input = .ok result ∧ passed result = true := by
  induction gates generalizing results with
  | nil => cases hmem
  | cons first rest ih =>
    cases hfirst : gate first input with
    | error error =>
      rw [runGates_of_error hfirst] at h
      cases h
    | ok result =>
      cases hresult : passed result with
      | false =>
        rw [runGates_of_failed hfirst hresult] at h
        cases h
        rw [hpassed result (List.mem_singleton_self _)] at hresult
        cases hresult
      | true =>
        rw [runGates_of_passed hfirst hresult] at h
        cases hrest : runGates gate passed rest input with
        | error error => rw [hrest] at h; cases h
        | ok later =>
          rw [hrest] at h
          cases h
          rcases List.mem_cons.mp hmem with rfl | hlater
          · exact ⟨result, hfirst, hresult⟩
          · exact ih hrest (fun other hother ↦
              hpassed other (List.mem_cons_of_mem _ hother)) hlater

theorem map_cons_injective (result : R) :
    Function.Injective (Except.map (ε := E) (result :: ·)) := by
  intro first second h
  cases first <;> cases second <;> simp_all [Except.map]

namespace Telling

section

variable (h : Telling gate alike settled calm)
include h

/-- On a calm input the chain returns, with the result of its first gate first. -/
theorem runGates_calm (passed : R → Bool) (hcalm : calm input) (gates : List G) :
    ∃ results, runGates gate passed gates input = .ok results := by
  induction gates with
  | nil => exact ⟨[], rfl⟩
  | cons g gates ih =>
    obtain ⟨result, hresult⟩ := h.returns g input hcalm
    cases hpassed : passed result with
    | true =>
      obtain ⟨results, hresults⟩ := ih
      exact ⟨result :: results, by rw [runGates_of_passed hresult hpassed, hresults]; rfl⟩
    | false => exact ⟨[result], runGates_of_failed hresult hpassed⟩

theorem runGates_calm_cons (passed : R → Bool) (hcalm : calm input) (g : G) (gates : List G) :
    ∃ result results, gate g input = .ok result ∧
      runGates gate passed (g :: gates) input = .ok (result :: results) := by
  obtain ⟨result, hresult⟩ := h.returns g input hcalm
  cases hpassed : passed result with
  | true =>
    obtain ⟨results, hresults⟩ := h.runGates_calm passed hcalm gates
    exact ⟨result, results, hresult, by rw [runGates_of_passed hresult hpassed, hresults]; rfl⟩
  | false => exact ⟨result, [], hresult, runGates_of_failed hresult hpassed⟩

/-- A chain that cannot tell alike inputs apart starts with a gate that is settled. -/
theorem settled_of_blind (hblind : Blind alike (runGates gate passed (g :: gates)) input) :
    settled g input := by
  by_contra hsettled
  obtain ⟨first, second, hfirst, hsecond, hcalm, hne, hor⟩ := h.tells g input hsettled
  have hsame := (hblind first hfirst).trans (hblind second hsecond).symm
  obtain ⟨result, results, hresult, hrun⟩ := h.runGates_calm_cons passed hcalm g gates
  rcases hor with hcalm' | ⟨error, herror⟩
  · obtain ⟨result', results', hresult', hrun'⟩ := h.runGates_calm_cons passed hcalm' g gates
    rw [hrun, hrun', Except.ok.injEq, List.cons.injEq] at hsame
    exact hne (by rw [hresult, hresult', hsame.1])
  · rw [hrun, runGates_of_error herror] at hsame
    cases hsame

/-- A chain is blind exactly when every gate that it gets to is settled. -/
theorem blind_runGates_iff (gates : List G) (input : C) :
    Blind alike (runGates gate passed gates) input ↔
      Reached gate passed settled gates input := by
  induction gates with
  | nil => exact iff_of_true (fun _ _ ↦ rfl) trivial
  | cons g gates ih =>
    constructor
    · intro hblind
      have hsettled := h.settled_of_blind hblind
      refine ⟨hsettled, fun result hresult hpassed ↦ ih.mp fun other hother ↦ ?_⟩
      have hgate := h.blind g input hsettled other hother
      have hsame := hblind other hother
      rw [runGates_of_passed hresult hpassed,
        runGates_of_passed (hgate.trans hresult) hpassed] at hsame
      exact map_cons_injective result hsame
    · rintro ⟨hsettled, hrest⟩ other hother
      have hgate := h.blind g input hsettled other hother
      cases hresult : gate g input with
      | error error => rw [runGates_of_error hresult, runGates_of_error (hgate.trans hresult)]
      | ok result =>
        cases hpassed : passed result with
        | true =>
          rw [runGates_of_passed hresult hpassed,
            runGates_of_passed (hgate.trans hresult) hpassed,
            ih.mpr (hrest result hresult hpassed) other hother]
        | false =>
          rw [runGates_of_failed hresult hpassed, runGates_of_failed (hgate.trans hresult) hpassed]

end

end Telling

end QuantAgent.Library
