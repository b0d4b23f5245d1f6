import Mathlib.Data.List.Basic

/-!
# Runs of a step function

A component that takes one input after another: the state after a list of inputs, conditions on the
inputs met along a run, and properties of the states passed through.  What one step preserves, the
run preserves; where a step keeps a property exactly under a condition, so does the run.
-/

namespace QuantAgent.Library.Run

variable {σ α : Type} (step : σ → α → σ)

def run (s : σ) (inputs : List α) : σ := inputs.foldl step s

/-- Every input meets a condition in the state it arrives in. -/
def Always (condition : σ → α → Prop) : σ → List α → Prop
  | _, [] => True
  | s, input :: inputs => condition s input ∧ Always condition (step s input) inputs

/-- A property holds in the first state and in every state reached. -/
def Throughout (property : σ → Prop) : σ → List α → Prop
  | s, [] => property s
  | s, input :: inputs => property s ∧ Throughout property (step s input) inputs

/-- Every state reached stands in a relation to every state before it. -/
def Ascends (related : σ → σ → Prop) (s : σ) (inputs : List α) : Prop :=
  ∀ first second rest, inputs = first ++ second ++ rest →
    related (run step s first) (run step s (first ++ second))

variable {step}

@[simp]
theorem run_nil (s : σ) : run step s [] = s := rfl

@[simp]
theorem run_cons (s : σ) (input : α) (inputs : List α) :
    run step s (input :: inputs) = run step (step s input) inputs := rfl

theorem run_append (s : σ) (first second : List α) :
    run step s (first ++ second) = run step (run step s first) second :=
  List.foldl_append ..

variable {property invariant : σ → Prop} {s : σ}

theorem of_run (hstep : ∀ s input, property s → property (step s input)) (hs : property s)
    (inputs : List α) : property (run step s inputs) := by
  induction inputs generalizing s with
  | nil => exact hs
  | cons input inputs ih => exact ih (hstep s input hs)

@[simp]
theorem always_cons (condition : σ → α → Prop) (s : σ) (input : α) (inputs : List α) :
    Always step condition s (input :: inputs) ↔
      condition s input ∧ Always step condition (step s input) inputs := Iff.rfl

variable {inputs : List α}

theorem Throughout.first (h : Throughout step property s inputs) : property s := by
  cases inputs with
  | nil => exact h
  | cons _ _ => exact h.1

theorem Throughout.last (h : Throughout step property s inputs) : property (run step s inputs) := by
  induction inputs generalizing s with
  | nil => exact h
  | cons input inputs ih => exact ih h.2

theorem Throughout.imp {property' : σ → Prop} (h : ∀ s, property s → property' s)
    (hall : Throughout step property s inputs) :
    Throughout step property' s inputs := by
  induction inputs generalizing s with
  | nil => exact h s hall
  | cons input inputs ih => exact ⟨h s hall.1, ih hall.2⟩

variable {condition condition' steady : σ → α → Prop}

/-- What every state of a run implies of the next input holds at every step. -/
theorem Throughout.always (h : ∀ s input, property s → condition s input)
    (hall : Throughout step property s inputs) : Always step condition s inputs := by
  induction inputs generalizing s with
  | nil => trivial
  | cons input inputs ih => exact ⟨h s input hall.1, ih hall.2⟩

theorem Always.imp (h : ∀ s input, condition s input → condition' s input)
    (hall : Always step condition s inputs) : Always step condition' s inputs := by
  induction inputs generalizing s with
  | nil => trivial
  | cons input inputs ih => exact ⟨h s input hall.1, ih hall.2⟩

/-- What a step preserves under a condition holds throughout a run that meets the condition. -/
theorem throughout_of_step
    (hstep : ∀ s input, invariant s → condition s input → invariant (step s input))
    (hs : invariant s) (hall : Always step condition s inputs) :
    Throughout step invariant s inputs := by
  induction inputs generalizing s with
  | nil => exact hs
  | cons input inputs ih => exact ⟨hs, ih (hstep s input hs hall.1) hall.2⟩

/-- What a step does under a condition and an invariant, every step of a run does that meets the
condition. -/
theorem always_of_step
    (hstep : ∀ s input, invariant s → condition s input → invariant (step s input) ∧ steady s input)
    (hs : invariant s) (hall : Always step condition s inputs) :
    Always step steady s inputs := by
  induction inputs generalizing s with
  | nil => trivial
  | cons input inputs ih =>
    obtain ⟨hnext, hsteady⟩ := hstep s input hs hall.1
    exact ⟨hsteady, ih hnext hall.2⟩

/-- A property holds throughout exactly the runs that meet a condition, when the condition keeps an
invariant behind the property and its first failure breaks the property. -/
theorem throughout_iff_always_of_invariant (hproperty : ∀ s, invariant s → property s)
    (hstep : ∀ s input, invariant s → condition s input → invariant (step s input))
    (hfail : ∀ s input, invariant s → ¬ condition s input → ¬ property (step s input))
    (hs : invariant s) :
    Throughout step property s inputs ↔ Always step condition s inputs := by
  constructor
  · intro hall
    induction inputs generalizing s with
    | nil => trivial
    | cons input inputs ih =>
      have hinput : condition s input := by
        by_contra hnot
        exact hfail s input hs hnot hall.2.first
      exact ⟨hinput, ih (hstep s input hs hinput) hall.2⟩
  · intro hall
    exact (throughout_of_step hstep hs hall).imp hproperty

/-- Two conditions that agree wherever an invariant holds agree along a run, when one of them keeps
the invariant. -/
theorem always_congr (hiff : ∀ s input, invariant s → (condition s input ↔ condition' s input))
    (hstep : ∀ s input, invariant s → condition s input → invariant (step s input))
    (hs : invariant s) :
    Always step condition s inputs ↔ Always step condition' s inputs := by
  induction inputs generalizing s with
  | nil => exact Iff.rfl
  | cons input inputs ih =>
    rw [always_cons, always_cons, ← hiff s input hs]
    exact and_congr_right fun h ↦ ih (hstep s input hs h)

/-- An invariant and a property of the single steps, kept together exactly under a condition. -/
theorem throughout_and_always_iff
    (hstep : ∀ s input, invariant s → ((invariant (step s input) ∧ steady s input) ↔ condition s
      input)) (hs : invariant s) :
    (Throughout step invariant s inputs ∧ Always step steady s inputs) ↔
      Always step condition s inputs := by
  constructor
  · intro h
    obtain ⟨hall, hsteady⟩ := h
    induction inputs generalizing s with
    | nil => trivial
    | cons input inputs ih =>
      have hnext := hall.2.first
      exact ⟨(hstep s input hs).mp ⟨hnext, hsteady.1⟩, ih hnext hall.2 hsteady.2⟩
  · intro hall
    have hboth := (always_congr hstep (fun s input _ h ↦ h.1) hs).mpr hall
    exact ⟨throughout_of_step (fun _ _ _ h ↦ h.1) hs hboth, hboth.imp fun _ _ h ↦ h.2⟩

theorem always_append (condition : σ → α → Prop) (s : σ) (first second : List α) :
    Always step condition s (first ++ second) ↔
      Always step condition s first ∧ Always step condition (run step s first) second := by
  induction first generalizing s with
  | nil => simp [Always]
  | cons input first ih => rw [List.cons_append, always_cons, always_cons, ih, and_assoc, run_cons]

variable {related : σ → σ → Prop}

section

variable (hrefl : ∀ s, related s s)
  (htrans : ∀ s s' s'', related s s' → related s' s'' → related s s'')
include hrefl htrans

/-- Steps that ascend lead up. -/
theorem related_run (hsteps : Always step (fun s input ↦ related s (step s input)) s inputs) :
    related s (run step s inputs) := by
  induction inputs generalizing s with
  | nil => exact hrefl s
  | cons input inputs ih => exact htrans _ _ _ hsteps.1 (ih hsteps.2)

/-- A run ascends exactly when its single steps do. -/
theorem ascends_iff_always :
    Ascends step related s inputs ↔
      Always step (fun s input ↦ related s (step s input)) s inputs := by
  constructor
  · intro hascends
    induction inputs generalizing s with
    | nil => trivial
    | cons input inputs ih =>
      refine ⟨hascends [] [input] inputs rfl, ih ?_⟩
      intro first second rest heq
      exact hascends (input :: first) second rest (by rw [heq]; rfl)
  · intro hsteps first second rest heq
    rw [heq, List.append_assoc, always_append, always_append] at hsteps
    rw [run_append]
    exact related_run hrefl htrans hsteps.2.1

end

end QuantAgent.Library.Run
