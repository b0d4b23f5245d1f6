import Mathlib.Algebra.BigOperators.Group.List.Basic

/-!
# Folds that may fail

A fold of a step that returns or raises, over a list of inputs.  It returns exactly when every step
does; what every successful step preserves holds at the end, also when the step preserves it only
for the inputs and the states that the fold really meets.
-/

namespace QuantAgent.Library.Fold

/-- A computation returns after another one exactly when both do. -/
theorem bind_iff {α β ε : Type} {first : Except ε α} {next : α → Except ε β} {result : β} :
    (first >>= next) = .ok result ↔ ∃ value, first = .ok value ∧ next value = .ok result := by
  cases first with
  | error error => simp [bind, Except.bind]
  | ok value => simp [bind, Except.bind]

/-- What a computation returns, without the reason of a failure. -/
theorem toOption_iff {α ε : Type} {result : Except ε α} {value : α} :
    result.toOption = some value ↔ result = .ok value := by
  cases result <;> simp [Except.toOption]

variable {σ α ε : Type} {step : σ → α → Except ε σ}

variable {after between state : σ} {input : α} {inputs : List α}

theorem append_iff {s : σ} {first second : List α} :
    (first ++ second).foldlM step s = .ok after ↔
      ∃ between, first.foldlM step s = .ok between ∧ second.foldlM step between = .ok after := by
  rw [List.foldlM_append]
  exact bind_iff

theorem cons_iff {s : σ} :
    (input :: inputs).foldlM step s = .ok after ↔
      ∃ between, step s input = .ok between ∧ inputs.foldlM step between = .ok after := by
  rw [List.foldlM_cons]
  exact bind_iff

/-- The steps of a fold over two lists that returns. -/
theorem exists_of_append {s : σ} {first second : List α}
    (h : (first ++ second).foldlM step s = .ok after) :
    ∃ between, first.foldlM step s = .ok between ∧ second.foldlM step between = .ok after := by
  rwa [append_iff] at h

theorem exists_of_cons {s : σ} (h : (input :: inputs).foldlM step s = .ok after) :
    ∃ between, step s input = .ok between ∧ inputs.foldlM step between = .ok after := by
  rwa [cons_iff] at h

theorem cons {s : σ} (hfirst : step s input = .ok between)
    (hrest : inputs.foldlM step between = .ok after) :
    (input :: inputs).foldlM step s = .ok after := by
  rw [cons_iff]
  exact ⟨between, hfirst, hrest⟩

variable (s : σ) (property : σ → Prop)

theorem singleton (input : α) : [input].foldlM step s = step s input := by
  rw [List.foldlM_cons]
  cases step s input <;> rfl

/-- A fold reaches a state before an input when it returns one there. -/
def Meets (step : σ → α → Except ε σ) (s : σ) (inputs : List α) (state : σ) (input : α) : Prop :=
  ∃ before after, inputs = before ++ input :: after ∧ before.foldlM step s = .ok state

theorem Meets.head (input : α) (inputs : List α) :
    Meets step s (input :: inputs) s input :=
  ⟨[], inputs, rfl, rfl⟩

theorem Meets.tail {s : σ} {next : α} (hstep : step s input = .ok between)
    (h : Meets step between inputs state next) :
    Meets step s (input :: inputs) state next := by
  obtain ⟨before, after, rfl, hbefore⟩ := h
  exact ⟨input :: before, after, rfl, cons hstep hbefore⟩

theorem Meets.mem {s : σ} (h : Meets step s inputs state input) :
    input ∈ inputs := by
  obtain ⟨before, after, rfl, -⟩ := h
  simp

/-- A fold that returns goes on from every state it meets. -/
theorem Meets.exists_next {s : σ} (hmeets : Meets step s inputs state input)
    (h : inputs.foldlM step s = .ok after) :
    ∃ next, step state input = .ok next := by
  obtain ⟨before, rest, rfl, hbefore⟩ := hmeets
  obtain ⟨between, hbetween, hrest⟩ := exists_of_append h
  cases hbefore.symm.trans hbetween
  obtain ⟨next, hnext, -⟩ := exists_of_cons hrest
  exact ⟨next, hnext⟩

/-- What every step of a fold keeps of the state and the inputs that remain holds in every state
that the fold comes to. -/
theorem invariant_rest (property : σ → List α → Prop) {s : σ} {before after : List α}
    (hstep : ∀ current input rest next, Meets step s (before ++ after) current input →
      property current (input :: rest) → step current input = .ok next → property next rest)
    (hs : property s (before ++ after)) (h : before.foldlM step s = .ok state) :
    property state after := by
  induction before generalizing s with
  | nil =>
    cases h
    exact hs
  | cons input before ih =>
    obtain ⟨between, hfirst, hrest⟩ := exists_of_cons h
    refine ih (fun current other rest next hmeets ↦ ?_) ?_ hrest
    · exact hstep current other rest next (hmeets.tail hfirst)
    · exact hstep s input (before ++ after) between (.head s input _) hs hfirst

/-- What every step of a fold preserves holds in the state it returns. -/
theorem invariant {s : σ}
    (hstep : ∀ state input next, Meets step s inputs state input → property state → step state
      input = .ok next → property next) (hs : property s) (h : inputs.foldlM step s = .ok after) :
    property after := by
  refine @invariant_rest _ _ _ _ _ (fun state _ ↦ property state) _ _ []
    (fun state input _ next hmeets ↦ ?_) hs h
  rw [List.append_nil] at hmeets
  exact hstep state input next hmeets

/-- A fold that returns goes on, from every state it meets, to the state it returns. -/
theorem related {related : σ → σ → Prop} (hrefl : ∀ state, related state state)
    (htrans : ∀ first second third, related first second → related second third →
      related first third)
    (hstep : ∀ state input next, step state input = .ok next → related state next) {s : σ}
    (h : inputs.foldlM step s = .ok after) : related s after := by
  refine invariant (related s) ?_ (hrefl s) h
  intro state input next _ hstate hnext
  exact htrans s state next hstate (hstep state input next hnext)

/-- Every step that a fold meets lies between its first and its last state. -/
theorem related_of_meets {related : σ → σ → Prop} (hrefl : ∀ state, related state state)
    (htrans : ∀ first second third, related first second → related second third →
      related first third)
    (hstep : ∀ state input next, step state input = .ok next → related state next) {s : σ}
    (hmeets : Meets step s inputs state input) (h : inputs.foldlM step s = .ok after) :
    related s state ∧ ∃ next, step state input = .ok next ∧ related next after := by
  obtain ⟨before, rest, rfl, hbefore⟩ := hmeets
  obtain ⟨between, hbetween, hrest⟩ := exists_of_append h
  cases hbefore.symm.trans hbetween
  obtain ⟨next, hnext, hlater⟩ := exists_of_cons hrest
  exact ⟨Fold.related hrefl htrans hstep hbefore, next, hnext,
    Fold.related hrefl htrans hstep hlater⟩

/-- A fold passes through a state when it returns it after some of the inputs. -/
def Reaches (step : σ → α → Except ε σ) (s : σ) (inputs : List α) (state : σ) : Prop :=
  ∃ before after, inputs = before ++ after ∧ before.foldlM step s = .ok state

theorem Reaches.last {s : σ} (h : inputs.foldlM step s = .ok after) :
    Reaches step s inputs after :=
  ⟨inputs, [], by simp, h⟩

theorem meets_cons_iff {s : σ} {next : α} (hstep : step s input = .ok between) :
    Meets step s (input :: inputs) state next ↔
      (state = s ∧ next = input) ∨ Meets step between inputs state next := by
  constructor
  · intro h
    obtain ⟨before, after, hsplit, hbefore⟩ := h
    cases before with
    | nil =>
      cases hsplit
      exact .inl ⟨(Except.ok.inj hbefore).symm, rfl⟩
    | cons head before =>
      cases hsplit
      obtain ⟨second, hsecond, hrest⟩ := exists_of_cons hbefore
      cases hstep.symm.trans hsecond
      exact .inr ⟨before, after, rfl, hrest⟩
  · intro h
    rcases h with ⟨rfl, rfl⟩ | h
    · exact .head _ _ _
    · exact h.tail hstep

/-- A quantity that no step lowers is the same at the end exactly when no step raises it. -/
theorem measure_iff {μ : Type} [PartialOrder μ] (property : σ → List α → μ → Prop)
    (flat : σ → α → Prop) {s : σ} {value : μ}
    (hstep : ∀ current input rest next value, Meets step s inputs current input →
      property current (input :: rest) value → step current input = .ok next →
        ∃ value', property next rest value' ∧ value ≤ value' ∧ (value' = value ↔ flat current input))
    (hs : property s inputs value) (h : inputs.foldlM step s = .ok after) :
    ∃ value', property after [] value' ∧ value ≤ value' ∧
      (value' = value ↔ ∀ state input, Meets step s inputs state input → flat state input) := by
  induction inputs generalizing s value with
  | nil =>
    cases h
    refine ⟨value, hs, le_rfl, iff_of_true rfl ?_⟩
    rintro state input ⟨before, rest, hsplit, -⟩
    simp at hsplit
  | cons input inputs ih =>
    obtain ⟨between, hfirst, hrest⟩ := exists_of_cons h
    obtain ⟨middle, hmiddle, hle, hflat⟩ :=
      hstep s input inputs between value (.head s input inputs) hs hfirst
    obtain ⟨last, hlast, hle', hflat'⟩ := ih (fun current other rest next value hmeets ↦
      hstep current other rest next value (hmeets.tail hfirst)) hmiddle hrest
    refine ⟨last, hlast, hle.trans hle', ?_⟩
    constructor
    · intro heq state next hmeets
      have hmiddle' := le_antisymm (heq ▸ hle') hle
      rcases (meets_cons_iff hfirst).mp hmeets with ⟨rfl, rfl⟩ | hlater
      · exact hflat.mp hmiddle'
      · exact hflat'.mp (heq.trans hmiddle'.symm) state next hlater
    · intro hall
      have hlater := hflat'.mpr fun state next hmeets ↦ hall state next (hmeets.tail hfirst)
      exact hlater.trans (hflat.mpr (hall s input (.head s input inputs)))

/-- What every step preserves holds in every state a fold passes through. -/
theorem of_reaches {s : σ}
    (hstep : ∀ state input next, property state → step state input = .ok next → property next)
    (hs : property s) (h : Reaches step s inputs state) : property state := by
  obtain ⟨before, after, -, hbefore⟩ := h
  exact invariant property (fun state input next _ ↦ hstep state input next) hs hbefore

section

variable (condition : σ → α → Prop)
  (hstep : ∀ state input next, property state → step state input = .ok next → (property next ↔
    condition state input))
include hstep

/-- What every step keeps exactly under a condition holds in all states of a fold, whether it
returns or not, exactly when the condition holds at all its steps. -/
theorem reaches_iff_steps {s : σ} (hs : property s) :
    (∀ state, Reaches step s inputs state → property state) ↔
      ∀ state input next, Meets step s inputs state input → step state input = .ok next →
        condition state input := by
  constructor
  · intro hall state input next hmeets hnext
    obtain ⟨before, after, rfl, hbefore⟩ := hmeets
    have hstate := hall state ⟨before, input :: after, rfl, hbefore⟩
    have hreached : Reaches step s (before ++ input :: after) next := by
      refine ⟨before ++ [input], after, by simp, ?_⟩
      rw [append_iff]
      exact ⟨state, hbefore, (singleton state input).trans hnext⟩
    exact (hstep state input next hstate hnext).mp (hall next hreached)
  · intro hall state hreaches
    obtain ⟨before, after, rfl, hbefore⟩ := hreaches
    refine invariant property ?_ hs hbefore
    intro earlier input next hmeets hearlier hnext
    obtain ⟨first, rest, rfl, hfirst⟩ := hmeets
    refine (hstep earlier input next hearlier hnext).mpr (hall earlier input next ?_ hnext)
    exact ⟨first, rest ++ after, by simp, hfirst⟩

/-- What every step of a fold that returns keeps exactly under a condition holds in all its states
exactly when the condition holds at all its inputs. -/
theorem reaches_iff_meets {s : σ} (hs : property s) (h : inputs.foldlM step s = .ok after) :
    (∀ state, Reaches step s inputs state → property state) ↔
      ∀ state input, Meets step s inputs state input → condition state input := by
  refine (reaches_iff_steps property condition hstep hs).trans
    (forall₂_congr fun state input ↦ ⟨fun hall hmeets ↦ ?_, fun hall _ hmeets _ ↦ hall hmeets⟩)
  obtain ⟨next, hnext⟩ := hmeets.exists_next h
  exact hall next hmeets hnext

end

/-- What a step establishes for its input, and later steps keep, holds for all inputs. -/
theorem holds_of_mem (property : σ → α → Prop)
    (hnew : ∀ state input next, step state input = .ok next → property next input)
    (hkeep : ∀ state input next earlier, property state earlier → step state input = .ok next →
      property next earlier) {s : σ} (h : inputs.foldlM step s = .ok after)
    (hmem : input ∈ inputs) : property after input := by
  induction inputs generalizing s with
  | nil => cases hmem
  | cons head inputs ih =>
    obtain ⟨between, hfirst, hrest⟩ := exists_of_cons h
    rcases List.mem_cons.mp hmem with rfl | hlater
    · exact invariant (property · input)
        (fun state next after _ hstate ↦ hkeep state next after input hstate)
        (hnew s input between hfirst) hrest
    · exact ih hrest hlater

/-- Two steps fold to the same states exactly when they do the same wherever the first leads. -/
theorem eq_iff_meets (other : σ → α → Except ε σ) {s : σ} (h : inputs.foldlM step s = .ok after) :
    (∀ before rest, inputs = before ++ rest → before.foldlM other s = before.foldlM step s) ↔
      ∀ state input, Meets step s inputs state input → other state input = step state input := by
  induction inputs generalizing s with
  | nil =>
    refine iff_of_true ?_ ?_
    · intro before rest hsplit
      rw [(List.append_eq_nil_iff.mp hsplit.symm).1]
      rfl
    · intro state input hmeets
      exact absurd hmeets.mem List.not_mem_nil
  | cons input inputs ih =>
    obtain ⟨between, hfirst, hrest⟩ := exists_of_cons h
    constructor
    · intro hall state next hmeets
      have hsame : other s input = step s input := by
        have hone := hall [input] inputs rfl
        rwa [singleton, singleton] at hone
      rcases (meets_cons_iff hfirst).mp hmeets with ⟨rfl, rfl⟩ | hlater
      · exact hsame
      · refine (ih hrest).mp (fun before rest hsplit ↦ ?_) state next hlater
        have hlonger := hall (input :: before) rest (by rw [hsplit, List.cons_append])
        rwa [List.foldlM_cons, List.foldlM_cons, hsame, hfirst] at hlonger
    · intro hall before rest hsplit
      cases before with
      | nil => rfl
      | cons head before =>
        obtain ⟨rfl, hinputs⟩ := List.cons.inj hsplit
        rw [List.foldlM_cons, List.foldlM_cons, hall s input (.head s input inputs), hfirst]
        exact (ih hrest).mpr
          (fun state next hmeets ↦ hall state next (hmeets.tail hfirst)) before rest hinputs

/-- What a mapping that may fail returns comes from its inputs. -/
theorem exists_of_mem_mapM {β : Type} {f : α → Option β} {outputs : List β}
    (h : inputs.mapM f = some outputs) {output : β} (hmem : output ∈ outputs) :
    ∃ input ∈ inputs, f input = some output := by
  induction inputs generalizing outputs with
  | nil =>
    rw [List.mapM_nil] at h
    rw [← Option.some.inj h] at hmem
    cases hmem
  | cons input inputs ih =>
    rw [List.mapM_cons, Option.bind_eq_bind, Option.bind_eq_some_iff] at h
    obtain ⟨first, hfirst, h⟩ := h
    rw [Option.bind_eq_bind, Option.bind_eq_some_iff] at h
    obtain ⟨others, hothers, h⟩ := h
    rw [← Option.some.inj h] at hmem
    rcases List.mem_cons.mp hmem with rfl | hlater
    · exact ⟨input, List.mem_cons_self .., hfirst⟩
    · obtain ⟨other, hother, heq⟩ := ih hothers hlater
      exact ⟨other, List.mem_cons_of_mem _ hother, heq⟩

/-- A fold of steps that add to a total adds all of it up. -/
theorem sum_of_step [AddMonoid σ] {amount : α → σ} (total : σ)
    (hstep : ∀ total, ∀ input ∈ inputs, step total input = .ok (total + amount input)) :
    inputs.foldlM step total = .ok (total + (inputs.map amount).sum) := by
  induction inputs generalizing total with
  | nil => simp [pure, Except.pure]
  | cons input inputs ih =>
    rw [cons_iff]
    refine ⟨_, hstep total input (List.mem_cons_self ..), ?_⟩
    rw [ih _ fun total other hother ↦ hstep total other (List.mem_cons_of_mem _ hother),
      List.map_cons, List.sum_cons, add_assoc]

end QuantAgent.Library.Fold
