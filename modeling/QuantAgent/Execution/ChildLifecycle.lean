import QuantAgent.Execution.Participation
import QuantAgent.Library.Run
import QuantAgent.Library.Traverse

/-!
# The life of the children

Any number of engines, of whatever parents, work on one file, and each of their calls may be stopped
between two writes.  What is filled goes with the status of its child, fills never decrease, a
terminal child stays as it is, and a plan over time is installed once.
-/

namespace QuantAgent.Execution

open Library Library.Run

namespace ChildExecution

/-- The fills that go with a status. -/
def Consistent (child : ChildExecution) : Prop :=
  match child.status with
  | .planned | .released | .rejected => child.filledQuantity = 0
  | .partly => 0 < child.filledQuantity ∧ child.filledQuantity < child.quantity
  | .filled => child.filledQuantity = child.quantity
  | .cancelled => child.filledQuantity < child.quantity

/-- What may become of a child. -/
structure Follows (child later : ChildExecution) : Prop where
  childId : later.childId = child.childId
  sequence : later.sequence = child.sequence
  quantity : later.quantity = child.quantity
  scheduledAt : later.scheduledAt = child.scheduledAt
  fills : child.filledQuantity ≤ later.filledQuantity
  terminal : child.status.terminal = true → later = child

theorem Follows.refl (child : ChildExecution) : child.Follows child :=
  ⟨rfl, rfl, rfl, rfl, le_rfl, fun _ ↦ rfl⟩

theorem Follows.trans {child between later : ChildExecution} (h : child.Follows between)
    (h' : between.Follows later) : child.Follows later where
  childId := h'.childId.trans h.childId
  sequence := h'.sequence.trans h.sequence
  quantity := h'.quantity.trans h.quantity
  scheduledAt := h'.scheduledAt.trans h.scheduledAt
  fills := h.fills.trans h'.fills
  terminal hterminal := by
    have hsame := h.terminal hterminal
    rw [hsame] at h'
    exact h'.terminal hterminal

/-- A child that is with the market takes what is not refused. -/
theorem follows_acknowledged {child : ChildExecution} {status : ChildStatus} {filled : ℤ}
    (clock : String) (hactive : child.status.active = true) (hstatus : status ≠ .planned)
    (htaken : acknowledgementRefusal child status filled = none) :
    let later := { child with status, filledQuantity := filled, lastUpdatedAt := clock }
    child.Follows later ∧ later.Consistent := by
  have hopen : child.status.terminal ≠ true := by
    cases hstatus : child.status <;> simp_all [ChildStatus.active, ChildStatus.terminal]
  unfold acknowledgementRefusal at htaken
  iterate 7
    split at htaken
    · cases htaken
  rename_i hforward hrange hreleased hpartly hfilled hrejected hcancelled
  refine ⟨⟨rfl, rfl, rfl, rfl, not_lt.mp hforward, fun h ↦ absurd h hopen⟩, ?_⟩
  cases status <;> simp_all [Consistent]

end ChildExecution

theorem ParentOrderSpec.SameEconomics.trans {first second third : ParentOrderSpec}
    (h : first.SameEconomics second) (h' : second.SameEconomics third) :
    first.SameEconomics third :=
  ⟨h'.1.trans h.1, h'.2.trans h.2, h'.3.trans h.3, h'.4.trans h.4, h'.5.trans h.5, h'.6.trans h.6⟩

namespace ParentExecutionState

/-- Without a plan over time, one child at most is with the market. -/
structure Orderly (state : ParentExecutionState) : Prop where
  consistent : ∀ child ∈ state.children, child.Consistent
  single : state.parent.algorithm.planned = false →
    state.children.countP (fun child ↦ child.status.active) ≤ 1

/-- A later state of the same parent: every child is followed up, and a plan is the same plan. -/
structure Continues (state later : ParentExecutionState) : Prop where
  economics : state.parent.SameEconomics later.parent
  children : ∀ (i : ℕ) (child : ChildExecution), state.children[i]? = some child →
    ∃ after, later.children[i]? = some after ∧ child.Follows after
  plan : state.parent.algorithm.planned = true → state.children ≠ [] →
    later.children.length = state.children.length

theorem Continues.trans {state between later : ParentExecutionState} (h : state.Continues between)
    (h' : between.Continues later) : state.Continues later where
  economics := h.economics.trans h'.economics
  children i child hchild := by
    obtain ⟨after, hafter, hfollows⟩ := h.children i child hchild
    obtain ⟨last, hlast, hfollows'⟩ := h'.children i after hafter
    exact ⟨last, hlast, hfollows.trans hfollows'⟩
  plan hplanned hchildren := by
    have hsame := h.plan hplanned hchildren
    have hnonempty : between.children ≠ [] := by
      rw [ne_eq, ← List.length_eq_zero_iff, hsame]
      exact mt List.length_eq_zero_iff.mp hchildren
    rw [← h.economics.algorithm] at hplanned
    exact (h'.plan hplanned hnonempty).trans hsame

variable {state updated : ParentExecutionState}

/-- Children that are followed up, with more behind them. -/
theorem Orderly.advance (h : state.Orderly) (front more : List ChildExecution)
    (hparent : updated.parent = state.parent) (hchildren : updated.children = front ++ more)
    (hfront : List.Forall₂ (fun child later ↦
      child.Follows later ∧ (child.Consistent → later.Consistent)) state.children front)
    (hmore : ∀ child ∈ more, child.Consistent)
    (hplan : state.parent.algorithm.planned = true → state.children ≠ [] → more = [])
    (hsingle : state.parent.algorithm.planned = false →
      updated.children.countP (fun child ↦ child.status.active) ≤ 1) :
    updated.Orderly ∧ state.Continues updated := by
  refine ⟨⟨?_, hparent ▸ hsingle⟩, ?_, ?_, fun hplanned hnonempty ↦ ?_⟩
  · rw [hchildren]
    refine fun child hmem ↦ (List.mem_append.mp hmem).elim (fun hmem ↦ ?_) (hmore child)
    obtain ⟨i, hi, rfl⟩ := List.mem_iff_getElem.mp hmem
    have hlength := hfront.length_eq
    exact (hfront.get (by omega) hi).2 (h.consistent _ (List.getElem_mem _))
  · rw [hparent]
    exact ⟨rfl, rfl, rfl, rfl, rfl, rfl⟩
  · intro i child hchild
    obtain ⟨hi, rfl⟩ := List.getElem?_eq_some_iff.mp hchild
    have hlength := hfront.length_eq
    rw [hchildren, List.getElem?_append_left (by omega), List.getElem?_eq_getElem (by omega)]
    exact ⟨_, rfl, (hfront.get hi (by omega)).1⟩
  · rw [hchildren, hplan hplanned hnonempty, List.append_nil, hfront.length_eq]

theorem Orderly.unchanged (h : state.Orderly) (hparent : updated.parent = state.parent)
    (hchildren : updated.children = state.children) :
    updated.Orderly ∧ state.Continues updated := by
  refine h.advance state.children [] hparent (by rw [hchildren, List.append_nil])
    (List.forall₂_same.mpr fun child _ ↦ ⟨.refl child, id⟩) nofun (fun _ _ ↦ rfl) ?_
  rw [hchildren]
  exact h.single

/-- One more child is released when none is with the market. -/
theorem Orderly.release (h : state.Orderly) (hinactive : state.active = false)
    {more : List ChildExecution} (hparent : updated.parent = state.parent)
    (hplanned : state.parent.algorithm.planned = false)
    (hchildren : updated.children = state.children ++ more)
    (hmore : ∀ child ∈ more, child.Consistent) (hone : more.length ≤ 1) :
    updated.Orderly ∧ state.Continues updated := by
  refine h.advance state.children more hparent hchildren
    (List.forall₂_same.mpr fun child _ ↦ ⟨.refl child, id⟩) hmore (fun hplan ↦ ?_) fun _ ↦ ?_
  · rw [hplanned] at hplan
    cases hplan
  · have hnone : state.children.countP (fun child ↦ child.status.active) = 0 :=
      List.countP_eq_zero.mpr (List.any_eq_false.mp hinactive)
    rw [hchildren, List.countP_append, hnone, Nat.zero_add]
    exact List.countP_le_length.trans hone

end ParentExecutionState

section Mutators

variable {T : Type} [PlanTexts T] {parent : ParentOrderSpec} {state updated : ParentExecutionState}
  {clock : String}

/-- The plan over time starts with children that were never released. -/
theorem consistent_plannedChildren (parent : ParentOrderSpec) (clock : String) (slot sequence : ℕ)
    (quantities : List (ℤ × String)) :
    ∀ child ∈ plannedChildren T parent clock slot sequence quantities, child.Consistent := by
  fun_induction plannedChildren T parent clock slot sequence quantities <;>
    simp_all [ChildExecution.Consistent]

theorem advance_installPlan (h : state.Orderly)
    (halgorithm : state.parent.algorithm = parent.algorithm)
    (hupdated : installPlan T parent clock state = .ok updated) :
    updated.Orderly ∧ state.Continues updated := by
  unfold installPlan at hupdated
  split at hupdated
  · cases hupdated
    exact h.unchanged rfl rfl
  · rename_i hempty
    obtain ⟨children, hchildren, hdone⟩ := exists_of_bind_ok hupdated
    cases hdone
    obtain ⟨weights, hweights, hchildren⟩ := exists_of_bind_ok hchildren
    obtain ⟨quantities, -, hchildren⟩ := exists_of_bind_ok hchildren
    have hplanned : state.parent.algorithm.planned = true := by
      rw [halgorithm]
      cases hkind : parent.algorithm with
      | twap | vwap => rfl
      | pov | iceberg => simp [slotWeights, hkind] at hweights
    dsimp only at hchildren
    split at hchildren
    · cases hchildren
    · cases hchildren
      rw [not_not] at hempty
      refine h.advance [] _ rfl rfl (by rw [hempty]; exact .nil)
        (consistent_plannedChildren parent clock 0 0 _) (fun _ hnonempty ↦ absurd hempty hnonempty)
        fun hplan ↦ ?_
      rw [hplanned] at hplan
      cases hplan

theorem advance_released {timestamp : T} {volume : Option ℤ} (h : state.Orderly)
    (halgorithm : state.parent.algorithm = parent.algorithm)
    (hupdated : released T parent timestamp volume state = .ok updated) :
    updated.Orderly ∧ state.Continues updated := by
  unfold released at hupdated
  split at hupdated
  · cases hupdated
    exact h.unchanged rfl rfl
  cases hkind : parent.algorithm with
  | twap | vwap =>
    simp only [hkind] at hupdated
    obtain ⟨children, hchildren, hdone⟩ := exists_of_bind_ok hupdated
    cases hdone
    refine h.advance children [] rfl (List.append_nil _).symm
      ((mapM_eq_ok_iff.mp hchildren).imp fun child later hlater ↦ ?_) nofun (fun _ _ ↦ rfl)
      fun hplanned ↦ ?_
    · split at hlater
      · rename_i hstatus
        obtain ⟨scheduled, -, hlater⟩ := exists_of_bind_ok hlater
        split at hlater <;> cases hlater
        · refine ⟨⟨rfl, rfl, rfl, rfl, le_rfl, ?_⟩, ?_⟩
          · simp [hstatus, ChildStatus.terminal]
          · simp [hstatus, ChildExecution.Consistent]
        · exact ⟨.refl child, id⟩
      · cases hlater
        exact ⟨.refl child, id⟩
    · rw [halgorithm, hkind] at hplanned
      cases hplanned
  | pov =>
    simp only [hkind] at hupdated
    obtain ⟨observed, -, -, -, ⟨-, rfl⟩ | ⟨hinactive, target, -, rfl⟩⟩ := releasePov_cases hupdated
    · exact h.unchanged rfl rfl
    · have hfresh : (∀ child ∈ povFresh T parent timestamp state target, child.Consistent) ∧
          (povFresh T parent timestamp state target).length ≤ 1 := by
        unfold povFresh
        dsimp only
        split <;> simp [releasedChild, ChildExecution.Consistent]
      exact h.release hinactive rfl (by rw [halgorithm, hkind]; rfl) rfl hfresh.1 hfresh.2
  | iceberg =>
    simp only [hkind, releaseIceberg] at hupdated
    split at hupdated
    · cases hupdated
      exact h.unchanged rfl rfl
    rename_i hinactive
    split at hupdated
    · cases hupdated
      exact h.unchanged rfl rfl
    split at hupdated
    · cases hupdated
    · cases hupdated
      exact h.release (Bool.eq_false_iff.mpr hinactive) rfl (by rw [halgorithm, hkind]; rfl) rfl
        (by simp [releasedChild, ChildExecution.Consistent]) le_rfl

theorem advance_acknowledged {childId : String} {status : ChildStatus} {filled : ℤ}
    (h : state.Orderly) (hstatus : status ≠ .planned)
    (hupdated : acknowledged T parent clock childId status filled state = .ok updated) :
    updated.Orderly ∧ state.Continues updated := by
  rcases acknowledged_cases hupdated with rfl | ⟨child, hmatches, hactive, htaken, rfl⟩
  · exact h.unchanged rfl rfl
  refine h.advance _ [] rfl (List.append_nil _).symm ?_ nofun (fun _ _ ↦ rfl) fun hplanned ↦ ?_
  · rw [acknowledgedChildren, List.forall₂_map_right_iff, List.forall₂_same]
    intro other hother
    split
    · rename_i hid
      rw [eq_of_childId hmatches hother hid]
      obtain ⟨hfollows, hconsistent⟩ :=
        ChildExecution.follows_acknowledged clock hactive hstatus htaken
      exact ⟨hfollows, fun _ ↦ hconsistent⟩
    · exact ⟨.refl other, id⟩
  · refine le_trans ?_ (h.single hplanned)
    rw [acknowledgedChildren, List.countP_map]
    refine List.countP_mono_left fun other hother hlater ↦ ?_
    dsimp only [Function.comp_apply] at hlater
    split at hlater
    · rename_i hid
      rwa [eq_of_childId hmatches hother hid]
    · exact hlater

end Mutators

open ParentStore

/-- A file, seen from an earlier one: what it holds is in order, and goes on from there. -/
structure GoesOn (earlier file : Option ParentExecutionState) : Prop where
  sound : ∀ state ∈ file, state.Sound
  orderly : ∀ state ∈ file, state.Orderly
  continues : ∀ state ∈ earlier, ∃ later ∈ file, state.Continues later

section Calls

variable {T : Type} [PlanTexts T] {earlier file : Option ParentExecutionState}

/-- A transaction takes a snapshot of its own parent. -/
theorem canonical_of_transacted {clock : String} {parent : ParentOrderSpec}
    {mutator : ParentExecutionState → Except ParentExecutionError ParentExecutionState}
    {payload result : ParentExecutionState}
    (h : transacted T clock parent mutator (some payload) = .ok result) :
    payload.parent.canonical T = parent.canonical T := by
  obtain ⟨canonical, hcanonical, h⟩ := exists_of_bind_ok h
  obtain ⟨_, hread, h⟩ := exists_of_bind_ok h
  obtain ⟨_, hopened, -⟩ := exists_of_bind_ok h
  obtain ⟨_, hpayload, hread⟩ := exists_of_bind_ok hread
  obtain ⟨_, -, hread⟩ := exists_of_bind_ok hread
  cases hread
  obtain ⟨_, howned, -⟩ := exists_of_bind_ok hopened
  rw [owned] at howned
  split at howned
  · cases howned
  · rename_i hsame
    rw [hpayload, hcanonical]
    exact congrArg Except.ok (not_not.mp hsame)

theorem GoesOn.transacted (h : GoesOn earlier file) {clock : String} {parent : ParentOrderSpec}
    {mutator : ParentExecutionState → Except ParentExecutionError ParentExecutionState}
    (hmutator : ∀ state updated, state.Orderly → state.parent.algorithm = parent.algorithm →
      mutator state = .ok updated → updated.Orderly ∧ state.Continues updated)
    {result : ParentExecutionState} (hresult : transacted T clock parent mutator file = .ok result) :
    GoesOn earlier (some result) := by
  obtain ⟨canonical, state, updated, hcanonical, hstarts, hupdated, hparent, hsealed, hsound⟩ :=
    of_transacted hresult
  have halgorithm : state.parent.algorithm = parent.algorithm := by
    rw [hstarts.parent_eq]
    exact (ParentOrderSpec.canonical_ok hcanonical).1.algorithm
  rw [hsealed] at hsound ⊢
  rcases hstarts with ⟨rfl, rfl⟩ | ⟨payload, rfl, rfl, -⟩
  · obtain ⟨horderly, -⟩ := hmutator _ _ ⟨by simp, by simp⟩ halgorithm hupdated
    refine ⟨?_, ?_, fun before hbefore ↦ ?_⟩
    · rintro _ ⟨⟩
      exact hsound
    · rintro _ ⟨⟩
      exact ⟨horderly.consistent, horderly.single⟩
    · obtain ⟨_, hlater, -⟩ := h.continues before hbefore
      cases hlater
  · have hpayload := canonical_of_transacted hresult
    rw [hcanonical] at hpayload
    have heconomics := (ParentOrderSpec.canonical_ok hpayload).1
    have hbefore := h.orderly payload rfl
    obtain ⟨horderly, hcontinues⟩ := hmutator { payload with parent := canonical } _
      ⟨hbefore.consistent, heconomics.algorithm ▸ hbefore.single⟩ halgorithm hupdated
    refine ⟨?_, ?_, fun before hearlier ↦ ?_⟩
    · rintro _ ⟨⟩
      exact hsound
    · rintro _ ⟨⟩
      exact ⟨horderly.consistent, horderly.single⟩
    · obtain ⟨_, ⟨⟩, hpast⟩ := h.continues before hearlier
      refine ⟨_, rfl, hpast.trans ⟨heconomics.trans ?_, hcontinues.children, ?_⟩⟩
      · exact hcontinues.economics
      · rw [← heconomics.algorithm]
        exact hcontinues.plan

/-- Whatever a call writes goes on with the file. -/
theorem GoesOn.written {spec : ParentOrderSpec} {engine : ParentChildExecutionEngine}
    {result : ParentExecutionState} (h : GoesOn earlier file)
    (hwritten : Written T spec engine file result) : GoesOn earlier (some result) := by
  cases hwritten with
  | fresh clock hcanonical hnone =>
    have hpositive := (ParentOrderSpec.canonical_ok hcanonical).2.total_pos
    subst hnone
    refine ⟨?_, ?_, fun state hstate ↦ ?_⟩
    · rintro _ ⟨⟩
      refine ⟨?_, le_rfl, ?_, rfl, ?_, ?_, fun _ ↦ .inl ⟨rfl, rfl⟩⟩
      · simpa [ParentExecutionState.committedQuantity_eq] using hpositive.le
      all_goals simp
    · rintro _ ⟨⟩
      exact ⟨by simp, by simp⟩
    · obtain ⟨_, hlater, -⟩ := h.continues state hstate
      cases hlater
  | installed _ _ hresult => exact h.transacted (fun _ _ ↦ advance_installPlan) hresult
  | released hresult => exact h.transacted (fun _ _ ↦ advance_released) hresult
  | acknowledged hstatus hresult =>
    exact h.transacted (fun _ _ horderly _ ↦ advance_acknowledged horderly hstatus) hresult

end Calls

/-- A call of an engine whose process is stopped behind some of its writes, or behind the last. -/
structure ParentInput where
  spec : ParentOrderSpec
  engine : ParentChildExecutionEngine
  call : ParentCall
  writes : ℕ

def interrupted (T : Type) [PlanTexts T] (file : Option ParentExecutionState)
    (input : ParentInput) : Option ParentExecutionState :=
  (input.call.perform T input.spec input.engine).stopped file input.writes

/-- Whatever engines do with one file, it goes on from each of its earlier snapshots. -/
theorem goesOn_run (T : Type) [PlanTexts T] (inputs : List ParentInput) :
    Ascends (interrupted T) GoesOn none inputs := by
  have hstep (earlier file : Option ParentExecutionState) (input : ParentInput)
      (h : GoesOn earlier file) : GoesOn earlier (interrupted T file input) :=
    (upholds_perform (fun _ _ ↦ GoesOn.written) input.call).stopped h h input.writes
  intro first second rest _
  have hfirst : GoesOn none (run (interrupted T) none first) :=
    of_run (hstep none) ⟨by simp, by simp, by simp⟩ first
  rw [run_append]
  refine of_run (hstep _) ⟨hfirst.sound, hfirst.orderly, fun state hstate ↦ ?_⟩ second
  exact ⟨state, hstate, ((hfirst.orderly state hstate).unchanged rfl rfl).2⟩

end QuantAgent.Execution
