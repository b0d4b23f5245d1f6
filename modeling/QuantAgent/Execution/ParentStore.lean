import QuantAgent.Execution.ParentOrder

/-!
# The store of a parent order

One snapshot, checked on every read and on every write, and replaced as a whole under a lock.  A
procedure that raises has replaced nothing.
-/

namespace QuantAgent.Execution

open Library
open ParentExecutionError (contract corruption conflict)

section Verification

variable (T : Type) [PlanTexts T]

/-- `_payload_digest`. -/
def payloadDigest (state : ParentExecutionState) : String :=
  PlanTexts.snapshotDigest T { state with payloadSha256 := "" }

/-- `_with_digest`. -/
def withDigest (state : ParentExecutionState) : ParentExecutionState :=
  { state with payloadSha256 := payloadDigest T state }

/-- The loop of `_verify_state` over the children. -/
def verifyChildren (parent : ParentOrderSpec) :
    List String → ℕ → List ChildExecution → Except ParentExecutionError Unit
  | _, _, [] => .ok ()
  | seen, expected, child :: rest =>
    if child.childId ∈ seen then .error (corruption ("duplicate child id " ++ child.childId))
    else if child.sequence ≠ expected then
      .error (corruption "child sequence is non-contiguous")
    else if child.quantity ≤ 0 ∨ child.quantity % parent.lotSize ≠ 0 then
      .error (corruption "child quantity is not positive/parent-lot-aligned")
    else if child.filledQuantity < 0 ∨ child.quantity < child.filledQuantity then
      .error (corruption "child filled quantity is outside [0, quantity]")
    else do
      let scheduled : T ← parseTime child.scheduledAt
      if PlanTexts.date scheduled ≠ parent.sessionDate then
        .error (corruption "child scheduled_at is outside parent session_date")
      else verifyChildren parent (seen ++ [child.childId]) (expected + 1) rest

/-- The end of `_verify_state`: a plan that is there is the whole plan. -/
def verifyPlan (state : ParentExecutionState) : Except ParentExecutionError Unit :=
  if state.parent.algorithm.planned = true ∧ ¬ (state.children = [] ∧ state.revision = 0) ∧
      (state.children.map ChildExecution.quantity).sum ≠ state.parent.totalQuantity then
    .error (corruption "static TWAP/VWAP child plan does not sum to parent quantity")
  else .ok ()

/-- `_verify_state`. -/
def verifyState (state : ParentExecutionState) : Except ParentExecutionError Unit :=
  if state.schemaVersion ≠ parentExecutionSchema then
    .error (corruption ("unsupported parent execution schema " ++
      PlanTexts.quoted T state.schemaVersion))
  else if payloadDigest T state ≠ state.payloadSha256 then
    .error (corruption "parent execution state digest mismatch")
  else if state.parent.totalQuantity < state.filledQuantity then
    .error (corruption "child fills exceed parent quantity")
  else if state.parent.totalQuantity < state.committedQuantity then
    .error (corruption "filled + outstanding child quantity exceeds parent")
  else if state.lastObservedCumulativeVolume < 0 then
    .error (corruption "negative observed cumulative market volume")
  else do
    verifyChildren T state.parent [] 0 state.children
    verifyPlan state

end Verification

structure ParentExecutionState.Sound (state : ParentExecutionState) : Prop where
  committed : state.committedQuantity ≤ state.parent.totalQuantity
  volume : 0 ≤ state.lastObservedCumulativeVolume
  ids : (state.children.map ChildExecution.childId).Nodup
  sequences : state.children.map ChildExecution.sequence = List.range state.children.length
  lots : ∀ child ∈ state.children, 0 < child.quantity ∧ child.quantity % state.parent.lotSize = 0
  fills : ∀ child ∈ state.children,
    0 ≤ child.filledQuantity ∧ child.filledQuantity ≤ child.quantity
  plan : state.parent.algorithm.planned = true → (state.children = [] ∧ state.revision = 0) ∨
    (state.children.map ChildExecution.quantity).sum = state.parent.totalQuantity

variable {T : Type} [PlanTexts T]

/-- What the loop establishes of the children that it has still to see. -/
theorem of_verifyChildren {parent : ParentOrderSpec} {seen : List String} {expected : ℕ}
    {children : List ChildExecution} (hseen : seen.Nodup)
    (h : verifyChildren T parent seen expected children = .ok ()) :
    (seen ++ children.map ChildExecution.childId).Nodup ∧
      children.map ChildExecution.sequence = List.range' expected children.length ∧
      ∀ child ∈ children, (0 < child.quantity ∧ child.quantity % parent.lotSize = 0) ∧
        0 ≤ child.filledQuantity ∧ child.filledQuantity ≤ child.quantity := by
  induction children generalizing seen expected with
  | nil => simpa using hseen
  | cons child rest ih =>
    rw [verifyChildren] at h
    split at h
    · cases h
    rename_i hfresh
    split at h
    · cases h
    rename_i hsequence
    split at h
    · cases h
    rename_i hlots
    split at h
    · cases h
    rename_i hfills
    obtain ⟨scheduled, _, hrest⟩ := exists_of_bind_ok h
    split at hrest
    · cases hrest
    have hnext : (seen ++ [child.childId]).Nodup := by
      rw [List.nodup_append]
      refine ⟨hseen, by simp, ?_⟩
      rintro known hknown id hid rfl
      exact hfresh (List.mem_singleton.mp hid ▸ hknown)
    obtain ⟨hids, hsequences, hchildren⟩ := ih hnext hrest
    refine ⟨by simpa using hids, ?_, ?_⟩
    · simp only [List.map_cons, List.length_cons, List.range'_succ, hsequences,
        not_not.mp hsequence]
    · rw [List.forall_mem_cons]
      refine ⟨⟨?_, ?_⟩, hchildren⟩ <;> omega

theorem ParentExecutionState.sound_of_verifyState {state : ParentExecutionState}
    (h : verifyState T state = .ok ()) : state.Sound := by
  rw [verifyState] at h
  split at h
  · cases h
  split at h
  · cases h
  split at h
  · cases h
  split at h
  · cases h
  rename_i hcommitted
  split at h
  · cases h
  rename_i hvolume
  obtain ⟨_, hchildren, hplan⟩ := exists_of_bind_ok h
  obtain ⟨hids, hsequences, hall⟩ := of_verifyChildren List.nodup_nil hchildren
  refine ⟨by omega, by omega, by simpa using hids, ?_, fun child hchild ↦ (hall child hchild).1,
    fun child hchild ↦ (hall child hchild).2, fun hplanned ↦ ?_⟩
  · rw [hsequences, List.range_eq_range']
  · rw [verifyPlan] at hplan
    split at hplan
    · cases hplan
    · rename_i hwhole
      tauto

abbrev ParentStore (α : Type) : Type :=
  Durable (Option ParentExecutionState) ParentExecutionError α

namespace ParentStore

section Procedures

variable (T : Type) [PlanTexts T]

/-- `_read_unlocked`. -/
def readUnlocked (file : Option ParentExecutionState) :
    Except ParentExecutionError (Option ParentExecutionState) :=
  match file with
  | none => .ok none
  | some payload => do
      let parent ← payload.parent.canonical T
      verifyState T { payload with parent }
      .ok (some { payload with parent })

/-- `read`. -/
def read : ParentStore (Option ParentExecutionState) := do
  let file ← Durable.look
  Durable.lift (readUnlocked T file)

def fresh (parent : ParentOrderSpec) (timestamp : String) : ParentExecutionState :=
  withDigest T {
    schemaVersion := parentExecutionSchema
    parent
    children := []
    lastObservedCumulativeVolume := 0
    revision := 0
    createdAt := timestamp
    updatedAt := timestamp
    payloadSha256 := "" }

/-- The snapshot that is there, when it belongs to the parent. -/
def owned (existing canonical : ParentOrderSpec) : Except ParentExecutionError Unit :=
  if existing ≠ canonical then
    .error (conflict "persisted parent economics differ from requested parent")
  else .ok ()

/-- `ensure`. -/
def ensure (clock : String) (parent : ParentOrderSpec) : ParentStore ParentExecutionState := do
  let canonical ← Durable.lift (parent.canonical T)
  match ← read T with
  | some existing =>
    Durable.lift (owned existing.parent canonical)
    pure existing
  | none =>
    Durable.save fun _ ↦ some (fresh T canonical clock)
    pure (fresh T canonical clock)

def opened (clock : String) (canonical : ParentOrderSpec) :
    Option ParentExecutionState → Except ParentExecutionError ParentExecutionState
  | none => .ok (fresh T canonical clock)
  | some state => do
      owned state.parent canonical
      .ok state

def sealedState (clock : String) (state updated : ParentExecutionState) : ParentExecutionState :=
  withDigest T { updated with
    schemaVersion := parentExecutionSchema
    revision := state.revision + 1
    createdAt := state.createdAt
    updatedAt := clock }

/-- The snapshot with which a transaction replaces the one that is there. -/
def transacted (clock : String) (parent : ParentOrderSpec)
    (mutator : ParentExecutionState → Except ParentExecutionError ParentExecutionState)
    (file : Option ParentExecutionState) : Except ParentExecutionError ParentExecutionState := do
  let canonical ← parent.canonical T
  let existing ← readUnlocked T file
  let state ← opened T clock canonical existing
  let updated ← mutator state
  if updated.parent ≠ canonical then
    .error (conflict "mutator changed immutable parent economics")
  else
    verifyState T (sealedState T clock state updated)
    .ok (sealedState T clock state updated)

/-- `transact`. -/
def transact (clock : String) (parent : ParentOrderSpec)
    (mutator : ParentExecutionState → Except ParentExecutionError ParentExecutionState) :
    ParentStore ParentExecutionState := do
  let file ← Durable.look
  let updated ← Durable.lift (transacted T clock parent mutator file)
  Durable.save fun _ ↦ some updated
  pure updated

end Procedures

variable {clock : String} {parent canonical : ParentOrderSpec}
  {file existing : Option ParentExecutionState} {state : ParentExecutionState}

/-- Where a transaction starts: with a new snapshot, or with the one that is there. -/
def Starts (T : Type) [PlanTexts T] (clock : String) (canonical : ParentOrderSpec)
    (file : Option ParentExecutionState) (state : ParentExecutionState) : Prop :=
  (file = none ∧ state = fresh T canonical clock) ∨
    ∃ payload, file = some payload ∧ state = { payload with parent := canonical } ∧ state.Sound

@[simp]
theorem fresh_children : (fresh T canonical clock).children = [] := rfl

@[simp]
theorem fresh_parent : (fresh T canonical clock).parent = canonical := rfl

@[simp]
theorem fresh_volume : (fresh T canonical clock).lastObservedCumulativeVolume = 0 := rfl

variable {updated : ParentExecutionState}

@[simp]
theorem sealedState_children :
    (sealedState T clock state updated).children = updated.children := rfl

@[simp]
theorem sealedState_parent :
    (sealedState T clock state updated).parent = updated.parent := rfl

theorem Starts.parent_eq (h : Starts T clock canonical file state) : state.parent = canonical := by
  rcases h with ⟨_, rfl⟩ | ⟨payload, _, rfl, _⟩ <;> rfl

theorem starts_of_opened (hread : readUnlocked T file = .ok existing)
    (hopened : opened T clock canonical existing = .ok state) :
    Starts T clock canonical file state := by
  cases file with
  | none =>
    cases hread
    cases hopened
    exact .inl ⟨rfl, rfl⟩
  | some payload =>
    obtain ⟨read, _, hchecked⟩ := exists_of_bind_ok hread
    obtain ⟨_, hverified, hsome⟩ := exists_of_bind_ok hchecked
    cases hsome
    obtain ⟨_, howned, hstate⟩ := exists_of_bind_ok hopened
    cases hstate
    rw [owned] at howned
    split at howned
    · cases howned
    · rename_i hsame
      cases not_not.mp hsame
      exact .inr ⟨payload, rfl, rfl, ParentExecutionState.sound_of_verifyState hverified⟩

/-- How the snapshot of a transaction comes about. -/
theorem of_transacted
    {mutator : ParentExecutionState → Except ParentExecutionError ParentExecutionState}
    {result : ParentExecutionState} (h : transacted T clock parent mutator file = .ok result) :
    ∃ canonical state updated, parent.canonical T = .ok canonical ∧
      Starts T clock canonical file state ∧ mutator state = .ok updated ∧
      updated.parent = canonical ∧ result = sealedState T clock state updated ∧ result.Sound := by
  obtain ⟨canonical, hcanonical, h⟩ := exists_of_bind_ok h
  obtain ⟨existing, hread, h⟩ := exists_of_bind_ok h
  obtain ⟨state, hopened, h⟩ := exists_of_bind_ok h
  obtain ⟨updated, hmutator, h⟩ := exists_of_bind_ok h
  split at h
  · cases h
  · rename_i hparent
    obtain ⟨_, hverified, h⟩ := exists_of_bind_ok h
    cases h
    exact ⟨canonical, state, updated, hcanonical, starts_of_opened hread hopened, hmutator,
      not_not.mp hparent, rfl, ParentExecutionState.sound_of_verifyState hverified⟩

/-- A transaction replaces the snapshot once, or raises and replaces nothing. -/
theorem transact_eq (clock : String) (parent : ParentOrderSpec)
    (mutator : ParentExecutionState → Except ParentExecutionError ParentExecutionState)
    (file : Option ParentExecutionState) :
    transact T clock parent mutator file =
      match transacted T clock parent mutator file with
      | .error error => ([], .error error)
      | .ok updated => ([some updated], .ok updated) := by
  rw [transact, Durable.look_next]
  cases transacted T clock parent mutator file with
  | error error => rfl
  | ok updated => rfl

/-- `ensure` writes nothing but a new snapshot where there is none. -/
theorem ensure_cases (clock : String) (parent : ParentOrderSpec)
    (file : Option ParentExecutionState) :
    (ensure T clock parent file).1 = [] ∨
      ∃ canonical, parent.canonical T = .ok canonical ∧ file = none ∧
        ensure T clock parent file =
          ([some (fresh T canonical clock)], .ok (fresh T canonical clock)) := by
  cases hcanonical : parent.canonical T with
  | error error => exact .inl (by rw [ensure, hcanonical]; rfl)
  | ok canonical =>
    rw [ensure, hcanonical, Durable.lift_next rfl, read]
    cases hfile : readUnlocked T file with
    | error error => exact .inl (by simp [bind, Durable.next, Durable.look, Durable.lift, hfile])
    | ok existing =>
      cases existing with
      | some existing =>
        left
        cases howned : owned existing.parent canonical with
        | error error =>
          simp [bind, Durable.next, Durable.look, Durable.lift, hfile, howned]
        | ok _ =>
          simp [bind, Durable.next, Durable.look, Durable.lift, hfile, howned, pure, Durable.done]
      | none =>
        have hnone : file = none := by
          cases file with
          | none => rfl
          | some payload =>
            obtain ⟨_, _, hchecked⟩ := exists_of_bind_ok hfile
            obtain ⟨_, _, hsome⟩ := exists_of_bind_ok hchecked
            cases hsome
        exact .inr ⟨canonical, rfl, hnone, by
          simp [bind, Durable.next, Durable.look, Durable.lift, hfile, Durable.save, pure,
            Durable.done]⟩

end ParentStore

end QuantAgent.Execution
