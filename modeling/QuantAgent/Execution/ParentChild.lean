import Mathlib.Data.List.Sort
import QuantAgent.Execution.ParentStore
import QuantAgent.Library.Run

/-!
# Execution through children

The engine that releases the children of a parent order and takes what is acknowledged of them.
A plan over time is made when the engine is constructed; a participation in the volume and an
iceberg release one child after another.  A release and an acknowledgement are each one transaction
of the store, so calls of several engines on one file are a sequence of transactions.
-/

namespace QuantAgent.Execution

open Library
open ParentExecutionError (contract corruption conflict)

/-- `int(x)` of a finite float. -/
def truncated (x : ℚ) : ℤ := if x < 0 then ⌈x⌉ else ⌊x⌋

/-- `int(n * x)` of an integer and a finite float. -/
def floatShare (x : ℚ) (n : ℤ) : Except ParentExecutionError ℤ :=
  if doubleLimit ≤ |roundDouble n| then .error .overflow
  else if doubleLimit ≤ |roundDouble (roundDouble n * x)| then .error .overflow
  else .ok (truncated (roundDouble (roundDouble n * x)))

/-- `int(n * x)` before the integer is taken, where that does not overflow. -/
def floatProduct (x : ℚ) (n : ℤ) : ℚ := roundDouble (roundDouble n * x)

/-- `quantity // lot * lot`. -/
def wholeLots (lotSize quantity : ℤ) : ℤ := quantity / lotSize * lotSize

/-- `items[:count]`. -/
def upTo {α : Type} (items : List α) (count : ℤ) : List α :=
  if 0 ≤ count then items.take count.toNat else items.take (items.length - (-count).toNat)

/-- `_allocate_lot_quantities`. -/
def allocateLotQuantities (totalQuantity : ℤ) (weights : List ℚ) (lotSize : ℤ) :
    Except ParentExecutionError (List ℤ) := do
  if weights = [] then .error (contract "allocation requires at least one weight")
  else
    let totalLots := totalQuantity / lotSize
    let base ← weights.mapM fun weight ↦ floatShare weight totalLots
    let excess : ℕ → ℚ := fun index ↦
      floatProduct (weights.getD index 0) totalLots - (base.getD index 0 : ℤ)
    let order := (List.range weights.length).mergeSort fun left right ↦
      excess right < excess left ∨ (excess right = excess left ∧ left ≤ right)
    let raised := upTo order (totalLots - base.sum)
    .ok (base.mapIdx fun index lots ↦
      (if index ∈ raised then lots + 1 else lots) * lotSize)

section Engine

variable (T : Type) [PlanTexts T]

/-- `_content_child_id`. -/
def contentChildId (parent : ParentOrderSpec) (sequence : ℕ) (quantity : ℤ)
    (scheduledAt : String) : String :=
  let material := parent.parentId ++ "|" ++ parent.sessionDate ++ "|" ++ toString sequence ++ "|" ++
    toString quantity ++ "|" ++ scheduledAt
  "child-" ++ String.ofList ((PlanTexts.sha256 T material).toList.take 24)

def releasedChild (parent : ParentOrderSpec) (sequence : ℕ) (quantity : ℤ) (scheduledAt : String) :
    ChildExecution where
  childId := contentChildId T parent sequence quantity scheduledAt
  sequence
  quantity
  scheduledAt
  status := .released
  filledQuantity := 0
  lastUpdatedAt := scheduledAt

/-- The loop of `_static_children`; a slot without quantity gets no child. -/
def plannedChildren (parent : ParentOrderSpec) (clock : String) :
    ℕ → ℕ → List (ℤ × String) → List ChildExecution
  | _, _, [] => []
  | slot, sequence, (quantity, scheduledAt) :: rest =>
    if quantity ≤ 0 then plannedChildren parent clock (slot + 1) sequence rest
    else
      { childId := contentChildId T parent slot quantity scheduledAt
        sequence
        quantity
        scheduledAt
        status := .planned
        filledQuantity := 0
        lastUpdatedAt := clock } ::
        plannedChildren parent clock (slot + 1) (sequence + 1) rest

/-- The weights of the slots; the profile of a parent in canonical form is finite. -/
def slotWeights (parent : ParentOrderSpec) : Except ParentExecutionError (List ℚ) :=
  match parent.algorithm with
  | .twap => .ok (List.replicate parent.scheduleTimes.length
      (roundDouble (1 / parent.scheduleTimes.length)))
  | .vwap =>
    match profileWeights parent.volumeProfile with
    | some weights => .ok weights
    | none => .error .overflow
  | _ => .error (contract "static child planning is only valid for TWAP/VWAP")

/-- `_static_children`. -/
def staticChildren (parent : ParentOrderSpec) (clock : String) :
    Except ParentExecutionError (List ChildExecution) := do
  let weights ← slotWeights parent
  let quantities ← allocateLotQuantities parent.totalQuantity weights parent.lotSize
  let children := plannedChildren T parent clock 0 0 (quantities.zip parent.scheduleTimes)
  if (children.map ChildExecution.quantity).sum ≠ parent.totalQuantity then
    .error (contract "static child allocation does not sum to parent quantity")
  else .ok children

/-- What `_ensure_static_plan` makes of a snapshot. -/
def installPlan (parent : ParentOrderSpec) (clock : String) (state : ParentExecutionState) :
    Except ParentExecutionError ParentExecutionState := do
  if state.children ≠ [] then .ok state
  else
    let children ← staticChildren T parent clock
    .ok { state with children }

def releasePlanned (timestamp : T) (children : List ChildExecution) :
    Except ParentExecutionError (List ChildExecution) :=
  children.mapM fun child ↦
    if child.status = .planned then do
      let scheduled : T ← parseTime child.scheduledAt
      if PlanTexts.instant scheduled ≤ PlanTexts.instant timestamp then
        .ok { child with status := .released, lastUpdatedAt := PlanTexts.iso timestamp }
      else .ok child
    else .ok child

def ParentOrderSpec.rate (parent : ParentOrderSpec) : ℚ :=
  match parent.participationRate with
  | some (.finite rate) => rate
  | _ => 0

/-- The whole lots of the parent that a cumulative volume leaves to it. -/
def povTarget (parent : ParentOrderSpec) (observed : ℤ) : Except ParentExecutionError ℤ := do
  let share ← floatShare parent.rate observed
  .ok (wholeLots parent.lotSize (min parent.totalQuantity share))

/-- What is to be released when `filled` of `target` are filled. -/
def povRequired (parent : ParentOrderSpec) (target filled : ℤ) : ℤ :=
  let required := max 0 (target - filled)
  wholeLots parent.lotSize
    (match parent.maxChildQuantity with
      | none => required
      | some maxChild => min required maxChild)

def ParentExecutionState.active (state : ParentExecutionState) : Bool :=
  state.children.any fun child ↦ child.status.active

/-- `_release_pov`. -/
def releasePov (parent : ParentOrderSpec) (timestamp : T) (volume : Option ℤ)
    (state : ParentExecutionState) : Except ParentExecutionError ParentExecutionState :=
  match volume with
  | none => .error (contract "POV release requires session cumulative_market_volume")
  | some observed =>
    if observed < 0 then
      .error (contract "session cumulative market volume must be non-negative")
    else if observed < state.lastObservedCumulativeVolume then
      .error (contract ("session cumulative market volume moved backwards; feed reset " ++
        "or cross-session reuse must be reconciled/new-parented"))
    else if state.active then .ok { state with lastObservedCumulativeVolume := observed }
    else do
      let target ← povTarget parent observed
      let required := povRequired parent target state.filledQuantity
      let fresh :=
        if 0 < required then
          [releasedChild T parent state.children.length required (PlanTexts.iso timestamp)]
        else []
      .ok { state with
        children := state.children ++ fresh
        lastObservedCumulativeVolume := observed }

def icebergQuantity (parent : ParentOrderSpec) (remaining : ℤ) : ℤ :=
  let shown := min remaining (parent.displayQuantity.getD 0)
  wholeLots parent.lotSize
    (match parent.maxChildQuantity with
      | none => shown
      | some maxChild => min shown maxChild)

/-- `_release_iceberg`. -/
def releaseIceberg (parent : ParentOrderSpec) (timestamp : T) (state : ParentExecutionState) :
    Except ParentExecutionError ParentExecutionState :=
  if state.active then .ok state
  else if state.remainingQuantity ≤ 0 then .ok state
  else
    let quantity := icebergQuantity parent state.remainingQuantity
    if quantity ≤ 0 then
      .error (contract "iceberg remaining quantity is below executable lot")
    else
      .ok { state with
        children := state.children ++
          [releasedChild T parent state.children.length quantity (PlanTexts.iso timestamp)] }

/-- What `release_due` makes of a snapshot. -/
def released (parent : ParentOrderSpec) (timestamp : T) (volume : Option ℤ)
    (state : ParentExecutionState) : Except ParentExecutionError ParentExecutionState :=
  if state.complete then .ok state
  else match parent.algorithm with
    | .twap | .vwap => do
        let children ← releasePlanned T timestamp state.children
        .ok { state with children }
    | .pov => releasePov T parent timestamp volume state
    | .iceberg => releaseIceberg T parent timestamp state

/-- Why a child that is with the market does not take an acknowledgement. -/
def acknowledgementRefusal (child : ChildExecution) (status : ChildStatus) (filled : ℤ) :
    Option String :=
  if filled < child.filledQuantity then some "child cumulative filled quantity moved backwards"
  else if filled < 0 ∨ child.quantity < filled then
    some "child cumulative fill exceeds child quantity"
  else if status = .released ∧ filled ≠ 0 then
    some "RELEASED acknowledgement requires zero cumulative fill"
  else if status = .partly ∧ ¬ (0 < filled ∧ filled < child.quantity) then
    some "PARTIAL child requires 0 < filled_quantity < quantity"
  else if status = .filled ∧ filled ≠ child.quantity then
    some "FILLED child must have filled_quantity == quantity"
  else if status = .rejected ∧ filled ≠ 0 then
    some "REJECTED child must have zero cumulative fill"
  else if status = .cancelled ∧ child.quantity ≤ filled then
    some "fully filled child must be FILLED, not CANCELLED"
  else none

def acknowledgedChildren (clock childId : String) (status : ChildStatus) (filled : ℤ)
    (children : List ChildExecution) : List ChildExecution :=
  children.map fun child ↦
    if child.childId = childId then
      { child with status, filledQuantity := filled, lastUpdatedAt := clock }
    else child

/-- What `acknowledge` makes of a snapshot. -/
def acknowledged (parent : ParentOrderSpec) (clock childId : String) (status : ChildStatus)
    (filled : ℤ) (state : ParentExecutionState) :
    Except ParentExecutionError ParentExecutionState :=
  match state.children.filter fun child ↦ child.childId = childId with
  | [child] =>
    if child.status = .planned then
      .error (contract "PLANNED child cannot receive acknowledgement before release")
    else if child.status.terminal then
      if status = child.status ∧ filled = child.filledQuantity then .ok state
      else .error (contract ("terminal child state " ++ child.status.value ++ " is immutable"))
    else match acknowledgementRefusal child status filled with
      | some message => .error (contract message)
      | none =>
        let updated := { state with
          children := acknowledgedChildren clock childId status filled state.children }
        if parent.totalQuantity < updated.filledQuantity then
          .error (contract "acknowledgement would overfill parent")
        else if parent.totalQuantity < updated.committedQuantity then
          .error (contract "acknowledgement would over-commit parent")
        else .ok updated
  | _ => .error (contract ("unknown/non-unique child id " ++ PlanTexts.quoted T childId))

/-- `ParentChildExecutionEngine`, with the parent in canonical form. -/
structure ParentChildExecutionEngine where
  parent : ParentOrderSpec

namespace ParentChildExecutionEngine

/-- `_ensure_static_plan`. -/
def ensureStaticPlan (engine : ParentChildExecutionEngine) (clock : String) :
    ParentStore ParentExecutionState :=
  ParentStore.transact T clock engine.parent (installPlan T engine.parent clock)

/-- `__init__`. -/
def construct (clock : String) (parent : ParentOrderSpec) :
    ParentStore ParentChildExecutionEngine := do
  let canonical ← Durable.lift (parent.canonical T)
  let engine : ParentChildExecutionEngine := { parent := canonical }
  let _ ← ParentStore.ensure T clock engine.parent
  if engine.parent.algorithm.planned then
    let _ ← engine.ensureStaticPlan T clock
    pure engine
  else pure engine

/-- The snapshot that `state` returns. -/
def current (engine : ParentChildExecutionEngine) :
    Option ParentExecutionState → Except ParentExecutionError ParentExecutionState
  | none => .error (corruption "parent execution state disappeared")
  | some state =>
    if state.parent ≠ engine.parent then
      .error (conflict "parent state belongs to different economics")
    else .ok state

/-- `state`. -/
def state (engine : ParentChildExecutionEngine) : ParentStore ParentExecutionState := do
  let existing ← ParentStore.read T
  Durable.lift (engine.current existing)

/-- `released_children`. -/
def releasedChildren (engine : ParentChildExecutionEngine) :
    ParentStore (List ChildExecution) := do
  let state ← engine.state T
  pure (state.children.filter fun child ↦ child.status = .released)

def releaseMoment (engine : ParentChildExecutionEngine) (now : String) :
    Except ParentExecutionError T := do
  let timestamp : T ← parseTime now
  if PlanTexts.date timestamp ≠ engine.parent.sessionDate then
    .error (contract "release timestamp is outside immutable parent session_date")
  else .ok timestamp

/-- `release_due`. -/
def releaseDue (engine : ParentChildExecutionEngine) (clock now : String) (volume : Option ℤ) :
    ParentStore (List ChildExecution) := do
  let timestamp ← Durable.lift (engine.releaseMoment T now)
  let _ ← ParentStore.transact T clock engine.parent (released T engine.parent timestamp volume)
  engine.releasedChildren T

/-- `acknowledge`. -/
def acknowledge (engine : ParentChildExecutionEngine) (clock childId : String)
    (status : ChildStatus) (filled : ℤ) : ParentStore ParentExecutionState :=
  if status = .planned then
    Durable.raise (contract "acknowledgement cannot move a child back to planned")
  else
    ParentStore.transact T clock engine.parent
      (acknowledged T engine.parent clock childId status filled)

end ParentChildExecutionEngine

/-- A call by one of the engines on a file; `clock` is what `_now` returns in it. -/
inductive ParentCall where
  | construct (clock : String)
  | releaseDue (clock now : String) (volume : Option ℤ)
  | acknowledge (clock childId : String) (status : ChildStatus) (filled : ℤ)

def ParentCall.perform (spec : ParentOrderSpec) (engine : ParentChildExecutionEngine) :
    ParentCall → ParentStore Unit
  | construct clock => do
      let _ ← ParentChildExecutionEngine.construct T clock spec
      pure ()
  | releaseDue clock now volume => do
      let _ ← engine.releaseDue T clock now volume
      pure ()
  | acknowledge clock childId status filled => do
      let _ ← engine.acknowledge T clock childId status filled
      pure ()

def afterCall (spec : ParentOrderSpec) (engine : ParentChildExecutionEngine)
    (file : Option ParentExecutionState) (call : ParentCall) : Option ParentExecutionState :=
  (call.perform T spec engine).final file

end Engine

variable {T : Type} [PlanTexts T] {spec : ParentOrderSpec} {engine : ParentChildExecutionEngine}
  {clock now : String} {volume : Option ℤ} {file : Option ParentExecutionState}

namespace ParentChildExecutionEngine

@[simp]
theorem releasedChildren_passed : (engine.releasedChildren T file).1 = [] := by
  have hread : (ParentStore.read T file).1 = [] := rfl
  have hstate : (engine.state T file).1 = [] := by
    simp only [state, bind, Durable.next]
    cases (ParentStore.read T file).2 with
    | error error => exact hread
    | ok existing => exact hread
  simp only [releasedChildren, bind, Durable.next]
  cases (engine.state T file).2 with
  | error error => exact hstate
  | ok state => rw [hstate]; rfl

/-- A release raises and replaces nothing, or it writes what its transaction makes of the file. -/
theorem releaseDue_cases (engine : ParentChildExecutionEngine) (clock now : String)
    (volume : Option ℤ) (file : Option ParentExecutionState) :
    (∃ error, engine.releaseDue T clock now volume file = ([], .error error)) ∨
      ∃ timestamp result, engine.releaseMoment T now = .ok timestamp ∧
        ParentStore.transacted T clock engine.parent
          (released T engine.parent timestamp volume) file = .ok result ∧
        (engine.releaseDue T clock now volume file).1 = [some result] := by
  cases hmoment : engine.releaseMoment T now with
  | error error =>
    exact .inl ⟨error, by simp only [releaseDue, hmoment]; rfl⟩
  | ok timestamp =>
    rw [releaseDue, hmoment, Durable.lift_next rfl]
    have htransact := ParentStore.transact_eq (T := T) clock engine.parent
      (released T engine.parent timestamp volume) file
    cases hresult : ParentStore.transacted T clock engine.parent
        (released T engine.parent timestamp volume) file with
    | error error =>
      rw [hresult] at htransact
      exact .inl ⟨error, by simp only [bind, Durable.next, htransact]⟩
    | ok result =>
      rw [hresult] at htransact
      refine .inr ⟨timestamp, result, rfl, hresult, ?_⟩
      simp only [bind, Durable.next, htransact, releasedChildren_passed, List.append_nil]

end ParentChildExecutionEngine

open ParentStore Durable

/-- Where a snapshot comes from that a call puts into a file. -/
inductive Written (T : Type) [PlanTexts T] (spec : ParentOrderSpec)
    (engine : ParentChildExecutionEngine) (file : Option ParentExecutionState) :
    ParentExecutionState → Prop
  | fresh {parent canonical : ParentOrderSpec} (clock : String)
      (hcanonical : parent.canonical T = .ok canonical) (hnone : file = none) :
      Written T spec engine file (fresh T canonical clock)
  | installed {parent : ParentOrderSpec} {clock : String} {result : ParentExecutionState}
      (hcanonical : spec.canonical T = .ok parent) (hplanned : parent.algorithm.planned = true)
      (hresult : transacted T clock parent (installPlan T parent clock) file = .ok result) :
      Written T spec engine file result
  | released {timestamp : T} {volume : Option ℤ} {clock : String} {result : ParentExecutionState}
      (hresult : transacted T clock engine.parent (released T engine.parent timestamp volume) file =
        .ok result) : Written T spec engine file result
  | acknowledged {clock childId : String} {status : ChildStatus} {filled : ℤ}
      {result : ParentExecutionState} (hstatus : status ≠ .planned)
      (hresult : transacted T clock engine.parent
        (acknowledged T engine.parent clock childId status filled) file = .ok result) :
      Written T spec engine file result

section

variable {always : Option ParentExecutionState → Prop}

theorem upholds_transact {parent : ParentOrderSpec}
    {mutator : ParentExecutionState → Except ParentExecutionError ParentExecutionState}
    (h : ∀ file result, always file → transacted T clock parent mutator file = .ok result →
      always (some result)) :
    Upholds always always (transact T clock parent mutator) fun _ ↦ always := by
  refine .of_passed fun file hfile passed hpassed ↦ ?_
  rw [transact_eq] at hpassed
  cases hresult : transacted T clock parent mutator file with
  | error error =>
    rw [hresult] at hpassed
    cases hpassed
  | ok result =>
    rw [hresult] at hpassed
    rw [List.mem_singleton.mp hpassed]
    exact h file result hfile hresult

/-- The invariant rule of the calls: what every snapshot keeps that is written, a call keeps. -/
theorem upholds_perform (h : ∀ file result, always file → Written T spec engine file result →
    always (some result)) (call : ParentCall) :
    Upholds always always (call.perform T spec engine) fun _ ↦ always := by
  cases call with
  | construct clock =>
    refine .andThen always ?_ fun _ ↦ .done fun _ ↦ id
    refine .afterOk fun canonical hcanonical ↦ .andThen always ?_ fun _ ↦ ?_
    · refine .of_passed fun file hfile passed hpassed ↦ ?_
      rcases ensure_cases (T := T) clock canonical file with hnothing | ⟨_, hagain, hnone, hfresh⟩
      · rw [hnothing] at hpassed
        cases hpassed
      · rw [hfresh] at hpassed
        rw [List.mem_singleton.mp hpassed]
        exact h file _ hfile (.fresh clock hagain hnone)
    · dsimp only
      split
      · rename_i hplanned
        refine .andThen always ?_ fun _ ↦ .done fun _ ↦ id
        exact upholds_transact fun file result hfile hresult ↦
          h file result hfile (.installed hcanonical hplanned hresult)
      · exact .done fun _ ↦ id
  | releaseDue clock now volume =>
    refine .andThen always ?_ fun _ ↦ .done fun _ ↦ id
    refine .afterLift fun timestamp ↦ .andThen always ?_ fun _ ↦ ?_
    · exact upholds_transact fun file result hfile hresult ↦ h file result hfile (.released hresult)
    · refine .of_passed fun file _ passed hpassed ↦ ?_
      rw [ParentChildExecutionEngine.releasedChildren_passed] at hpassed
      cases hpassed
  | acknowledge clock childId status filled =>
    refine .andThen always ?_ fun _ ↦ .done fun _ ↦ id
    unfold ParentChildExecutionEngine.acknowledge
    split
    · exact .raise
    · rename_i hstatus
      exact upholds_transact fun file result hfile hresult ↦
        h file result hfile (.acknowledged hstatus hresult)

end

end QuantAgent.Execution
