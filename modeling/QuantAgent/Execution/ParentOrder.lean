import QuantAgent.Library.Binary64
import QuantAgent.Library.Durable
import QuantAgent.Library.IsoDate
import QuantAgent.Library.Outcome

/-!
# Parent orders

A parent order, the children it is executed through, and the snapshot both are kept in.  The
economics of a parent are brought into one form before anything is kept; a snapshot is checked
whenever it is read and whenever it is written.  A snapshot is carried as the value that its JSON
text stands for.
-/

namespace QuantAgent.Execution

open Library

/-- `PARENT_EXECUTION_SCHEMA`. -/
def parentExecutionSchema : String := "quantagent.execution.parent_child.v3"

/-- `ParentExecutionError`, its two subclasses, and an integer too large for a double. -/
inductive ParentExecutionError where
  | contract (message : String)
  | corruption (message : String)
  | conflict (message : String)
  | overflow
  deriving DecidableEq, Repr

/-- `ExecutionAlgorithm`. -/
inductive ExecutionAlgorithm where
  | twap | vwap | pov | iceberg
  deriving DecidableEq, Repr

def ExecutionAlgorithm.value : ExecutionAlgorithm → String
  | twap => "twap"
  | vwap => "vwap"
  | pov => "pov"
  | iceberg => "iceberg"

def ExecutionAlgorithm.planned (algorithm : ExecutionAlgorithm) : Bool := algorithm ∈ [twap, vwap]

/-- `ChildStatus`; `partly` is `PARTIAL`. -/
inductive ChildStatus where
  | planned | released | partly | filled | cancelled | rejected
  deriving DecidableEq, Repr

namespace ChildStatus

def value : ChildStatus → String
  | planned => "planned"
  | released => "released"
  | partly => "partial"
  | filled => "filled"
  | cancelled => "cancelled"
  | rejected => "rejected"

/-- `_ACTIVE_CHILD_STATUSES`. -/
def active (status : ChildStatus) : Bool := status ∈ [released, partly]

/-- `_TERMINAL_CHILD_STATUSES`. -/
def terminal (status : ChildStatus) : Bool := status ∈ [filled, cancelled, rejected]

end ChildStatus

/-- `ParentOrderSpec`. -/
structure ParentOrderSpec where
  parentId : String
  sessionDate : String
  symbol : String
  side : String
  totalQuantity : ℤ
  algorithm : ExecutionAlgorithm
  scheduleTimes : List String
  volumeProfile : List Double
  participationRate : Option Double
  displayQuantity : Option ℤ
  maxChildQuantity : Option ℤ
  lotSize : ℤ
  signalId : String
  strategyVersion : String
  deriving DecidableEq, Repr

/-- `ChildExecution`. -/
structure ChildExecution where
  childId : String
  sequence : ℕ
  quantity : ℤ
  scheduledAt : String
  status : ChildStatus
  filledQuantity : ℤ
  lastUpdatedAt : String
  deriving DecidableEq, Repr

def ChildExecution.outstandingQuantity (child : ChildExecution) : ℤ :=
  if child.status.terminal ∨ child.status = .planned then 0
  else max 0 (child.quantity - child.filledQuantity)

/-- `ParentExecutionState`. -/
structure ParentExecutionState where
  schemaVersion : String
  parent : ParentOrderSpec
  children : List ChildExecution
  lastObservedCumulativeVolume : ℤ
  revision : ℕ
  createdAt : String
  updatedAt : String
  payloadSha256 : String
  deriving DecidableEq, Repr

namespace ParentExecutionState

def filledQuantity (state : ParentExecutionState) : ℤ :=
  (state.children.map ChildExecution.filledQuantity).sum

def outstandingQuantity (state : ParentExecutionState) : ℤ :=
  (state.children.map ChildExecution.outstandingQuantity).sum

def remainingQuantity (state : ParentExecutionState) : ℤ :=
  max 0 (state.parent.totalQuantity - state.filledQuantity)

def committedQuantity (state : ParentExecutionState) : ℤ :=
  state.filledQuantity + state.outstandingQuantity

def complete (state : ParentExecutionState) : Bool :=
  state.parent.totalQuantity ≤ state.filledQuantity

end ParentExecutionState

/-- The functions on texts, dates, times and floats that the planner calls, and its digests.  `T` is
a `datetime`. -/
class PlanTexts (T : Type) where
  strip : String → String
  lower : String → String
  /-- `repr(text)`. -/
  quoted : String → String
  /-- `date.fromisoformat(text).isoformat()`; `none` is a raised error. -/
  canonicalDate : String → Option String
  /-- `datetime.fromisoformat(text.replace("Z", "+00:00"))`; `none` is a raised error. -/
  moment : String → Option T
  /-- `tzinfo is None`. -/
  zoneless : T → Bool
  /-- `.date().isoformat()`. -/
  date : T → String
  iso : T → String
  /-- The point in time that comparisons go by. -/
  instant : T → ℤ
  /-- `sum(floats)`. -/
  floatSum : List ℚ → Double
  /-- `sha256(text.encode("utf-8")).hexdigest()`. -/
  sha256 : String → String
  /-- The same of the compact JSON of a snapshot whose digest is left out. -/
  snapshotDigest : ParentExecutionState → String

/-- ASCII texts, moments as their own ISO texts with one offset, and digests by characters. -/
instance : PlanTexts String where
  strip text :=
    let started := text.toList.dropWhile Char.isWhitespace
    String.ofList (started.reverse.dropWhile Char.isWhitespace).reverse
  lower text := String.ofList (text.toList.map Char.toLower)
  quoted text := "'" ++ text ++ "'"
  canonicalDate text := if IsoDate.isExact text then some text else none
  moment text :=
    if text.length = 25 ∧ IsoDate.isExact (String.ofList (text.toList.take 10)) then some text
    else none
  zoneless _ := false
  date moment := String.ofList (moment.toList.take 10)
  iso moment := moment
  instant moment := ofDecimal (moment.toList.filter Char.isDigit)
  floatSum values := .finite (values.foldl (fun sum value ↦ roundDouble (sum + value)) 0)
  sha256 := characterDigest
  snapshotDigest state :=
    characterDigest (toString state.revision ++ "|" ++ toString state.lastObservedCumulativeVolume ++
      String.join (state.children.map fun child ↦
        "|" ++ child.childId ++ child.status.value ++ toString child.filledQuantity))

variable {T : Type} [PlanTexts T]

open ParentExecutionError (contract corruption conflict)

/-- `_canonical_session_date`. -/
def canonicalSessionDate (T : Type) [PlanTexts T] (value : String) :
    Except ParentExecutionError String :=
  match PlanTexts.canonicalDate T (PlanTexts.strip T value) with
  | some parsed => .ok parsed
  | none => .error (contract ("invalid session_date " ++ PlanTexts.quoted T value ++
      "; expected YYYY-MM-DD"))

/-- `_parse_time`. -/
def parseTime (value : String) : Except ParentExecutionError T :=
  let text := PlanTexts.strip T value
  if text = "" then .error (contract "schedule timestamp must be non-empty")
  else match PlanTexts.moment text with
    | none => .error (contract ("invalid schedule timestamp " ++ PlanTexts.quoted T value))
    | some parsed =>
      if PlanTexts.zoneless parsed then
        .error (contract ("schedule timestamp " ++ PlanTexts.quoted T value ++
          " must include an explicit timezone"))
      else .ok parsed

def increasing (moments : List T) : Bool :=
  (moments.zip moments.tail).all fun pair ↦ PlanTexts.instant pair.1 < PlanTexts.instant pair.2

/-- `_canonical_times`. -/
def canonicalTimes (T : Type) [PlanTexts T] (values : List String) (sessionDate : String) :
    Except ParentExecutionError (List String) := do
  let parsed : List T ← values.mapM parseTime
  if parsed.isEmpty then
    .error (contract "TWAP/VWAP requires at least one schedule timestamp")
  else if parsed.any fun moment ↦ PlanTexts.date moment ≠ sessionDate then
    .error (contract "all TWAP/VWAP schedule timestamps must belong to parent session_date")
  else if !increasing parsed then
    .error (contract "schedule timestamps must be strictly increasing")
  else .ok (parsed.map PlanTexts.iso)

/-- The finite numbers of a profile; `none` when one is not finite or is negative. -/
def profileWeights : List Double → Option (List ℚ)
  | [] => some []
  | .finite value :: rest => if value < 0 then none else (profileWeights rest).map (value :: ·)
  | .nonFinite :: _ => none

/-- `_normalise_profile`. -/
def normaliseProfile (T : Type) [PlanTexts T] (values : List Double) (n : ℕ) :
    Except ParentExecutionError (List Double) :=
  if values.length ≠ n then
    .error (contract ("VWAP volume profile length " ++ toString values.length ++
      " != schedule length " ++ toString n))
  else match profileWeights values with
    | none => .error (contract "VWAP volume profile must contain finite non-negative values")
    | some floats =>
      match PlanTexts.floatSum T floats with
      | .nonFinite =>
        .error (contract "VWAP volume profile must have finite positive mass")
      | .finite total =>
        if total ≤ 0 then
          .error (contract "VWAP volume profile must have finite positive mass")
        else .ok (floats.map fun value ↦ .finite (roundDouble (value / total)))

namespace ParentOrderSpec

def canonicalPlan (T : Type) [PlanTexts T] (spec : ParentOrderSpec) (sessionDate : String) :
    Except ParentExecutionError (List String × List Double) :=
  if spec.algorithm.planned then do
    let schedule ← canonicalTimes T spec.scheduleTimes sessionDate
    if spec.algorithm = .vwap then
      let profile ← normaliseProfile T spec.volumeProfile schedule.length
      .ok (schedule, profile)
    else if spec.volumeProfile ≠ [] then
      .error (contract "TWAP must not carry a VWAP volume profile")
    else .ok (schedule, [])
  else if spec.scheduleTimes ≠ [] ∨ spec.volumeProfile ≠ [] then
    .error (contract (spec.algorithm.value ++
      " is event-driven and must not carry a static schedule/profile"))
  else .ok ([], [])

def canonicalRate (spec : ParentOrderSpec) : Except ParentExecutionError (Option Double) :=
  if spec.algorithm = .pov then
    match spec.participationRate with
    | none => .error (contract "POV requires participation_rate")
    | some .nonFinite =>
      .error (contract "POV participation_rate must be finite and in (0, 1]")
    | some (.finite rate) =>
      if 0 < rate ∧ rate ≤ 1 then .ok (some (.finite rate))
      else .error (contract "POV participation_rate must be finite and in (0, 1]")
  else if spec.participationRate ≠ none then
    .error (contract ("participation_rate is only valid for POV, not " ++ spec.algorithm.value))
  else .ok none

def canonicalDisplay (spec : ParentOrderSpec) : Except ParentExecutionError (Option ℤ) :=
  if spec.algorithm = .iceberg then
    match spec.displayQuantity with
    | none => .error (contract "iceberg requires display_quantity")
    | some display =>
      if display ≤ 0 ∨ display % spec.lotSize ≠ 0 then
        .error (contract "iceberg display_quantity must be positive and lot-aligned")
      else .ok (some display)
  else if spec.displayQuantity ≠ none then
    .error (contract ("display_quantity is only valid for iceberg, not " ++ spec.algorithm.value))
  else .ok none

def canonicalMaxChild (spec : ParentOrderSpec) : Except ParentExecutionError (Option ℤ) :=
  match spec.maxChildQuantity with
  | none => .ok none
  | some maxChild =>
    if maxChild ≤ 0 ∨ maxChild % spec.lotSize ≠ 0 then
      .error (contract "max_child_quantity must be positive and lot-aligned")
    else .ok (some maxChild)

/-- What is refused of the identity, the side and the quantity; the side is folded already. -/
def refusal (T : Type) [PlanTexts T] (spec : ParentOrderSpec) (side : String) :
    Option ParentExecutionError :=
  if PlanTexts.strip T spec.parentId = "" ∨ PlanTexts.strip T spec.symbol = "" then
    some (contract "parent_id and symbol must be non-empty")
  else if side ∉ ["buy", "sell"] then some (contract "parent side must be buy or sell")
  else if spec.totalQuantity ≤ 0 ∨ spec.lotSize ≤ 0 then
    some (contract "total_quantity and lot_size must be positive")
  else if spec.totalQuantity % spec.lotSize ≠ 0 then
    some (contract ("parent quantity must be lot-aligned; venue-specific odd-lot " ++
      "liquidation is outside this planner"))
  else none

/-- `ParentOrderSpec.canonical`. -/
def canonical (T : Type) [PlanTexts T] (spec : ParentOrderSpec) :
    Except ParentExecutionError ParentOrderSpec := do
  let side := PlanTexts.lower T (PlanTexts.strip T spec.side)
  let sessionDate ← canonicalSessionDate T spec.sessionDate
  match spec.refusal T side with
  | some error => .error error
  | none =>
    let plan ← spec.canonicalPlan T sessionDate
    let participation ← spec.canonicalRate
    let display ← spec.canonicalDisplay
    let maxChild ← spec.canonicalMaxChild
    .ok { spec with
      parentId := PlanTexts.strip T spec.parentId
      sessionDate
      symbol := PlanTexts.strip T spec.symbol
      side
      scheduleTimes := plan.1
      volumeProfile := plan.2
      participationRate := participation
      displayQuantity := display
      maxChildQuantity := maxChild }

/-- The numbers of a parent that are checked and taken over as they are. -/
structure SameEconomics (spec other : ParentOrderSpec) : Prop where
  totalQuantity : other.totalQuantity = spec.totalQuantity
  algorithm : other.algorithm = spec.algorithm
  participationRate : other.participationRate = spec.participationRate
  displayQuantity : other.displayQuantity = spec.displayQuantity
  maxChildQuantity : other.maxChildQuantity = spec.maxChildQuantity
  lotSize : other.lotSize = spec.lotSize

/-- What a parent in canonical form has been checked for. -/
structure WellFormed (spec : ParentOrderSpec) : Prop where
  total_pos : 0 < spec.totalQuantity
  lot_pos : 0 < spec.lotSize
  total_lots : spec.totalQuantity % spec.lotSize = 0
  rate : spec.algorithm = .pov →
    ∃ rate, spec.participationRate = some (.finite rate) ∧ 0 < rate ∧ rate ≤ 1
  display : spec.algorithm = .iceberg →
    ∃ display, spec.displayQuantity = some display ∧ 0 < display ∧ display % spec.lotSize = 0
  maxChild : ∀ maxChild ∈ spec.maxChildQuantity, 0 < maxChild ∧ maxChild % spec.lotSize = 0

variable {spec : ParentOrderSpec}

theorem canonicalRate_ok {rate : Option Double} (h : spec.canonicalRate = .ok rate) :
    rate = spec.participationRate ∧
      (spec.algorithm = .pov →
        ∃ rate, spec.participationRate = some (.finite rate) ∧ 0 < rate ∧ rate ≤ 1) := by
  rw [canonicalRate] at h
  split at h
  · split at h
    · cases h
    · cases h
    · rename_i rate hrate
      split at h
      · rename_i hrange
        cases h
        exact ⟨hrate.symm, fun _ ↦ ⟨rate, hrate, hrange⟩⟩
      · cases h
  · rename_i halgorithm
    split at h
    · cases h
    · rename_i hnone
      cases h
      exact ⟨(not_not.mp hnone).symm, fun hpov ↦ absurd hpov halgorithm⟩

theorem canonicalDisplay_ok {display : Option ℤ} (h : spec.canonicalDisplay = .ok display) :
    display = spec.displayQuantity ∧
      (spec.algorithm = .iceberg →
        ∃ display, spec.displayQuantity = some display ∧ 0 < display ∧
          display % spec.lotSize = 0) := by
  rw [canonicalDisplay] at h
  split at h
  · split at h
    · cases h
    · rename_i display hdisplay
      split at h
      · cases h
      · rename_i hlots
        cases h
        exact ⟨hdisplay.symm, fun _ ↦ ⟨display, hdisplay, by omega, by omega⟩⟩
  · rename_i halgorithm
    split at h
    · cases h
    · rename_i hnone
      cases h
      exact ⟨(not_not.mp hnone).symm, fun hiceberg ↦ absurd hiceberg halgorithm⟩

theorem canonicalMaxChild_ok {maxChild : Option ℤ} (h : spec.canonicalMaxChild = .ok maxChild) :
    maxChild = spec.maxChildQuantity ∧
      ∀ maxChild ∈ spec.maxChildQuantity, 0 < maxChild ∧ maxChild % spec.lotSize = 0 := by
  rw [canonicalMaxChild] at h
  split at h
  · rename_i hnone
    cases h
    simp [hnone]
  · rename_i maxChild hsome
    split at h
    · cases h
    · rename_i hlots
      cases h
      refine ⟨hsome.symm, ?_⟩
      rintro _ hmem
      rw [hsome] at hmem
      cases hmem
      omega

/-- The canonical form keeps the numbers of a parent, and they are well formed. -/
theorem canonical_ok {canonical : ParentOrderSpec} (h : spec.canonical T = .ok canonical) :
    SameEconomics spec canonical ∧ WellFormed canonical := by
  obtain ⟨sessionDate, _, h⟩ := exists_of_bind_ok h
  split at h
  · cases h
  · rename_i hrefusal
    obtain ⟨plan, _, h⟩ := exists_of_bind_ok h
    obtain ⟨participation, hrate, h⟩ := exists_of_bind_ok h
    obtain ⟨display, hdisplay, h⟩ := exists_of_bind_ok h
    obtain ⟨maxChild, hmaxChild, h⟩ := exists_of_bind_ok h
    obtain ⟨rfl, hrange⟩ := canonicalRate_ok hrate
    obtain ⟨rfl, hshown⟩ := canonicalDisplay_ok hdisplay
    obtain ⟨rfl, hlargest⟩ := canonicalMaxChild_ok hmaxChild
    cases h
    rw [refusal] at hrefusal
    split at hrefusal
    · cases hrefusal
    split at hrefusal
    · cases hrefusal
    split at hrefusal
    · cases hrefusal
    rename_i hpositive
    split at hrefusal
    · cases hrefusal
    rename_i hlots
    have htotal : 0 < spec.totalQuantity := by omega
    have hlot : 0 < spec.lotSize := by omega
    exact ⟨⟨rfl, rfl, rfl, rfl, rfl, rfl⟩,
      ⟨htotal, hlot, not_not.mp hlots, hrange, hshown, hlargest⟩⟩

end ParentOrderSpec

end QuantAgent.Execution
