import QuantAgent.Paper.ExecutionJournal

/-!
# The file of the operational event ledger

An event is printed as one line to the end of a file, and the sequence and the head an instance
remembers move on behind the write.  Everything that is known about the file is read from it line by
line.  An append may fail after some of its line has reached the file, and the process may die with
it; then the file is opened again.
-/

namespace QuantAgent.Paper.EventFile

open Library TextFile Domain

variable {N : Type}

/-- `GENESIS_HASH`. -/
def genesisHash : String := "0000000000000000000000000000000000000000000000000000000000000000"

/-- `EVENT_TYPES`. -/
def eventTypes : List String :=
  ["SIGNAL_CREATED", "TARGET_GENERATED", "RISK_APPROVED", "RISK_REJECTED", "ORDER_CREATED",
    "ORDER_ACCEPTED", "ORDER_REJECTED", "ORDER_PARTIALLY_FILLED", "ORDER_FILLED",
    "ORDER_CANCEL_REQUESTED", "ORDER_CANCELLED", "CASH_CHANGED", "POSITION_CHANGED",
    "CORPORATE_ACTION_APPLIED", "MARK_TO_MARKET", "KILL_SWITCH_ARMED", "KILL_SWITCH_TRIGGERED",
    "KILL_SWITCH_CLEARED", "RISK_STATE_UPDATED", "SESSION_CLOSED", "RECONCILIATION_PASSED",
    "RECONCILIATION_FAILED"]

/-- `Event`, whose fields a reader takes as they are. -/
structure Event (N : Type) where
  eventId : Json N
  sequence : Json N
  eventTime : Json N
  marketTime : Json N
  eventType : Json N
  runId : Json N
  strategyId : Json N
  portfolioId : Json N
  symbol : Json N
  payload : Json N
  previousHash : Json N
  eventHash : Json N

namespace Event

/-- What the digest covers, in the order of its keys. -/
def bodyMembers (event : Event N) : List (String × Json N) :=
  [("event_id", event.eventId), ("event_time", event.eventTime), ("event_type", event.eventType),
    ("market_time", event.marketTime), ("payload", event.payload),
    ("portfolio_id", event.portfolioId), ("previous_hash", event.previousHash),
    ("run_id", event.runId), ("sequence", event.sequence), ("strategy_id", event.strategyId),
    ("symbol", event.symbol)]

/-- `to_dict`, in the order of its keys. -/
def members (event : Event N) : List (String × Json N) :=
  ("event_hash", event.eventHash) :: event.bodyMembers

/-- `compute_hash`: the digest of what is printed. -/
def computeHash [Sha256 N] (event : Event N) : String :=
  Sha256.sha256 (shown (.obj event.bodyMembers))

def printed (event : Event N) : Event N where
  eventId := shown event.eventId
  sequence := shown event.sequence
  eventTime := shown event.eventTime
  marketTime := shown event.marketTime
  eventType := shown event.eventType
  runId := shown event.runId
  strategyId := shown event.strategyId
  portfolioId := shown event.portfolioId
  symbol := shown event.symbol
  payload := shown event.payload
  previousHash := shown event.previousHash
  eventHash := shown event.eventHash

/-- The arguments `Event` takes. -/
def fieldNames : List String :=
  ["event_id", "sequence", "event_time", "market_time", "event_type", "run_id", "strategy_id",
    "portfolio_id", "symbol", "payload", "previous_hash", "event_hash"]

/-- `Event(**document)`; `none` is an argument that is missing or unknown, or no mapping. -/
def ofDict : Json N → Option (Event N)
  | .obj members =>
    let document : Json N := .obj members
    if ∀ member ∈ members, member.1 ∈ fieldNames then do
      let eventId ← document.get? "event_id"
      let sequence ← document.get? "sequence"
      let eventTime ← document.get? "event_time"
      let marketTime ← document.get? "market_time"
      let eventType ← document.get? "event_type"
      let runId ← document.get? "run_id"
      let strategyId ← document.get? "strategy_id"
      let portfolioId ← document.get? "portfolio_id"
      let symbol ← document.get? "symbol"
      let payload ← document.get? "payload"
      let previousHash ← document.get? "previous_hash"
      return {
        eventId, sequence, eventTime, marketTime, eventType, runId, strategyId, portfolioId
        symbol, payload, previousHash
        eventHash := (document.get? "event_hash").getD (.str "") }
    else none
  | _ => none

end Event

class LedgerNumbers (N : Type) extends Documents N where
  /-- `value + 1`; `none` is a raised error. -/
  succ : Json N → Option (Json N)
  succ_natCast : ∀ n, succ (.num (natCast n)) = some (.num (natCast (n + 1)))

/-- One more than an integer or a truth value; a float has no successor here. -/
instance : LedgerNumbers PyNumber where
  succ
    | .num (.int value) => some (.num (.int (value + 1)))
    | .bool value => some (.num (.int (if value then 2 else 1)))
    | _ => none
  succ_natCast _ := rfl

structure EventLedger (N : Type) where
  sequence : Json N
  head : Json N

/-- The arguments of an append, with the identifier and the time it is stamped with. -/
structure Request (N : Type) where
  eventType : String
  runId : String
  portfolioId : String
  payload : Option (Mapping N)
  symbol : Option String
  strategyId : Option String
  marketTime : Option String
  eventId : String
  eventTime : String

/-- What the disk does with an append: all of the line arrives, or an error is raised after so many
bytes of it, short of its line end, and the process goes on or dies. -/
inductive Disk where
  | works
  | breaks (reached : ℕ) (survives : Bool)
  deriving DecidableEq, Repr

inductive AppendError where
  | unknownEventType
  | writeFailed
  | notANumber
  deriving DecidableEq, Repr

/-- Why `verify` does not accept a chain. -/
inductive ChainBreak (N : Type) where
  | sequenceGap (saw : Json N) (expected : ℕ)
  | unchained (sequence : Json N)
  | altered (sequence : Json N)

/-- What `verify` reports. -/
inductive Report (N : Type) where
  | valid (checked : ℕ) (head : Json N)
  | broken (checked : ℕ) (error : ChainBreak N)

section Ledger

variable [NumText N] [LedgerNumbers N] [Sha256 N]

omit [LedgerNumbers N] [Sha256 N] in
/-- `read`, to its end; `none` is a raised error. -/
def read : Option ByteArray → Option (List (Event N))
  | none => some []
  | some bytes => do
      let documents ← TornLines.documents bytes
      documents.mapM Event.ofDict

/-- `verify` behind so many events; a file that is not read to its end has no report. -/
def verifyFrom (previous : Json N) (checked : ℕ) : List (Event N) → Report N
  | [] => .valid checked previous
  | event :: rest =>
    if Documents.same event.sequence (.num (Number.natCast checked)) = false then
      .broken checked (.sequenceGap event.sequence checked)
    else if Documents.same event.previousHash previous = false then
      .broken checked (.unchained event.sequence)
    else if Documents.same event.eventHash (.str event.computeHash) = false then
      .broken checked (.altered event.sequence)
    else verifyFrom event.eventHash (checked + 1) rest

/-- `verify`. -/
def verify (file : Option ByteArray) : Option (Report N) :=
  (read file).map (verifyFrom (.str genesisHash) 0)

/-- `_resume`: every event moves the sequence and the head on. -/
def resumeFrom (ledger : EventLedger N) : List (Event N) → Option (EventLedger N)
  | [] => some ledger
  | event :: rest => do
      let sequence ← LedgerNumbers.succ event.sequence
      resumeFrom { sequence, head := event.eventHash } rest

def fresh : EventLedger N where
  sequence := .num (Number.natCast 0)
  head := .str genesisHash

/-- `EventLedger(path)`. -/
def openLedger (file : Option ByteArray) : Option (EventLedger N) :=
  (read file).bind (resumeFrom fresh)

namespace EventLedger

def nextEvent (ledger : EventLedger N) (request : Request N) : Event N :=
  let event : Event N := {
    eventId := .str request.eventId
    sequence := ledger.sequence
    eventTime := .str request.eventTime
    marketTime := optionalStr request.marketTime
    eventType := .str request.eventType
    runId := .str request.runId
    strategyId := optionalStr request.strategyId
    portfolioId := .str request.portfolioId
    symbol := optionalStr request.symbol
    payload := .obj (request.payload.getD .empty).members.entries
    previousHash := ledger.head
    eventHash := .str "" }
  { event with eventHash := .str event.computeHash }

end EventLedger

/-- An append that came to its write: its event, and how much of its line arrived. -/
structure Attempt (N : Type) where
  event : Event N
  reached : Option ℕ

def Attempt.piece (attempt : Attempt N) : TornLines.Piece N where
  members := attempt.event.printed.members
  reached := attempt.reached

def Disk.reached : Disk → Option ℕ
  | .works => none
  | .breaks reached _ => some reached

/-- `append`: the instance, the file, and what is returned or raised. -/
def append (disk : Disk) (ledger : EventLedger N) (file : Option ByteArray) (request : Request N) :
    EventLedger N × Option ByteArray × Except AppendError (Event N) :=
  if request.eventType ∉ eventTypes then (ledger, file, .error .unknownEventType)
  else
    let event := ledger.nextEvent request
    let attempt : Attempt N := { event, reached := disk.reached }
    let file := some (file.getD .empty ++ attempt.piece.bytes)
    match disk with
    | .breaks _ _ => (ledger, file, .error .writeFailed)
    | .works =>
      match LedgerNumbers.succ ledger.sequence with
      | none => (ledger, file, .error .notANumber)
      | some sequence => ({ sequence, head := event.eventHash }, file, .ok event)

end Ledger

/-- The file, the instance if the process is alive and has one, and what the appends have done. -/
structure World (N : Type) where
  file : Option ByteArray
  ledger : Option (EventLedger N)
  attempts : List (Attempt N)
  returned : List (Event N)

/-- An append on the instance, or the file is opened again. -/
inductive Step (N : Type) where
  | append (request : Request N) (disk : Disk)
  | reopen

section Histories

variable [NumText N] [LedgerNumbers N] [Sha256 N]

def World.empty : World N where
  file := none
  ledger := none
  attempts := []
  returned := []

def Disk.keeps : Disk → Bool
  | .works => true
  | .breaks _ survives => survives

def World.step (world : World N) : Step N → World N
  | .reopen => { world with ledger := openLedger world.file }
  | .append request disk =>
    match world.ledger with
    | none => world
    | some ledger =>
      let (later, file, answer) := append disk ledger world.file request
      { file
        ledger := if disk.keeps then some later else none
        attempts := world.attempts ++ if request.eventType ∉ eventTypes then [] else
          [{ event := ledger.nextEvent request, reached := disk.reached }]
        returned := world.returned ++ answer.toOption.toList }

def run (steps : List (Step N)) : World N := steps.foldl World.step .empty

/-- The ledger can be opened, and every append that returned is read in order from a chain that
verifies. -/
def World.Survives (world : World N) : Prop :=
  (openLedger (N := N) world.file).isSome ∧
    ∃ events, read world.file = some events ∧
      (world.returned.map Event.printed).Sublist events ∧
      ∃ (checked : ℕ) (head : Json N), verify world.file = some (.valid checked head)

def World.arrived (world : World N) : List (Attempt N) :=
  world.attempts.filter fun attempt ↦ attempt.reached ≠ some 0

/-- Every line that arrived is whole, but that the last may lack its line end. -/
def World.Tidy (world : World N) : Prop :=
  TornLines.Sound (world.arrived.map Attempt.piece)

end Histories

end QuantAgent.Paper.EventFile
