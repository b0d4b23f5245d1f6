import QuantAgent.Domain.Ledger
import QuantAgent.Library.Fold

/-!
# The operational event ledger

An append-only log with contiguous sequence numbers and a hash chain.  It holds what a paper venue
must remember besides its orders: the kill switch, the state of the risk engine, the marks and the
closed sessions.  The venue derives that state from the log when it starts again.
-/

namespace QuantAgent.Paper

open Library

/-- `GENESIS_HASH` of the operational ledger. -/
def eventGenesis : String := Domain.genesisHash

/-- One latched switch, as it is kept and as it is journalled. -/
structure SwitchRecord where
  scope : String
  key : Option String
  reason : String
  triggeredAt : String
  deriving DecidableEq, Repr

structure SwitchClearance where
  scope : String
  key : Option String
  humanConfirmation : Bool
  author : Option String
  reason : Option String
  clearedAt : String
  deriving DecidableEq, Repr

/-- The payload of a change of the risk state: every change carries some of the fields. -/
structure RiskStateChange where
  session : Option String
  sessionTurnover : Option ℚ := none
  sessionStartEquity : Option ℚ := none
  peakEquity : Option ℚ := none
  dailyLossHalt : Bool := false
  dailyLoss : Option ℚ := none
  dailyLossLimit : Option ℚ := none
  deriving DecidableEq, Repr

inductive EventBody where
  | killSwitchArmed (scope reason : String)
  | killSwitchTriggered (payload : SwitchRecord)
  | killSwitchCleared (payload : SwitchClearance)
  | riskStateUpdated (payload : RiskStateChange)
  /-- The equity of the snapshot, which is missing where a holding has no mark. -/
  | markToMarket (equity : Option ℚ)
  | sessionClosed (tradeDate : String) (settled : List (String × ℚ)) (cash : ℚ)
  deriving DecidableEq, Repr

structure EventContent where
  eventId : String
  sequence : ℕ
  eventTime : String
  marketTime : Option String
  body : EventBody
  runId : String
  portfolioId : String
  previousHash : String
  deriving DecidableEq, Repr

structure Event extends EventContent where
  eventHash : String
  deriving DecidableEq, Repr

class EventDigest where
  digestOf : EventContent → String

/-- `compute_hash`. -/
def Event.computeHash [EventDigest] (event : Event) : String :=
  EventDigest.digestOf event.toEventContent

/-- What is fresh at every append: an identifier and the clock. -/
structure EventStamp where
  eventId : String
  eventTime : String
  deriving DecidableEq, Repr

inductive EventChainError where
  | sequenceGap (saw expected : ℕ)
  | unchained (sequence : ℕ)
  | altered (sequence : ℕ)
  deriving DecidableEq, Repr

/-- The events of the file, with the sequence and the head the next append uses. -/
structure EventLedger where
  events : List Event
  sequence : ℕ
  head : String
  deriving DecidableEq, Repr

namespace EventLedger

def fresh : EventLedger := ⟨[], 0, eventGenesis⟩

/-- `_resume`: the sequence and the head of a file that is opened again. -/
def resume (events : List Event) : EventLedger where
  events
  sequence := (events.getLast?.map fun event ↦ event.sequence + 1).getD 0
  head := (events.getLast?.map Event.eventHash).getD eventGenesis

section Append

variable [EventDigest]

def nextEvent (ledger : EventLedger) (stamp : EventStamp) (runId portfolioId : String)
    (body : EventBody) (marketTime : Option String) : Event :=
  let content : EventContent := {
    eventId := stamp.eventId
    sequence := ledger.sequence
    eventTime := stamp.eventTime
    marketTime
    body
    runId
    portfolioId
    previousHash := ledger.head }
  { content with eventHash := EventDigest.digestOf content }

/-- `append`. -/
def append (ledger : EventLedger) (stamp : EventStamp) (runId portfolioId : String)
    (body : EventBody) (marketTime : Option String) : EventLedger :=
  let event := ledger.nextEvent stamp runId portfolioId body marketTime
  { events := ledger.events ++ [event]
    sequence := ledger.sequence + 1
    head := event.eventHash }

/-- `verify`: the first break of the chain behind a hash and a sequence, or its head. -/
def verifyFrom (previous : String) (sequence : ℕ) : List Event → Except EventChainError String
  | [] => .ok previous
  | event :: rest =>
    if event.sequence ≠ sequence then .error (.sequenceGap event.sequence sequence)
    else if event.previousHash ≠ previous then .error (.unchained event.sequence)
    else if event.eventHash ≠ event.computeHash then .error (.altered event.sequence)
    else verifyFrom event.eventHash (sequence + 1) rest

/-- `verify`. -/
def verify (ledger : EventLedger) : Except EventChainError String :=
  verifyFrom eventGenesis 0 ledger.events

/-- The chain verifies, and the next append goes on behind it. -/
structure Intact (ledger : EventLedger) : Prop where
  verified : ledger.verify = .ok ledger.head
  counted : ledger.sequence = ledger.events.length

theorem intact_fresh : fresh.Intact := ⟨rfl, rfl⟩

theorem verifyFrom_append (previous : String) (sequence : ℕ) (first second : List Event) :
    verifyFrom previous sequence (first ++ second) =
      (verifyFrom previous sequence first).bind fun head ↦
        verifyFrom head (sequence + first.length) second := by
  induction first generalizing previous sequence with
  | nil => rfl
  | cons event first ih =>
    have hlength : sequence + 1 + first.length = sequence + (event :: first).length := by
      rw [List.length_cons]
      omega
    rw [List.cons_append, verifyFrom, verifyFrom, ih, hlength]
    split
    · rfl
    · split
      · rfl
      · split
        · rfl
        · rfl

theorem Intact.append {ledger : EventLedger} (h : ledger.Intact) (stamp : EventStamp)
    (runId portfolioId : String) (body : EventBody) (marketTime : Option String) :
    (ledger.append stamp runId portfolioId body marketTime).Intact := by
  refine ⟨?_, ?_⟩
  · have hverified : verifyFrom eventGenesis 0 ledger.events = .ok ledger.head := h.verified
    unfold verify EventLedger.append
    rw [verifyFrom_append, hverified, Nat.zero_add, ← h.counted]
    simp [Except.bind, verifyFrom, nextEvent, Event.computeHash]
  · simp [EventLedger.append, h.counted]

end Append

end EventLedger

end QuantAgent.Paper
