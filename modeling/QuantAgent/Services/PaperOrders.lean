import QuantAgent.Domain.AccountReplay
import QuantAgent.Execution.OrderManager
import QuantAgent.Library.Durable

/-!
# The paper order submission path

One account root: the claim registry with its request keys and its intent keys, the canonical
ledger, and the process that serves it.  A submission is queued; a round of the worker claims the
economic intent, opens the canonical order, has it decided and routed, and stores the answer; a
round of the recovery settles a queued request against the ledger.  Every write is durable and the
process may end behind any of them.  What the pre-trade rules, the venue and the clock answer is an
input.  The registry is taken as the fold of its file: it was read when the process started, and
the process is its only writer.
-/

namespace QuantAgent.Services

open Library Execution
open Domain (CanonicalLedger Hashing Mirror MirrorCall MirrorError Moment OrderBook OrderEventType
  OrderIntent RiskDecision contentId)

inductive SubmissionRejected where
  | missingIdempotencyKey
  | missingLineage
  | invalidQuantity
  | missingPriceBound
  | invalidSide
  | marketDataUnavailable
  | marketDataInvalid
  deriving DecidableEq, Repr

def SubmissionRejected.reason : SubmissionRejected → String
  | .missingIdempotencyKey => "missing_idempotency_key"
  | .missingLineage => "missing_lineage"
  | .invalidQuantity => "invalid_quantity"
  | .missingPriceBound => "missing_price_bound"
  | .invalidSide => "invalid_side"
  | .marketDataUnavailable => "market_data_unavailable"
  | .marketDataInvalid => "market_data_invalid"

structure PaperOrderRequest where
  idempotencyKey : String
  runId : String
  symbol : String
  side : String
  quantity : ℤ
  limitPrice : ℚ
  tradeDate : String
  strategyVersionId : String
  signalId : String
  deriving DecidableEq

namespace PaperOrderRequest

/-- `str(side).upper()`. -/
def normalisedSide (request : PaperOrderRequest) : String :=
  String.ofList (request.side.toList.map Char.toUpper)

/-- `validate`: fail closed on anything that would make de-duplication impossible. -/
def validate (request : PaperOrderRequest) : Except SubmissionRejected Unit :=
  if Domain.isBlankText request.idempotencyKey then .error .missingIdempotencyKey
  else if Domain.isBlankText request.runId then .error .missingLineage
  else if request.quantity ≤ 0 then .error .invalidQuantity
  else if request.limitPrice ≤ 0 then .error .missingPriceBound
  else if request.normalisedSide ≠ "BUY" ∧ request.normalisedSide ≠ "SELL" then
    .error .invalidSide
  else if Domain.isBlankText request.signalId then .error .missingLineage
  else .ok ()

def stored (request : PaperOrderRequest) : PaperOrderRequest :=
  { request with side := request.normalisedSide }

def timestamp (request : PaperOrderRequest) : String := request.tradeDate ++ "T10:00:00+00:00"

def wireOrder (request : PaperOrderRequest) (key : String) : WireOrder where
  clientOrderId := key
  symbol := request.symbol
  side := if request.normalisedSide = "BUY" then .buy else .sell
  quantity := request.quantity
  orderType := .limit
  price := some request.limitPrice
  riskCheckResult := "not_checked"
  signalId := request.signalId
  strategyVersion := "paper_api"
  timestamp := request.timestamp

section Identities

variable [Hashing ℚ]

/-- `request_key`: the identity of the delivery, and only that. -/
def requestKey (request : PaperOrderRequest) : String :=
  contentId (N := ℚ) "req" (.obj [
    ("idempotency_key", .str request.idempotencyKey),
    ("run_id", .str request.runId)])

/-- `fingerprint`: what makes the request economically distinct. -/
def fingerprint (request : PaperOrderRequest) : String :=
  contentId "fp" (.obj [
    ("limit_price", .num (roundHalfEven (request.limitPrice * 1000000) / 1000000 : ℚ)),
    ("quantity", .num (request.quantity : ℚ)),
    ("side", .str request.normalisedSide),
    ("strategy_version_id", .str request.strategyVersionId),
    ("symbol", .str request.symbol),
    ("trade_date", .str request.tradeDate)])

/-- `_expected_signal_id`: the signal the order manager would derive for the request. -/
def expectedSignalId (request : PaperOrderRequest) : String :=
  ((signalOf request.symbol request.tradeDate request.signalId).get .signalId).getD ""

end Identities

end PaperOrderRequest

inductive SubmissionState where
  | queued
  | executed
  | interrupted
  deriving DecidableEq, Repr

/-- `OrderStatus.value` of a canonical order. -/
def statusText : Domain.OrderStatus → String
  | .pendingRisk => "PENDING_RISK"
  | .approved => "APPROVED"
  | .submitted => "SUBMITTED"
  | .accepted => "ACCEPTED"
  | .partiallyFilled => "PARTIALLY_FILLED"
  | .filled => "FILLED"
  | .cancelRequested => "CANCEL_REQUESTED"
  | .cancelled => "CANCELLED"
  | .rejected => "REJECTED"
  | .expired => "EXPIRED"

structure Submission where
  fingerprint : String
  state : SubmissionState
  request : PaperOrderRequest
  outcome : Option String
  venueStatus : Option String
  filledQuantity : Option ℤ
  averagePrice : Option ℚ
  brokerOrderId : Option String
  canonicalOrderId : Option String
  reason : Option String

namespace Submission

def accepted [Hashing ℚ] (request : PaperOrderRequest) : Submission where
  fingerprint := request.fingerprint
  state := .queued
  request := request.stored
  outcome := none
  venueStatus := none
  filledQuantity := none
  averagePrice := none
  brokerOrderId := none
  canonicalOrderId := none
  reason := none

/-- The payload of a request that no market data was found for. -/
def refused (reason : SubmissionRejected) (stored : Submission) : Submission :=
  { stored with
    state := .executed
    outcome := some reason.reason
    venueStatus := some "REFUSED"
    reason := some reason.reason }

def answered (state : OrderState ℚ) (stored : Submission) : Submission :=
  { stored with
    state := .executed
    outcome := some state.clientOrderId
    venueStatus := some state.status.wireText
    filledQuantity := some state.filledQuantity
    averagePrice := some state.avgPrice
    brokerOrderId := state.brokerOrderId
    reason := if state.lastMessage = "" then none else some state.lastMessage }

/-- The payload with what the ledger says of an order. -/
def matched (order : Domain.Order ℚ) (stored : Submission) : Submission :=
  { stored with
    state := .executed
    outcome := some order.orderId
    venueStatus := some (statusText order.status)
    filledQuantity := some (Domain.truncate order.filledQuantity)
    canonicalOrderId := some order.orderId
    reason := order.reason }

/-- The payload of a request whose intent was claimed and never reached the ledger. -/
def interrupted (stored : Submission) : Submission :=
  { stored with
    state := .interrupted
    outcome := some "interrupted"
    venueStatus := some "NONE"
    reason := some ("the economic intent was claimed but no order reached the ledger; nothing " ++
      "was executed. Resubmit under a new idempotency key — retrying past a claim is how " ++
      "duplicates are created.") }

end Submission

structure IntentClaim where
  clientOrderId : String
  fingerprint : String
  orderId : Option String
  riskApproved : Option Bool
  riskReason : Option String
  venueRefused : Option String

structure Process where
  book : OrderBook ℚ
  /-- The last state of each client order that was answered in this process. -/
  wire : Dict String (OrderState ℚ)

/-- An account root and the process that serves it, if one does. -/
structure PaperOrderService where
  requests : Dict String Submission
  intents : Dict String IntentClaim
  ledger : CanonicalLedger ℚ
  process : Option Process

inductive ServiceError where
  | writerLockUnavailable
  | rejected (reason : SubmissionRejected)
  | idempotencyConflict (key stored attempted : String)
  | invalidTimestamp
  | intent (error : Domain.OrderError)
  | mirror (error : MirrorError)
  | replay (error : CanonicalLedger.ReplayError)
  | venue

abbrev Procedure (α : Type) := Durable PaperOrderService ServiceError α

/-- An event the venue records for an order that is open already. -/
structure VenueEvent where
  moment : Moment
  orderId : String
  kind : OrderEventType
  fill : Option (Domain.Fill ℚ)
  reason : Option String
  tradeDate : Option String

def VenueEvent.call (event : VenueEvent) : MirrorCall ℚ :=
  .event event.orderId event.kind event.fill event.reason none event.tradeDate

inductive VenueAnswer where
  | settled (brokerOrderId : String) (status : OrderStatus) (filledQuantity : ℤ) (avgPrice : ℚ)
      (lastMessage : String)
  /-- `VenueRefusal`. -/
  | refused (reason : String)
  /-- Any other error. -/
  | raised

structure Verdict where
  approved : Bool
  rule : String
  threshold : Json ℚ
  measured : Json ℚ
  reason : String
  decidedBy : String
  decidedAt : String

structure Surroundings where
  /-- Why there is no market data, if there is none. -/
  market : Option SubmissionRejected
  verdict : Verdict
  venue : List VenueEvent
  answer : VenueAnswer
  opened : Moment
  decided : Moment
  submitted : Moment
  refused : Moment
  now : String

namespace PaperOrderService

def mirror (process : Process) (s : PaperOrderService) : Mirror ℚ := ⟨process.book, s.ledger⟩

def withMirror (process : Process) (after : Mirror ℚ) (s : PaperOrderService) :
    PaperOrderService :=
  { s with ledger := after.ledger, process := some { process with book := after.book } }

variable [Hashing ℚ]

def mirrored (moment : Moment) (call : MirrorCall ℚ) : Procedure (Domain.Order ℚ) := do
  let s ← Durable.look
  match s.process with
  | none => Durable.raise .writerLockUnavailable
  | some process => do
      let outcome := (s.mirror process).perform moment call
      Durable.save fun s ↦ s.withMirror process outcome.1
      Durable.lift (outcome.2.mapError .mirror)

/-- What the venue records, one event after another. -/
def venueEvents : List VenueEvent → Procedure Unit
  | [] => pure ()
  | event :: events => do
      let s ← Durable.look
      match s.process with
      | none => Durable.raise .writerLockUnavailable
      | some process => do
          Durable.save fun s ↦
            s.withMirror process ((s.mirror process).perform event.moment event.call).1
          venueEvents events

omit [Hashing ℚ] in
/-- `claims.resolve` under a request key. -/
def resolve (key : String) (change : Submission → Submission) : Procedure Unit :=
  Durable.save fun s ↦
    match s.requests.get? key with
    | none => s
    | some stored => { s with requests := s.requests.insert key (change stored) }

omit [Hashing ℚ] in
/-- `claims.resolve` under an intent key, with the answer remembered before. -/
def resolveIntent (key : String) (claim : IntentClaim) (state : OrderState ℚ) : Procedure Unit :=
  Durable.save fun s ↦
    { s with
      intents := s.intents.insert key claim
      process := s.process.map fun process ↦
        { process with wire := process.wire.insert state.clientOrderId state } }

/-- `_apply_canonical_risk`. -/
def applyCanonicalRisk (canonical : Domain.Order ℚ) (given : Surroundings) : Procedure Unit := do
  let verdict := given.verdict
  let decision := RiskDecision.create verdict.approved verdict.rule verdict.threshold
    verdict.measured verdict.reason canonical.lineage verdict.decidedBy verdict.decidedAt
  let session := some canonical.tradeDate
  if verdict.approved then do
    let _ ← mirrored given.decided
      (.event canonical.orderId .riskApproved none none (some decision) session)
    let _ ← mirrored given.submitted (.event canonical.orderId .submitted none none none session)
    pure ()
  else do
    let _ ← mirrored given.decided
      (.event canonical.orderId .riskRejected none (some verdict.reason) (some decision) session)
    pure ()

/-- `_record_venue_refusal`: an order the venue never acknowledged is terminated. -/
def recordVenueRefusal (canonical : Domain.Order ℚ) (reason : String) (moment : Moment) :
    Procedure Unit := do
  let s ← Durable.look
  match s.process.bind fun process ↦ process.book.orders.get? canonical.orderId with
  | some current =>
    if current.status = .submitted then do
      let _ ← mirrored moment
        (.event canonical.orderId .rejected none (some reason) none (some canonical.tradeDate))
      pure ()
    else pure ()
  | none => Durable.raise (.mirror (.order (.unknownOrder canonical.orderId)))

omit [Hashing ℚ] in
/-- The state of an order that did not reach the venue. -/
def rejectedState (clientOrderId message : String) : OrderState ℚ where
  clientOrderId
  brokerOrderId := none
  status := .rejected
  filledQuantity := 0
  avgPrice := 0
  lastMessage := message

/-- `broker.submit`, with the state to report and the reason of a refusal. -/
def route (order : WireOrder) (canonical : Domain.Order ℚ) (given : Surroundings) :
    Procedure (OrderState ℚ × Option String) := do
  venueEvents given.venue
  match given.answer with
  | .settled brokerOrderId status filledQuantity avgPrice lastMessage =>
    pure ({ clientOrderId := order.clientOrderId, brokerOrderId := some brokerOrderId, status,
            filledQuantity, avgPrice, lastMessage }, none)
  | .refused reason => do
      recordVenueRefusal canonical reason given.refused
      pure (rejectedState order.clientOrderId reason, some reason)
  | .raised => Durable.raise .venue

variable [OrderTexts] [Sha1]

/-- What `_submit_all` does with an order whose intent it has claimed. -/
def submitClaimed (order : WireOrder) (session : String) (given : Surroundings) :
    Procedure (OrderState ℚ) := do
  let intent ← Durable.lift ((canonicalIntent order session).mapError .intent)
  let canonical ← mirrored given.opened (.opening intent none (some session))
  applyCanonicalRisk canonical given
  let claim : IntentClaim := {
    clientOrderId := order.clientOrderId
    fingerprint := requestFingerprint order
    orderId := some canonical.orderId
    riskApproved := some given.verdict.approved
    riskReason := none
    venueRefused := none }
  if given.verdict.approved then do
    let answer ← route order canonical given
    resolveIntent (orderIntentKey order session) { claim with venueRefused := answer.2 } answer.1
    pure answer.1
  else do
    let state := rejectedState order.clientOrderId ("pretrade_risk_rejected:" ++ given.verdict.reason)
    resolveIntent (orderIntentKey order session)
      { claim with riskReason := some given.verdict.reason } state
    pure state

/-- `submit_orders` for one order: the state it yields, if any. -/
def submitOrder (order : WireOrder) (given : Surroundings) :
    Procedure (Option (OrderState ℚ)) := do
  match exchangeSession order.timestamp with
  | none => Durable.raise .invalidTimestamp
  | some session => do
      let key := orderIntentKey order session
      let s ← Durable.look
      match s.intents.get? key with
      | some known =>
        if known.fingerprint ≠ requestFingerprint order then
          Durable.raise (.idempotencyConflict key known.fingerprint (requestFingerprint order))
        else pure (s.process.bind fun process ↦ process.wire.get? known.clientOrderId)
      | none => do
          Durable.save fun s ↦
            { s with intents := s.intents.insert key {
                clientOrderId := order.clientOrderId
                fingerprint := requestFingerprint order
                orderId := none
                riskApproved := none
                riskReason := none
                venueRefused := none } }
          let state ← submitClaimed order session given
          pure (some state)

omit [OrderTexts] [Sha1] in
/-- `submit`: accept, or refuse, one delivery. -/
def submit (request : PaperOrderRequest) : Procedure Unit := do
  Durable.lift (request.validate.mapError .rejected)
  let s ← Durable.look
  match s.requests.get? request.requestKey with
  | some known =>
    if known.fingerprint ≠ request.fingerprint then
      Durable.raise
        (.idempotencyConflict request.requestKey known.fingerprint request.fingerprint)
    else pure ()
  | none =>
    Durable.save fun s ↦
      { s with requests := s.requests.insert request.requestKey (.accepted request) }

omit [OrderTexts] [Sha1] in
/-- `_resolve_from_ledger`: decide the fate of a queued request from the record of account. -/
def resolveFromLedger (key : String) (request : PaperOrderRequest) (now : String) :
    Procedure Unit := do
  let s ← Durable.look
  match s.ledger.replayBook now with
  | .error error => Durable.raise (.replay error)
  | .ok book =>
    match book.orders.values.find? fun order ↦
        order.lineage.get .signalId = some request.expectedSignalId with
    | none => resolve key Submission.interrupted
    | some order => resolve key (Submission.matched order)

/-- `_execute`: one round of a drain. -/
def execute (key : String) (given : Surroundings) : Procedure Unit := do
  let s ← Durable.look
  match s.requests.get? key with
  | none => pure ()
  | some stored =>
    if stored.state = .queued then
      match given.market with
      | some reason => resolve key (Submission.refused reason)
      | none => do
          let answer ← submitOrder (stored.request.wireOrder key) given
          match answer with
          -- the intent was handled before; the ledger tells whether there is an order
          | none => resolveFromLedger key stored.request given.now
          | some state => resolve key (Submission.answered state)
    else pure ()

omit [OrderTexts] [Sha1] in
/-- One round of `recover`. -/
def settle (key : String) (now : String) : Procedure Unit := do
  let s ← Durable.look
  match s.requests.get? key with
  | none => pure ()
  | some stored =>
    if stored.state = .queued then resolveFromLedger key stored.request now else pure ()

omit [Hashing ℚ] [OrderTexts] [Sha1] in
/-- `pending`: the request keys still queued. -/
def pending (s : PaperOrderService) : List String :=
  (s.requests.entries.filter fun entry ↦ entry.2.state = .queued).map Prod.fst

/-- `drain`: a round for each of the first pending keys. -/
def drain (limit : Option ℕ) (given : String → Surroundings) : Procedure Unit := do
  let s ← Durable.look
  let keys := match limit with
    | none => s.pending
    | some limit => s.pending.take limit
  keys.forM fun key ↦ execute key (given key)

omit [OrderTexts] [Sha1] in
/-- `recover`: settle every queued request against the ledger. -/
def recover (now : String) : Procedure Unit := do
  let s ← Durable.look
  s.pending.forM fun key ↦ settle key now

/-- A root that nothing was submitted to, before its first process. -/
def fresh : PaperOrderService := ⟨.empty, .empty, .fresh true, none⟩

/-- `__init__`: a process reads the book from the ledger.  It does not start when the chain does
not replay. -/
def start (now : String) (initialCash : ℚ) (s : PaperOrderService) : PaperOrderService :=
  match s.ledger.replay now initialCash with
  | .error _ => { s with process := none }
  | .ok (book, _) =>
    { s with ledger := { s.ledger with writeFailure := none }, process := some ⟨book, .empty⟩ }

end PaperOrderService

/-- A call of the process that serves the root; a drain and a recovery are their rounds, one after
another. -/
inductive ServiceCall where
  | submit (request : PaperOrderRequest)
  | execute (key : String) (given : Surroundings)
  | settle (key : String) (now : String)
  /-- The venue records something of its own: a session is closed, or an order cancelled. -/
  | venue (events : List VenueEvent)

inductive ServiceStep where
  /-- A process starts; the one before it has ended. -/
  | start (now : String) (initialCash : ℚ)
  /-- A call returns or raises. -/
  | call (call : ServiceCall)
  /-- The process ends during a call, behind so many of its durable steps. -/
  | crash (call : ServiceCall) (replacements : ℕ)

section Step

variable [Hashing ℚ] [OrderTexts] [Sha1]

def ServiceCall.procedure : ServiceCall → Procedure Unit
  | .submit request => PaperOrderService.submit request
  | .execute key given => PaperOrderService.execute key given
  | .settle key now => PaperOrderService.settle key now
  | .venue events => PaperOrderService.venueEvents events

namespace PaperOrderService

/-- One step of a root.  Without a process nothing is called. -/
def step (s : PaperOrderService) : ServiceStep → PaperOrderService
  | .start now initialCash => s.start now initialCash
  | .call call => if s.process.isSome then call.procedure.final s else s
  | .crash call replacements =>
    if s.process.isSome then { call.procedure.stopped s replacements with process := none } else s

end PaperOrderService

end Step

end QuantAgent.Services
