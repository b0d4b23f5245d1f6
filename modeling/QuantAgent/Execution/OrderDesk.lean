import QuantAgent.Execution.PretradeGate

/-!
# The order manager in front of a venue

One round of the order manager claims the economic intent of an order, opens the order on the
record of account, has it decided, and routes it; the number of orders of the day is counted in
memory and seeded from the record of account when the session changes.  The venue is any state
with any answer to an order: what it makes of the shared record of account, of its own state and of
the call is an input of the round.
-/

namespace QuantAgent.Execution

open Library
open Domain (Hashing Mirror MirrorCall MirrorError Moment OrderBook OrderIntent OrderEventType
  RiskDecision)
open Services (IntentClaim VenueAnswer Verdict)

structure OrderManagerConfig where
  maxOrdersPerSymbolPerDay : ℤ
  /-- `_requires_production_pretrade`. -/
  production : Bool
  /-- `_venue_is_canonical`: the venue adopts orders that are open already. -/
  canonicalVenue : Bool

structure OrderManager (W : Type) where
  config : OrderManagerConfig
  lineage : Domain.Lineage
  mirror : Mirror ℚ
  claims : Dict String IntentClaim
  /-- The last state of each client order. -/
  wire : Dict String (OrderState ℚ)
  countsToday : Dict String ℤ
  countSession : Option String
  riskSession : Option String
  venue : W

structure Round (W : Type) where
  /-- `query_positions`; `none` is a raised error. -/
  positions : W → Option (List VenuePosition)
  /-- What the production constraints decide. -/
  certified : Verdict
  /-- `broker.submit` of an order with its canonical identifier. -/
  send : W → Mirror ℚ → WireOrder → String → W × Mirror ℚ × VenueAnswer
  opened : Moment
  decided : Moment
  submitted : Moment
  /-- For the refusal or the acknowledgement of the venue. -/
  reported : Moment
  decidedAt : String
  /-- `datetime.now()`, for an order without a timestamp. -/
  clock : String

def WireOrder.stamped (order : WireOrder) (clock : String) : WireOrder :=
  { order with timestamp := if order.timestamp = "" then clock else order.timestamp }

inductive RoutingError where
  | missingLineage (clientOrderId : String)
  | invalidTimestamp
  | idempotencyConflict (key stored attempted : String)
  | intent (error : Domain.OrderError)
  | mirror (error : MirrorError)
  | venue
  deriving DecidableEq

section Identities

variable [Hashing ℚ]

/-- `order_intent_key` of a run. -/
def intentKey (runId : String) (order : WireOrder) (session : String) : String :=
  Domain.contentId (N := ℚ) "idem" (.obj [
    ("quantity", .num (order.quantity : ℚ)),
    ("run_id", .str runId),
    ("side", .str order.side.canonical.value),
    ("signal_id", .str order.signalOrManual),
    ("symbol", .str order.symbol),
    ("trade_date", .str session)])

/-- What `_open_canonical_pending` opens under a lineage. -/
def pendingIntent (lineage : Domain.Lineage) (order : WireOrder) (session : String) :
    Except Domain.OrderError (OrderIntent ℚ) :=
  OrderIntent.create order.symbol order.side.canonical (order.quantity : ℚ) session
    (Domain.Signal.create (N := ℚ) order.symbol (session ++ "-" ++ order.signalOrManual) lineage)
    none order.price

theorem pendingIntent_ok {lineage : Domain.Lineage} {order : WireOrder} {session : String}
    {intent : OrderIntent ℚ} (h : pendingIntent lineage order session = .ok intent) :
    intent.symbol = order.symbol ∧ intent.side = order.side.canonical ∧
      intent.quantity = order.quantity ∧ intent.tradeDate = session := by
  unfold pendingIntent OrderIntent.create at h
  split at h
  · cases h
    refine ⟨rfl, rfl, ?_, rfl⟩
    rw [Domain.rat_toInt, Domain.truncate_intCast]
  · cases h

def decisionFor (verdict : Verdict) (canonical : Domain.Order ℚ) : RiskDecision ℚ :=
  RiskDecision.create verdict.approved verdict.rule verdict.threshold verdict.measured
    verdict.reason canonical.lineage verdict.decidedBy verdict.decidedAt

end Identities

def reachedSubmitted (book : OrderBook ℚ) (order : Domain.Order ℚ) : Bool :=
  (book.historyOf order.orderId).any fun event ↦ event.eventType = .submitted

/-- `_submitted_orders`. -/
def submittedOrders (book : OrderBook ℚ) (session : String) : List (Domain.Order ℚ) :=
  book.orders.values.filter fun order ↦ order.tradeDate = session && reachedSubmitted book order

def countOne (counts : Dict String ℤ) (symbol : String) : Dict String ℤ :=
  counts.insert symbol ((counts.get? symbol).getD 0 + 1)

def seededCounts (book : OrderBook ℚ) (session : String) : Dict String ℤ :=
  (submittedOrders book session).foldl (fun counts order ↦ countOne counts order.symbol) .empty

theorem submittedOrders_eq_nil {book : OrderBook ℚ}
    (h : ∀ event ∈ book.events, event.eventType ≠ .submitted) (session : String) :
    submittedOrders book session = [] := by
  refine List.filter_eq_nil_iff.mpr fun order _ ↦ ?_
  have hnone : reachedSubmitted book order = false := by
    refine List.any_eq_false.mpr fun event hevent ↦ ?_
    simpa using h event (List.mem_of_mem_filter hevent)
  rw [hnone]
  simp

/-- Opening an order adds at most its first event to the book. -/
theorem events_opening [Hashing ℚ] (mirror : Mirror ℚ) (moment : Moment) (intent : OrderIntent ℚ)
    (parentOrderId tradeDate : Option String) :
    (mirror.perform moment (.opening intent parentOrderId tradeDate)).1.book.events =
        mirror.book.events ∨
      ∃ event, event.eventType = .created ∧
        (mirror.perform moment (.opening intent parentOrderId tradeDate)).1.book.events =
          mirror.book.events ++ [event] := by
  rcases mirror.perform_cases moment (.opening intent parentOrderId tradeDate) with
    ⟨-, hsame, -⟩ | ⟨order, event, hadvance, hbook, -, -⟩
  · exact .inl (by rw [hsame])
  · right
    obtain ⟨-, rfl⟩ := MirrorCall.advance_opening hadvance
    exact ⟨_, rfl, by rw [hbook]; rfl⟩

theorem seededCounts_fresh [Hashing ℚ] (moment : Moment) (intent : OrderIntent ℚ)
    (parentOrderId tradeDate : Option String) (session : String) :
    seededCounts ((Mirror.fresh false).perform moment
      (.opening intent parentOrderId tradeDate)).1.book session = .empty := by
  rw [seededCounts, submittedOrders_eq_nil]
  · rfl
  intro event hevent
  rcases events_opening (Mirror.fresh false) moment intent parentOrderId tradeDate with
    hsame | ⟨created, hkind, hmore⟩
  · rw [hsame] at hevent
    cases hevent
  · rw [hmore] at hevent
    rw [List.mem_singleton.mp hevent, hkind]
    decide

namespace OrderManager

variable {W : Type}

/-- `_symbol_orders_today`: the counts are seeded when the session changes. -/
def seeded (oms : OrderManager W) (session : String) : OrderManager W :=
  let current := if oms.config.production then oms.riskSession else oms.countSession
  { oms with
    countsToday :=
      if current = some session then oms.countsToday else seededCounts oms.mirror.book session
    riskSession := if oms.config.production then some session else oms.riskSession
    countSession := some session }

def ordersToday (oms : OrderManager W) (symbol : String) : ℤ :=
  (oms.countsToday.get? symbol).getD 0

/-- `_pretrade_decision`. -/
def pretradeDecision [PyText] (oms : OrderManager W) (order : WireOrder) (session : String)
    (round : Round W) : OrderManager W × Verdict :=
  match admissibilityRefusal (round.positions oms.venue) order round.decidedAt with
  | some refusal => (oms, refusal)
  | none =>
    let oms := oms.seeded session
    let submittedToday := oms.ordersToday order.symbol
    let limit := oms.config.maxOrdersPerSymbolPerDay
    if limit ≤ submittedToday then
      (oms, limitRefusal order session submittedToday limit round.decidedAt)
    else if oms.config.production then
      (oms, (liveRefusal order round.decidedAt).getD round.certified)
    else (oms, basicApproval order round.decidedAt)

/-- `_update`. -/
def update (oms : OrderManager W) (state : OrderState ℚ) : OrderManager W :=
  { oms with wire := oms.wire.insert state.clientOrderId state }

/-- `claims.resolve`. -/
def resolve (oms : OrderManager W) (key : String) (claim : IntentClaim) : OrderManager W :=
  { oms with claims := oms.claims.insert key claim }

/-- `claims.claim` of a new intent. -/
def claimIntent [OrderTexts] [Sha1] (oms : OrderManager W) (key : String) (order : WireOrder) :
    OrderManager W :=
  oms.resolve key {
    clientOrderId := order.clientOrderId
    fingerprint := requestFingerprint order
    orderId := none
    riskApproved := none
    riskReason := none
    venueRefused := none }

def counted (oms : OrderManager W) (symbol : String) : OrderManager W :=
  { oms with countsToday := countOne oms.countsToday symbol }

variable [Hashing ℚ]

/-- Run a mirrored call on the book and the ledger of the order manager. -/
def record (oms : OrderManager W) (moment : Moment) (call : MirrorCall ℚ) :
    OrderManager W × Except RoutingError (Domain.Order ℚ) :=
  match oms.mirror.perform moment call with
  | (mirror, .ok order) => ({ oms with mirror }, .ok order)
  | (mirror, .error error) => ({ oms with mirror }, .error (.mirror error))

theorem record_fst (oms : OrderManager W) (moment : Moment) (call : MirrorCall ℚ) :
    (oms.record moment call).1 = { oms with mirror := (oms.mirror.perform moment call).1 } := by
  unfold record
  split
  · rename_i heq
    rw [heq]
  · rename_i heq
    rw [heq]

/-- `_record_venue_refusal`: an order the venue never acknowledged is terminated. -/
def recordVenueRefusal (oms : OrderManager W) (moment : Moment) (canonical : Domain.Order ℚ)
    (reason : String) : OrderManager W × Except RoutingError Unit :=
  match oms.mirror.book.orders.get? canonical.orderId with
  | none => (oms, .error (.mirror (.order (.unknownOrder canonical.orderId))))
  | some current =>
    if current.status = .submitted then
      match oms.record moment (.event canonical.orderId .rejected none (some reason) none
        (some canonical.tradeDate)) with
      | (oms, .ok _) => (oms, .ok ())
      | (oms, .error error) => (oms, .error error)
    else (oms, .ok ())

omit [Hashing ℚ] in
/-- The event the state of a venue stands for that keeps no record of account. -/
def stateEvent : OrderStatus → OrderEventType
  | .rejected => .rejected
  | .cancelled => .cancelled
  | _ => .accepted

/-- `_record_canonical_state`: an event the order does not take is dropped. -/
def recordCanonicalState (oms : OrderManager W) (moment : Moment) (canonical : Domain.Order ℚ)
    (status : OrderStatus) : OrderManager W × Except RoutingError Unit :=
  match oms.record moment (.event canonical.orderId (stateEvent status) none none none none) with
  | (oms, .error (.mirror (.append error))) => (oms, .error (.mirror (.append error)))
  | (oms, _) => (oms, .ok ())

omit [Hashing ℚ] in
/-- The state of an order that did not reach the venue. -/
def rejectedState (clientOrderId message : String) : OrderState ℚ where
  clientOrderId
  brokerOrderId := none
  status := .rejected
  filledQuantity := 0
  avgPrice := 0
  lastMessage := message

/-- The order is sent, and the order manager records what the venue keeps no record of.  The result
is the state to report and the reason of a refusal. -/
def route (oms : OrderManager W) (order : WireOrder) (canonical : Domain.Order ℚ)
    (round : Round W) : OrderManager W × Except RoutingError (OrderState ℚ × Option String) :=
  match round.send oms.venue oms.mirror order canonical.orderId with
  | (venue, mirror, answer) =>
    let oms := { oms with venue, mirror }
    match answer with
    | .raised => (oms, .error .venue)
    | .refused reason =>
      match oms.recordVenueRefusal round.reported canonical reason with
      | (oms, .error error) => (oms, .error error)
      | (oms, .ok ()) =>
        let state := rejectedState order.clientOrderId reason
        (oms.update state, .ok (state, some reason))
    | .settled brokerOrderId status filledQuantity avgPrice lastMessage =>
      let state : OrderState ℚ := {
        clientOrderId := order.clientOrderId, brokerOrderId := some brokerOrderId, status,
        filledQuantity, avgPrice, lastMessage }
      let oms := oms.update state
      if oms.config.canonicalVenue then (oms, .ok (state, none))
      else
        match oms.recordCanonicalState round.reported canonical status with
        | (oms, .error error) => (oms, .error error)
        | (oms, .ok ()) => (oms, .ok (state, none))

variable [OrderTexts] [Sha1]

def submitApproved (oms : OrderManager W) (key session : String) (order : WireOrder)
    (canonical : Domain.Order ℚ) (verdict : Verdict) (round : Round W) :
    OrderManager W × Except RoutingError (OrderState ℚ) :=
  match oms.record round.decided (.event canonical.orderId .riskApproved none none
    (some (decisionFor verdict canonical)) (some session)) with
  | (oms, .error error) => (oms, .error error)
  | (oms, .ok _) =>
    match oms.record round.submitted
      (.event canonical.orderId .submitted none none none (some session)) with
    | (oms, .error error) => (oms, .error error)
    | (oms, .ok canonical) =>
      match oms.route order canonical round with
      | (oms, .error error) => (oms, .error error)
      | (oms, .ok (state, refusal)) =>
        let claim : IntentClaim := {
          clientOrderId := order.clientOrderId
          fingerprint := requestFingerprint order
          orderId := some canonical.orderId
          riskApproved := some true
          riskReason := none
          venueRefused := refusal }
        ((oms.resolve key claim).counted order.symbol, .ok state)

def refuse (oms : OrderManager W) (key session : String) (order : WireOrder)
    (canonical : Domain.Order ℚ) (verdict : Verdict) (round : Round W) :
    OrderManager W × Except RoutingError (OrderState ℚ) :=
  match oms.record round.decided (.event canonical.orderId .riskRejected none (some verdict.reason)
    (some (decisionFor verdict canonical)) (some session)) with
  | (oms, .error error) => (oms, .error error)
  | (oms, .ok _) =>
    let claim : IntentClaim := {
      clientOrderId := order.clientOrderId
      fingerprint := requestFingerprint order
      orderId := some canonical.orderId
      riskApproved := some false
      riskReason := some verdict.reason
      venueRefused := none }
    let state := rejectedState order.clientOrderId ("pretrade_risk_rejected:" ++ verdict.reason)
    ((oms.update state).resolve key claim, .ok state)

variable [PyText]

def submitClaimed (oms : OrderManager W) (key session : String) (order : WireOrder)
    (round : Round W) : OrderManager W × Except RoutingError (OrderState ℚ) :=
  match pendingIntent oms.lineage order session with
  | .error error => (oms, .error (.intent error))
  | .ok intent =>
    match oms.record round.opened (.opening intent none (some session)) with
    | (oms, .error error) => (oms, .error error)
    | (oms, .ok canonical) =>
      match oms.pretradeDecision order session round with
      | (oms, verdict) =>
        if verdict.approved then oms.submitApproved key session order canonical verdict round
        else oms.refuse key session order canonical verdict round

/-- `_submit_all` for one order: an intent that was claimed before is answered with what this
process knows of it. -/
def submitOne (oms : OrderManager W) (asked : WireOrder) (round : Round W) :
    OrderManager W × Except RoutingError (Option (OrderState ℚ)) :=
  let order := asked.stamped round.clock
  match oms.lineage.get .runId with
  | none => (oms, .error (.missingLineage order.clientOrderId))
  | some runId =>
  if runId = "" then (oms, .error (.missingLineage order.clientOrderId))
  else
    match exchangeSession order.timestamp with
    | none => (oms, .error .invalidTimestamp)
    | some session =>
      let key := intentKey runId order session
      let fingerprint := requestFingerprint order
      match oms.claims.get? key with
      | some known =>
        if known.fingerprint ≠ fingerprint then
          (oms, .error (.idempotencyConflict key known.fingerprint fingerprint))
        else (oms, .ok (oms.wire.get? known.clientOrderId))
      | none =>
        match (oms.claimIntent key order).submitClaimed key session order round with
        | (oms, .ok state) => (oms, .ok (some state))
        | (oms, .error error) => (oms, .error error)

/-- `submit_orders`: the first order that raises ends the call. -/
def submitOrders (oms : OrderManager W) :
    List (WireOrder × Round W) → OrderManager W × Except RoutingError (List (OrderState ℚ))
  | [] => (oms, .ok [])
  | (order, round) :: rest =>
    match oms.submitOne order round with
    | (oms, .error error) => (oms, .error error)
    | (oms, .ok answer) =>
      match oms.submitOrders rest with
      | (oms, .error error) => (oms, .error error)
      | (oms, .ok states) => (oms, .ok (answer.toList ++ states))

end OrderManager

end QuantAgent.Execution
