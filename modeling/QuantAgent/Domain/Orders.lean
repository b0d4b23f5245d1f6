import QuantAgent.Domain.Hashing
import QuantAgent.Domain.Lineage
import QuantAgent.Domain.Number
import QuantAgent.Library.Dict
import QuantAgent.Library.TextFile

/-!
# Orders and executions

The canonical entities: intents, fills, risk decisions, order events and the order snapshot they
are folded into.  `Order.apply` is the only way an order advances; `OrderBook` keeps the snapshots
and the events behind them.  A re-delivered execution leaves both as they are.
-/

namespace QuantAgent.Domain

open Library

inductive Side where
  | buy
  | sell
  deriving DecidableEq, Repr

def Side.value : Side → String
  | .buy => "BUY"
  | .sell => "SELL"

def Side.ofValue (value : String) : Option Side :=
  if value = "BUY" then some .buy else if value = "SELL" then some .sell else none

@[simp]
theorem Side.ofValue_value (side : Side) : ofValue side.value = some side := by
  cases side <;> rfl

inductive OrderStatus where
  | pendingRisk
  | approved
  | submitted
  | accepted
  | partiallyFilled
  | filled
  | cancelRequested
  | cancelled
  | rejected
  | expired
  deriving DecidableEq, Repr

def terminalStatuses : List OrderStatus := [.filled, .cancelled, .rejected, .expired]

def allowedTransitions : OrderStatus → List OrderStatus
  | .pendingRisk => [.approved, .rejected]
  | .approved => [.submitted, .cancelled, .rejected]
  | .submitted => [.accepted, .rejected, .cancelRequested, .expired]
  | .accepted => [.partiallyFilled, .filled, .cancelRequested, .cancelled, .expired, .rejected]
  | .partiallyFilled => [.partiallyFilled, .filled, .cancelRequested, .cancelled, .expired]
  | .cancelRequested => [.cancelled, .partiallyFilled, .filled]
  | .filled => []
  | .cancelled => []
  | .rejected => []
  | .expired => []

inductive OrderEventType where
  | created
  | riskApproved
  | riskRejected
  | submitted
  | accepted
  | partialFill
  | fill
  | cancelRequested
  | cancelled
  | rejected
  | expired
  deriving DecidableEq, Repr

namespace OrderEventType

def value : OrderEventType → String
  | created => "CREATED"
  | riskApproved => "RISK_APPROVED"
  | riskRejected => "RISK_REJECTED"
  | submitted => "SUBMITTED"
  | accepted => "ACCEPTED"
  | partialFill => "PARTIAL_FILL"
  | fill => "FILL"
  | cancelRequested => "CANCEL_REQUESTED"
  | cancelled => "CANCELLED"
  | rejected => "REJECTED"
  | expired => "EXPIRED"

def all : List OrderEventType :=
  [created, riskApproved, riskRejected, submitted, accepted, partialFill, fill, cancelRequested,
    cancelled, rejected, expired]

def ofValue (name : String) : Option OrderEventType :=
  all.find? fun kind ↦ kind.value = name

@[simp]
theorem ofValue_value (kind : OrderEventType) : ofValue kind.value = some kind := by
  cases kind <;> decide

def targetStatus : OrderEventType → OrderStatus
  | created => .pendingRisk
  | riskApproved => .approved
  | riskRejected => .rejected
  | submitted => .submitted
  | accepted => .accepted
  | partialFill => .partiallyFilled
  | fill => .filled
  | cancelRequested => .cancelRequested
  | cancelled => .cancelled
  | rejected => .rejected
  | expired => .expired

def isExecution : OrderEventType → Bool
  | partialFill => true
  | fill => true
  | _ => false

end OrderEventType

section Entities

variable (N : Type)

/-- The economic ask, before risk has seen it. -/
structure OrderIntent where
  orderIntentId : String
  symbol : String
  side : Side
  quantity : N
  tradeDate : String
  limitPrice : Option N
  referencePrice : Option N
  lineage : Lineage

/-- Evidence of why an order was allowed or refused. -/
structure RiskDecision where
  riskDecisionId : String
  approved : Bool
  rule : String
  threshold : Json N
  measured : Json N
  reason : String
  decidedBy : String
  decidedAt : String
  lineage : Lineage

structure Fill where
  executionId : String
  orderId : String
  symbol : String
  side : Side
  quantity : N
  price : N
  referencePrice : Option N
  commission : N
  stampDuty : N
  transferFee : N
  filledAt : String
  lineage : Lineage

/-- A fact about an order: the only way state advances. -/
structure OrderEvent where
  eventType : OrderEventType
  orderId : String
  sequence : N
  eventTime : String
  fill : Option (Fill N)
  reason : Option String
  riskDecision : Option (RiskDecision N)
  lineage : Lineage

structure Order where
  orderId : String
  symbol : String
  side : Side
  quantity : N
  status : OrderStatus
  tradeDate : String
  limitPrice : Option N
  referencePrice : Option N
  filledQuantity : N
  parentOrderId : Option String
  brokerOrderId : Option String
  lineage : Lineage
  fills : List (Fill N)
  reason : Option String

end Entities

variable {N : Type} [Arithmetic N]

def Fill.fees (fill : Fill N) : N :=
  Arithmetic.add (Arithmetic.add fill.commission fill.stampDuty) fill.transferFee

/-- Whether two reports of one execution id describe the same economic event. -/
def sameExecution (left right : Fill N) : Bool :=
  left.side = right.side && Arithmetic.same left.quantity right.quantity &&
    Arithmetic.near left.price right.price && Arithmetic.near left.fees right.fees

inductive OrderError where
  | illegalTransition (orderId : String) (current target : OrderStatus)
  | duplicateExecution (orderId executionId : String)
  | missingFill (kind : OrderEventType)
  | overfill (orderId : String)
  | missingReason (orderId : String)
  | unknownOrder (orderId : String)
  | nonPositiveQuantity
  deriving DecidableEq, Repr

/-- Nothing but blanks: `not text.strip()`. -/
def isBlankText (text : String) : Bool := text.toList.all TextFile.isSpace

section Create

variable [Hashing N]

def Signal.create (symbol tradeDate : String) (lineage : Lineage) : Lineage :=
  lineage.derive .signalId (some (contentId (N := N) "sig" (.obj [
    ("run_id", optionalStr (lineage.get .runId)),
    ("strategy_version_id", optionalStr (lineage.get .strategyVersionId)),
    ("symbol", .str symbol),
    ("trade_date", .str tradeDate)])))

/-- A content-addressed intent; a quantity that is not positive is refused. -/
def OrderIntent.create (symbol : String) (side : Side) (quantity : N) (tradeDate : String)
    (lineage : Lineage) (limitPrice referencePrice : Option N) :
    Except OrderError (OrderIntent N) :=
  if Arithmetic.less Number.zero quantity then
    let intentId := contentId "oi" (.obj [
      ("quantity", .num (Number.toInt quantity)),
      ("run_id", optionalStr (lineage.get .runId)),
      ("side", .str side.value),
      ("signal_id", optionalStr (lineage.get .signalId)),
      ("symbol", .str symbol),
      ("trade_date", .str tradeDate)])
    .ok {
      orderIntentId := intentId
      symbol
      side
      quantity := Number.toInt quantity
      tradeDate
      limitPrice
      referencePrice
      lineage := lineage.derive .orderIntentId (some intentId) }
  else .error .nonPositiveQuantity

/-- The evidence for one decision, by default of the risk engine. -/
def RiskDecision.create (approved : Bool) (rule : String) (threshold measured : Json N)
    (reason : String) (lineage : Lineage) (decidedBy decidedAt : String) : RiskDecision N :=
  let decisionId := contentId "rd" (.obj [
    ("approved", .bool approved),
    ("measured", measured),
    ("order_intent_id", optionalStr (lineage.get .orderIntentId)),
    ("rule", .str rule)])
  { riskDecisionId := decisionId, approved, rule, threshold, measured, reason, decidedBy,
    decidedAt, lineage := lineage.derive .riskDecisionId (some decisionId) }

def orderIdOf (intentId : String) (parentOrderId : Option String) : String :=
  contentId (N := N) "ord" (.obj [
    ("order_intent_id", .str intentId),
    ("parent", optionalStr parentOrderId)])

def Order.fromIntent (intent : OrderIntent N) (parentOrderId : Option String) : Order N :=
  let orderId := orderIdOf (N := N) intent.orderIntentId parentOrderId
  { orderId
    symbol := intent.symbol
    side := intent.side
    quantity := intent.quantity
    status := .pendingRisk
    tradeDate := intent.tradeDate
    limitPrice := intent.limitPrice
    referencePrice := intent.referencePrice
    filledQuantity := Number.natCast 0
    parentOrderId
    brokerOrderId := none
    lineage := (intent.lineage.derive .orderId (some orderId)).derive .parentOrderId parentOrderId
    fills := []
    reason := none }

end Create

namespace Order

omit [Arithmetic N] in
/-- The order has reached a status it never leaves. -/
def isTerminal (order : Order N) : Bool := order.status ∈ terminalStatuses

omit [Arithmetic N] in
def assertTransition (order : Order N) (target : OrderStatus) : Except OrderError Unit :=
  if target ∈ allowedTransitions order.status then .ok ()
  else .error (.illegalTransition order.orderId order.status target)

/-- A rejection may only erase an order that never traded, and carries its reason. -/
def assertRejectable (order : Order N) (reason : Option String) : Except OrderError Unit :=
  if Arithmetic.same order.filledQuantity (Number.natCast 0) && order.fills.isEmpty then
    if isBlankText (reason.getD "") then .error (.missingReason order.orderId) else .ok ()
  else .error (.illegalTransition order.orderId order.status .rejected)

/-- The execution an order already holds under an identifier. -/
def findFill (order : Order N) (executionId : String) : Option (Fill N) :=
  order.fills.find? fun fill ↦ fill.executionId = executionId

/-- Fold an execution.  `none` is the same snapshot: a re-delivered execution. -/
def applyFill (order : Order N) (kind : OrderEventType) (fill : Fill N) :
    Except OrderError (Option (Order N)) :=
  match order.findFill fill.executionId with
  | some existing =>
    if sameExecution existing fill then .ok none
    else .error (.duplicateExecution order.orderId fill.executionId)
  | none =>
    -- legality first: a fill against a terminal order is not an overflow
    if order.isTerminal then
      .error (.illegalTransition order.orderId order.status kind.targetStatus)
    else
      let filled := Arithmetic.add order.filledQuantity fill.quantity
      if Arithmetic.less order.quantity filled then .error (.overfill order.orderId)
      else
        let target := if Arithmetic.same filled order.quantity then .filled else .partiallyFilled
        match order.assertTransition target with
        | .error error => .error error
        | .ok () =>
          .ok (some { order with
            status := target
            filledQuantity := filled
            fills := order.fills ++ [fill] })

/-- `reason or self.reason`. -/
def reasonAfter (order : Order N) (reason : Option String) : Option String :=
  match reason with
  | some text => if text = "" then order.reason else some text
  | none => order.reason

def apply (order : Order N) (kind : OrderEventType) (fill : Option (Fill N))
    (reason : Option String) : Except OrderError (Option (Order N)) :=
  if kind.isExecution then
    match fill with
    | none => .error (.missingFill kind)
    | some fill => order.applyFill kind fill
  else
    match order.assertTransition kind.targetStatus with
    | .error error => .error error
    | .ok () =>
      match if kind.targetStatus = .rejected then order.assertRejectable reason else .ok () with
      | .error error => .error error
      | .ok () =>
        .ok (some { order with
          status := kind.targetStatus
          reason := order.reasonAfter reason })

end Order

/-- The orders in the order they were opened, and every event ever applied. -/
structure OrderBook (N : Type) where
  orders : Dict String (Order N)
  events : List (OrderEvent N)

namespace OrderBook

def empty : OrderBook N := ⟨.empty, []⟩

/-- Open the order of an intent, unless its identifier is known already. -/
def openOrder [Hashing N] (book : OrderBook N) (intent : OrderIntent N)
    (parentOrderId : Option String) (now : String) : OrderBook N × Order N :=
  let order := Order.fromIntent intent parentOrderId
  match book.orders.get? order.orderId with
  | some known => (book, known)
  | none =>
    ({ orders := book.orders.insert order.orderId order
       events := book.events ++ [{
         eventType := .created
         orderId := order.orderId
         sequence := Number.natCast book.events.length
         eventTime := now
         fill := none
         reason := none
         riskDecision := none
         lineage := order.lineage }] }, order)

/-- Apply an event; a re-delivered execution leaves no trace in the history. -/
def apply (book : OrderBook N) (orderId : String) (kind : OrderEventType)
    (fill : Option (Fill N)) (reason : Option String) (riskDecision : Option (RiskDecision N))
    (now : String) : Except OrderError (OrderBook N × Order N) :=
  match book.orders.get? orderId with
  | none => .error (.unknownOrder orderId)
  | some order =>
    match order.apply kind fill reason with
    | .error error => .error error
    | .ok none => .ok (book, order)
    | .ok (some updated) =>
      .ok ({ orders := book.orders.insert orderId updated
             events := book.events ++ [{
               eventType := kind
               orderId
               sequence := Number.natCast book.events.length
               eventTime := now
               fill
               reason
               riskDecision
               lineage := order.lineage }] }, updated)

omit [Arithmetic N] in
def historyOf (book : OrderBook N) (orderId : String) : List (OrderEvent N) :=
  book.events.filter fun event ↦ event.orderId = orderId

end OrderBook

end QuantAgent.Domain
