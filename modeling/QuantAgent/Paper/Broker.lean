import QuantAgent.Domain.Mirror
import QuantAgent.Paper.Portfolio

/-!
# The paper broker

A local order simulator.  A submission opens the order canonically, validates it, accepts it and
tries to fill it once against the snapshot; every step is mirrored on the canonical ledger.  What
the kill switch, the risk engine, the clocks and the disk answer during a call is an input of the
call, so the results hold whatever they answer.
-/

namespace QuantAgent.Paper

open Library Domain MarketRules

/-- What the broker knows about one symbol at one time. -/
structure Market where
  symbol : String
  tradeDate : String
  lastPrice : ℚ
  previousClose : ℚ
  sessionVolume : ℚ
  board : Board
  clock : String
  isSuspended : Bool
  isSt : Bool
  sessionsSinceListing : Option ℤ
  high : Option ℚ
  low : Option ℚ

structure BrokerConfig where
  participationCap : ℚ
  commissionRate : ℚ
  slippageBps : ℚ
  impactCoefficient : ℚ
  allowStBuy : Bool

structure Answers where
  /-- The clocks and the fate of the write, for the canonical records in turn. -/
  moments : ℕ → Moment
  /-- The wall clock. -/
  wallClock : String
  /-- The clock of a risk decision. -/
  decidedAt : String
  /-- A new execution identifier. -/
  fillId : String
  /-- Why observing the snapshot raised. -/
  observation : Option String
  /-- The reason of the first kill switch in the way. -/
  blocked : Option String
  /-- The failed checks of the risk engine. -/
  riskRefusal : Option (List String)
  /-- Why evaluating the portfolio limits raised. -/
  portfolioCheck : Option String

/-- Why a call of the broker raised. -/
inductive VenueError where
  | state (error : OrderStateError)
  | portfolio (error : PortfolioError)
  | mirror (error : MirrorError)
  | intent (error : OrderError)
  | rule (error : RuleError)
  | unknownOrder (orderId : String)
  | surroundings (message : String)
  deriving DecidableEq

/-- The broker with its portfolio, its orders and its record of account. -/
structure Broker where
  portfolio : Portfolio
  config : BrokerConfig
  orders : Dict String Order
  fills : List Fill
  fillIds : List String
  mirror : Mirror ℚ
  lineage : Lineage
  canonicalIds : Dict String String

def Broker.opening (portfolio : Portfolio) (config : BrokerConfig) (lineage : Lineage)
    (durable : Bool) : Broker where
  portfolio
  config
  orders := .empty
  fills := []
  fillIds := []
  mirror := .fresh durable
  lineage
  canonicalIds := .empty

/-- `(trade_date or now)[:10]`. -/
def sessionOr (tradeDate : Option String) (wallClock : String) : String :=
  datePart (orDefault tradeDate wallClock)

/-- `trade_date[:10] if trade_date else None`. -/
def sessionOrNone (tradeDate : Option String) : Option String :=
  match tradeDate with
  | some date => if date = "" then none else some (datePart date)
  | none => none

namespace Market

variable [Platform]

def priceProblem (name : String) (value : ℚ) : List String :=
  if value ≤ 0 then [name ++ "=" ++ Platform.showPlain value ++ " is not a finite positive price"]
  else []

/-- `invalid_reason`. -/
def invalidReason (market : Market) : Option String :=
  let problems :=
    priceProblem "last_price" market.lastPrice ++
    priceProblem "previous_close" market.previousClose ++
    (if market.sessionVolume < 0 then
      ["session_volume=" ++ Platform.showPlain market.sessionVolume ++
        " is not a finite non-negative volume"] else []) ++
    (market.high.map (priceProblem "high")).getD [] ++
    (market.low.map (priceProblem "low")).getD []
  if problems.isEmpty then none else some ("; ".intercalate problems)

def limits (market : Market) : Except RuleError PriceLimits :=
  priceLimits market.board market.previousClose market.tradeDate market.sessionsSinceListing
    market.isSt

omit [Platform] in
/-- `at_limit_up`. -/
def atLimitUp (market : Market) (limits : PriceLimits) : Bool :=
  limits.limitUp.any fun limit ↦ limit - 1 / 1000000000 ≤ market.lastPrice

omit [Platform] in
/-- `at_limit_down`. -/
def atLimitDown (market : Market) (limits : PriceLimits) : Bool :=
  limits.limitDown.any fun limit ↦ market.lastPrice ≤ limit + 1 / 1000000000

/-- `phase`. -/
def phase (market : Market) : Except RuleError SessionPhase :=
  sessionPhase (String.ofList (market.clock.toList.take 5)) market.board

end Market

namespace Broker

variable [Hashing ℚ]

/-- Run a mirrored call on the book and the ledger of the broker. -/
def record (broker : Broker) (moment : Moment) (call : MirrorCall ℚ) :
    Broker × Except VenueError (Domain.Order ℚ) :=
  match broker.mirror.perform moment call with
  | (mirror, .ok order) => ({ broker with mirror }, .ok order)
  | (mirror, .error error) => ({ broker with mirror }, .error (.mirror error))

def applyAndAppend (broker : Broker) (moment : Moment) (canonicalId : String)
    (kind : OrderEventType) (riskDecision : Option (RiskDecision ℚ)) (session : String) :
    Broker × Except VenueError Unit :=
  match broker.mirror.book.apply canonicalId kind none none riskDecision moment.now with
  | .error error => (broker, .error (.mirror (.order error)))
  | .ok (book, updated) =>
    match Mirror.recordLast book broker.mirror.ledger moment updated canonicalId (some session)
      none with
    | (mirror, .ok _) => ({ broker with mirror }, .ok ())
    | (mirror, .error error) => ({ broker with mirror }, .error (.mirror error))

def intentOf (broker : Broker) (order : Order) (session : String) :
    Except OrderError (OrderIntent ℚ) :=
  let lineage := Signal.create (N := ℚ) order.symbol (session ++ "-" ++ order.orderId) broker.lineage
  OrderIntent.create order.symbol order.side (truncate order.quantity) session lineage
    order.limitPrice order.limitPrice

def decisionOf (lineage : Lineage) (decidedAt : String) : RiskDecision ℚ :=
  RiskDecision.create true "paper_pretrade" (.str "board+cash+t+1") (.str "passed")
    "passed paper validation" lineage "risk_engine" decidedAt

/-- `_canonical_open`. -/
def canonicalOpen (broker : Broker) (answers : Answers) (order : Order)
    (tradeDate : Option String) : Broker × Except VenueError Unit :=
  let session := sessionOr tradeDate answers.wallClock
  match broker.intentOf order session with
  | .error error => (broker, .error (.intent error))
  | .ok intent =>
    match broker.record (answers.moments 0) (.opening intent none (some session)) with
    | (broker, .error error) => (broker, .error error)
    | (broker, .ok canonical) =>
      let broker := { broker with
        canonicalIds := broker.canonicalIds.insert order.orderId canonical.orderId }
      let decision := decisionOf canonical.lineage answers.decidedAt
      match broker.applyAndAppend (answers.moments 1) canonical.orderId .riskApproved
        (some decision) session with
      | (broker, .error error) => (broker, .error error)
      | (broker, .ok ()) =>
        broker.applyAndAppend (answers.moments 2) canonical.orderId .submitted none session

/-- `_canonical_event`. -/
def canonicalEvent (broker : Broker) (moment : Moment) (order : Order) (kind : OrderEventType)
    (reason tradeDate : Option String) : Broker × Except VenueError Unit :=
  match broker.canonicalIds.get? order.orderId with
  | none => (broker, .ok ())
  | some canonicalId =>
    match broker.record moment
      (.event canonicalId kind none reason none (sessionOrNone tradeDate)) with
    | (broker, .ok _) => (broker, .ok ())
    | (broker, .error error) => (broker, .error error)

def economicFill (canonical : Domain.Order ℚ) (canonicalId : String) (order : Order) (fill : Fill)
    (session : String) : Domain.Fill ℚ where
  executionId := fill.fillId
  orderId := canonicalId
  symbol := fill.symbol
  side := fill.side
  quantity := truncate fill.quantity
  price := fill.price
  -- a limit price is positive, so `limit_price or price` is a default for a missing one
  referencePrice := some (order.limitPrice.getD fill.price)
  commission := fill.commission
  stampDuty := fill.stampDuty
  transferFee := fill.transferFee
  filledAt := session
  lineage := canonical.lineage.derive .executionId (some fill.fillId)

/-- `_canonical_fill`. -/
def canonicalFill (broker : Broker) (moment : Moment) (order : Order) (fill : Fill)
    (tradeDate : Option String) (wallClock : String) : Broker × Except VenueError Unit :=
  match broker.canonicalIds.get? order.orderId with
  | none => (broker, .ok ())
  | some canonicalId =>
    let session := sessionOr tradeDate wallClock
    match broker.mirror.book.orders.get? canonicalId with
    | none => (broker, .error (.unknownOrder canonicalId))
    | some canonical =>
      let economic := economicFill canonical canonicalId order fill session
      let kind : OrderEventType :=
        if canonical.quantity ≤ canonical.filledQuantity + economic.quantity then .fill
        else .partialFill
      match broker.record moment
        (.event canonicalId kind (some economic) none none (some session)) with
      | (broker, .ok _) => (broker, .ok ())
      | (broker, .error error) => (broker, .error error)

/-- `_reject`: the reason is noted before the transition is tried. -/
def reject (broker : Broker) (moment : Moment) (order : Order) (reason : String)
    (tradeDate : Option String) : Broker × Order × Except VenueError Unit :=
  let order := { order with rejectReason := some reason }
  match order.transition .rejected with
  | .error error => (broker, order, .error (.state error))
  | .ok order =>
    match broker.canonicalEvent moment order .rejected (some reason) tradeDate with
    | (broker, result) => (broker, order, result)

variable [Platform]

omit [Hashing ℚ] in
/-- The refusals that depend on the session and the security. -/
def instrumentRefusal (broker : Broker) (order : Order) (market : Market) (limits : PriceLimits) :
    Option String :=
  let position := broker.portfolio.position order.symbol
  let verdict := tradability market.isSuspended (market.atLimitUp limits)
    (market.atLimitDown limits) false
    (order.side = .sell && position.sellable < order.quantity && 0 < position.pendingSettlement)
  if order.side = .buy && !verdict.canBuy then some ("; ".intercalate verdict.reasons)
  else if order.side = .sell && !verdict.canSell then some ("; ".intercalate verdict.reasons)
  else if order.side = .buy && market.isSt && !broker.config.allowStBuy then
    some "ST buy blocked by policy"
  else none

omit [Hashing ℚ] in
def lotRefusal (order : Order) : String :=
  "quantity " ++ Platform.showGeneral order.quantity ++ " rounds below the " ++ order.board.name ++
    " minimum lot (" ++ toString (lotRules order.board).1 ++ "/" ++
    toString (lotRules order.board).2 ++ ")"

omit [Hashing ℚ] in
/-- The refusals that depend on the price band, the settled shares and the risk engine. -/
def bookRefusal (broker : Broker) (answers : Answers) (order : Order) (limits : PriceLimits) :
    Option String :=
  let above := order.limitPrice.bind fun price ↦ limits.limitUp.bind fun limit ↦
    if limit + 1 / 1000000000 < price then
      some ("limit " ++ Platform.showPlain price ++ " exceeds the price ceiling " ++
        Platform.showPlain limit)
    else none
  let below := order.limitPrice.bind fun price ↦ limits.limitDown.bind fun limit ↦
    if price < limit - 1 / 1000000000 then
      some ("limit " ++ Platform.showPlain price ++ " is below the price floor " ++
        Platform.showPlain limit)
    else none
  if !limits.unlimited && above.isSome then above
  else if !limits.unlimited && below.isSome then below
  else if order.side = .sell &&
      1 / 1000000000 < order.quantity - broker.portfolio.sellable order.symbol then
    some ("sell of " ++ Platform.showWhole order.quantity ++ " exceeds the T+1-settled " ++
      Platform.showWhole (broker.portfolio.sellable order.symbol))
  else answers.riskRefusal.map fun failed ↦ "portfolio risk rejected: " ++ ",".intercalate failed

omit [Hashing ℚ] in
/-- `_validate`: a reason to refuse, or none.  It rounds the order to a legal lot on the way. -/
def validate (broker : Broker) (answers : Answers) (order : Order) (market : Market) :
    Broker × Order × Except VenueError (Option String) :=
  match answers.blocked with
  | some reason => (broker, order, .ok (some ("kill switch active: " ++ reason)))
  | none =>
  match market.invalidReason with
  | some invalid => (broker, order, .ok (some ("market_data_invalid: " ++ invalid)))
  | none =>
  match market.phase with
  | .error error => (broker, order, .error (.rule error))
  | .ok phase =>
  if !phase.tradable then
    (broker, order, .ok (some ("outside a tradable session phase (" ++ phase.name ++ ")")))
  else
  let broker := { broker with portfolio := broker.portfolio.withPosition order.symbol }
  match market.limits with
  | .error error => (broker, order, .error (.rule error))
  | .ok limits =>
  match broker.instrumentRefusal order market limits with
  | some reason => (broker, order, .ok (some reason))
  | none =>
  let sized := roundToLot order.quantity order.board order.side order.isFullLiquidation
  if h : 0 < sized then
    let order := { order with
      quantity := sized
      quantity_pos := Int.cast_pos.mpr h }
    (broker, order, .ok (broker.bookRefusal answers order limits))
  else (broker, order, .ok (some (lotRefusal order)))

/-- `apply_execution_report`: the only way a fill reaches the portfolio, the ledger and the order. -/
def applyExecutionReport (broker : Broker) (moment : Moment) (wallClock : String)
    (portfolioCheck : Option String) (order : Order) (fill : Fill) (tradeDate : Option String) :
    Broker × Order × Except VenueError Bool :=
  if fill.fillId ∈ broker.fillIds then (broker, order, .ok false)
  else
    match broker.portfolio.applyFill fill with
    | (portfolio, .error error) => ({ broker with portfolio }, order, .error (.portfolio error))
    | (portfolio, .ok ()) =>
      let broker := { broker with
        portfolio
        fillIds := broker.fillIds ++ [fill.fillId]
        fills := broker.fills ++ [fill] }
      match broker.canonicalFill moment order fill tradeDate wallClock with
      | (broker, .error error) => (broker, order, .error error)
      | (broker, .ok ()) =>
        let order := { order with
          filledQuantity := order.filledQuantity + fill.quantity
          filledNotional := order.filledNotional + fill.notional
          feesPaid := order.feesPaid + fill.fees }
        let target : OrderState :=
          if order.remaining ≤ 1 / 1000000000 then .filled else .partiallyFilled
        match order.transition target with
        | .error error => (broker, order, .error (.state error))
        | .ok order =>
          match portfolioCheck with
          | some message => (broker, order, .error (.surroundings message))
          | none => (broker, order, .ok true)

omit [Hashing ℚ] [Platform] in
/-- A resting limit order that the last price does not reach. -/
def misses (order : Order) (market : Market) : Bool :=
  match order.orderType, order.limitPrice with
  | .limit, some limit =>
    match order.side with
    | .buy => limit < market.lastPrice
    | .sell => market.lastPrice < limit
  | _, _ => false

omit [Hashing ℚ] [Platform] in
def tradeSize (broker : Broker) (order : Order) (market : Market) : ℤ :=
  roundToLot (min order.remaining (market.sessionVolume * broker.config.participationCap))
    order.board order.side order.isFullLiquidation

omit [Hashing ℚ] in
def fillOf (broker : Broker) (answers : Answers) (order : Order) (market : Market)
    (limits : PriceLimits) (quantity : ℤ) : Fill :=
  let price := executionPrice market.lastPrice order.side quantity market.sessionVolume
    broker.config.slippageBps broker.config.impactCoefficient limits order.limitPrice
  let notional := quantity * price
  let costs := tradingCosts notional order.side market.tradeDate broker.config.commissionRate
  { orderId := order.orderId
    symbol := order.symbol
    side := order.side
    quantity
    price
    notional
    commission := costs.commission
    stampDuty := costs.stampDuty
    transferFee := costs.transferFee
    marketTime := some market.clock
    fillId := answers.fillId
    isPartial := (quantity : ℚ) < order.remaining }

/-- `_attempt_fill`: a fill the portfolio refuses rejects the order. -/
def attemptFill (broker : Broker) (answers : Answers) (order : Order) (market : Market) :
    Broker × Order × Except VenueError Unit :=
  if misses order market then (broker, order, .ok ())
  else
    let quantity := broker.tradeSize order market
    if quantity ≤ 0 then (broker, order, .ok ())
    else
      match market.limits with
      | .error error => (broker, order, .error (.rule error))
      | .ok limits =>
        let fill := broker.fillOf answers order market limits quantity
        match broker.applyExecutionReport (answers.moments 4) answers.wallClock
          answers.portfolioCheck order fill (some market.tradeDate) with
        | (broker, order, .error (.portfolio error)) =>
          broker.reject (answers.moments 5) order error.message (some market.tradeDate)
        | (broker, order, .error error) => (broker, order, .error error)
        | (broker, order, .ok _) => (broker, order, .ok ())

/-- Validate, accept and try to fill, once the order is open canonically. -/
def work (broker : Broker) (answers : Answers) (order : Order) (market : Market) :
    Broker × Order × Except VenueError Unit :=
  match broker.validate answers order market with
  | (broker, order, .error error) => (broker, order, .error error)
  | (broker, order, .ok (some reason)) =>
    broker.reject (answers.moments 3) order reason (some market.tradeDate)
  | (broker, order, .ok none) =>
    match order.transition .accepted with
    | .error error => (broker, order, .error (.state error))
    | .ok order =>
      match broker.canonicalEvent (answers.moments 3) order .accepted none
        (some market.tradeDate) with
      | (broker, .error error) => (broker, order, .error error)
      | (broker, .ok ()) => broker.attemptFill answers order market

/-- What a submission does to the broker and to the order, which the broker holds from the start. -/
def process (broker : Broker) (answers : Answers) (order : Order) (market : Market) :
    Broker × Order × Except VenueError Unit :=
  match answers.observation with
  | some message => (broker, order, .error (.surroundings message))
  | none =>
    match broker.canonicalIds.get? order.orderId with
    | some _ => broker.work answers order market
    | none =>
      match broker.canonicalOpen answers order (some market.tradeDate) with
      | (broker, .error error) => (broker, order, .error error)
      | (broker, .ok ()) => broker.work answers order market

omit [Hashing ℚ] [Platform] in
def hold (broker : Broker) (order : Order) : Broker :=
  { broker with orders := broker.orders.insert order.orderId order }

/-- `submit`. -/
def submit (broker : Broker) (answers : Answers) (order : Order) (market : Market) :
    Broker × Except VenueError Unit :=
  match broker.process answers order market with
  | (broker, order, result) => (broker.hold order, result)

omit [Platform] in
/-- `cancel`, with the trade date of the snapshot when there is one. -/
def cancel (broker : Broker) (answers : Answers) (orderId : String) (tradeDate : Option String) :
    Broker × Except VenueError Unit :=
  match broker.orders.get? orderId with
  | none => (broker, .error (.unknownOrder orderId))
  | some order =>
    if !order.isOpen then (broker, .ok ())
    else
      match order.transition .cancelRequested with
      | .error error => (broker, .error (.state error))
      | .ok order =>
        match (broker.hold order).canonicalEvent (answers.moments 0) order .cancelRequested none
          tradeDate with
        | (broker, .error error) => (broker, .error error)
        | (broker, .ok ()) =>
          match order.transition .cancelled with
          | .error error => (broker, .error (.state error))
          | .ok order =>
            (broker.hold order).canonicalEvent (answers.moments 1) order .cancelled
              (some "operator_cancel") tradeDate

omit [Hashing ℚ] [Platform] in
/-- `close_session`. -/
def closeSession (broker : Broker) : Broker :=
  { broker with portfolio := broker.portfolio.settle }

end Broker

end QuantAgent.Paper
