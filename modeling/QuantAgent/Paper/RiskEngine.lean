import QuantAgent.Paper.KillSwitch
import QuantAgent.Paper.Portfolio

/-!
# The risk engine

Limits for a single order and for the whole book.  The consumed turnover and the opening equity of
a session, the peak of the equity, the halt of a session and the latched switches are journalled,
and a new engine folds the journal into the state it starts with.
-/

namespace QuantAgent.Paper

open Library Domain

/-- What the venue takes from the standard library for times and percentages. -/
class QuoteTexts where
  /-- `datetime.fromisoformat(text)`, as seconds behind a fixed instant. -/
  readInstant : String → Option ℤ
  /-- `f"{x:.2%}"`. -/
  showPercent : ℚ → String
  /-- A time without a date cannot be read. -/
  readInstant_undated : ∀ clock, readInstant ("T" ++ clock) = none

/-- `market_value` of a position. -/
def Position.marketValue (position : Position) (price : ℚ) : ℚ := position.total * price

namespace Portfolio

def held (portfolio : Portfolio) : List (String × Position) :=
  portfolio.positions.entries.filter fun entry ↦ !entry.2.isFlat

/-- `unpriceable`: held symbols with no mark. -/
def unpriceable (portfolio : Portfolio) (prices : Dict String ℚ) : List String :=
  ((portfolio.held.map Prod.fst).filter fun symbol ↦ (prices.get? symbol).isNone).mergeSort
    fun left right ↦ left ≤ right

/-- The value of a held position at a price map that has its symbol. -/
def valueAt (prices : Dict String ℚ) (entry : String × Position) : ℚ :=
  entry.2.marketValue ((prices.get? entry.1).getD 0)

/-- `market_value`, which raises when a held position has no mark. -/
def marketValue (portfolio : Portfolio) (prices : Dict String ℚ) : Option ℚ :=
  if (portfolio.unpriceable prices).isEmpty then
    some (portfolio.held.map (valueAt prices)).sum
  else none

/-- `equity`. -/
def equity (portfolio : Portfolio) (prices : Dict String ℚ) : Option ℚ :=
  (portfolio.marketValue prices).map fun value ↦ portfolio.cash + value

/-- `gross_exposure` of a book that can be valued. -/
def grossExposure (portfolio : Portfolio) (prices : Dict String ℚ) : ℚ :=
  (portfolio.held.map fun entry ↦ |valueAt prices entry|).sum

end Portfolio

/-- `RiskLimits`. -/
structure RiskLimits where
  maxOrderNotional : ℚ := 200000
  maxOrderShares : ℚ := 1000000
  maxSingleNameWeight : ℚ := 1 / 10
  maxIndustryWeight : ℚ := 3 / 10
  maxGrossExposure : ℚ := 1
  maxDailyTurnover : ℚ := 2
  maxDailyLossFraction : Option ℚ := some (5 / 100)
  maxDailyLoss : Option ℚ := none
  maxDrawdown : ℚ := 2 / 10
  maxParticipation : ℚ := 1 / 10
  maxQuoteAgeSeconds : ℚ := 300
  maxPriceDeviation : ℚ := 1 / 10
  minCashBuffer : ℚ := 0
  deriving DecidableEq, Repr

/-- The age of a quote; one whose time cannot be read is infinitely old. -/
inductive QuoteAge where
  | unread
  | seconds (age : ℚ)
  deriving DecidableEq, Repr

/-- What a check reports as its limit, or as what it measured. -/
inductive Measure where
  | missing
  | number (value : ℚ)
  | infinite
  | text (value : String)
  | texts (values : List String)
  | switches (values : List (String × Option String × String))
  | industry (symbol : String) (industry : Option String) (weightsSupplied : Bool)
  deriving DecidableEq, Repr

/-- `RiskCheck`. -/
structure RiskCheck where
  name : String
  passed : Bool
  detail : String
  limit : Measure := .missing
  measured : Measure := .missing
  deriving DecidableEq, Repr

/-- What the caller of a pre-trade check knows; what it has not measured is `none`. -/
structure OrderContext where
  referencePrice : ℚ
  sessionVolume : ℚ
  prices : Dict String ℚ
  quoteAge : Option QuoteAge
  industry : Option String
  industryWeights : Option (Dict String ℚ)
  modelApproved : Option Bool
  datasetApproved : Option Bool

structure RiskEngine where
  limits : RiskLimits
  killSwitch : KillSwitch
  /-- The session that turnover and daily loss belong to. -/
  sessionDate : Option String
  sessionTurnover : ℚ
  sessionStartEquity : Option ℚ
  peakEquity : Option ℚ
  /-- The session on which a daily loss halted new buys. -/
  lossHaltedSession : Option String
  seenOrders : List String
  turnoverBySession : Dict String ℚ
  startEquityBySession : Dict String ℚ
  /-- Session and equity of the newest durable mark. -/
  lastClose : Option (Option String × ℚ)

namespace RiskEngine

/-- `RiskDecision`. -/
structure Decision where
  approved : Bool
  checks : List RiskCheck
  decidedAt : String
  deriving DecidableEq, Repr

def Decision.of (checks : List RiskCheck) (decidedAt : String) : Decision where
  approved := checks.all RiskCheck.passed
  checks
  decidedAt

/-- `failed`. -/
def Decision.failed (decision : Decision) : List String :=
  (decision.checks.filter fun check ↦ !check.passed).map RiskCheck.name

def fresh (limits : RiskLimits) : RiskEngine where
  limits
  killSwitch := .released
  sessionDate := none
  sessionTurnover := 0
  sessionStartEquity := none
  peakEquity := none
  lossHaltedSession := none
  seenOrders := []
  turnoverBySession := .empty
  startEquityBySession := .empty
  lastClose := none

/-- `_observe_peak`, as far as the state goes. -/
def observePeak (engine : RiskEngine) (equity : ℚ) : RiskEngine :=
  if engine.peakEquity.all (· < equity) then { engine with peakEquity := some equity } else engine

/-- `text[:10] or None` of an optional stamp. -/
def dateOf (stamp : Option String) : Option String :=
  let date := datePart (stamp.getD "")
  if date = "" then none else some date

def restoreState (engine : RiskEngine) (change : RiskStateChange) : RiskEngine :=
  let engine :=
    if change.dailyLossHalt then { engine with lossHaltedSession := change.session } else engine
  let engine :=
    match change.session, change.sessionTurnover with
    | some session, some turnover =>
      if session = "" then engine
      else { engine with turnoverBySession := engine.turnoverBySession.insert session turnover }
    | _, _ => engine
  let engine :=
    match change.session, change.sessionStartEquity with
    | some session, some start =>
      if session = "" then engine
      else { engine with
        startEquityBySession := engine.startEquityBySession.setDefault session start }
    | _, _ => engine
  match change.peakEquity with
  | some equity => engine.observePeak equity
  | none => engine

def restoreEvent (engine : RiskEngine) (event : Event) : RiskEngine :=
  let engine := { engine with killSwitch := engine.killSwitch.restoreEvent event }
  match event.body with
  | .riskStateUpdated change => engine.restoreState change
  | .markToMarket (some equity) =>
    { engine.observePeak equity with lastClose := some (dateOf event.marketTime, equity) }
  | _ => engine

/-- `bind_state_ledger` of an engine that is bound to no other ledger. -/
def bindStateLedger (engine : RiskEngine) (events : List Event) : RiskEngine :=
  events.foldl restoreEvent engine

/-- `observe_inception_equity`. -/
def observeInceptionEquity (engine : RiskEngine) (equity : ℚ) : RiskEngine :=
  if 0 < equity then engine.observePeak equity else engine

/-- `_record_session_start`, with what goes to the journal. -/
def recordSessionStart (engine : RiskEngine) (session : String) (equity : ℚ) :
    RiskEngine × List EventBody :=
  if (engine.startEquityBySession.get? session).isSome then (engine, [])
  else
    ({ engine with startEquityBySession := engine.startEquityBySession.insert session equity },
      [.riskStateUpdated { session := some session, sessionStartEquity := some equity }])

/-- The equity a session starts with: the durable figure, the valuation of the caller, or the newest
durable close of an earlier session. -/
def openingOf (engine : RiskEngine) (session : String) (openingEquity : Option ℚ) : Option ℚ :=
  match engine.startEquityBySession.get? session, openingEquity, engine.lastClose with
  | some start, _, _ => some start
  | none, some equity, _ => some equity
  | none, none, some (some date, equity) => if date < session then some equity else none
  | none, none, _ => none

/-- `begin_session`. -/
def beginSession (engine : RiskEngine) (session : String) (openingEquity : Option ℚ) :
    RiskEngine × List EventBody :=
  let session := datePart session
  if engine.sessionDate = some session then (engine, [])
  else
    let start := engine.openingOf session openingEquity
    let engine := { engine with
      sessionDate := some session
      sessionTurnover := (engine.turnoverBySession.get? session).getD 0
      sessionStartEquity := start }
    match start with
    | some equity => engine.recordSessionStart session equity
    | none => (engine, [])

def switchCheck (engine : RiskEngine) (side : Side) (strategyId : Option String) : RiskCheck :=
  let blocking := engine.killSwitch.blocking side strategyId
  { name := "kill_switch"
    passed := blocking.isEmpty
    detail := "no kill switch blocks this order (PORTFOLIO scope is reduce-only)"
    measured := if blocking.isEmpty then .missing
      else .switches (blocking.map fun record ↦ (record.scope, record.key, record.reason)) }

/-- Whether a daily loss halts new buys in the session. -/
def halted (engine : RiskEngine) : Bool :=
  engine.lossHaltedSession.isSome && engine.lossHaltedSession = engine.sessionDate

def approvalCheck (name detail : String) (approved : Option Bool) : List RiskCheck :=
  approved.toList.map fun passed ↦ { name, passed, detail }

/-- `_industry_checks`. -/
def industryChecks (limits : RiskLimits) (order : Order) (notional equity : ℚ)
    (context : OrderContext) : List RiskCheck :=
  if 1 ≤ limits.maxIndustryWeight then []
  else
    match context.industry, context.industryWeights with
    | some industry, some weights =>
      if industry = "" then [unmeasured] else
        let projected := (weights.get? industry).getD 0 + notional / equity
        [{ name := "industry_weight"
           passed := projected ≤ limits.maxIndustryWeight
           detail := "industry weight within limit"
           limit := .number limits.maxIndustryWeight
           measured := .number projected }]
    | _, _ => [unmeasured]
where
  unmeasured : RiskCheck :=
    { name := "industry_unmeasured"
      passed := false
      detail := "industry limit cannot be measured: the symbol has no industry or " ++
        "the book's industry weights were not supplied (a limit of 1.0 is " ++
        "the explicit opt-out)"
      limit := .number limits.maxIndustryWeight
      measured := .industry order.symbol context.industry context.industryWeights.isSome }

def limitCheck (name detail : String) (limit measured : ℚ) : RiskCheck where
  name
  passed := measured ≤ limit
  detail
  limit := .number limit
  measured := .number measured

def ageCheck (limits : RiskLimits) : QuoteAge → RiskCheck
  | .unread =>
    { name := "stale_data"
      passed := false
      detail := "quote is fresh enough to price against"
      limit := .number limits.maxQuoteAgeSeconds
      measured := .infinite }
  | .seconds age =>
    limitCheck "stale_data" "quote is fresh enough to price against" limits.maxQuoteAgeSeconds age

def quoteChecks (limits : RiskLimits) (order : Order) (context : OrderContext) (notional : ℚ) :
    List RiskCheck :=
  approvalCheck "model_approved" "signal comes from an approved model" context.modelApproved ++
  approvalCheck "dataset_approved" "signal comes from an approved dataset" context.datasetApproved ++
  context.quoteAge.toList.map (ageCheck limits) ++
  [limitCheck "order_notional" "order notional within limit" limits.maxOrderNotional notional,
   limitCheck "order_shares" "order size within limit" limits.maxOrderShares order.quantity] ++
  (match order.limitPrice with
  | some price =>
    if 0 < context.referencePrice then
      [limitCheck "fat_finger" "limit price is near the reference price" limits.maxPriceDeviation
        (|price - context.referencePrice| / context.referencePrice)]
    else []
  | none => []) ++
  (if context.sessionVolume < 0 then
    [{ name := "participation"
       passed := false
       detail := "session volume is not a measurement; participation cannot be bounded"
       limit := .number limits.maxParticipation
       measured := .number context.sessionVolume }]
  else if 0 < context.sessionVolume then
    [limitCheck "participation" "order participation within limit" limits.maxParticipation
      (order.quantity / context.sessionVolume)]
  else [])

def sideChecks (limits : RiskLimits) (order : Order) (portfolio : Portfolio) (context : OrderContext)
    (notional : ℚ) (equity : Option ℚ) : List RiskCheck :=
  match order.side with
  | .buy =>
    let projected := portfolio.cash - notional
    { name := "cash_available"
      passed := limits.minCashBuffer ≤ projected
      detail := "sufficient cash after this order"
      limit := .number limits.minCashBuffer
      measured := .number projected } ::
    (match equity with
    | some equity =>
      limitCheck "single_name_weight" "single-name weight within limit"
        limits.maxSingleNameWeight
        (((portfolio.position order.symbol).marketValue context.referencePrice + notional) /
          equity) ::
      industryChecks limits order notional equity context
    | none => [])
  | .sell =>
    [{ name := "position_available"
       passed := order.quantity ≤ portfolio.sellable order.symbol + 1 / 1000000000
       detail := "sufficient T+1-settled shares"
       limit := .number (portfolio.sellable order.symbol)
       measured := .number order.quantity }]

def notionalOf (order : Order) (context : OrderContext) : ℚ :=
  order.quantity * order.limitPrice.getD context.referencePrice

def orderChecks (engine : RiskEngine) (order : Order) (portfolio : Portfolio)
    (context : OrderContext) : List RiskCheck :=
  let prices := context.prices.setDefault order.symbol context.referencePrice
  let unpriceable := portfolio.unpriceable prices
  let equity := (portfolio.equity prices).map fun equity ↦ max equity (1 / 1000000000)
  let notional := notionalOf order context
  [engine.switchCheck order.side order.strategyId] ++
  (if order.side = .buy then
    [{ name := "daily_loss_halt"
       passed := !engine.halted
       detail := "no daily-loss halt on this session (buys resume next session)"
       measured := if engine.halted then (engine.lossHaltedSession.elim .missing .text)
         else .missing }]
  else []) ++
  [{ name := "duplicate_order"
     passed := order.orderId ∉ engine.seenOrders
     detail := "order id has not been submitted before"
     measured := .text order.orderId }] ++
  quoteChecks engine.limits order context notional ++
  [{ name := "book_priceable"
     passed := unpriceable.isEmpty
     detail := "every held position has a mark, so book weights are measurable"
     measured := .texts unpriceable }] ++
  sideChecks engine.limits order portfolio context notional equity ++
  (match equity with
  | some equity =>
    [limitCheck "daily_turnover" "daily turnover within limit" engine.limits.maxDailyTurnover
      ((engine.sessionTurnover + notional) / equity)]
  | none => [])

/-- What an approval leaves in the engine, with what goes to the journal. -/
def approve (engine : RiskEngine) (order : Order) (notional : ℚ) : RiskEngine × List EventBody :=
  let turnover := engine.sessionTurnover + notional
  let engine := { engine with
    seenOrders := engine.seenOrders ++ [order.orderId]
    sessionTurnover := turnover }
  match engine.sessionDate with
  | some session =>
    ({ engine with turnoverBySession := engine.turnoverBySession.insert session turnover },
      [.riskStateUpdated { session := some session, sessionTurnover := some turnover }])
  | none => (engine, [])

/-- `check_order`. -/
def checkOrder (engine : RiskEngine) (order : Order) (portfolio : Portfolio) (context : OrderContext)
    (decidedAt : String) : RiskEngine × List EventBody × Decision :=
  let decision := Decision.of (engine.orderChecks order portfolio context) decidedAt
  if decision.approved then
    let approved := engine.approve order (notionalOf order context)
    (approved.1, approved.2, decision)
  else (engine, [], decision)

/-- `daily_loss_limit_cny`; `none` is no limit. -/
def dailyLossLimit (engine : RiskEngine) : Option ℚ :=
  let fractional := engine.limits.maxDailyLossFraction.bind fun fraction ↦
    engine.sessionStartEquity.map fun start ↦ fraction * start
  match fractional, engine.limits.maxDailyLoss with
  | some first, some second => some (min first second)
  | some first, none => some first
  | none, second => second

def industryTotals (portfolio : Portfolio) (prices : Dict String ℚ)
    (industryMap : Dict String String) : Dict String ℚ :=
  portfolio.held.foldl (fun totals entry ↦
    let industry := (industryMap.get? entry.1).getD "UNKNOWN"
    totals.insert industry ((totals.get? industry).getD 0 + |Portfolio.valueAt prices entry|)) .empty

def shapeChecks (limits : RiskLimits) (portfolio : Portfolio) (prices : Dict String ℚ)
    (industryMap : Option (Dict String String)) (equity : ℚ) : List RiskCheck :=
  [limitCheck "gross_exposure" "gross exposure within limit" limits.maxGrossExposure
    (portfolio.grossExposure prices / equity)] ++
  (portfolio.held.map fun entry ↦
    limitCheck ("concentration:" ++ entry.1) "single-name concentration within limit"
      limits.maxSingleNameWeight (|Portfolio.valueAt prices entry| / equity)) ++
  (match industryMap with
  | some industryMap =>
    if industryMap.entries.isEmpty then [] else
      (industryTotals portfolio prices industryMap).entries.map fun entry ↦
        limitCheck ("industry:" ++ entry.1) "industry exposure within limit"
          limits.maxIndustryWeight (entry.2 / equity)
  | none => [])

/-- The first valuation in a session is its opening equity, if none is known. -/
def startWith (engine : RiskEngine) (equity : ℚ) : RiskEngine × List EventBody :=
  match engine.sessionStartEquity, engine.sessionDate with
  | some _, _ => (engine, [])
  | none, some session =>
    { engine with sessionStartEquity := some equity }.recordSessionStart session equity
  | none, none => ({ engine with sessionStartEquity := some equity }, [])

def raisePeak (engine : RiskEngine) (equity : ℚ) : RiskEngine × List EventBody :=
  if engine.peakEquity.all (· < equity) then
    (engine.observePeak equity,
      [.riskStateUpdated { session := engine.sessionDate, peakEquity := some equity }])
  else (engine, [])

/-- The session start and the peak that a valuation of the book leaves. -/
def observeEquity (engine : RiskEngine) (equity : ℚ) : RiskEngine × List EventBody :=
  let started := engine.startWith equity
  let raised := started.1.raisePeak equity
  (raised.1, started.2 ++ raised.2)

/-- A daily loss halts new buys for the rest of the session. -/
def haltSession (engine : RiskEngine) (dailyLoss : ℚ) (limit : Option ℚ) :
    RiskEngine × List EventBody :=
  if engine.lossHaltedSession = engine.sessionDate then (engine, [])
  else
    ({ engine with lossHaltedSession := engine.sessionDate },
      [.riskStateUpdated {
        session := engine.sessionDate
        dailyLossHalt := true
        dailyLoss := some dailyLoss
        dailyLossLimit := limit }])

def drawdownOf (engine : RiskEngine) (equity : ℚ) : ℚ :=
  match engine.peakEquity with
  | some peak => if peak = 0 then 0 else (peak - equity) / peak
  | none => 0

variable [QuoteTexts]

def latchDrawdown (engine : RiskEngine) (drawdown : ℚ) (now : String) :
    RiskEngine × List EventBody :=
  let triggered := engine.killSwitch.trigger scopePortfolio
    ("drawdown " ++ QuoteTexts.showPercent drawdown ++ " exceeds " ++
      QuoteTexts.showPercent engine.limits.maxDrawdown) none now
  ({ engine with killSwitch := triggered.1 }, triggered.2.1)

def dailyLossOf (engine : RiskEngine) (equity : ℚ) : ℚ :=
  engine.sessionStartEquity.getD equity - equity

def lossCheck (engine : RiskEngine) (equity : ℚ) : RiskCheck where
  name := "daily_loss"
  passed := engine.dailyLossLimit.all (engine.dailyLossOf equity ≤ ·)
  detail := "daily loss within limit"
  limit := engine.dailyLossLimit.elim .infinite .number
  measured := .number (engine.dailyLossOf equity)

def drawdownCheck (engine : RiskEngine) (equity : ℚ) : RiskCheck :=
  limitCheck "drawdown" "drawdown within limit" engine.limits.maxDrawdown (engine.drawdownOf equity)

/-- What the failed checks of the portfolio do: of them only the daily loss and the drawdown have
consequences. -/
def respond (engine : RiskEngine) (equity : ℚ) (now : String) : RiskEngine × List EventBody :=
  let halted :=
    if (engine.lossCheck equity).passed then (engine, [])
    else engine.haltSession (engine.dailyLossOf equity) engine.dailyLossLimit
  let latched :=
    if (engine.drawdownCheck equity).passed then (halted.1, [])
    else halted.1.latchDrawdown (engine.drawdownOf equity) now
  (latched.1, halted.2 ++ latched.2)

/-- The decision about a book that cannot be valued. -/
def unpriced (portfolio : Portfolio) (prices : Dict String ℚ) (now : String) : Decision :=
  .of [{
    name := "book_priceable"
    passed := false
    detail := "held positions without a mark; portfolio limits are unmeasurable"
    measured := .texts (portfolio.unpriceable prices) }] now

/-- `check_portfolio`. -/
def checkPortfolio (engine : RiskEngine) (portfolio : Portfolio) (prices : Dict String ℚ)
    (industryMap : Option (Dict String String)) (now : String) :
    RiskEngine × List EventBody × Decision :=
  match portfolio.equity prices with
  | none => (engine, [], unpriced portfolio prices now)
  | some value =>
    let equity := max value (1 / 1000000000)
    let observed := engine.observeEquity equity
    let decision := Decision.of
      (shapeChecks engine.limits portfolio prices industryMap equity ++
        [observed.1.lossCheck equity, observed.1.drawdownCheck equity]) now
    let responded := observed.1.respond equity now
    (responded.1, observed.2 ++ responded.2, decision)

end RiskEngine

end QuantAgent.Paper
