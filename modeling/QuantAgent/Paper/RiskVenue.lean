import QuantAgent.Paper.Broker
import QuantAgent.Paper.RiskEngine

/-!
# A paper venue with a bound risk engine

The broker together with its risk engine, the operational ledger both are journalled to, and the
marks the book is valued at.  What the kill switch and the engine answer during a submission is
computed here; the clocks, the identifiers and the disk of the record of account stay inputs.
-/

namespace QuantAgent.Paper

open Library Domain MarketRules

/-- The clock of the switch and the stamps of the events a call may append, by sequence. -/
structure Timing where
  now : String
  stamps : ℕ → EventStamp

structure RiskVenue where
  broker : Broker
  engine : RiskEngine
  ledger : EventLedger
  runId : String
  industryMap : Dict String String
  marks : Dict String ℚ
  markTimes : Dict String ℤ
  /-- The newest quote time observed. -/
  clock : Option ℤ
  /-- The session of the newest quote. -/
  session : Option String
  /-- The opening capital the engine was shown, and the valuation the session was entered with: what
  a later process shows its engine again. -/
  inception : ℚ
  openingEquity : Option ℚ

structure NewProcess where
  portfolio : Portfolio
  config : BrokerConfig
  lineage : Lineage
  /-- What was read from the record of account. -/
  book : OrderBook ℚ
  limits : RiskLimits
  industryMap : Dict String String
  runId : String

/-- The broker of a new process, attached to a record of account. -/
def NewProcess.broker (process : NewProcess) (canonical : CanonicalLedger ℚ) : Broker where
  portfolio := process.portfolio
  config := process.config
  orders := .empty
  fills := []
  fillIds := []
  mirror := ⟨process.book, canonical⟩
  lineage := process.lineage
  canonicalIds := .empty

namespace RiskVenue

/-- `PaperBroker.__init__`: the engine is bound to the operational ledger, and the opening capital
is a valuation like any other. -/
def start (process : NewProcess) (canonical : CanonicalLedger ℚ) (ledger : EventLedger) :
    RiskVenue where
  broker := process.broker canonical
  engine := ((RiskEngine.fresh process.limits).bindStateLedger ledger.events).observeInceptionEquity
    process.portfolio.initialCash
  ledger
  runId := process.runId
  industryMap := process.industryMap
  marks := .empty
  markTimes := .empty
  clock := none
  session := none
  inception := process.portfolio.initialCash
  openingEquity := none

/-- `_record_mark`: the newest price of a symbol. -/
def recordMark (venue : RiskVenue) (symbol : String) (price : ℚ) (stamp : ℤ) : RiskVenue :=
  let venue :=
    if (venue.markTimes.get? symbol).all (· ≤ stamp) then
      { venue with
        marks := venue.marks.insert symbol price
        markTimes := venue.markTimes.insert symbol stamp }
    else venue
  if venue.clock.all (· < stamp) then { venue with clock := some stamp } else venue

def known (venue : RiskVenue) (session : String) : Bool := venue.session.any (session ≤ ·)

/-- `_opening_equity`: the value of the book at the marks known before the session. -/
def openingOf (venue : RiskVenue) (session : String) : Option ℚ :=
  if venue.known session then none else venue.broker.portfolio.equity venue.marks

section Venue

variable [EventDigest]

def emit (venue : RiskVenue) (timing : Timing) (marketTime : Option String)
    (bodies : List EventBody) : RiskVenue :=
  { venue with
    ledger := bodies.foldl (fun ledger body ↦
      ledger.append (timing.stamps ledger.sequence) venue.runId venue.broker.portfolio.portfolioId
        body marketTime) venue.ledger }

def advance (venue : RiskVenue) (timing : Timing) (outcome : RiskEngine × List EventBody) :
    RiskVenue :=
  { venue with engine := outcome.1 }.emit timing none outcome.2

variable [QuoteTexts]

omit [EventDigest] in
/-- `observed_at`. -/
def observedAt (market : Market) : Option ℤ :=
  QuoteTexts.readInstant
    (datePart market.tradeDate ++ "T" ++ String.ofList (market.clock.toList.take 8))

/-- `PaperBroker.check_portfolio`. -/
def checkPortfolio (venue : RiskVenue) (timing : Timing) : RiskVenue :=
  let checked := venue.engine.checkPortfolio venue.broker.portfolio venue.marks
    (some venue.industryMap) timing.now
  venue.advance timing (checked.1, checked.2.1)

/-- `_enter_session`. -/
def enterSession (venue : RiskVenue) (timing : Timing) (session : String)
    (openingEquity : Option ℚ) : RiskVenue :=
  if venue.known session then venue
  else
    let venue := { venue with session := some session, openingEquity }
    (venue.advance timing (venue.engine.beginSession session openingEquity)).checkPortfolio timing

variable [Platform]

/-- `observe`. -/
def observe (venue : RiskVenue) (timing : Timing) (market : Market) : RiskVenue :=
  match observedAt market, market.invalidReason with
  | some stamp, none =>
    let session := datePart market.tradeDate
    let opening := venue.openingOf session
    (venue.recordMark market.symbol market.lastPrice stamp).enterSession timing session opening
  | _, _ => venue

omit [Platform] in
/-- `observe_marks`; a time that cannot be read raises. -/
def observeMarks (venue : RiskVenue) (timing : Timing) (prices : Dict String ℚ)
    (tradeDate clock : String) : RiskVenue :=
  let session := datePart tradeDate
  match QuoteTexts.readInstant (session ++ "T" ++ String.ofList (clock.toList.take 8)) with
  | none => venue
  | some stamp =>
    let opening := venue.openingOf session
    let venue := prices.entries.foldl (fun venue entry ↦
      if 0 < entry.2 then venue.recordMark entry.1 entry.2 stamp else venue) venue
    venue.enterSession timing session opening

omit [EventDigest] [Platform] in
/-- `quote_age_seconds`. -/
def quoteAge (venue : RiskVenue) (market : Market) : QuoteAge :=
  match observedAt market, venue.clock with
  | none, _ => .unread
  | some _, none => .seconds 0
  | some stamp, some clock => if clock ≤ stamp then .seconds 0 else .seconds (clock - stamp : ℤ)

omit [EventDigest] [QuoteTexts] [Platform] in
/-- `industry_weights`. -/
def industryWeights (venue : RiskVenue) (portfolio : Portfolio) (prices : Dict String ℚ) :
    Option (Dict String ℚ) :=
  (portfolio.equity prices).map fun equity ↦
    portfolio.held.foldl (fun weights entry ↦
      let industry := (venue.industryMap.get? entry.1).getD "__unknown__"
      weights.insert industry ((weights.get? industry).getD 0 +
        |Portfolio.valueAt prices entry| / max equity (1 / 1000000000))) .empty

omit [EventDigest] [Platform] in
/-- What the venue tells the engine about an order. -/
def contextOf (venue : RiskVenue) (portfolio : Portfolio) (order : Order) (market : Market) :
    OrderContext :=
  let prices := venue.marks.setDefault order.symbol market.lastPrice
  { referencePrice := market.lastPrice
    sessionVolume := market.sessionVolume
    prices
    quoteAge := some (venue.quoteAge market)
    industry := venue.industryMap.get? order.symbol
    industryWeights := venue.industryWeights portfolio prices
    modelApproved := none
    datasetApproved := none }

omit [EventDigest] [QuoteTexts] [Platform] in
def answersFor (venue : RiskVenue) (given : Answers) (order : Order) : Answers :=
  { given with
    observation := none
    blocked := ((venue.engine.killSwitch.blocking order.side order.strategyId).map
      SwitchRecord.reason).head?
    riskRefusal := none
    portfolioCheck := none }

variable [Hashing ℚ]

omit [EventDigest] [QuoteTexts] in
/-- The order and the portfolio the engine is asked about, when validation comes that far. -/
def asked (venue : RiskVenue) (given : Answers) (order : Order) (market : Market) :
    Option (Order × Portfolio) :=
  let answers := venue.answersFor given order
  let opened : Broker × Except VenueError Unit :=
    match venue.broker.canonicalIds.get? order.orderId with
    | some _ => (venue.broker, .ok ())
    | none => venue.broker.canonicalOpen answers order (some market.tradeDate)
  match opened with
  | (_, .error _) => none
  | (broker, .ok ()) =>
    match broker.validate answers order market with
    | (broker, order, .ok none) => some (order, broker.portfolio)
    | _ => none

omit [EventDigest] in
def decideOrder (venue : RiskVenue) (timing : Timing) (given : Answers) (order : Order)
    (market : Market) : Option (RiskEngine × List EventBody × RiskEngine.Decision) :=
  (venue.asked given order market).map fun asked ↦
    venue.engine.checkOrder asked.1 asked.2 (venue.contextOf asked.2 asked.1 market) timing.now

def decided (venue : RiskVenue) (timing : Timing) (given : Answers) (order : Order)
    (market : Market) : RiskVenue :=
  match venue.decideOrder timing given order market with
  | some decision => venue.advance timing (decision.1, decision.2.1)
  | none => venue

omit [EventDigest] in
def refusal (venue : RiskVenue) (timing : Timing) (given : Answers) (order : Order)
    (market : Market) : Option (List String) :=
  (venue.decideOrder timing given order market).bind fun decision ↦
    if decision.2.2.approved then none else some decision.2.2.failed

/-- `submit`, once the quote is observed. -/
def submitObserved (venue : RiskVenue) (timing : Timing) (given : Answers) (order : Order)
    (market : Market) : RiskVenue × Except VenueError Unit :=
  let answers := { venue.answersFor given order with
    riskRefusal := venue.refusal timing given order market }
  let submitted := venue.broker.submit answers order market
  let after := { venue.decided timing given order market with broker := submitted.1 }
  -- the portfolio limits are evaluated behind every fill
  if submitted.2.isOk && venue.broker.fills.length < submitted.1.fills.length then
    (after.checkPortfolio timing, submitted.2)
  else (after, submitted.2)

/-- `submit`. -/
def submit (venue : RiskVenue) (timing : Timing) (given : Answers) (order : Order)
    (market : Market) : RiskVenue × Except VenueError Unit :=
  (venue.observe timing market).submitObserved timing given order market

omit [QuoteTexts] [Platform] [Hashing ℚ] in
/-- `mark_to_market`. -/
def markToMarket (venue : RiskVenue) (timing : Timing) (prices : Dict String ℚ)
    (marketTime : Option String) : RiskVenue :=
  venue.emit timing marketTime [.markToMarket (venue.broker.portfolio.equity prices)]

omit [QuoteTexts] [Platform] [Hashing ℚ] in
/-- `close_session`. -/
def closeSession (venue : RiskVenue) (timing : Timing) (tradeDate : String) : RiskVenue :=
  let settled := (venue.broker.portfolio.positions.entries.filter fun entry ↦
    entry.2.pendingSettlement ≠ 0).map fun entry ↦ (entry.1, entry.2.pendingSettlement)
  { venue with broker := venue.broker.closeSession }.emit timing (some tradeDate)
    [.sessionClosed tradeDate settled venue.broker.portfolio.cash]

omit [QuoteTexts] [Platform] [Hashing ℚ] in
/-- `kill_switch.trigger`. -/
def trigger (venue : RiskVenue) (timing : Timing) (scope reason : String) (key : Option String) :
    RiskVenue :=
  let triggered := venue.engine.killSwitch.trigger scope reason key timing.now
  venue.advance timing ({ venue.engine with killSwitch := triggered.1 }, triggered.2.1)

omit [QuoteTexts] [Platform] [Hashing ℚ] in
/-- `kill_switch.clear`. -/
def clear (venue : RiskVenue) (timing : Timing) (scope : String) (key : Option String)
    (humanConfirmation : Bool) (author reason : Option String) : RiskVenue :=
  let cleared := venue.engine.killSwitch.clear scope key humanConfirmation author reason timing.now
  venue.advance timing ({ venue.engine with killSwitch := cleared.1 }, cleared.2.1)

end Venue

end RiskVenue

inductive VenueStep where
  | submit (given : Answers) (order : Order) (market : Market)
  | cancel (given : Answers) (orderId : String) (tradeDate : Option String)
  | observe (market : Market)
  | observeMarks (prices : Dict String ℚ) (tradeDate clock : String)
  | markToMarket (prices : Dict String ℚ) (marketTime : Option String)
  | closeSession (tradeDate : String)
  | trigger (scope reason : String) (key : Option String)
  | clear (scope : String) (key : Option String) (humanConfirmation : Bool)
      (author reason : Option String)
  /-- The process ends, and a new one is attached to the same two ledgers. -/
  | restart (process : NewProcess)

namespace RiskVenue

variable [EventDigest] [QuoteTexts] [Platform] [Hashing ℚ]

/-- The venue after a step, whether a call raised or not. -/
def step (venue : RiskVenue) (input : Timing × VenueStep) : RiskVenue :=
  let timing := input.1
  match input.2 with
  | .submit given order market => (venue.submit timing given order market).1
  | .cancel given orderId tradeDate =>
    { venue with broker := (venue.broker.cancel given orderId tradeDate).1 }
  | .observe market => venue.observe timing market
  | .observeMarks prices tradeDate clock => venue.observeMarks timing prices tradeDate clock
  | .markToMarket prices marketTime => venue.markToMarket timing prices marketTime
  | .closeSession tradeDate => venue.closeSession timing tradeDate
  | .trigger scope reason key => venue.trigger timing scope reason key
  | .clear scope key humanConfirmation author reason =>
    venue.clear timing scope key humanConfirmation author reason
  | .restart process =>
    start process { venue.broker.mirror.ledger with writeFailure := none }
      (.resume venue.ledger.events)

end RiskVenue

end QuantAgent.Paper
