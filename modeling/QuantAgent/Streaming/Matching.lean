import QuantAgent.Streaming.Lifecycle

/-!
# The streaming venue

The venue answers orders when they arrive and fills what is working when a bar arrives, each order
by itself: tradability, the share of the volume, the limit, the price and the funds.  Its answers are
events that it publishes; what they do to an order is decided when the bus emits them.
-/

namespace QuantAgent.Streaming

open Library Domain MarketRules

/-- `MatcherConfig`. -/
structure MatcherConfig where
  participationCap : ℚ
  commissionRate : ℚ
  slippageBps : ℚ
  impactCoefficient : ℚ

/-- The bus with what was published on it, the life cycle, and the count of executions. -/
structure Stream where
  config : MatcherConfig
  lifecycle : OrderLifecycle
  bus : EventBus
  /-- The events that the bus accepted, with their payloads. -/
  notices : List Notice
  executions : ℕ

/-- No limits: what a missing previous close gives. -/
def noLimits : PriceLimits := ⟨none, none, none, "", 0⟩

def workingStatuses : List OrderStatus := [.accepted, .partiallyFilled]

/-- `leaves_quantity`. -/
def leavesQuantity (order : Order ℚ) : ℚ :=
  if order.isTerminal then 0 else order.quantity - order.filledQuantity

namespace Stream

def fresh (config : MatcherConfig) (lifecycle : OrderLifecycle) : Stream where
  config
  lifecycle
  bus := .fresh false
  notices := []
  executions := 0

section Publishing

variable [StreamTexts]

/-- `bus.publish`. -/
def publish (stream : Stream) (notice : Notice) : Stream × Except StreamError Unit :=
  match stream.bus.publish notice.event with
  | (bus, .error error) => ({ stream with bus }, .error (.bus error))
  | (bus, .ok ()) => ({ stream with bus, notices := stream.notices ++ [notice] }, .ok ())

/-- `_reply`. -/
def reply (stream : Stream) (notice : Notice) (clientOrderId : String) (status : VenueReply)
    (reason : Option String) : Stream × Except StreamError Unit :=
  stream.publish {
    times := .immediate notice.times.eventTime
    symbol := notice.symbol
    sequence := notice.sequence
    payload := .venueCallback clientOrderId status reason }

end Publishing

section Rules

variable [StreamTexts] [Platform]

/-- `_band`. -/
def band (notice : Notice) (board : Board) (previousClose : Option ℚ) (isSt : Bool) :
    Except StreamError (Option PriceLimits) :=
  match previousClose with
  | none => .ok none
  | some previous =>
    match priceLimits board previous notice.session none isSt with
    | .error error => .error (.rule error)
    | .ok limits => .ok (some limits)

omit [StreamTexts] [Platform] in
/-- `_at_limit`, at the ceiling. -/
def atLimitUp (limits : Option PriceLimits) (lastPrice : ℚ) : Bool :=
  match limits with
  | none => false
  | some limits => limits.limitUp.any fun edge ↦ edge - 1 / 1000000000 ≤ lastPrice

omit [StreamTexts] [Platform] in
/-- `_at_limit`, at the floor. -/
def atLimitDown (limits : Option PriceLimits) (lastPrice : ℚ) : Bool :=
  match limits with
  | none => false
  | some limits =>
    !limits.unlimited && limits.limitDown.any fun edge ↦ lastPrice ≤ edge + 1 / 1000000000

omit [StreamTexts] [Platform] in
/-- `_working`. -/
def working (stream : Stream) (symbol : String) : List (Order ℚ) :=
  stream.lifecycle.mirror.book.orders.values.filter fun order ↦
    order.symbol = symbol ∧ order.status ∈ workingStatuses

omit [StreamTexts] [Platform] in
/-- `_client_order_id`. -/
def clientOrderId (stream : Stream) (order : Order ℚ) : Except StreamError String :=
  match stream.lifecycle.canonicalIds.entries.find? fun entry ↦ entry.2 = order.orderId with
  | some entry => .ok entry.1
  | none => .error (.unknownOrder order.orderId)

end Rules

variable [Hashing ℚ] [StreamTexts] [Platform]

/-- `_sellable`. -/
def sellable (stream : Stream) (symbol session : String) : Except StreamError ℚ := do
  let account ← stream.lifecycle.account
  .ok (account.sellable symbol session)

/-- Why the limit price of a new order is outside the band. -/
def limitRefusal (limits : Option PriceLimits) (limitPrice : Option ℚ) : Option String :=
  match limits, limitPrice with
  | some limits, some limit =>
    if limits.unlimited then none
    else if limits.limitUp.any fun edge ↦ edge + 1 / 1000000000 < limit then
      some ("limit " ++ Platform.showPlain limit ++ " exceeds the price ceiling " ++
        Platform.showPlain (limits.limitUp.getD 0))
    else if limits.limitDown.any fun edge ↦ limit < edge - 1 / 1000000000 then
      some ("limit " ++ Platform.showPlain limit ++ " is below the price floor " ++
        Platform.showPlain (limits.limitDown.getD 0))
    else none
  | _, _ => none

def orderRefusal (stream : Stream) (notice : Notice) (terms : OrderTerms) :
    Except StreamError (Option String) := do
  let limits ← band notice terms.board terms.previousClose terms.isSt
  let quantity := roundToLot terms.quantity terms.board terms.side terms.isFullLiquidation
  if quantity ≤ 0 then .ok (some "quantity rounds below the board minimum lot")
  else
    match limitRefusal limits terms.limitPrice with
    | some reason => .ok (some reason)
    | none =>
      match terms.side with
      | .buy => .ok none
      | .sell => do
          let settled ← stream.sellable notice.symbol notice.session
          if 1 / 1000000000 < quantity - settled then
            .ok (some ("sell of " ++ Platform.showWhole quantity ++ " exceeds the T+1-settled " ++
              Platform.showWhole settled))
          else .ok none

/-- `_acknowledge`. -/
def acknowledge (stream : Stream) (notice : Notice) (terms : OrderTerms) :
    Stream × Except StreamError Unit :=
  match stream.orderRefusal notice terms with
  | .error error => (stream, .error error)
  | .ok none => stream.reply notice terms.clientOrderId .accepted none
  | .ok (some reason) => stream.reply notice terms.clientOrderId .rejected (some reason)

def tradeSize (config : MatcherConfig) (order : Order ℚ) (bar : BarTerms) : ℤ :=
  roundToLot (min (leavesQuantity order) (bar.volume * config.participationCap)) bar.board order.side
    false

/-- The bar does not trade an order: it is locked on its side, or the limit is not reached. -/
def misses (limits : Option PriceLimits) (order : Order ℚ) (bar : BarTerms) : Bool :=
  let verdict := tradability bar.isSuspended (atLimitUp limits bar.close)
    (atLimitDown limits bar.close) false false
  match order.side with
  | .buy => !verdict.canBuy || order.limitPrice.any (· < bar.close)
  | .sell => !verdict.canSell || order.limitPrice.any (bar.close < ·)

/-- `_execution_price`. -/
def priceOf (config : MatcherConfig) (limits : Option PriceLimits) (order : Order ℚ) (bar : BarTerms)
    (quantity : ℤ) : ℚ :=
  executionPrice bar.close order.side quantity bar.volume config.slippageBps
    config.impactCoefficient (limits.getD noLimits) order.limitPrice

/-- `_funding_shortfall`. -/
def fundingShortfall (stream : Stream) (order : Order ℚ) (quantity : ℤ) (price : ℚ)
    (costs : TradingCosts) (session : String) : Except StreamError (Option String) := do
  let account ← stream.lifecycle.account
  match order.side with
  | .buy =>
    let needed := quantity * price + (costs.commission + costs.stampDuty + costs.transferFee)
    if 1 / 1000000000 < needed - account.cash then
      .ok (some ("buy of " ++ toString quantity ++ " needs " ++ Platform.showCents needed ++
        " but only " ++ Platform.showCents account.cash ++ " is available"))
    else .ok none
  | .sell =>
    let available := account.sellable order.symbol session
    if 1 / 1000000000 < quantity - available then
      .ok (some ("sell of " ++ toString quantity ++ " exceeds the T+1-settled " ++
        toString (truncate available)))
    else .ok none

def fillNotice (notice : Notice) (order : Order ℚ) (clientOrderId : String) (number : ℕ)
    (quantity : ℤ) (price : ℚ) (costs : TradingCosts) : Notice where
  times := .immediate notice.times.eventTime
  symbol := order.symbol
  sequence := number
  payload := .fill {
    clientOrderId
    executionId := "strm-" ++ String.ofList (List.replicate (6 - (toString number).length) '0') ++
      toString number
    quantity
    price
    commission := costs.commission
    stampDuty := costs.stampDuty
    transferFee := costs.transferFee }

/-- `_try_fill`. -/
def tryFill (stream : Stream) (notice : Notice) (bar : BarTerms) (order : Order ℚ) :
    Stream × Except StreamError Unit :=
  match band notice bar.board bar.previousClose bar.isSt with
  | .error error => (stream, .error error)
  | .ok limits =>
    let quantity := tradeSize stream.config order bar
    if misses limits order bar ∨ quantity ≤ 0 then (stream, .ok ())
    else
      let price := priceOf stream.config limits order bar quantity
      let costs := tradingCosts (quantity * price) order.side notice.session
        stream.config.commissionRate
      match stream.fundingShortfall order quantity price costs notice.session with
      | .error error => (stream, .error error)
      | .ok (some reason) =>
        match stream.clientOrderId order with
        | .error error => (stream, .error error)
        | .ok clientOrderId => stream.reply notice clientOrderId .rejected (some reason)
      | .ok none =>
        let counted := { stream with executions := stream.executions + 1 }
        match counted.clientOrderId order with
        | .error error => (counted, .error error)
        | .ok clientOrderId =>
          counted.publish (fillNotice notice order clientOrderId counted.executions quantity
            price costs)

/-- The loop of `_match_against`. -/
def matchEach (stream : Stream) (notice : Notice) (bar : BarTerms) :
    List (Order ℚ) → Stream × Except StreamError Unit
  | [] => (stream, .ok ())
  | order :: rest =>
    match stream.tryFill notice bar order with
    | (stream, .error error) => (stream, .error error)
    | (stream, .ok ()) => matchEach stream notice bar rest

/-- `_match_against`. -/
def matchAgainst (stream : Stream) (notice : Notice) (bar : BarTerms) :
    Stream × Except StreamError Unit :=
  stream.matchEach notice bar (stream.working notice.symbol)

/-- `MatchingVenue.handle`. -/
def answer (stream : Stream) (notice : Notice) : Stream × Except StreamError Unit :=
  match notice.payload with
  | .order terms => stream.acknowledge notice terms
  | .bar bar => stream.matchAgainst notice bar
  | _ => (stream, .ok ())

/-- The handler of a run: the life cycle first, then the venue. -/
def react (clock : ℕ → Moment) (stream : Stream) (notice : Notice) :
    Stream × Except StreamError Unit :=
  match stream.lifecycle.handle clock notice with
  | (lifecycle, .error error) => ({ stream with lifecycle }, .error error)
  | (lifecycle, .ok ()) => { stream with lifecycle }.answer notice

/-- One turn of `bus.run`: the next event, given to the handler. -/
def turn [TextDigest] (clock : ℕ → Moment) (stream : Stream) : Stream × Except StreamError Unit :=
  match { stream.bus with draining := false }.pass none with
  | (bus, .error error) => ({ stream with bus }, .error (.bus error))
  | (bus, .ok none) => ({ stream with bus }, .ok ())
  | (bus, .ok (some event)) =>
    match stream.notices.find? fun notice ↦ StreamTexts.eventId notice = event.eventId with
    | none => ({ stream with bus }, .ok ())
    | some notice => { stream with bus }.react clock notice

/-- What the source does with a stream: publish an event between two runs, or go on with a run. -/
inductive Deed where
  | publish (notice : Notice)
  | turn

/-- The stream after a deed; an exception leaves what was done before it. -/
def step [TextDigest] (clock : ℕ → Moment) (stream : Stream) : Deed → Stream
  | .publish notice => ({ stream with
      bus := { stream.bus with draining := false } }.publish notice).1
  | .turn => (stream.turn clock).1

end Stream

end QuantAgent.Streaming
