import Mathlib.Data.List.Sort
import QuantAgent.Library.Emission
import QuantAgent.MarketRules.Ashare

/-!
# The microstructure simulator

Order intents are replayed against the canonical events of one trade date, with the fill model that
the fidelity of the data licenses: order events with a queue, snapshots of the visible depth, or
ticks with a share of their volume.  Prices and sizes are exact; a size is never negative, and a
price or size that is not a number is `none`.
-/

namespace QuantAgent.Backtest.Microstructure

open Library Domain MarketRules

/-- The columns of an event frame that a fill model may miss. -/
inductive EventColumn where
  | eventAction | side | price | volumeShares
  | askPrice | bidPrice | askVolumeShares | bidVolumeShares
  deriving DecidableEq

/-- A canonical event; its time is in milliseconds of the trade date. -/
structure Event where
  symbol : String
  ingestSequence : ℤ
  exchangeTime : ℚ
  eventAction : String
  side : Option Side
  price : Option ℚ
  volumeShares : Option ℚ≥0
  askPrice : Option ℚ
  bidPrice : Option ℚ
  askVolumeShares : Option ℚ≥0
  bidVolumeShares : Option ℚ≥0

/-- An event frame of one trade date: no two events share a sequence number, and the exchange times
do not run back in it. -/
structure EventFrame where
  columns : List EventColumn
  events : List Event
  distinct : (events.map Event.ingestSequence).Nodup
  ordered : ∀ first ∈ events, ∀ second ∈ events,
    first.ingestSequence < second.ingestSequence → first.exchangeTime ≤ second.exchangeTime

namespace Event

/-- `event.get("price", np.nan)`. -/
def priceIn (columns : List EventColumn) (event : Event) : Option ℚ :=
  if .price ∈ columns then event.price else none

/-- `event.get("volume_shares", 0.0) or 0.0`. -/
def volumeIn (columns : List EventColumn) (event : Event) : Option ℚ≥0 :=
  if .volumeShares ∈ columns then event.volumeShares else some 0

/-- `str(event.get("event_action", ""))`. -/
def actionIn (columns : List EventColumn) (event : Event) : String :=
  if .eventAction ∈ columns then event.eventAction else ""

/-- `event.get("side")`. -/
def sideIn (columns : List EventColumn) (event : Event) : Option Side :=
  if .side ∈ columns then event.side else none

/-- The price and the visible size that an order of a side meets. -/
def depthIn (columns : List EventColumn) (side : Side) (event : Event) : Option ℚ × Option ℚ≥0 :=
  match side with
  | .buy => (event.askPrice, if .askVolumeShares ∈ columns then event.askVolumeShares else some 0)
  | .sell => (event.bidPrice, if .bidVolumeShares ∈ columns then event.bidVolumeShares else some 0)

end Event

inductive FidelityLevel where
  | a | b | c
  deriving DecidableEq

def FidelityLevel.name : FidelityLevel → String
  | a => "LEVEL_A_ORDER_EVENT_REPLAY"
  | b => "LEVEL_B_SNAPSHOT_REPLAY"
  | c => "LEVEL_C_TICK_REPLAY"

inductive OrderStyle where
  | marketable | passive
  deriving DecidableEq

/-- `OrderIntent`; a release time that cannot be read is `none`. -/
structure OrderIntent where
  symbol : String
  side : Side
  shares : ℚ
  style : OrderStyle
  limitPrice : Option ℚ
  releaseTime : Option ℚ
  board : Board
  isFullLiquidation : Bool

/-- `AShareMicrostructureSimulator`; a level licenses the claims of its fill models. -/
structure Simulator where
  level : FidelityLevel
  latencyMs : ℚ
  commissionRate : ℚ
  participationCap : ℚ

/-- What is known of a symbol's day; flags that are not given are false. -/
structure SymbolState where
  isSuspended : Bool := false
  atLimitUp : Bool := false
  atLimitDown : Bool := false
  isDelistingPeriod : Bool := false
  holdingAcquiredToday : Bool := false

/-- `Fill`, with the sequence number of the event it is stamped with. -/
structure Fill where
  symbol : String
  side : Side
  shares : ℚ
  price : ℚ
  notionalCny : ℚ
  costs : TradingCosts
  fillTime : ℚ
  fidelityLevel : String
  model : String
  queuePositionShares : Option ℚ
  isPartial : Bool
  ingestSequence : ℤ

/-- `RejectedOrder`. -/
structure RejectedOrder where
  symbol : String
  side : Side
  shares : ℚ
  reason : String

def continuous (board : Board) (time : ℚ) : Bool :=
  match phaseOfMinute ⌊time / 60000⌋ board with
  | .continuousAm => true
  | .continuousPm => true
  | _ => false

/-- An event after the release of the order and the latency, inside a phase that can trade. -/
def eligible (simulator : Simulator) (intent : OrderIntent) (event : Event) : Bool :=
  match intent.releaseTime with
  | none => false
  | some release =>
    release + simulator.latencyMs ≤ event.exchangeTime &&
      continuous intent.board event.exchangeTime

/-- `_eligible_events` of the events of the symbol. -/
def eligibleEvents (simulator : Simulator) (intent : OrderIntent) (events : List Event) :
    List Event :=
  (((events.filter fun event ↦ event.symbol = intent.symbol).filter
    (eligible simulator intent)).insertionSort
      fun first second ↦ first.ingestSequence ≤ second.ingestSequence)

def beyondLimit (side : Side) (limitPrice : Option ℚ) (price : ℚ) : Bool :=
  match limitPrice, side with
  | none, _ => false
  | some limit, .buy => limit < price
  | some limit, .sell => price < limit

/-- `min(remaining, size)`, where a size that is not a number leaves what remains. -/
def takeOf (remaining : ℚ) (size : Option ℚ) : ℚ :=
  match size with
  | none => remaining
  | some size => min remaining size

/-- One round of `_fill_level_c`. -/
def tickStep (simulator : Simulator) (columns : List EventColumn) (intent : OrderIntent)
    (remaining : ℚ) (event : Event) : ℚ × Option (ℚ × ℚ) :=
  match event.priceIn columns with
  | none => (remaining, none)
  | some price =>
    let volume := event.volumeIn columns
    if volume = some 0 then (remaining, none)
    else if intent.style = .passive && beyondLimit intent.side intent.limitPrice price then
      (remaining, none)
    else
      let take := takeOf remaining (volume.map fun size ↦ size * simulator.participationCap)
      if take ≤ 0 then (remaining, none) else (remaining - take, some (take, price))

/-- One round of `_fill_level_b`. -/
def snapshotStep (columns : List EventColumn) (intent : OrderIntent) (remaining : ℚ)
    (event : Event) : ℚ × Option (ℚ × ℚ) :=
  match event.depthIn columns intent.side with
  | (none, _) => (remaining, none)
  | (some price, visible) =>
    if visible = some 0 then (remaining, none)
    else if beyondLimit intent.side intent.limitPrice price then (remaining, none)
    else
      let take := takeOf remaining (visible.map fun size ↦ (size : ℚ))
      (remaining - take, some (take, price))

/-- What a level-A replay carries: the size ahead of the order, and what remains of it. -/
structure QueueState where
  queueAhead : ℚ
  remaining : ℚ

def QueueState.spent (state : QueueState) : Bool := state.remaining ≤ 0

/-- An event that moves the queue at a price: a cancellation, or anything of the other side. -/
def consumes (columns : List EventColumn) (side : Side) (event : Event) : Bool :=
  event.actionIn columns = "CANCEL" || event.sideIn columns ≠ some side

/-- One round of `_fill_level_a`. -/
def queueStep (columns : List EventColumn) (side : Side) (limit : ℚ) (state : QueueState)
    (event : Event) : QueueState × Option (ℚ × ℚ) :=
  if event.priceIn columns = some limit && consumes columns side event then
    match event.volumeIn columns with
    | none => ({ state with queueAhead := 0 }, none)
    | some volume =>
      let consumed := min state.queueAhead volume
      let leftover := volume - consumed
      let queueAhead := state.queueAhead - consumed
      if 0 < leftover && queueAhead ≤ 0 then
        let take := min state.remaining leftover
        (⟨queueAhead, state.remaining - take⟩, some (take, limit))
      else (⟨queueAhead, state.remaining⟩, none)
  else (state, none)

def rests (columns : List EventColumn) (side : Side) (limit : ℚ) (event : Event) : Bool :=
  (.eventAction ∉ columns || event.eventAction = "INSERT") &&
    event.priceIn columns = some limit && event.sideIn columns = some side

/-- The size that a selection of events inserts at the price of an order. -/
def restingSize (columns : List EventColumn) (side : Side) (limit : ℚ) (events : List Event) :
    ℚ≥0 :=
  ((events.filter (rests columns side limit)).map fun event ↦
    (event.volumeIn columns).getD 0).sum

section Fills

variable [Platform]

def fillOf (simulator : Simulator) (tradeDate : String) (intent : OrderIntent) (model : String)
    (queuePosition : Option ℚ) (output : Event × (ℚ × ℚ)) : Fill where
  symbol := intent.symbol
  side := intent.side
  shares := output.2.1
  price := output.2.2
  notionalCny := output.2.1 * output.2.2
  costs := tradingCosts (output.2.1 * output.2.2) intent.side tradeDate simulator.commissionRate
  fillTime := output.1.exchangeTime
  fidelityLevel := simulator.level.name
  model := model
  queuePositionShares := queuePosition
  isPartial := true
  ingestSequence := output.1.ingestSequence

omit [Platform] in
def settleLast (remaining : ℚ) (fills : List Fill) : List Fill :=
  if remaining ≤ 0 then
    fills.dropLast ++ (fills.getLast?.map fun fill ↦ { fill with isPartial := false }).toList
  else fills

def fillRemaining (simulator : Simulator) (tradeDate : String) (intent : OrderIntent)
    (model : String) (step : ℚ → Event → ℚ × Option (ℚ × ℚ)) (shares : ℤ) (events : List Event) :
    List Fill :=
  settleLast (emitted (· ≤ 0) step shares events)
    ((emit (· ≤ 0) step (shares : ℚ) events).map (fillOf simulator tradeDate intent model none))

/-- `_fill_level_c`. -/
def fillLevelC (simulator : Simulator) (tradeDate : String) (columns : List EventColumn)
    (intent : OrderIntent) (shares : ℤ) (events : List Event) : List Fill :=
  fillRemaining simulator tradeDate intent "tick_participation"
    (tickStep simulator columns intent) shares (eligibleEvents simulator intent events)

omit [Platform] in
/-- `price_column`. -/
def priceColumn : Side → EventColumn
  | .buy => .askPrice
  | .sell => .bidPrice

/-- `_fill_level_b`: without the prices of the other side the ticks decide. -/
def fillLevelB (simulator : Simulator) (tradeDate : String) (columns : List EventColumn)
    (intent : OrderIntent) (shares : ℤ) (events : List Event) : List Fill :=
  if priceColumn intent.side ∉ columns then
    fillLevelC simulator tradeDate columns intent shares events
  else
    fillRemaining simulator tradeDate intent "snapshot_depth_consumption"
      (snapshotStep columns intent) shares (eligibleEvents simulator intent events)

/-- `_fill_level_a`: a passive order with a limit joins behind what its price shows in all eligible
events. -/
def fillLevelA (simulator : Simulator) (tradeDate : String) (columns : List EventColumn)
    (intent : OrderIntent) (shares : ℤ) (events : List Event) : List Fill :=
  match intent.style, intent.limitPrice with
  | .passive, some limit =>
    let replayed := eligibleEvents simulator intent events
    let start : QueueState := ⟨restingSize columns intent.side limit replayed, shares⟩
    let step := queueStep columns intent.side limit
    settleLast (emitted QueueState.spent step start replayed).remaining
      ((emit QueueState.spent step start replayed).map
        (fillOf simulator tradeDate intent "order_queue_replay" (some 0)))
  | _, _ => fillLevelC simulator tradeDate columns intent shares events

/-- `_fill`. -/
def fill (simulator : Simulator) (tradeDate : String) (columns : List EventColumn)
    (intent : OrderIntent) (shares : ℤ) (events : List Event) : List Fill :=
  match simulator.level with
  | .a => fillLevelA simulator tradeDate columns intent shares events
  | .b => fillLevelB simulator tradeDate columns intent shares events
  | .c => fillLevelC simulator tradeDate columns intent shares events

omit [Platform] in
/-- `_check_tradability`. -/
def checkTradability (intent : OrderIntent) (state : SymbolState) : Option String :=
  let verdict := tradability state.isSuspended state.atLimitUp state.atLimitDown
    state.isDelistingPeriod state.holdingAcquiredToday
  let reasons := String.intercalate "; " verdict.reasons
  match intent.side with
  | .buy => if verdict.canBuy then none
      else some (if reasons = "" then "buy not permitted" else reasons)
  | .sell => if verdict.canSell then none
      else some (if reasons = "" then "sell not permitted" else reasons)

omit [Platform] in
/-- `_sized`. -/
def sized (intent : OrderIntent) : ℤ :=
  roundToLot intent.shares intent.board intent.side intent.isFullLiquidation

omit [Platform] in
/-- `rules.LOT_RULES.get(board)` in a text. -/
def lotText : Board → String
  | .other _ => "None"
  | board => "(" ++ toString (lotRules board).1 ++ ", " ++ toString (lotRules board).2 ++ ")"

def rejection (intent : OrderIntent) (state : SymbolState) (events : List Event) :
    Option RejectedOrder :=
  match checkTradability intent state with
  | some reason => some ⟨intent.symbol, intent.side, intent.shares, reason⟩
  | none =>
    if sized intent ≤ 0 then
      some ⟨intent.symbol, intent.side, intent.shares,
        "size " ++ Platform.showPlain intent.shares ++ " rounds below the " ++
          intent.board.name ++ " minimum lot " ++ lotText intent.board⟩
    else if (events.filter fun event ↦ event.symbol = intent.symbol) = [] then
      some ⟨intent.symbol, intent.side, sized intent,
        "no market events for this symbol on this day"⟩
    else none

def replay (simulator : Simulator) (tradeDate : String) (state : String → SymbolState)
    (frame : EventFrame) (intent : OrderIntent) : List Fill :=
  match rejection intent (state intent.symbol) frame.events with
  | some _ => []
  | none => fill simulator tradeDate frame.columns intent (sized intent) frame.events

/-- `SimulationResult`, as far as the intents decide it. -/
structure SimulationResult where
  fills : List Fill
  rejected : List RejectedOrder
  unfilledShares : ℚ

/-- `simulate`. -/
def simulate (simulator : Simulator) (tradeDate : String) (state : String → SymbolState)
    (frame : EventFrame) (intents : List OrderIntent) : SimulationResult where
  fills := intents.flatMap (replay simulator tradeDate state frame)
  rejected := intents.filterMap fun intent ↦
    rejection intent (state intent.symbol) frame.events
  unfilledShares := (intents.map fun intent ↦
    match rejection intent (state intent.symbol) frame.events with
    | some _ => 0
    | none => max 0 (sized intent -
        ((replay simulator tradeDate state frame intent).map Fill.shares).sum)).sum

end Fills

end QuantAgent.Backtest.Microstructure
