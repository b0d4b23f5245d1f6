import QuantAgent.Simulator.VirtualBroker

/-!
# Orders from target weights

The order manager of a simulation: the orders that carry the book to its target weights, what it
skips, and the way of an order through claim, gate and broker.  Its orders carry the time of the
run, not of the session, so the daily number of orders is seeded from the canonical orders of the
day the run takes place on.
-/

namespace QuantAgent.Simulator

open Library
open Execution (OrderSide OrderStatus)

variable {D : Type}

/-- `OrderManagerConfig`, as far as the simulation reads it. -/
structure OrderManagerConfig where
  minOrderValueYuan : ℚ
  allowOddLotSellOnlyForFullLiquidation : Bool
  maxOrdersPerSymbolPerDay : ℤ
  negligibleWeight : ℚ

/-- An entry of `last_skipped_orders`, without its time. -/
structure SkippedOrder where
  symbol : String
  side : OrderSide
  quantity : ℤ
  targetWeight : ℚ
  referencePrice : ℚ
  reason : String
  deltaValue : ℚ
  impliedShares : Option ℚ

/-- `_round_delta_quantity` for a limit order. -/
def roundDeltaQuantity (symbol : String) (side : OrderSide) (quantity : ℚ)
    (isFullLiquidation : Bool) : ℤ :=
  match Execution.cashEquityBoard symbol with
  | none => QuantMath.roundOrderQuantity symbol side.canonical quantity
  | some board =>
    let rounded := MarketRules.roundToLot quantity board side.canonical isFullLiquidation
    match Execution.maxOrderQuantity board .limit with
    | none => rounded
    | some maximum => min rounded maximum

inductive Intent where
  | idle
  | skip (skipped : SkippedOrder)
  | order (side : OrderSide) (quantity : ℤ)

/-- One round of the loop of `target_weights_to_order_intents`. -/
def intentFor (config : OrderManagerConfig) (symbol : String) (weight price nav : ℚ)
    (currentShares : ℤ) : Intent :=
  if price ≤ 0 ∨ nav ≤ 0 then
    .skip ⟨symbol, .buy, 0, weight, price, "skipped_invalid_price", 0, none⟩
  else
    let rawTarget := weight * nav / price
    if currentShares = 0 ∧ |weight| ≤ config.negligibleWeight then .idle
    else
      let deltaShares := rawTarget - currentShares
      let deltaValue := |deltaShares| * price
      if currentShares ≤ rawTarget then
        let quantity := roundDeltaQuantity symbol .buy deltaShares false
        if quantity ≤ 0 then
          .skip ⟨symbol, .buy, 0, weight, price, "skipped_below_min_lot", deltaValue,
            some deltaShares⟩
        else if quantity * price < config.minOrderValueYuan then
          .skip ⟨symbol, .buy, quantity, weight, price, "skipped_small_order", quantity * price,
            none⟩
        else .order .buy quantity
      else
        let desiredSell := currentShares - rawTarget
        let targetIsZero := decide (weight ≤ config.negligibleWeight)
        let quantity := roundDeltaQuantity symbol .sell desiredSell
          (targetIsZero && config.allowOddLotSellOnlyForFullLiquidation)
        if quantity ≤ 0 then
          .skip ⟨symbol, .sell, 0, weight, price,
            if 0 < desiredSell && !targetIsZero then "skipped_not_full_odd_lot_liquidation"
            else "skipped_below_min_lot", deltaValue, some (-desiredSell)⟩
        else if quantity * price < config.minOrderValueYuan && !targetIsZero then
          .skip ⟨symbol, .sell, quantity, weight, price, "skipped_small_order", quantity * price,
            none⟩
        else .order .sell quantity

def intentsOf (config : OrderManagerConfig) (ledger : PositionLedger) (weights : Weights)
    (prices : List (String × ℚ)) (nav : ℚ) : List (String × ℚ × Intent) :=
  prices.map fun entry ↦
    (entry.1, entry.2, intentFor config entry.1 (((weights.get? entry.1).join).getD 0) entry.2 nav
      (ledger.shares entry.1))

def skippedOf (intents : List (String × ℚ × Intent)) : List SkippedOrder :=
  intents.filterMap fun entry ↦ match entry.2.2 with
    | .skip skipped => some skipped
    | _ => none

def ordersOf (signalDate executionDate : D) (intents : List (String × ℚ × Intent)) :
    List (Order D) :=
  let orders := intents.filterMap fun entry ↦ match entry.2.2 with
    | .order side quantity => some ⟨⟨entry.1, side, signalDate, executionDate⟩, quantity, entry.2.1⟩
    | _ => none
  (orders.filter fun order ↦ order.side = .sell) ++ orders.filter fun order ↦ order.side ≠ .sell

/-- What the key of an economic intent is made of. -/
structure ClaimKey (D : Type) where
  clientOrderId : OrderId D
  quantity : ℤ
  session : String
  deriving DecidableEq

/-- The order manager; `session` is the exchange date of the time a canonical order was made at. -/
structure OrderManager (D : Type) where
  forensicReplay : Bool
  config : OrderManagerConfig
  countsToday : Dict String ℤ
  countSession : Option String
  claims : Dict (ClaimKey D) (OrderId D)
  wire : Dict (OrderId D) (OrderState D)
  /-- Session and symbol of every canonical order that reached SUBMITTED. -/
  submitted : List (String × String)

def countOne (counts : Dict String ℤ) (symbol : String) : Dict String ℤ :=
  counts.insert symbol ((counts.get? symbol).getD 0 + 1)

namespace OrderManager

/-- `reset_daily_counters`. -/
def resetDailyCounters (manager : OrderManager D) : OrderManager D :=
  { manager with countsToday := Dict.empty }

/-- `_symbol_orders_today`, before the number of the symbol is read. -/
def seeded (manager : OrderManager D) (session : String) : OrderManager D :=
  if manager.countSession = some session then manager
  else
    { manager with
      countsToday := ((manager.submitted.filter fun entry ↦ entry.1 = session).map
        Prod.snd).foldl countOne Dict.empty
      countSession := some session }

def ordersToday (manager : OrderManager D) (symbol : String) : ℤ :=
  (manager.countsToday.get? symbol).getD 0

def gateOrder (order : Order D) : Execution.WireOrder where
  clientOrderId := ""
  symbol := order.symbol
  side := order.side
  quantity := order.quantity
  orderType := .limit
  price := some order.price
  riskCheckResult := "not_checked"
  signalId := ""
  strategyVersion := ""
  timestamp := ""

/-- `_pretrade_decision`: the manager with its counts seeded, and the reason of a refusal. -/
def pretradeDecision (manager : OrderManager D) (books : Books D) (session : String)
    (order : Order D) : OrderManager D × Option String :=
  if order.quantity ≤ 0 then (manager, some "order quantity must be positive")
  else if order.price ≤ 0 then (manager, some "limit order requires a finite positive price")
  else
    match Execution.exchangeQuantityRejection (some books.queryPositions) (gateOrder order) with
    | some reason => (manager, some reason)
    | none =>
      if manager.forensicReplay then (manager, none)
      else
        let manager := manager.seeded session
        let submittedToday := manager.ordersToday order.symbol
        let limit := manager.config.maxOrdersPerSymbolPerDay
        (manager, if limit ≤ submittedToday then
          some (order.symbol ++ " already has " ++ toString submittedToday ++
            " submitted orders this session (limit " ++ toString limit ++ ")")
        else none)

variable [LinearOrder D]

/-- `_update`. -/
def update (manager : OrderManager D) (state : OrderState D) : OrderManager D :=
  { manager with wire := manager.wire.insert state.clientOrderId state }

def claimed (manager : OrderManager D) (session : String) (order : Order D) : OrderManager D :=
  if manager.forensicReplay then manager
  else
    { manager with
      claims := manager.claims.insert ⟨order.clientOrderId, order.quantity, session⟩
        order.clientOrderId }

/-- The order that was made for the same intent before, where one was. -/
def known (manager : OrderManager D) (session : String) (order : Order D) : Option (OrderId D) :=
  if manager.forensicReplay then
    if order.clientOrderId ∈ manager.wire.keys then some order.clientOrderId else none
  else manager.claims.get? ⟨order.clientOrderId, order.quantity, session⟩

def sent (manager : OrderManager D) (session : String) (order : Order D) (state : OrderState D) :
    OrderManager D :=
  let manager := manager.update state
  { manager with
    submitted := manager.submitted ++ [(session, order.symbol)]
    countsToday := countOne manager.countsToday order.symbol }

variable [SquareRoot] [MarketRules.Platform] [Calendar D]

/-- One round of the loop of `_submit_all`: the states it yields, at most one. -/
def submitOne (simulator : FillSimulator) (day : Panel D) (date : D) (session : String)
    (manager : OrderManager D) (books : Books D) (order : Order D) :
    OrderManager D × Books D × Option (OrderState D) :=
  match manager.known session order with
  | some clientOrderId =>
    (manager, books,
      if manager.forensicReplay then none else manager.wire.get? clientOrderId)
  | none =>
    let manager := manager.claimed session order
    match manager.pretradeDecision books session order with
    | (manager, some reason) =>
      let state := ⟨order.clientOrderId, .rejected, 0, 0, "pretrade_risk_rejected:" ++ reason⟩
      (manager.update state, books, some state)
    | (manager, none) =>
      let (books, state) := books.submit simulator day date order
      (manager.sent session order state, books, some state)

/-- `_submit_all`. -/
def submitAll (simulator : FillSimulator) (day : Panel D) (date : D) (session : String) :
    OrderManager D → Books D → List (Order D) → OrderManager D × Books D × List (OrderState D)
  | manager, books, [] => (manager, books, [])
  | manager, books, order :: orders =>
    let (manager, books, state) := submitOne simulator day date session manager books order
    let (manager, books, states) := submitAll simulator day date session manager books orders
    (manager, books, state.toList ++ states)

/-- `reconcile`: the orders that the daily number leaves are submitted. -/
def reconcile (simulator : FillSimulator) (day : Panel D) (date : D) (session : String)
    (manager : OrderManager D) (books : Books D) (signalDate : D) (weights : Weights)
    (prices : List (String × ℚ)) (nav : ℚ) :
    OrderManager D × Books D × List (OrderState D) × List SkippedOrder :=
  let intents := intentsOf manager.config books.ledger weights prices nav
  let orders := (ordersOf signalDate date intents).filter fun order ↦
    manager.ordersToday order.symbol < manager.config.maxOrdersPerSymbolPerDay
  let (manager, books, states) := manager.submitAll simulator day date session books orders
  (manager, books, states, skippedOf intents)

end OrderManager

end QuantAgent.Simulator
