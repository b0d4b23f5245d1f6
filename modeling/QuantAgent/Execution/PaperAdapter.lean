import QuantAgent.Execution.OrderDesk
import QuantAgent.Paper.OrderAgreement

/-!
# The paper broker behind the order manager

The adapter translates a wire order into a paper order on the board of the snapshot, with a price
bound, and has the paper broker adopt the canonical order that the order manager has opened.  The
paper broker keeps its records on the book and the ledger of the order manager.
-/

namespace QuantAgent.Execution

open Library
open Domain (Hashing Mirror)
open MarketRules (Platform RuleError PriceLimits)
open Services (VenueAnswer)

inductive MarketAnswer where
  | snapshot (market : Paper.Market)
  | missing
  /-- `InvalidMarketSnapshot`. -/
  | invalid (message : String)
  /-- Any other error. -/
  | raised

/-- `PaperBrokerAdapter`, with the broker it fronts. -/
structure PaperAdapter where
  broker : Paper.Broker
  paperIds : Dict String String
  pendingCanonical : Dict String String

/-- What one submission is given: the snapshot, the identifier of a new paper order and what the
surroundings answer. -/
structure Delivery where
  market : MarketAnswer
  paperId : String
  answers : Paper.Answers

/-- `_TO_WIRE`. -/
def toWire : Paper.OrderState → OrderStatus
  | .new => .submitted
  | .accepted => .submitted
  | .partiallyFilled => .partlyFilled
  | .filled => .filled
  | .cancelRequested => .submitted
  | .cancelled => .cancelled
  | .rejected => .rejected

/-- `MARKET_DATA_INVALID` and `MARKET_DATA_UNAVAILABLE`. -/
def marketDataInvalid : String := "market_data_invalid"
def marketDataUnavailable : String := "market_data_unavailable"

/-- `_price_bound`: every paper order carries a worst price. -/
def priceBound [Platform] (order : WireOrder) (market : Paper.Market) : Except RuleError ℚ :=
  match order.price.filter (· ≠ 0) with
  | some price => .ok price
  | none =>
    match market.limits with
    | .error error => .error error
    | .ok limits =>
      match order.side with
      | .buy => .ok (min (market.lastPrice * (101 / 100))
          ((limits.limitUp.filter (· ≠ 0)).getD (market.lastPrice * (11 / 10))))
      | .sell => .ok (max (market.lastPrice * (99 / 100))
          ((limits.limitDown.filter (· ≠ 0)).getD (market.lastPrice * (9 / 10))))

/-- A new limit order; `none` when the constructor refuses it. -/
def limitOrder (symbol : String) (side : Domain.Side) (quantity price : ℚ)
    (board : MarketRules.Board) (orderId : String) (strategyId : Option String) :
    Option Paper.Order :=
  if h : 0 < quantity ∧ 0 < price then
    some {
      symbol, side, quantity
      orderType := .limit
      limitPrice := some price
      board, orderId, strategyId
      state := .new
      filledQuantity := 0
      filledNotional := 0
      feesPaid := 0
      rejectReason := none
      isFullLiquidation := false
      quantity_pos := h.1
      limit_required := fun _ ↦ Option.some_ne_none price
      limit_pos := fun _ hbound ↦ Option.some.inj hbound ▸ h.2 }
  else none

/-- The paper order a wire order is translated to; `none` when the translation raises. -/
def paperOrder [Platform] (order : WireOrder) (market : Paper.Market) (paperId : String) :
    Option Paper.Order :=
  match priceBound order market with
  | .error _ => none
  | .ok price =>
    limitOrder order.symbol order.side.canonical order.quantity price market.board paperId
      (if order.strategyVersion = "" then none else some order.strategyVersion)

namespace PaperAdapter

/-- `attach_canonical`. -/
def attachCanonical (adapter : PaperAdapter) (clientOrderId canonicalId : String) : PaperAdapter :=
  { adapter with
    pendingCanonical := adapter.pendingCanonical.insert clientOrderId canonicalId }

/-- `query_positions`. -/
def queryPositions (adapter : PaperAdapter) : List VenuePosition :=
  (adapter.broker.portfolio.positions.entries.filter fun entry ↦ !entry.2.isFlat).map fun entry ↦ {
    symbol := entry.1
    availableShares := Domain.truncate entry.2.sellable
    frozenShares := Domain.truncate entry.2.pendingSettlement
    avgCost := entry.2.averageCost }

/-- `_state_of`. -/
def stateOf (order : Paper.Order) : VenueAnswer :=
  .settled order.orderId (toWire order.state) (Domain.truncate order.filledQuantity)
    (if order.filledQuantity = 0 then 0 else order.filledNotional / order.filledQuantity)
    (order.rejectReason.getD "")

def adopting (broker : Paper.Broker) (paperId : String) (canonicalId : Option String) :
    Paper.Broker :=
  match canonicalId with
  | none => broker
  | some canonicalId =>
    { broker with canonicalIds := broker.canonicalIds.insert paperId canonicalId }

variable [Hashing ℚ] [Platform]

/-- `submit`. -/
def submit (adapter : PaperAdapter) (delivery : Delivery) (order : WireOrder) :
    PaperAdapter × VenueAnswer :=
  match delivery.market with
  | .raised => (adapter, .raised)
  | .invalid _ => (adapter, .refused marketDataInvalid)
  | .missing => (adapter, .refused marketDataUnavailable)
  | .snapshot market =>
    match paperOrder order market delivery.paperId with
    | none => (adapter, .raised)
    | some translated =>
      let broker := adopting adapter.broker delivery.paperId
        (adapter.pendingCanonical.get? order.clientOrderId)
      match broker.submit delivery.answers translated market with
      | (broker, result) =>
        let adapter := { adapter with
          broker
          paperIds := adapter.paperIds.insert order.clientOrderId delivery.paperId
          pendingCanonical := adapter.pendingCanonical.erase order.clientOrderId }
        match result with
        | .error _ => (adapter, .raised)
        | .ok () =>
          match broker.orders.get? delivery.paperId with
          | none => (adapter, .raised)
          | some settled => (adapter, stateOf settled)

/-- The adapter as the venue of an order manager, which lends it its record of account. -/
def send (delivery : Delivery) (adapter : PaperAdapter) (mirror : Mirror ℚ) (order : WireOrder)
    (canonicalId : String) : PaperAdapter × Mirror ℚ × VenueAnswer :=
  let lent := { adapter with broker := { adapter.broker with mirror } }
  match (lent.attachCanonical order.clientOrderId canonicalId).submit delivery order with
  | (after, answer) => (after, after.broker.mirror, answer)

end PaperAdapter

/-- What a round is given whose venue is the paper broker. -/
structure PaperRound where
  delivery : Delivery
  opened : Domain.Moment
  decided : Domain.Moment
  submitted : Domain.Moment
  reported : Domain.Moment
  decidedAt : String
  clock : String

/-- The round, with the positions that the adapter reports; it is no production round, so no
constraints are evaluated. -/
def PaperRound.round [Hashing ℚ] [Platform] (given : PaperRound) (certified : Services.Verdict) :
    Round PaperAdapter where
  positions adapter := some adapter.queryPositions
  certified
  send := PaperAdapter.send given.delivery
  opened := given.opened
  decided := given.decided
  submitted := given.submitted
  reported := given.reported
  decidedAt := given.decidedAt
  clock := given.clock

/-- The setting of an order manager in front of the paper broker. -/
def paperConfig (maxOrdersPerSymbolPerDay : ℤ) : OrderManagerConfig where
  maxOrdersPerSymbolPerDay
  production := false
  canonicalVenue := true

end QuantAgent.Execution
