import QuantAgent.Execution.PretradeGate
import QuantAgent.Simulator.DividendTax

/-!
# The virtual broker

The broker of the simulation: a ledger with shares that settle a session later, fills capped by the
volume of the day, costs with a square-root impact, and the callback that settles the dividend tax
of a sale.  Orders are told apart by what their identifiers are made of.
-/

namespace QuantAgent.Simulator

open Library
open Domain (truncate)
open Execution (OrderSide OrderStatus)

variable {D : Type}

/-- What the identifier of an order is made of: its symbol and side, and the dates of the signal it
was made for. -/
structure OrderId (D : Type) where
  symbol : String
  side : OrderSide
  signalDate : D
  executionDate : D
  deriving DecidableEq

structure Order (D : Type) where
  clientOrderId : OrderId D
  quantity : ℤ
  price : ℚ

namespace Order

def symbol (order : Order D) : String := order.clientOrderId.symbol

def side (order : Order D) : OrderSide := order.clientOrderId.side

end Order

/-- `OrderState`, without the identifier of the broker. -/
structure OrderState (D : Type) where
  clientOrderId : OrderId D
  status : OrderStatus
  filledQuantity : ℤ
  avgPrice : ℚ
  lastMessage : String

/-- `TradeFill`. -/
structure TradeFill (D : Type) where
  clientOrderId : OrderId D
  fillQuantity : ℤ
  fillPrice : ℚ
  commission : ℚ
  stampDuty : ℚ
  transferFee : ℚ
  impactCost : ℚ

namespace TradeFill

def symbol (fill : TradeFill D) : String := fill.clientOrderId.symbol

def side (fill : TradeFill D) : OrderSide := fill.clientOrderId.side

def totalCost (fill : TradeFill D) : ℚ :=
  fill.commission + fill.stampDuty + fill.transferFee + fill.impactCost

end TradeFill

/-- `Position`; its symbol is the key it is kept under. -/
structure Position where
  availableShares : ℤ
  frozenShares : ℤ
  avgCost : ℚ
  deriving DecidableEq

def Position.shares (position : Position) : ℤ := position.availableShares + position.frozenShares

/-- `PositionLedger`. -/
structure PositionLedger where
  positions : Dict String Position
  cash : ℚ

namespace PositionLedger

def shares (ledger : PositionLedger) (symbol : String) : ℤ :=
  ((ledger.positions.get? symbol).map Position.shares).getD 0

/-- `apply_fill`. -/
def applyFill (ledger : PositionLedger) (fill : TradeFill D) : PositionLedger :=
  let current := (ledger.positions.get? fill.symbol).getD ⟨0, 0, fill.fillPrice⟩
  let value := fill.fillQuantity * fill.fillPrice
  match fill.side with
  | .buy =>
    let totalShares := current.shares + fill.fillQuantity
    let avgCost := (current.shares * current.avgCost + value) / max totalShares 1
    { positions := ledger.positions.insert fill.symbol
        ⟨current.availableShares, current.frozenShares + fill.fillQuantity, avgCost⟩
      cash := ledger.cash - (value + fill.totalCost) }
  | .sell =>
    let sellQty := min fill.fillQuantity current.availableShares
    { positions := ledger.positions.insert fill.symbol
        ⟨current.availableShares - sellQty, current.frozenShares, current.avgCost⟩
      cash := ledger.cash + (sellQty * fill.fillPrice - fill.totalCost) }

/-- `release_frozen_shares`. -/
def releaseFrozenShares (ledger : PositionLedger) : PositionLedger :=
  { ledger with
    positions := ledger.positions.map fun position ↦ ⟨position.shares, 0, position.avgCost⟩ }

end PositionLedger

/-- `FillSimulator`. -/
structure FillSimulator where
  participationRate : ℚ
  slippageBps : ℚ

/-- `FillDecision`. -/
structure FillDecision where
  quantity : ℤ
  price : ℚ
  message : String

/-- `FillSimulator.simulate`. -/
def FillSimulator.simulate (simulator : FillSimulator) (order : Order D)
    (availableVolume : Option ℚ) : FillDecision :=
  let quantity := match availableVolume with
    | none => order.quantity
    | some volume => min order.quantity (truncate (max 0 volume * simulator.participationRate))
  let slip := simulator.slippageBps / 10000
  let price := match order.side with
    | .buy => order.price * (1 + slip)
    | .sell => order.price * (1 - slip)
  if quantity ≤ 0 then ⟨0, price, "no_liquidity"⟩
  else ⟨quantity, price, if quantity = order.quantity then "filled" else "partial"⟩

/-- `math.sqrt`, of numbers that are not negative. -/
class SquareRoot where
  sqrt : ℚ → ℚ
  sqrt_nonneg : ∀ x, 0 ≤ x → 0 ≤ sqrt x

instance : SquareRoot where
  sqrt := fun x ↦ (x.num.toNat.sqrt : ℚ) / x.den.sqrt
  sqrt_nonneg := fun _ _ ↦ div_nonneg (Nat.cast_nonneg _) (Nat.cast_nonneg _)

/-- The components that `AShareCostModel.calculate` returns. -/
structure ExecutionCosts where
  commission : ℚ
  stampDuty : ℚ
  transferFee : ℚ
  impactCost : ℚ

/-- `costs["total"]`. -/
def ExecutionCosts.total (costs : ExecutionCosts) : ℚ :=
  costs.commission + costs.stampDuty + costs.transferFee + costs.impactCost

/-- `_impact_cost`, with the default coefficient. -/
def impactCost [SquareRoot] (orderValue participationRate : ℚ) : ℚ :=
  if orderValue ≤ 0 then 0
  else
    let p := max 0 participationRate
    if p ≤ 0 then 0 else orderValue * (10 * SquareRoot.sqrt p) / 10000

/-- `AShareCostModel.calculate`, with the defaults of the model and a trade date. -/
def calculateCosts [SquareRoot] [MarketRules.Platform] (side : OrderSide) (quantity : ℤ)
    (price participationRate : ℚ) (tradeDate : String) : ExecutionCosts :=
  let value := quantity * price
  { commission := max (if 0 < value then 5 else 0) (value * (3 / 10000))
    stampDuty := if side = .sell then value * MarketRules.stampDutyRate tradeDate else 0
    transferFee := value * (1 / 100000)
    impactCost := impactCost value participationRate }

structure ActionRow (D : Type) where
  tradeDate : D
  symbol : String
  sharesBefore : ℚ
  cashPerShare : ℚ
  shareRatio : ℚ
  bonusShares : ℤ
  cashCredit : ℚ
  close : ℚ
  basis : String
  writtenOffValue : Option ℚ

/-- What the broker and its callback keep; `taxLots` is there for raw panels only. -/
structure Books (D : Type) where
  ledger : PositionLedger
  orderObjects : Dict (OrderId D) (Order D)
  fillsByClientOrderId : Dict (OrderId D) (TradeFill D)
  taxLots : Option (DividendTaxLots D)
  caRows : List (ActionRow D)

/-- `_available_volume`; a volume that is not a number counts as none traded. -/
def availableVolume (day : Panel D) (symbol : String) : Option ℚ :=
  match (day.stateOf symbol).map fun row ↦ day.cell row .volume with
  | some (.num volume) => some volume
  | some .nan => some 0
  | _ => none

def flagOf (day : Panel D) (symbol : String) (column : Column) : Bool :=
  ((day.stateOf symbol).map fun row ↦ (day.cell row column).truthy).getD false

/-- `row.get("is_suspended", row.get("suspended", False))`. -/
def suspended (day : Panel D) (symbol : String) : Bool :=
  if .isSuspended ∈ day.columns then flagOf day symbol .isSuspended
  else flagOf day symbol .suspended

namespace Books

/-- `query_positions`, as the gate reads them. -/
def queryPositions (books : Books D) : List Execution.VenuePosition :=
  books.ledger.positions.entries.map fun entry ↦
    ⟨entry.1, entry.2.availableShares, entry.2.frozenShares, entry.2.avgCost⟩

/-- `_reject_reason`. -/
def rejectReason (books : Books D) (day : Panel D) (order : Order D) : Option String :=
  if suspended day order.symbol then some "suspended"
  else if order.side = .buy && flagOf day order.symbol .isLimitUp then some "limit_up_no_buy"
  else if order.side = .sell && flagOf day order.symbol .isLimitDown then
    some "limit_down_no_sell"
  else if order.side = .sell &&
      ((books.ledger.positions.get? order.symbol).map Position.availableShares).getD 0 <
        order.quantity then
    some "t_plus_one_or_insufficient_available_shares"
  else none

/-- `_record` of an order that was not filled, and its state. -/
def reject [LinearOrder D] (books : Books D) (order : Order D) (price : ℚ) (message : String) :
    Books D × OrderState D :=
  ({ books with orderObjects := books.orderObjects.insert order.clientOrderId order },
    ⟨order.clientOrderId, .rejected, 0, price, message⟩)

/-- `_on_fill`: a purchase opens a lot; the tax due on a sale is charged and audited. -/
def onFill [LinearOrder D] [Calendar D] (books : Books D) (date : D) (fill : TradeFill D) :
    Books D :=
  match books.taxLots with
  | none => books
  | some lots =>
    match fill.side with
    | .buy => { books with taxLots := some (lots.buy fill.symbol date fill.fillQuantity) }
    | .sell =>
      let (lots, tax) := lots.sell fill.symbol date fill.fillQuantity
      let books := { books with taxLots := some lots }
      if 0 < tax then
        { books with
          ledger := { books.ledger with cash := books.ledger.cash - tax }
          caRows := books.caRows ++ [{
            tradeDate := date
            symbol := fill.symbol
            sharesBefore := fill.fillQuantity
            cashPerShare := 0
            shareRatio := 0
            bonusShares := 0
            cashCredit := -tax
            close := fill.fillPrice
            basis := "dividend_tax"
            writtenOffValue := none }] }
      else books

def tradeOf [SquareRoot] [MarketRules.Platform] [Calendar D] (day : Panel D) (date : D)
    (order : Order D) (fill : FillDecision) : TradeFill D :=
  let participation := match availableVolume day order.symbol with
    | none => 0
    | some volume => if 0 < volume then fill.quantity / volume else 0
  let costs := calculateCosts order.side fill.quantity fill.price participation (Calendar.text date)
  { clientOrderId := order.clientOrderId
    fillQuantity := fill.quantity
    fillPrice := fill.price
    commission := costs.commission
    stampDuty := costs.stampDuty
    transferFee := costs.transferFee
    impactCost := costs.impactCost }

/-- The ledger, the records and the callback after a fill. -/
def book [LinearOrder D] [Calendar D] (books : Books D) (date : D) (order : Order D)
    (trade : TradeFill D) : Books D :=
  { books with
    ledger := books.ledger.applyFill trade
    orderObjects := books.orderObjects.insert order.clientOrderId order
    fillsByClientOrderId :=
      books.fillsByClientOrderId.insert order.clientOrderId trade }.onFill date trade

/-- `VirtualBroker.submit`. -/
def submit [SquareRoot] [MarketRules.Platform] [LinearOrder D] [Calendar D]
    (simulator : FillSimulator) (day : Panel D) (date : D) (books : Books D) (order : Order D) :
    Books D × OrderState D :=
  match books.rejectReason day order with
  | some message => books.reject order 0 message
  | none =>
    let fill := simulator.simulate order (availableVolume day order.symbol)
    if fill.quantity ≤ 0 then books.reject order fill.price fill.message
    else
      let trade := tradeOf day date order fill
      if order.side = .buy &&
          books.ledger.cash < fill.quantity * fill.price + trade.totalCost then
        books.reject order fill.price "insufficient_cash"
      else
        (books.book date order trade,
          ⟨order.clientOrderId, if fill.quantity = order.quantity then .filled else .partlyFilled,
            fill.quantity, fill.price, fill.message⟩)

end Books

end QuantAgent.Simulator
