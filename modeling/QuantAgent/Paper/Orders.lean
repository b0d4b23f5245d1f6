import QuantAgent.MarketRules.Ashare

/-!
# Paper orders

The order a paper venue works on, and its executions.  The states, their terminal ones and their
transitions are derived from the canonical table.
-/

namespace QuantAgent.Paper

open Library Domain MarketRules

inductive OrderType where
  | limit
  | marketableLimit
  | twap
  | vwap
  | pov
  deriving DecidableEq, Repr

/-- The kinds that rest on the book themselves and carry a price bound. -/
def OrderType.needsLimit : OrderType → Bool
  | limit => true
  | marketableLimit => true
  | _ => false

inductive OrderState where
  | new
  | accepted
  | partiallyFilled
  | filled
  | cancelRequested
  | cancelled
  | rejected
  deriving DecidableEq, Repr

namespace OrderState

def all : List OrderState :=
  [new, accepted, partiallyFilled, filled, cancelRequested, cancelled, rejected]

/-- `_TO_CANONICAL`: `new` is submitted to the venue and not acknowledged. -/
def toCanonical : OrderState → OrderStatus
  | new => .submitted
  | accepted => .accepted
  | partiallyFilled => .partiallyFilled
  | filled => .filled
  | cancelRequested => .cancelRequested
  | cancelled => .cancelled
  | rejected => .rejected

/-- `TERMINAL_STATES`. -/
def isTerminal (state : OrderState) : Bool := state.toCanonical ∈ terminalStatuses

/-- `ALLOWED_TRANSITIONS`. -/
def allows (state target : OrderState) : Bool :=
  target.toCanonical ∈ allowedTransitions state.toCanonical

/-- `_PAPER_STATE_OF`: three canonical statuses have no paper state. -/
def ofCanonical (status : OrderStatus) : Option OrderState :=
  all.find? fun state ↦ state.toCanonical = status

theorem allows_iff {state target : OrderState} : state.allows target = true ↔
    target.toCanonical ∈ allowedTransitions state.toCanonical := decide_eq_true_iff

end OrderState

/-- One order.  What the constructor refuses cannot be built. -/
structure Order where
  symbol : String
  side : Side
  quantity : ℚ
  orderType : OrderType
  limitPrice : Option ℚ
  board : Board
  orderId : String
  strategyId : Option String
  state : OrderState
  filledQuantity : ℚ
  filledNotional : ℚ
  feesPaid : ℚ
  rejectReason : Option String
  isFullLiquidation : Bool
  quantity_pos : 0 < quantity
  limit_required : orderType.needsLimit = true → limitPrice ≠ none
  limit_pos : ∀ price, limitPrice = some price → 0 < price

structure OrderStateError where
  orderId : String
  current : OrderState
  target : OrderState
  deriving DecidableEq

namespace Order

def transition (order : Order) (target : OrderState) : Except OrderStateError Order :=
  if order.state.allows target then .ok { order with state := target }
  else .error ⟨order.orderId, order.state, target⟩

def remaining (order : Order) : ℚ := max 0 (order.quantity - order.filledQuantity)

def isOpen (order : Order) : Bool := !order.state.isTerminal

variable {order : Order} {target : OrderState}

theorem transition_of_allows (h : order.state.allows target = true) :
    order.transition target = .ok { order with state := target } := if_pos h

theorem transition_of_not_allows (h : ¬ order.state.allows target = true) :
    order.transition target = .error ⟨order.orderId, order.state, target⟩ := if_neg h

theorem transition_ok_iff {after : Order} :
    order.transition target = .ok after ↔
      order.state.allows target = true ∧ after = { order with state := target } := by
  unfold transition
  split
  · rename_i h
    simp [h, eq_comm]
  · rename_i h
    simp [h]

end Order

structure Fill where
  orderId : String
  symbol : String
  side : Side
  quantity : ℚ
  price : ℚ
  notional : ℚ
  commission : ℚ
  stampDuty : ℚ
  transferFee : ℚ
  marketTime : Option String
  fillId : String
  isPartial : Bool

namespace Fill

def fees (fill : Fill) : ℚ := fill.commission + fill.stampDuty + fill.transferFee

def cashDelta (fill : Fill) : ℚ :=
  match fill.side with
  | .buy => -(fill.notional + fill.fees)
  | .sell => fill.notional - fill.fees

end Fill

end QuantAgent.Paper
