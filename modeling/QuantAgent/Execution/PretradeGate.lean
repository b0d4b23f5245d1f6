import QuantAgent.QuantMath.Ashare
import QuantAgent.Services.PaperOrders

/-!
# The pre-trade gate

What the order manager refuses before a venue is touched: orders an upstream check refused, orders
without a positive quantity or a price bound, quantities the exchange does not take, and orders
above the daily number for one symbol.  An odd lot passes when the positions of the broker prove
that it is all there is to sell.
-/

namespace QuantAgent.Execution

open Library QuantMath
open MarketRules (Board lotRules)
open Services (Verdict)

/-- `max_order_quantity`: the exchange maximum, where one is encoded. -/
def maxOrderQuantity : Board → OrderType → Option ℤ
  | .star, .limit => some 100000
  | .star, .market => some 50000
  | .bse, _ => some 1000000
  | _, _ => none

/-- `_cash_equity_board`: funds, bonds and futures keep their own rules. -/
def cashEquityBoard (symbol : String) : Option Board :=
  match inferBoard symbol with
  | .mainBoard => some (exchangeBoardForSymbol symbol)
  | .chinext => some (exchangeBoardForSymbol symbol)
  | .star => some (exchangeBoardForSymbol symbol)
  | .bse => some (exchangeBoardForSymbol symbol)
  | _ => none

structure VenuePosition where
  symbol : String
  availableShares : ℤ
  frozenShares : ℤ
  avgCost : ℚ

/-- `_is_proven_full_liquidation`: the first position of the symbol is all available, and the order
is for all of it.  Positions that cannot be queried prove nothing. -/
def isProvenFullLiquidation (positions : Option (List VenuePosition)) (symbol : String)
    (quantity : ℤ) : Bool :=
  match positions with
  | none => false
  | some positions =>
    match positions.find? fun position ↦ position.symbol = symbol with
    | none => false
    | some position =>
      0 < position.availableShares && position.availableShares = quantity &&
        position.frozenShares = 0

/-- A number of shares that a board takes as a normal order. -/
def NormalLot (board : Board) (quantity : ℤ) : Prop :=
  (lotRules board).1 ≤ quantity ∧ (quantity - (lotRules board).1) % (lotRules board).2 = 0

instance (board : Board) (quantity : ℤ) : Decidable (NormalLot board quantity) :=
  inferInstanceAs (Decidable (_ ∧ _))

/-- `_exchange_quantity_rejection`: why the exchange does not take the quantity, if it does not. -/
def exchangeQuantityRejection (positions : Option (List VenuePosition)) (order : WireOrder) :
    Option String :=
  match cashEquityBoard order.symbol with
  | none => none
  | some board =>
    let quantity := order.quantity
    let (minimum, increment) := lotRules board
    let fullLiquidation := order.side = .sell &&
      isProvenFullLiquidation positions order.symbol quantity
    match (maxOrderQuantity board order.orderType).filter (· < quantity) with
    | some maximum =>
      some (board.name ++ " " ++ order.orderType.value ++ " quantity " ++ toString quantity ++
        " exceeds exchange maximum " ++ toString maximum)
    | none =>
      if quantity < minimum then
        if fullLiquidation then none
        else some (board.name ++ " quantity " ++ toString quantity ++
          " is below normal minimum " ++ toString minimum ++
          "; sub-minimum sell requires proven full liquidation")
      else if (quantity - minimum) % increment ≠ 0 then
        if fullLiquidation then none
        else some (board.name ++ " quantity " ++ toString quantity ++
          " violates minimum/increment " ++ toString minimum ++ "+n*" ++ toString increment ++
          "; non-increment sell requires proven full liquidation")
      else none

section Decisions

variable [PyText]

/-- `(order.risk_check_result or "not_checked").strip().lower()`. -/
def upstreamResult (order : WireOrder) : String :=
  PyText.folded (if order.riskCheckResult = "" then "not_checked" else order.riskCheckResult)

omit [PyText] in
def upstreamRefusals : List String :=
  ["rejected", "reject", "blocked", "failed", "fail", "denied"]

/-- The refusals of `_pretrade_decision` that do not depend on the day. -/
def admissibilityRefusal (positions : Option (List VenuePosition)) (order : WireOrder)
    (decidedAt : String) : Option Verdict :=
  let explicit := upstreamResult order
  if explicit ∈ upstreamRefusals then
    some {
      approved := false
      rule := "upstream_risk"
      threshold := .str "approved"
      measured := .str explicit
      reason := "upstream risk explicitly rejected the order"
      decidedBy := "risk_engine"
      decidedAt }
  else if order.quantity ≤ 0 then
    some {
      approved := false
      rule := "order_manager_basic_admissibility"
      threshold := .str "quantity>0"
      measured := .num (order.quantity : ℚ)
      reason := "order quantity must be positive"
      decidedBy := "risk_engine"
      decidedAt }
  else if order.orderType = .limit && !order.price.any (0 < ·) then
    some {
      approved := false
      rule := "order_manager_basic_admissibility"
      threshold := .str "limit_price>0"
      measured := (order.price.map Json.num).getD .null
      reason := "limit order requires a finite positive price"
      decidedBy := "risk_engine"
      decidedAt }
  else
    (exchangeQuantityRejection positions order).map fun reason ↦ {
      approved := false
      rule := "exchange_quantity_admissibility"
      threshold := .str "board_minimum_increment_maximum_or_proven_full_liquidation"
      measured := .obj [
        ("order_type", .str order.orderType.value),
        ("quantity", .num (order.quantity : ℚ)),
        ("symbol", .str order.symbol)]
      reason
      decidedBy := "order_manager"
      decidedAt }

omit [PyText] in
/-- The refusal of an order above the daily number. -/
def limitRefusal (order : WireOrder) (session : String) (submittedToday limit : ℤ)
    (decidedAt : String) : Verdict where
  approved := false
  rule := "max_orders_per_symbol_per_day"
  threshold := .num (limit : ℚ)
  measured := .obj [
    ("session", .str session),
    ("submitted_today", .num (submittedToday : ℚ)),
    ("symbol", .str order.symbol)]
  reason := order.symbol ++ " already has " ++ toString submittedToday ++
    " submitted orders this session (limit " ++ toString limit ++ ")"
  decidedBy := "order_manager"
  decidedAt

def basicApproval (order : WireOrder) (decidedAt : String) : Verdict where
  approved := true
  rule := "order_manager_basic_admissibility"
  threshold := .str "positive_quantity+valid_limit_price+exchange_quantity"
  measured := .obj [
    ("mode", .str "non_live_or_research"),
    ("upstream", .str (upstreamResult order))]
  reason := "basic OMS and exchange-quantity admissibility passed; this is not production risk " ++
    "certification"
  decidedBy := "order_manager"
  decidedAt

/-- What a production order needs before its constraints are evaluated. -/
def liveRefusal (order : WireOrder) (decidedAt : String) : Option Verdict :=
  if order.orderType = .market || !order.price.any (0 < ·) then
    some {
      approved := false
      rule := "execution_constraint_dsl"
      threshold := .str "bounded_limit_order"
      measured := .obj [
        ("order_type", .str order.orderType.value),
        ("price", (order.price.map Json.num).getD .null)]
      reason := "live A-share order requires a bounded positive reference/limit price"
      decidedBy := "risk_engine"
      decidedAt }
  else none

end Decisions

theorem not_approved_of_admissibilityRefusal [PyText] {positions : Option (List VenuePosition)}
    {order : WireOrder} {decidedAt : String} {verdict : Verdict}
    (h : admissibilityRefusal positions order decidedAt = some verdict) :
    verdict.approved = false := by
  unfold admissibilityRefusal at h
  simp only at h
  split at h
  · cases h
    rfl
  split at h
  · cases h
    rfl
  split at h
  · cases h
    rfl
  · obtain ⟨reason, -, rfl⟩ := Option.map_eq_some_iff.mp h
    rfl

end QuantAgent.Execution
