import Mathlib.Algebra.Order.Ring.Rat
import QuantAgent.Library.Run

/-!
# The intraday ledger

A day of round trips over carried shares: a leg opens a pair, the opposite leg closes open pairs in
the order they were opened, and a pair may be closed in parts.  A call returns the ledger as it
leaves it, also where it raises.
-/

namespace QuantAgent.Execution

open Library

structure IntradayPair where
  pairId : String
  action : String
  quantity : ℤ
  price : ℚ
  time : String
  costPaid : ℚ
  deriving DecidableEq

/-- An entry of the day's log. -/
structure LedgerEvent where
  eventType : String
  action : String
  quantity : ℤ
  price : ℚ
  time : String
  grossPnl : ℚ
  netPnl : ℚ
  cost : ℚ
  message : String
  deriving DecidableEq

structure IntradayLedger where
  symbol : String
  date : String
  carriedShares : ℤ
  targetShares : ℤ
  cash : ℚ
  todaySold : ℤ
  todayBought : ℤ
  openSellPairs : List IntradayPair
  openBuyPairs : List IntradayPair
  realizedGrossPnl : ℚ
  realizedNetPnl : ℚ
  costPaid : ℚ
  slippagePaid : ℚ
  events : List LedgerEvent
  deriving DecidableEq

inductive TradeRefusal where
  | sellHighInventory
  | buyBackWithoutPair
  | buyBackExceedsPairs
  | buyBackCash
  | buyLowCash
  | sellAfterBuyInventory
  | sellAfterBuyWithoutPair
  | sellAfterBuyExceedsPairs
  deriving DecidableEq, Repr

def TradeRefusal.message : TradeRefusal → String
  | sellHighInventory => "SELL_HIGH violates T+1 sellable inventory"
  | buyBackWithoutPair => "BUY_BACK requires an open sell pair"
  | buyBackExceedsPairs => "BUY_BACK quantity exceeds open sell pairs"
  | buyBackCash => "BUY_BACK violates cash constraint"
  | buyLowCash => "BUY_LOW violates cash constraint"
  | sellAfterBuyInventory => "SELL_AFTER_BUY violates T+1 sellable inventory"
  | sellAfterBuyWithoutPair => "SELL_AFTER_BUY requires an open buy pair"
  | sellAfterBuyExceedsPairs => "SELL_AFTER_BUY quantity exceeds open buy pairs"

/-- What the closing loop leaves: the shares it found no pair for, its sums and the pairs. -/
structure Matched where
  remaining : ℤ
  gross : ℚ
  matchedCost : ℚ
  pairs : List IntradayPair

/-- The closing loop.  A pair that keeps shares has taken all that remained, so the loop ends
there. -/
def matchPairs (gain : IntradayPair → ℚ) : ℤ → List IntradayPair → Matched
  | remaining, [] => ⟨remaining, 0, 0, []⟩
  | remaining, pair :: rest =>
    if remaining ≤ 0 then ⟨remaining, 0, 0, pair :: rest⟩
    else
      let take := min remaining pair.quantity
      let cost := pair.costPaid * take / max pair.quantity 1
      if pair.quantity - take ≤ 0 then
        let later := matchPairs gain (remaining - take) rest
        ⟨later.remaining, gain pair * take + later.gross, cost + later.matchedCost, later.pairs⟩
      else ⟨remaining - take, gain pair * take, cost,
        { pair with quantity := pair.quantity - take } :: rest⟩

namespace IntradayLedger

def opening (symbol date : String) (carriedShares targetShares : ℤ) (cash : ℚ) :
    IntradayLedger where
  symbol
  date
  carriedShares
  targetShares
  cash
  todaySold := 0
  todayBought := 0
  openSellPairs := []
  openBuyPairs := []
  realizedGrossPnl := 0
  realizedNetPnl := 0
  costPaid := 0
  slippagePaid := 0
  events := []

variable (ledger : IntradayLedger)

/-- `sellable_shares`. -/
def sellableShares : ℤ := max 0 (ledger.carriedShares - ledger.todaySold)

/-- `current_position`. -/
def currentPosition : ℤ := ledger.carriedShares - ledger.todaySold + ledger.todayBought

/-- `position_gap_to_target`. -/
def positionGapToTarget : ℤ := ledger.currentPosition - ledger.targetShares

/-- `can_sell`. -/
def canSell (quantity : ℤ) : Bool := 0 < quantity ∧ quantity ≤ ledger.sellableShares

/-- `can_buy`. -/
def canBuy (quantity : ℤ) (price cost : ℚ) : Bool :=
  0 < quantity ∧ 0 < price ∧ quantity * price + cost ≤ ledger.cash + 1 / 1000000000

/-- What every trading method is given. -/
structure Ticket where
  quantity : ℤ
  price : ℚ
  time : String
  cost : ℚ
  slippage : ℚ

section Methods

variable (ticket : Ticket)

def sold (event : LedgerEvent) : IntradayLedger :=
  { ledger with
    todaySold := ledger.todaySold + ticket.quantity
    cash := ledger.cash + (ticket.quantity * ticket.price - ticket.cost)
    costPaid := ledger.costPaid + ticket.cost
    slippagePaid := ledger.slippagePaid + ticket.slippage
    events := ledger.events ++ [event] }

def bought (event : LedgerEvent) : IntradayLedger :=
  { ledger with
    todayBought := ledger.todayBought + ticket.quantity
    cash := ledger.cash - (ticket.quantity * ticket.price + ticket.cost)
    costPaid := ledger.costPaid + ticket.cost
    slippagePaid := ledger.slippagePaid + ticket.slippage
    events := ledger.events ++ [event] }

def realized (event : LedgerEvent) : IntradayLedger :=
  { ledger with
    realizedGrossPnl := ledger.realizedGrossPnl + event.grossPnl
    realizedNetPnl := ledger.realizedNetPnl + event.netPnl }

def Ticket.openEvent (action : String) : LedgerEvent :=
  ⟨"OPEN_PAIR", action, ticket.quantity, ticket.price, ticket.time, 0, 0, ticket.cost, ""⟩

def Ticket.closeEvent (action : String) (matched : Matched) : LedgerEvent :=
  ⟨"CLOSE_PAIR", action, ticket.quantity, ticket.price, ticket.time, matched.gross,
    matched.gross - matched.matchedCost - ticket.cost, ticket.cost, ""⟩

def Ticket.pair (pairId action : String) : IntradayPair :=
  ⟨pairId, action, ticket.quantity, ticket.price, ticket.time, ticket.cost⟩

/-- `open_sell_high`. -/
def openSellHigh (pairId : String) : IntradayLedger × Except TradeRefusal LedgerEvent :=
  if ledger.canSell ticket.quantity = false then (ledger, .error .sellHighInventory)
  else
    let event := ticket.openEvent "SELL_HIGH"
    ({ ledger.sold ticket event with
      openSellPairs := ledger.openSellPairs ++ [ticket.pair pairId "SELL_HIGH"] }, .ok event)

/-- `close_sell_pair_buyback`: the pairs are consumed before the last two checks. -/
def closeSellPairBuyback : IntradayLedger × Except TradeRefusal LedgerEvent :=
  if ticket.quantity ≤ 0 ∨ ledger.openSellPairs = [] then (ledger, .error .buyBackWithoutPair)
  else
    let matched := matchPairs (fun pair ↦ pair.price - ticket.price) ticket.quantity
      ledger.openSellPairs
    let consumed := { ledger with openSellPairs := matched.pairs }
    if 0 < matched.remaining then (consumed, .error .buyBackExceedsPairs)
    else if consumed.canBuy ticket.quantity ticket.price ticket.cost = false then
      (consumed, .error .buyBackCash)
    else
      let event := ticket.closeEvent "BUY_BACK" matched
      ((consumed.bought ticket event).realized event, .ok event)

/-- `open_buy_low`. -/
def openBuyLow (pairId : String) : IntradayLedger × Except TradeRefusal LedgerEvent :=
  if ledger.canBuy ticket.quantity ticket.price ticket.cost = false then
    (ledger, .error .buyLowCash)
  else
    let event := ticket.openEvent "BUY_LOW"
    ({ ledger.bought ticket event with
      openBuyPairs := ledger.openBuyPairs ++ [ticket.pair pairId "BUY_LOW"] }, .ok event)

/-- `close_buy_pair_sell_after_buy`: the pairs are consumed before the last check. -/
def closeBuyPairSellAfterBuy : IntradayLedger × Except TradeRefusal LedgerEvent :=
  if ledger.canSell ticket.quantity = false then (ledger, .error .sellAfterBuyInventory)
  else if ticket.quantity ≤ 0 ∨ ledger.openBuyPairs = [] then
    (ledger, .error .sellAfterBuyWithoutPair)
  else
    let matched := matchPairs (fun pair ↦ ticket.price - pair.price) ticket.quantity
      ledger.openBuyPairs
    let consumed := { ledger with openBuyPairs := matched.pairs }
    if 0 < matched.remaining then (consumed, .error .sellAfterBuyExceedsPairs)
    else
      let event := ticket.closeEvent "SELL_AFTER_BUY" matched
      ((consumed.sold ticket event).realized event, .ok event)

end Methods

/-- `mark_eod_restore`: pairs that are still open are dropped. -/
def markEodRestore (price : ℚ) (time : String) (cost : ℚ) : IntradayLedger × Option LedgerEvent :=
  let gap := ledger.positionGapToTarget
  if gap = 0 ∧ ledger.openSellPairs = [] ∧ ledger.openBuyPairs = [] then (ledger, none)
  else
    let quantity := if |gap| = 0 then
      ((ledger.openSellPairs ++ ledger.openBuyPairs).map IntradayPair.quantity).sum else |gap|
    let event : LedgerEvent :=
      ⟨"EOD_RESTORE",
        if gap < 0 ∨ ledger.openSellPairs ≠ [] then "EOD_RESTORE_BUY" else "EOD_RESTORE_SELL",
        quantity, price, time, 0, -cost, cost,
        "open pair did not close intraday; restore is a risk event"⟩
    ({ ledger with
      costPaid := ledger.costPaid + cost
      openSellPairs := []
      openBuyPairs := []
      events := ledger.events ++ [event] }, some event)

/-- A call of one of the four trading methods. -/
inductive Trade where
  | openSellHigh (pairId : String) (ticket : Ticket)
  | closeSellPairBuyback (ticket : Ticket)
  | openBuyLow (pairId : String) (ticket : Ticket)
  | closeBuyPairSellAfterBuy (ticket : Ticket)

def Trade.ticket : Trade → Ticket
  | openSellHigh _ ticket => ticket
  | closeSellPairBuyback ticket => ticket
  | openBuyLow _ ticket => ticket
  | closeBuyPairSellAfterBuy ticket => ticket

def trade : Trade → IntradayLedger × Except TradeRefusal LedgerEvent
  | .openSellHigh pairId ticket => ledger.openSellHigh ticket pairId
  | .closeSellPairBuyback ticket => ledger.closeSellPairBuyback ticket
  | .openBuyLow pairId ticket => ledger.openBuyLow ticket pairId
  | .closeBuyPairSellAfterBuy ticket => ledger.closeBuyPairSellAfterBuy ticket

def Succeeds (trade : Trade) : Prop := ∃ event, (ledger.trade trade).2 = .ok event

instance (trade : Trade) : Decidable (ledger.Succeeds trade) :=
  match h : (ledger.trade trade).2 with
  | .ok event => .isTrue ⟨event, h⟩
  | .error _ => .isFalse (by simp [Succeeds, h])

def Refused (trade : Trade) : Prop := ∃ refusal, (ledger.trade trade).2 = .error refusal

def afterTrade (trade : Trade) : IntradayLedger := (ledger.trade trade).1

inductive Call where
  | trade (trade : Trade)
  | markEodRestore (price : ℚ) (time : String) (cost : ℚ)

def step : Call → IntradayLedger
  | .trade trade => ledger.afterTrade trade
  | .markEodRestore price time cost => (ledger.markEodRestore price time cost).1

end IntradayLedger

end QuantAgent.Execution
