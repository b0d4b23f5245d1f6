import QuantAgent.Domain.Ledger
import QuantAgent.Library.Fifo
import QuantAgent.Library.Rounding

/-!
# Accounts

Cash, dated lots, cost basis and realised profit as a fold over order events, in exact arithmetic.
A sale may only take lots of earlier sessions, first in first out.
-/

namespace QuantAgent.Domain

open Library

/-- The first ten characters of a stamp: its date. -/
def datePart (stamp : String) : String := String.ofList (stamp.toList.take 10)

namespace Fill

def gross (fill : Fill ℚ) : ℚ := fill.quantity * fill.price

/-- What the price gave away against the reference. -/
def slippage (fill : Fill ℚ) : ℚ :=
  match fill.referencePrice with
  | none => 0
  | some reference => |fill.price - reference| * fill.quantity

def cashDelta (fill : Fill ℚ) : ℚ :=
  match fill.side with
  | .buy => -(fill.gross + fill.fees)
  | .sell => fill.gross - fill.fees

theorem fees_eq (fill : Fill ℚ) :
    fill.fees = fill.commission + fill.stampDuty + fill.transferFee := rfl

end Fill

structure PositionLot where
  positionLotId : String
  symbol : String
  quantity : ℚ
  costPrice : ℚ
  acquiredOn : String
  lineage : Lineage

namespace PositionLot

/-- A lot bought in a session cannot be sold in it. -/
def sellableOn (tradeDate : String) (lot : PositionLot) : Bool := lot.acquiredOn < tradeDate

def parcels : Parcels PositionLot ℚ where
  size := quantity
  resize lot quantity := { lot with quantity }
  size_resize _ _ := rfl

def fromFill [Hashing ℚ] (fill : Fill ℚ) (tradeDate : String) : PositionLot :=
  let lotId := contentId (N := ℚ) "lot" (.obj [("execution_id", .str fill.executionId)])
  { positionLotId := lotId
    symbol := fill.symbol
    quantity := fill.quantity
    costPrice :=
      if fill.quantity = 0 then fill.price else (fill.gross + fill.fees) / fill.quantity
    acquiredOn := tradeDate
    lineage := fill.lineage.derive .positionLotId (some lotId) }

end PositionLot

def totalQuantity (lots : List PositionLot) : ℚ := PositionLot.parcels.total lots

/-- The shares that may be sold in a session. -/
def sellableQuantity (lots : List PositionLot) (tradeDate : String) : ℚ :=
  PositionLot.parcels.available (PositionLot.sellableOn tradeDate) lots

inductive InvariantViolation where
  | oversold (symbol : String)
  | lotQuantity (symbol positionLotId : String)
  | missingFill (kind : OrderEventType)
  | conflictingExecution (executionId : String)
  | fractionalShares (symbol : String)
  deriving DecidableEq, Repr

structure AccountState where
  cash : ℚ
  initialCash : ℚ
  lots : Dict String (List PositionLot)
  realisedPnl : ℚ
  totalFees : ℚ
  totalSlippage : ℚ
  costBasis : Dict String ℚ
  duplicateExecutions : List String

namespace AccountState

def opening (initialCash : ℚ) : AccountState where
  cash := initialCash
  initialCash
  lots := .empty
  realisedPnl := 0
  totalFees := 0
  totalSlippage := 0
  costBasis := .empty
  duplicateExecutions := []

def lotsOf (state : AccountState) (symbol : String) : List PositionLot :=
  (state.lots.get? symbol).getD []

def position (state : AccountState) (symbol : String) : ℚ := totalQuantity (state.lotsOf symbol)

/-- The shares of a symbol that may be sold in a session. -/
def sellable (state : AccountState) (symbol tradeDate : String) : ℚ :=
  sellableQuantity (state.lotsOf symbol) tradeDate

/-- The average cost of a symbol after a purchase, entry fees included. -/
def blendedCost (state : AccountState) (fill : Fill ℚ) : ℚ :=
  let held := state.position fill.symbol
  if held + fill.quantity = 0 then 0
  else (((state.costBasis.get? fill.symbol).getD 0) * held + fill.gross + fill.fees) /
    (held + fill.quantity)

/-- `_apply_buy`. -/
def applyBuy [Hashing ℚ] (state : AccountState) (fill : Fill ℚ) (tradeDate : String) :
    AccountState :=
  { state with
    cash := state.cash + fill.cashDelta
    lots := state.lots.insert fill.symbol
      (state.lotsOf fill.symbol ++ [PositionLot.fromFill fill tradeDate])
    costBasis := state.costBasis.insert fill.symbol (state.blendedCost fill)
    totalFees := state.totalFees + fill.fees
    totalSlippage := state.totalSlippage + fill.slippage }

/-- `_apply_sell`. -/
def applySell (state : AccountState) (fill : Fill ℚ) (tradeDate : String) :
    Except InvariantViolation AccountState :=
  let existing := state.lotsOf fill.symbol
  if sellableQuantity existing tradeDate < fill.quantity then .error (.oversold fill.symbol)
  else
    let kept := PositionLot.parcels.consume (PositionLot.sellableOn tradeDate) fill.quantity existing
    let basis := (state.costBasis.get? fill.symbol).getD fill.price
    .ok { state with
      cash := state.cash + fill.cashDelta
      lots := if kept.isEmpty then state.lots.erase fill.symbol
        else state.lots.insert fill.symbol kept
      realisedPnl := state.realisedPnl + ((fill.price - basis) * fill.quantity - fill.fees)
      totalFees := state.totalFees + fill.fees
      totalSlippage := state.totalSlippage + fill.slippage }

def applyFill [Hashing ℚ] (state : AccountState) (fill : Fill ℚ) (tradeDate : String) :
    Except InvariantViolation AccountState :=
  match fill.side with
  | .buy => .ok (state.applyBuy fill tradeDate)
  | .sell => state.applySell fill tradeDate

/-- A lot after a split; a fraction of a share is refused. -/
def adjustLot (action : CorporateAction ℚ) (lot : PositionLot) :
    Except InvariantViolation PositionLot :=
  let scaled := lot.quantity * action.shareRatio
  if 1 / 1000000000 < |scaled - roundHalfEven scaled| then .error (.fractionalShares action.symbol)
  else .ok { lot with
    quantity := roundHalfEven scaled
    costPrice := lot.costPrice / action.shareRatio }

/-- Fold a split, bonus issue or cash dividend. -/
def applyCorporateAction (state : AccountState) (action : CorporateAction ℚ) :
    Except InvariantViolation AccountState :=
  let lots := state.lotsOf action.symbol
  if lots.isEmpty then .ok state
  else
    let received := totalQuantity lots * action.cashPerShare
    match lots.mapM (adjustLot action) with
    | .error violation => .error violation
    | .ok adjusted => .ok { state with
        cash := state.cash + received
        realisedPnl := state.realisedPnl + received
        lots := state.lots.insert action.symbol adjusted
        costBasis := match state.costBasis.get? action.symbol with
          | some basis => state.costBasis.insert action.symbol (basis / action.shareRatio)
          | none => state.costBasis }

def check (state : AccountState) : Except InvariantViolation Unit :=
  let all := state.lots.entries.flatMap fun entry ↦ entry.2.map fun lot ↦ (entry.1, lot)
  match all.find? fun entry ↦ entry.2.quantity ≤ 0 with
  | some (symbol, lot) => .error (.lotQuantity symbol lot.positionLotId)
  | none => .ok ()

def book [Hashing ℚ] (state : AccountState) (fill : Fill ℚ) (tradeDate : String) :
    Except InvariantViolation AccountState := do
  let state ← state.applyFill fill tradeDate
  state.check
  return state

def adjust (state : AccountState) (action : CorporateAction ℚ) :
    Except InvariantViolation AccountState := do
  let state ← state.applyCorporateAction action
  state.check
  return state

end AccountState

/-- The session a fill settles against: by execution, else by order, else by its own stamp. -/
def settlementDate (dates : Dict String String) (event : OrderEvent ℚ) (fill : Fill ℚ) : String :=
  orDefault (dates.get? fill.executionId)
    (orDefault (dates.get? event.orderId) (datePart fill.filledAt))

/-- An account replay under way: the account, the executions applied, the ones seen again. -/
structure AccountReplay where
  account : AccountState
  applied : Dict String (Fill ℚ)
  duplicates : List String

namespace AccountReplay

variable [Hashing ℚ]

/-- Fold one event: an execution moves money once. -/
def step (dates : Dict String String) (replay : AccountReplay) (event : OrderEvent ℚ) :
    Except InvariantViolation AccountReplay :=
  if event.eventType.isExecution then
    match event.fill with
    | none => .error (.missingFill event.eventType)
    | some fill =>
      match replay.applied.get? fill.executionId with
      | some seen =>
        if sameExecution seen fill then
          .ok { replay with duplicates := replay.duplicates ++ [fill.executionId] }
        else .error (.conflictingExecution fill.executionId)
      | none => do
          let account ← replay.account.book fill (settlementDate dates event fill)
          return { replay with account, applied := replay.applied.insert fill.executionId fill }
  else .ok replay

omit [Hashing ℚ] in
/-- Fold the corporate actions that stand at one position. -/
def adjustAll (replay : AccountReplay) (actions : List (CorporateAction ℚ)) :
    Except InvariantViolation AccountReplay := do
  let account ← actions.foldlM AccountState.adjust replay.account
  return { replay with account }

/-- Fold the events from an index on, each behind the corporate actions at its index. -/
def run (dates : Dict String String) (actions : List (ℤ × CorporateAction ℚ)) :
    ℕ → AccountReplay → List (OrderEvent ℚ) → Except InvariantViolation AccountReplay
  | _, replay, [] => .ok replay
  | index, replay, event :: rest => do
      let replay ← replay.adjustAll ((actions.filter (·.1 = (index : ℤ))).map (·.2))
      let replay ← replay.step dates event
      run dates actions (index + 1) replay rest

end AccountReplay

def replayAccount [Hashing ℚ] (events : List (OrderEvent ℚ)) (initialCash : ℚ)
    (dates : Dict String String) (actions : List (ℤ × CorporateAction ℚ)) :
    Except InvariantViolation AccountState := do
  let replay ← AccountReplay.run dates actions 0 ⟨.opening initialCash, .empty, []⟩ events
  -- what no event stands behind, in the order of the positions
  let late := (actions.filter fun entry ↦ ¬(0 ≤ entry.1 ∧ entry.1 < (events.length : ℤ))).mergeSort
    fun left right ↦ left.1 ≤ right.1
  let replay ← replay.adjustAll (late.map (·.2))
  return { replay.account with duplicateExecutions := replay.duplicates }

/-- A corporate action read from a mapping; a ratio or a dividend out of range is refused. -/
def CorporateAction.fromDict (payload : Json ℚ) : Option (CorporateAction ℚ) := do
  let corporateActionId ← requiredStr payload "corporateActionId"
  let symbol ← requiredStr payload "symbol"
  let exDate ← requiredStr payload "exDate"
  let shareRatio ← match payload.get? "shareRatio" with
    | none => some 1
    | some (.num value) => some value
    | _ => none
  let cashPerShare ← match payload.get? "cashPerShare" with
    | none => some 0
    | some (.num value) => some value
    | _ => none
  if shareRatio ≤ 0 ∨ cashPerShare < 0 then none
  else some {
    corporateActionId, symbol, exDate, shareRatio, cashPerShare
    lineage := Lineage.fromMapping (payload.get? "lineage") }

namespace CanonicalLedger

/-- The mappings of the corporate actions behind a number of order events, with their positions. -/
def actionsFrom (seen : ℕ) : List (LedgerRecord ℚ) → List (ℕ × Json ℚ)
  | [] => []
  | record :: rest =>
    match record.event with
    | some _ => actionsFrom (seen + 1) rest
    | none =>
      match orNull record.corporateAction with
      | .null => actionsFrom seen rest
      | payload => (seen, payload) :: actionsFrom seen rest

/-- The corporate actions with their positions in the order events. -/
def corporateActions (ledger : CanonicalLedger ℚ) : Option (List (ℤ × CorporateAction ℚ)) :=
  (actionsFrom 0 ledger.records).mapM fun entry ↦
    (CorporateAction.fromDict entry.2).map fun action ↦ ((entry.1 : ℤ), action)

inductive AccountReplayError where
  | book (error : ReplayError)
  | malformedAction
  | account (violation : InvariantViolation)
  deriving DecidableEq

def replay [Hashing ℚ] (now : String) (ledger : CanonicalLedger ℚ) (initialCash : ℚ) :
    Except AccountReplayError (OrderBook ℚ × AccountState) :=
  match ledger.replayBook now with
  | .error error => .error (.book error)
  | .ok book =>
    match ledger.corporateActions with
    | none => .error .malformedAction
    | some actions =>
      match replayAccount ledger.events initialCash ledger.tradeDates actions with
      | .error violation => .error (.account violation)
      | .ok account => .ok (book, account)

end CanonicalLedger

end QuantAgent.Domain
