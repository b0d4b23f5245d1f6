import QuantAgent.Library.DictTotal
import QuantAgent.Simulator.TargetOrders

/-!
# The strict execution simulator

Targets are dated on the session they are known at and executed at the close of the next one.  Every
session between the first and the last execution is valued: its inventory settles, its corporate
actions are credited, the orders of its signal go through the broker, and the book is marked.  A
session whose data cannot be trusted is skipped as a whole.
-/

namespace QuantAgent.Simulator

open Library
open Execution (OrderSide OrderStatus)

variable {D : Type}

/-- `AShareExecutionSimulationConfig`, as far as a run depends on it. -/
structure SimulationConfig where
  initialCash : ℚ
  minOrderValueYuan : ℚ
  allowOddLotSellOnlyForFullLiquidation : Bool
  volumeParticipationCap : ℚ
  slippageBps : ℚ
  blockStBuy : Bool
  maxStWeight : ℚ
  fixCrossDayOrderDedup : Bool

def plainConfig : SimulationConfig where
  initialCash := 100000
  minOrderValueYuan := 100
  allowOddLotSellOnlyForFullLiquidation := true
  volumeParticipationCap := 1 / 10
  slippageBps := 0
  blockStBuy := true
  maxStWeight := 0
  fixCrossDayOrderDedup := true

/-- `_position_price`. -/
def positionPrice (prices : List (String × ℚ)) (symbol : String) (position : Position) : ℚ :=
  (prices.lookup symbol).getD position.avgCost

/-- `_mark_to_market_nav`. -/
def markToMarketNav (ledger : PositionLedger) (prices : List (String × ℚ)) : ℚ :=
  ledger.cash + ledger.positions.total fun symbol position ↦
    position.shares * positionPrice prices symbol position

/-- `_current_weights`. -/
def currentWeights (ledger : PositionLedger) (prices : List (String × ℚ)) : List (String × ℚ) :=
  let nav := markToMarketNav ledger prices
  if 0 < nav then
    ledger.positions.entries.map fun entry ↦
      (entry.1, entry.2.shares * positionPrice prices entry.1 entry.2 / nav)
  else []

/-- The adjustment of one stock under special treatment. -/
def adjustSt (config : SimulationConfig) (current : List (String × ℚ)) (adjusted : Weights)
    (symbol : String) : Weights :=
  let held := (current.lookup symbol).getD 0
  match (adjusted.get? symbol).getD (some 0) with
  | none => adjusted
  | some desired =>
    let weight := if config.blockStBuy && held < desired then held else desired
    if 0 ≤ config.maxStWeight && config.maxStWeight < desired then
      adjusted.insert symbol (some (min weight (max held config.maxStWeight)))
    else if config.blockStBuy && held < desired then adjusted.insert symbol (some weight)
    else adjusted

/-- `_apply_st_policy`. -/
def applyStPolicy (config : SimulationConfig) (weights : Weights) (current : List (String × ℚ))
    (day : Panel D) : Weights :=
  if .isSt ∈ day.columns then
    ((day.rows.filter fun row ↦ (row.cell .isSt).numeric.any (· ≠ 0)).map Bar.symbol).foldl
      (adjustSt config current) weights
  else weights

namespace Books

def writeOff (books : Books D) (date : D) (row : Bar D) (position : Position) (close : ℚ) :
    Books D :=
  { books with
    ledger := { books.ledger with positions := books.ledger.positions.erase row.symbol }
    taxLots := books.taxLots.map fun lots ↦ lots.writeOff row.symbol
    caRows := books.caRows ++ [{
      tradeDate := date
      symbol := row.symbol
      sharesBefore := position.shares
      cashPerShare := 0
      shareRatio := -1
      bonusShares := -position.shares
      cashCredit := 0
      close
      basis := "delisting_writeoff"
      writtenOffValue := some (position.shares * close) }] }

def credit (books : Books D) (date : D) (row : Bar D) (position : Position)
    (cashPerShare shareRatio close : ℚ) : Books D :=
  let exactNew := position.shares * shareRatio
  let newShares := ⌊exactNew + lotTolerance⌋
  let credit := position.shares * cashPerShare + (exactNew - newShares) * close
  let total := position.shares + newShares
  let avgCost := if total = 0 then 0
    else (position.avgCost * position.shares - credit) / total
  { books with
    ledger := {
      positions := books.ledger.positions.insert row.symbol
        ⟨position.availableShares, position.frozenShares + newShares, avgCost⟩
      cash := books.ledger.cash + credit }
    taxLots := books.taxLots.map fun lots ↦
      (lots.dividend row.symbol cashPerShare).bonus row.symbol shareRatio
    caRows := books.caRows ++ [{
      tradeDate := date
      symbol := row.symbol
      sharesBefore := position.shares
      cashPerShare
      shareRatio
      bonusShares := newShares
      cashCredit := credit
      close
      basis := row.basis
      writtenOffValue := none }] }

/-- One row of the loop of `_apply_corporate_actions`, for the position held before the loop. -/
def applyRow (day : Panel D) (date : D) (held : Dict String Position) (books : Books D)
    (row : Bar D) : Books D :=
  match (held.get? row.symbol).filter fun position ↦ 0 < position.shares with
  | none => books
  | some position =>
    let close := (day.cell row .close).orZero.getD 0
    if (day.cell row .delistingWriteoff).truthy then books.writeOff date row position close
    else
      match (day.cell row .caCashPerShare).orZero, (day.cell row .caShareRatio).orZero with
      | some cashPerShare, some shareRatio =>
        if cashPerShare = 0 ∧ shareRatio = 0 then books
        else books.credit date row position cashPerShare shareRatio close
      | _, _ => books

/-- `_apply_corporate_actions`. -/
def applyCorporateActions (day : Panel D) (date : D) (books : Books D) : Books D :=
  if .caCashPerShare ∈ day.columns ∨ .caShareRatio ∈ day.columns ∨
      .delistingWriteoff ∈ day.columns then
    day.rows.foldl (applyRow day date books.ledger.positions) books
  else books

end Books

/-- The part of an order row that is there when the broker knows the order. -/
structure OrderPart where
  symbol : String
  side : OrderSide
  quantity : ℤ
  referencePrice : ℚ
  deriving DecidableEq

/-- The part of an order row that is there when the broker has a fill. -/
structure CostPart where
  commission : ℚ
  stampDuty : ℚ
  transferFee : ℚ
  impactCost : ℚ
  totalCost : ℚ
  deriving DecidableEq

structure OrderRow (D : Type) where
  tradeDate : D
  signalDate : D
  clientOrderId : OrderId D
  status : OrderStatus
  filledQuantity : ℤ
  avgPrice : ℚ
  lastMessage : String
  costs : Option CostPart
  order : Option OrderPart

structure SkippedRow (D : Type) where
  tradeDate : D
  signalDate : D
  skipped : SkippedOrder

structure PositionRow (D : Type) where
  tradeDate : D
  signalDate : Option D
  symbol : String
  availableShares : ℤ
  frozenShares : ℤ
  marketValue : ℚ

section Rows

variable [LinearOrder D]

def orderRow (books : Books D) (date signalDate : D) (state : OrderState D) : OrderRow D where
  tradeDate := date
  signalDate := signalDate
  clientOrderId := state.clientOrderId
  status := state.status
  filledQuantity := state.filledQuantity
  avgPrice := state.avgPrice
  lastMessage := state.lastMessage
  costs := (books.fillsByClientOrderId.get? state.clientOrderId).map fun fill ↦
    ⟨fill.commission, fill.stampDuty, fill.transferFee, fill.impactCost, fill.totalCost⟩
  order := (books.orderObjects.get? state.clientOrderId).map fun order ↦
    ⟨order.symbol, order.side, order.quantity, order.price⟩

omit [LinearOrder D] in
def positionRows (books : Books D) (date : D) (signalDate : Option D)
    (prices : List (String × ℚ)) : List (PositionRow D) :=
  books.ledger.positions.entries.map fun entry ↦
    ⟨date, signalDate, entry.1, entry.2.availableShares, entry.2.frozenShares,
      entry.2.shares * positionPrice prices entry.1 entry.2⟩

end Rows

/-- What a run carries from session to session, and what it has recorded. -/
structure Simulation (D : Type) where
  books : Books D
  manager : OrderManager D
  navRows : List (D × ℚ)
  orderRows : List (OrderRow D)
  skippedRows : List (SkippedRow D)
  positionRows : List (PositionRow D)

/-- The symbols whose bars a session cannot do without. -/
def requiredSymbols (negligibleWeight : ℚ) (ledger : PositionLedger) (weights : Weights) :
    List String :=
  (ledger.positions.entries.filter fun entry ↦ 0 < entry.2.shares).map Prod.fst ++
    (weights.entries.filter fun entry ↦ entry.2.any (negligibleWeight < |·|)).map Prod.fst

/-- Why a session is blocked before anything happens in it. -/
def blockReason (negligibleWeight : ℚ) (ledger : PositionLedger) (weights : Weights)
    (day : Panel D) : Option String :=
  let required := requiredSymbols negligibleWeight ledger weights
  if day.rows.isEmpty then some "execution_session_missing"
  else if ¬ day.symbols.Nodup then some "duplicate_symbol_execution_bar"
  else if .close ∉ day.columns then some "execution_close_column_missing"
  else if ¬ ∀ symbol ∈ required, symbol ∈ day.symbols then some "missing_execution_bar"
  else if ¬ ∀ symbol ∈ required, symbol ∈ (pricesOf day).map Prod.fst then
    some "invalid_execution_close"
  else none

variable [LinearOrder D]

/-- The signals by the session they are executed in. -/
abbrev Schedule (D : Type) := Dict D (D × Weights)

section Loop

variable [SquareRoot] [MarketRules.Platform] [Calendar D]

/-- The orders of a session: the signal of a session without one makes none. -/
def execute (config : SimulationConfig) (clock : D → String) (day : Panel D) (date : D)
    (signal : Option (D × Weights)) (manager : OrderManager D) (books : Books D) :
    OrderManager D × Books D × List (OrderRow D) × List (SkippedRow D) :=
  match signal with
  | none => (manager, books, [], [])
  | some (signalDate, weights) =>
    let prices := pricesOf day
    let adjusted := applyStPolicy config weights (currentWeights books.ledger prices) day
    let nav := markToMarketNav books.ledger prices
    let (manager, books, states, skipped) := manager.reconcile
      ⟨config.volumeParticipationCap, config.slippageBps⟩ day date (clock date) books signalDate
      adjusted prices nav
    (manager, books, states.map (orderRow books date signalDate),
      skipped.map fun order ↦ ⟨date, signalDate, order⟩)

def session (config : SimulationConfig) (market : Panel D) (clock : D → String)
    (schedule : Schedule D) (state : Simulation D) (date : D) : Simulation D :=
  let signal := schedule.get? date
  let weights := (signal.map Prod.snd).getD Dict.empty
  let day := market.onDay date
  if (blockReason state.manager.config.negligibleWeight state.books.ledger weights day).isSome then
    state
  else
    let settled := { state.books with ledger := state.books.ledger.releaseFrozenShares }
    let manager := if config.fixCrossDayOrderDedup then state.manager.resetDailyCounters
      else state.manager
    let books := settled.applyCorporateActions day date
    let prices := pricesOf day
    if prices.isEmpty then { state with books, manager }
    else
      let (manager, books, orders, skipped) := execute config clock day date signal manager books
      { books
        manager
        navRows := state.navRows ++ [(date, markToMarketNav books.ledger prices)]
        orderRows := state.orderRows ++ orders
        skippedRows := state.skippedRows ++ skipped
        positionRows := state.positionRows ++
          positionRows books date (signal.map Prod.fst) prices }

end Loop

/-- `_next_market_session`. -/
def nextMarketSession (signalDate : D) (sessions : List D) : Option D :=
  sessions.find? fun date ↦ signalDate < date

/-- The schedule of a history: a signal is dated on a session and has a next one. -/
def scheduleOf (target : TargetHistory D) (market : Panel D) : Schedule D :=
  (target.rows.insertionSort fun first second ↦ first.1 ≤ second.1).foldl (fun schedule row ↦
    if row.1 ∈ market.sessions then
      match nextMarketSession row.1 market.sessions with
      | none => schedule
      | some executionDate => schedule.insert executionDate (row.1, target.weights row.2)
    else schedule) Dict.empty

def valuationSessions (schedule : Schedule D) (sessions : List D) : List D :=
  match schedule.keys.min?, schedule.keys.max? with
  | some first, some last => sessions.filter fun date ↦ first ≤ date ∧ date ≤ last
  | _, _ => []

/-- The broker, the order manager and the lot book of a new run. -/
def openingOf (config : SimulationConfig) (market : Panel D) : Simulation D where
  books := {
    ledger := ⟨Dict.empty, config.initialCash⟩
    orderObjects := Dict.empty
    fillsByClientOrderId := Dict.empty
    taxLots := if .caCashPerShare ∈ market.columns ∨ .caShareRatio ∈ market.columns then
      some DividendTaxLots.opening else none
    caRows := [] }
  manager := {
    forensicReplay := !config.fixCrossDayOrderDedup
    config := ⟨config.minOrderValueYuan, config.allowOddLotSellOnlyForFullLiquidation, 5,
      1 / 1000000⟩
    countsToday := Dict.empty
    countSession := none
    claims := Dict.empty
    wire := Dict.empty
    submitted := [] }
  navRows := []
  orderRows := []
  skippedRows := []
  positionRows := []

inductive SimulationError where
  | duplicateSignalDates

/-- `simulate_ashare_target_weights`; `clock` is the exchange date on which the run gets to a
session. -/
def simulateAshareTargetWeights [SquareRoot] [MarketRules.Platform] [Calendar D]
    (config : SimulationConfig) (clock : D → String) (target : TargetHistory D)
    (market : Panel D) : Except SimulationError (Simulation D) :=
  if target.rows.isEmpty || target.columns.isEmpty || market.rows.isEmpty then
    .ok (openingOf config market)
  else if ¬ (target.rows.map Prod.fst).Nodup then .error .duplicateSignalDates
  else
    let schedule := scheduleOf target market
    .ok ((valuationSessions schedule market.sessions).foldl
      (session config market clock schedule) (openingOf config market))

end QuantAgent.Simulator
