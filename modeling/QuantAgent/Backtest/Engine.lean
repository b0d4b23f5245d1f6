import QuantAgent.Domain.Mirror
import QuantAgent.QuantMath.Ashare

/-!
# The event-driven backtester

Target weights are traded on a table of prices, session by session and symbol by symbol: what may be
traded is decided, the fill model prices it, the order goes through the canonical book and ledger,
and cash and shares move.  A session is a calendar day by its ISO text; these texts sort as the days
do.  The nested loops of a run are listed as one schedule of ticks.
-/

namespace QuantAgent.Backtest

open Library Domain QuantMath MarketRules

structure CostModelConfig where
  commissionBps : ℚ
  commissionMinRmb : ℚ
  sellStampDutyBps : ℚ
  transferFeeBps : ℚ
  slippageBps : ℚ
  impactCoefficient : ℚ
  impactExponent : ℚ

structure FillModelConfig where
  participationRate : ℚ
  volumeCapRatio : ℚ
  queueFillRatio : ℚ

structure BacktestConfig where
  initialNav : ℚ
  lotSize : ℤ
  fillPriceColumn : String
  nextDayFill : Bool
  cost : CostModelConfig
  fillModel : FillModelConfig
  /-- `ledger_path` is given. -/
  durable : Bool
  lineage : Lineage

/-- `x ** y` of floats. -/
class FloatPower where
  power : ℚ → ℚ → ℚ

inductive EngineError where
  | missingColumn (name : String)
  | band (error : BandError)
  | noDates
  /-- `int(nan)`. -/
  | volumeMissing (symbol : String)
  | zeroDivision
  | order (error : OrderError)
  | mirror (error : MirrorError)

/-- `square_root_impact_bps`. -/
def squareRootImpactBps [FloatPower] (participationRate : ℚ) (config : CostModelConfig) : ℚ :=
  if participationRate ≤ 0 ∨ config.impactCoefficient ≤ 0 then 0
  else 10000 * config.impactCoefficient *
    FloatPower.power participationRate config.impactExponent

structure FillModelResult where
  filledQuantity : ℤ
  fillPrice : ℚ
  rejectReason : Option String

/-- `AShareFillModel.fill`; a missing volume has no integer part. -/
def fillOrder [FloatPower] (config : FillModelConfig) (cost : CostModelConfig) (symbol : String)
    (side : Side) (quantity : ℤ) (price : ℚ) (volume : Option ℚ) :
    Except EngineError FillModelResult :=
  if quantity ≤ 0 then .ok ⟨0, price, some "invalid_lot_quantity"⟩
  else if price ≤ 0 then .ok ⟨0, price, some "missing_price"⟩
  else match volume with
    | none => .error (.volumeMissing symbol)
    | some volume =>
      if volume ≤ 0 then .ok ⟨0, price, some "zero_volume"⟩
      else
        let cap := max 0 (truncate (volume *
          min config.participationRate config.volumeCapRatio * config.queueFillRatio))
        let filled := min quantity (if 0 < cap then cap else quantity)
        let friction := cost.slippageBps + squareRootImpactBps (filled / volume) cost
        let direction : ℚ := match side with
          | .buy => 1
          | .sell => -1
        .ok ⟨filled, price * (1 + direction * friction / 10000), none⟩

/-- Target weights: one row for each date, in order, and one column for each symbol. -/
structure TargetWeights where
  dates : List String
  symbols : List String
  weight : String → String → ℚ
  sorted : dates.Pairwise (· < ·)
  dated : "" ∉ dates
  distinct : symbols.Nodup

structure PricePanel where
  columns : List String
  rows : List PriceRow
  distinct : (rows.map fun row ↦ (row.symbol, row.tradeDate)).Nodup

structure Bar where
  row : PriceRow
  flagUp : Bool
  flagDown : Bool
  flagSusp : Bool
  flagOneWord : Bool

def markRow [Platform] (column : String) (rows : List PriceRow) (row : PriceRow) :
    Except EngineError Bar :=
  match boardPriceLimit row with
  | .error error => .error (.band error)
  | .ok band => .ok {
      row
      flagUp := limitUpMask (prevClose rows row) band (row.cell column)
      flagDown := limitDownMask (prevClose rows row) band (row.cell column)
      flagSusp := suspensionMask rows row
      flagOneWord := oneWordBoardMask rows row band }

def markPanel [Platform] (column : String) (prices : PricePanel) : Except EngineError (List Bar) :=
  match ["close", "high", "low", "volume", column].find? (· ∉ prices.columns) with
  | some name => .error (.missingColumn name)
  | none => prices.rows.mapM (markRow column prices.rows)

def barsOn (tape : List Bar) (date : String) : List Bar :=
  tape.filter fun bar ↦ bar.row.tradeDate = date

def barOf (tape : List Bar) (date symbol : String) : Option Bar :=
  tape.find? fun bar ↦ bar.row.tradeDate = date && bar.row.symbol = symbol

def cellOf (tape : List Bar) (date symbol column : String) : Option ℚ :=
  (barOf tape date symbol).bind fun bar ↦ bar.row.cell column

structure TradeRow where
  tradeDate : String
  symbol : String
  side : Side
  shares : ℚ
  price : ℚ
  commission : ℚ
  transferFee : ℚ
  slippage : ℚ
  stampDuty : Option ℚ

structure RejectRow where
  tradeDate : String
  symbol : String
  reason : String
  oneWordBoard : Bool
  deriving DecidableEq, Repr

structure EngineState where
  cash : ℚ
  nav : ℚ
  positions : String → TPlusOnePosition
  /-- `none` is later than every session. -/
  releaseDates : String → Option String
  mirror : Mirror ℚ
  trades : List TradeRow
  rejects : List RejectRow
  /-- `tradable_target` of the session that is traded. -/
  tradableTarget : String → ℚ

/-- What the surroundings give a run: clock stamps and what becomes of writes, by the number of
events recorded before. -/
structure World where
  moment : ℕ → Moment
  decidedAt : ℕ → String

/-- `_block_reason`. -/
def blockReason (side : Side) (suspended atLimit oneWord : Bool) : String :=
  if suspended then "suspended"
  else if atLimit then
    match side with
    | .buy => "limit_up_no_buy"
    | .sell => "limit_down_no_sell"
  else if oneWord then
    match side with
    | .buy => "one_word_board_no_buy"
    | .sell => "one_word_board_no_sell"
  else
    match side with
    | .buy => "not_tradable_no_buy"
    | .sell => "not_tradable_no_sell"

namespace Bar

/-- `block_buy`. -/
def blockBuy (bar : Bar) : Bool := bar.flagUp || (bar.flagOneWord && !bar.flagDown)

/-- `block_sell`. -/
def blockSell (bar : Bar) : Bool := bar.flagDown || (bar.flagOneWord && !bar.flagUp)

/-- `can_buy`. -/
def canBuy (bar : Bar) : Bool := !bar.blockBuy && !bar.flagSusp

/-- `can_sell`. -/
def canSell (bar : Bar) : Bool := !bar.blockSell && !bar.flagSusp

def reason (bar : Bar) (side : Side) : String :=
  blockReason side bar.flagSusp
    (match side with
      | .buy => bar.flagUp
      | .sell => bar.flagDown)
    bar.flagOneWord

end Bar

/-- What is done about a symbol in a session. -/
inductive Decision where
  /-- Nothing. -/
  | hold
  | missingPrice
  /-- The intent is refused and recorded. -/
  | refuse (side : Side) (quantity : ℤ) (price : ℚ) (reason : String) (oneWordBoard : Bool)
  /-- An order that the fill model fills. -/
  | trade (side : Side) (quantity : ℤ) (price : ℚ) (fill : FillModelResult)

def sideOf (delta : ℤ) : Side := if 0 < delta then .buy else .sell

def decideOrder [FloatPower] (config : BacktestConfig) (bar : Bar) (symbol : String) (price : ℚ)
    (available delta : ℤ) : Except EngineError Decision :=
  let side := sideOf delta
  let quantity : ℤ := |delta|
  if 0 < delta && bar.blockBuy then
    .ok (.refuse .buy quantity price (bar.reason .buy) bar.flagOneWord)
  else if delta < 0 && bar.blockSell then
    .ok (.refuse .sell quantity price (bar.reason .sell) bar.flagOneWord)
  else if bar.flagSusp then .ok (.refuse side quantity price "suspended" false)
  else
    let volume := bar.row.cell "volume"
    match validateOrderIntent symbol side quantity
        ⟨bar.flagUp, bar.flagDown, bar.flagSusp, volume, available⟩ with
    | some reason => .ok (.refuse side quantity price reason false)
    | none =>
      match fillOrder config.fillModel config.cost symbol side quantity price volume with
      | .error error => .error error
      | .ok fill =>
        if fill.filledQuantity ≤ 0 then
          .ok (.refuse side quantity price (orDefault fill.rejectReason "zero_fill") false)
        else .ok (.trade side quantity price fill)

/-- What is done about a symbol whose bar in the session is given. -/
def decideBar [FloatPower] (config : BacktestConfig) (target : ℚ) (state : EngineState) (bar : Bar)
    (symbol : String) (price : ℚ) : Except EngineError Decision :=
  let position := state.positions symbol
  let currentTotal := position.totalShares
  let intendedShares := target * state.nav / max price (1 / 1000000000000)
  if intendedShares < currentTotal && !bar.canSell then
    .ok (.refuse .sell |roundHalfEven (currentTotal - intendedShares)| price (bar.reason .sell)
      bar.flagOneWord)
  else
    let rawTarget := state.tradableTarget symbol * state.nav / max price (1 / 1000000000000)
    let desiredTotal :=
      if (currentTotal : ℚ) ≤ rawTarget then roundOrderQuantity symbol .buy rawTarget
      else currentTotal - roundOrderQuantity symbol .sell (currentTotal - rawTarget)
    let delta := desiredTotal - currentTotal
    if delta = 0 then
      let intendedDelta := intendedShares - currentTotal
      if 0 < intendedDelta && !bar.canBuy then
        .ok (.refuse .buy |roundHalfEven intendedDelta| price (bar.reason .buy) bar.flagOneWord)
      else if intendedDelta < 0 && !bar.canSell then
        .ok (.refuse .sell |roundHalfEven intendedDelta| price (bar.reason .sell) bar.flagOneWord)
      else .ok .hold
    else decideOrder config bar symbol price position.availableShares delta

def decideSymbol [FloatPower] (config : BacktestConfig) (tape : List Bar) (target : ℚ)
    (state : EngineState) (fillDate symbol : String) : Except EngineError Decision :=
  match barOf tape fillDate symbol with
  | none => .ok .missingPrice
  | some bar =>
    match bar.row.cell config.fillPriceColumn with
    | none => .ok .missingPrice
    | some price => decideBar config target state bar symbol price

section Canonical

variable [Hashing ℚ]

def record (world : World) (mirror : Mirror ℚ) (orderId : String) (kind : OrderEventType)
    (fill : Option (Fill ℚ)) (reason : Option String) (riskDecision : Option (RiskDecision ℚ))
    (session : String) : Except EngineError (Mirror ℚ) :=
  let moment := world.moment mirror.book.events.length
  match mirror.book.apply orderId kind fill reason riskDecision moment.now with
  | .error error => .error (.order error)
  | .ok (book, order) =>
    match Mirror.recordLast book mirror.ledger moment order orderId (some session) none with
    | (_, .error error) => .error (.mirror error)
    | (mirror, .ok _) => .ok mirror

def intentFor (lineage : Lineage) (symbol : String) (side : Side) (quantity : ℤ)
    (signalDate session : String) (referencePrice : ℚ) : Except OrderError (OrderIntent ℚ) :=
  OrderIntent.create symbol side (quantity : ℚ) session
    (Signal.create (N := ℚ) symbol signalDate lineage) none (some referencePrice)

def openIntent (lineage : Lineage) (world : World) (mirror : Mirror ℚ) (symbol : String)
    (side : Side) (quantity : ℤ) (signalDate session : String) (referencePrice : ℚ) :
    Except EngineError (Mirror ℚ × Domain.Order ℚ) :=
  match intentFor lineage symbol side quantity signalDate session referencePrice with
  | .error error => .error (.order error)
  | .ok intent =>
    match mirror.mirrorOpen (world.moment mirror.book.events.length) intent none
        (some session) with
    | (_, .error error) => .error (.mirror error)
    | (mirror, .ok order) => .ok (mirror, order)

/-- `_open_canonical_order`: reaching it is the approval. -/
def openCanonicalOrder (lineage : Lineage) (world : World) (mirror : Mirror ℚ) (symbol : String)
    (side : Side) (quantity : ℤ) (session : String) (referencePrice : ℚ) :
    Except EngineError (Mirror ℚ × Domain.Order ℚ) := do
  let (mirror, order) ← openIntent lineage world mirror symbol side quantity session session
    referencePrice
  let decision := RiskDecision.create true "fast_engine_pretrade" (.str "tradability+lot+band")
    (.str "passed") "passed upstream constraints" order.lineage "risk_engine"
    (world.decidedAt mirror.book.events.length)
  let mirror ← record world mirror order.orderId .riskApproved none none (some decision) session
  let mirror ← record world mirror order.orderId .submitted none none none session
  let mirror ← record world mirror order.orderId .accepted none none none session
  return (mirror, order)

/-- `_record_rejected_intent`. -/
def recordRejectedIntent (lineage : Lineage) (world : World) (mirror : Mirror ℚ) (symbol : String)
    (side : Side) (quantity : ℤ) (session : String) (referencePrice : ℚ) (reason : String) :
    Except EngineError (Mirror ℚ) := do
  -- the intent existed even when it rounded to nothing
  let quantity := if quantity ≤ 0 then 1 else quantity
  let (mirror, order) ← openIntent lineage world mirror symbol side quantity
    (session ++ "-rej-" ++ reason) session referencePrice
  let decision := RiskDecision.create false reason (.str "a-share tradability") (.str reason)
    reason order.lineage "risk_engine" (world.decidedAt mirror.book.events.length)
  record world mirror order.orderId .riskRejected none (some reason) (some decision) session

/-- `_record_canonical_fill`. -/
def recordCanonicalFill (world : World) (mirror : Mirror ℚ) (order : Domain.Order ℚ)
    (executed : Fill ℚ) (session : String) : Except EngineError (Mirror ℚ) :=
  record world mirror order.orderId (if order.quantity ≤ executed.quantity then .fill else .partialFill)
    (some executed) none none session

/-- `_close_canonical_order` with a rejection. -/
def closeCanonicalOrder (world : World) (mirror : Mirror ℚ) (order : Domain.Order ℚ)
    (reason session : String) : Except EngineError (Mirror ℚ) :=
  record world mirror order.orderId .rejected none (some reason) none session

end Canonical

/-- Commission and transfer fee of a gross amount. -/
def commissionOf (cost : CostModelConfig) (gross : ℚ) : ℚ :=
  max (gross * cost.commissionBps / 10000) cost.commissionMinRmb

def transferOf (cost : CostModelConfig) (gross : ℚ) : ℚ := gross * cost.transferFeeBps / 10000

def stampOf (cost : CostModelConfig) (gross : ℚ) : ℚ := gross * cost.sellStampDutyBps / 10000

def costTotal (cost : CostModelConfig) (gross : ℚ) : ℚ :=
  gross + commissionOf cost gross + transferOf cost gross

def proceedsOf (cost : CostModelConfig) (gross : ℚ) : ℚ :=
  gross - commissionOf cost gross - transferOf cost gross - stampOf cost gross

/-- `int(cash // (price * lot_size)) * lot_size`. -/
def affordableLots (config : BacktestConfig) (cash price : ℚ) : ℤ :=
  ⌊cash / (price * config.lotSize)⌋ * config.lotSize

/-- The shares that `_execute_buy` buys, none of them where the cash does not reach. -/
def boughtShares (config : BacktestConfig) (cash : ℚ) (shares : ℤ) (price : ℚ) :
    Except EngineError ℤ :=
  if shares ≤ 0 ∨ price ≤ 0 then .ok 0
  else if cash < costTotal config.cost (shares * price) then
    if config.lotSize = 0 then .error .zeroDivision
    else .ok (max 0 (affordableLots config cash price))
  else .ok shares

/-- The shares that `_execute_sell` sells. -/
def soldShares (position : TPlusOnePosition) (shares : ℤ) (price : ℚ) : ℤ :=
  if position.sellable shares ≤ 0 ∨ price ≤ 0 then 0 else position.sellable shares

/-- `_canonical_fill`. -/
def canonicalFill (order : Domain.Order ℚ) (symbol : String) (side : Side) (shares : ℤ)
    (price referencePrice commission transfer stamp : ℚ) (session : String) : Fill ℚ :=
  let executionId := order.orderId ++ "-ex" ++ toString (order.fills.length + 1)
  { executionId
    orderId := order.orderId
    symbol
    side
    quantity := shares
    price
    referencePrice := some referencePrice
    commission
    stampDuty := stamp
    transferFee := transfer
    filledAt := session
    lineage := order.lineage.derive .executionId (some executionId) }

/-- `_trade_row`. -/
def tradeRow (fill : Fill ℚ) (date : String) : TradeRow where
  tradeDate := date
  symbol := fill.symbol
  side := fill.side
  shares := fill.quantity
  price := fill.price
  commission := fill.commission
  transferFee := fill.transferFee
  slippage := fill.slippage
  stampDuty := match fill.side with
    | .sell => some fill.stampDuty
    | .buy => none

namespace EngineState

def withPosition (state : EngineState) (symbol : String) (position : TPlusOnePosition) :
    EngineState :=
  { state with positions := Function.update state.positions symbol position }

/-- `_reject`. -/
def reject (state : EngineState) (fillDate symbol reason : String) (oneWordBoard : Bool) :
    EngineState :=
  { state with rejects := state.rejects ++ [⟨fillDate, symbol, reason, oneWordBoard⟩] }

def buyFill (config : BacktestConfig) (order : Domain.Order ℚ) (symbol : String) (shares : ℤ)
    (price referencePrice : ℚ) (fillDate : String) : Fill ℚ :=
  let gross := shares * price
  canonicalFill order symbol .buy shares price referencePrice (commissionOf config.cost gross)
    (transferOf config.cost gross) 0 fillDate

def sellFill (config : BacktestConfig) (order : Domain.Order ℚ) (symbol : String) (shares : ℤ)
    (price referencePrice : ℚ) (fillDate : String) : Fill ℚ :=
  let gross := shares * price
  canonicalFill order symbol .sell shares price referencePrice (commissionOf config.cost gross)
    (transferOf config.cost gross) (stampOf config.cost gross) fillDate

/-- `_execute_buy` of shares that are paid for. -/
def executeBuy (state : EngineState) (config : BacktestConfig) (symbol : String) (shares : ℤ)
    (price : ℚ) (executed : Fill ℚ) (fillDate : String) : EngineState :=
  { state with
    cash := state.cash - costTotal config.cost (shares * price)
    positions := Function.update state.positions symbol ((state.positions symbol).buy shares)
    trades := state.trades ++ [tradeRow executed fillDate] }

/-- `_execute_sell` once the shares have left the position. -/
def executeSell (state : EngineState) (config : BacktestConfig) (shares : ℤ) (price : ℚ)
    (executed : Fill ℚ) (fillDate : String) : EngineState :=
  { state with
    cash := state.cash + proceedsOf config.cost (shares * price)
    trades := state.trades ++ [tradeRow executed fillDate] }

variable [Hashing ℚ]

def buy (config : BacktestConfig) (world : World) (state : EngineState) (order : Domain.Order ℚ)
    (fillDate : String) (release : Option String) (symbol : String) (price : ℚ)
    (fill : FillModelResult) : Except EngineError EngineState := do
  let shares ← boughtShares config state.cash fill.filledQuantity fill.fillPrice
  if shares ≤ 0 then
    let mirror ← closeCanonicalOrder world state.mirror order "insufficient_cash" fillDate
    return { state.reject fillDate symbol "insufficient_cash" false with mirror }
  else
    let executed := buyFill config order symbol shares fill.fillPrice price fillDate
    let mirror ← recordCanonicalFill world state.mirror order executed fillDate
    -- settlement falls strictly after the fill session
    return { state.executeBuy config symbol shares fill.fillPrice executed fillDate with
      releaseDates := Function.update state.releaseDates symbol release
      mirror }

/-- A sale behind its canonical order: the shares leave the position first. -/
def sell (config : BacktestConfig) (world : World) (state : EngineState) (order : Domain.Order ℚ)
    (fillDate symbol : String) (price : ℚ) (fill : FillModelResult) :
    Except EngineError EngineState := do
  let position := state.positions symbol
  let shares := soldShares position fill.filledQuantity fill.fillPrice
  let state := state.withPosition symbol (position.sell fill.filledQuantity)
  if shares ≤ 0 then
    let mirror ← closeCanonicalOrder world state.mirror order "no_sellable_inventory" fillDate
    return { state with mirror }
  else
    let executed := sellFill config order symbol shares fill.fillPrice price fillDate
    let mirror ← recordCanonicalFill world state.mirror order executed fillDate
    return { state.executeSell config shares fill.fillPrice executed fillDate with mirror }

def carryOut (config : BacktestConfig) (world : World) (state : EngineState) (fillDate : String)
    (release : Option String) (symbol : String) : Decision → Except EngineError EngineState
  | .hold => .ok state
  | .missingPrice => .ok (state.reject fillDate symbol "missing_price" false)
  | .refuse side quantity price reason oneWordBoard => do
      let mirror ← recordRejectedIntent config.lineage world state.mirror symbol side quantity
        fillDate price reason
      return { state.reject fillDate symbol reason oneWordBoard with mirror }
  | .trade side quantity price fill => do
      let (mirror, order) ← openCanonicalOrder config.lineage world state.mirror symbol side
        quantity fillDate price
      match side with
      | .buy => buy config world { state with mirror } order fillDate release symbol price fill
      | .sell => sell config world { state with mirror } order fillDate symbol price fill

def markToMarket (state : EngineState) (tape : List Bar) (date : String) (symbols : List String) :
    ℚ :=
  symbols.foldl (fun equity symbol ↦
    match cellOf tape date symbol "close" with
    | none => equity
    | some close => equity + (state.positions symbol).totalShares * close) state.cash

/-- `_current_weights`. -/
def currentWeight (state : EngineState) (tape : List Bar) (date symbol : String) : ℚ :=
  if state.nav ≤ 0 then 0
  else (state.positions symbol).totalShares * (cellOf tape date symbol "close").getD 0 / state.nav

def plan (state : EngineState) (weights : TargetWeights) (tape : List Bar)
    (date fillDate symbol : String) : ℚ :=
  let bar := barOf tape fillDate symbol
  enforceTradability (weights.weight date symbol) (state.currentWeight tape date symbol)
    (bar.any Bar.canBuy) (bar.any Bar.canSell)

def settle (state : EngineState) (date : String) (symbols : List String) : EngineState :=
  { state with positions := fun symbol ↦
      let position := state.positions symbol
      if symbol ∈ symbols && 0 < position.frozenTodayShares &&
          (state.releaseDates symbol).any (· ≤ date) then position.settleOvernight
      else position }

end EngineState

inductive Tick where
  | settle (date : String)
  | mark (date : String)
  /-- There is no session to fill in any more. -/
  | noSession (date : String)
  | plan (date fillDate : String)
  /-- A symbol is processed; what is bought settles on the release date. -/
  | trade (date fillDate : String) (release : Option String) (symbol : String)

/-- The loops over dates and symbols, one tick after the other. -/
def schedule (config : BacktestConfig) (tape : List Bar) (symbols : List String) :
    List String → List Tick
  | [] => []
  | date :: rest =>
    let ticks :=
      if (barsOn tape date).isEmpty then []
      else if config.nextDayFill then
        .mark date :: match rest with
          | [] => [.noSession date]
          | fillDate :: later =>
            .plan date fillDate :: symbols.map (.trade date fillDate later.head?)
      else .plan date date :: symbols.map (.trade date date rest.head?) ++ [.mark date]
    .settle date :: ticks ++ schedule config tape symbols rest

section Run

variable [Hashing ℚ] [FloatPower]

def tick (config : BacktestConfig) (weights : TargetWeights) (tape : List Bar) (world : World)
    (state : EngineState) : Tick → Except EngineError EngineState
  | .settle date => .ok (state.settle date weights.symbols)
  | .mark date => .ok { state with nav := state.markToMarket tape date weights.symbols }
  | .noSession date => .ok (state.reject date "*" "no_next_session_to_fill" false)
  | .plan date fillDate =>
    .ok { state with tradableTarget := state.plan weights tape date fillDate }
  | .trade date fillDate release symbol =>
    match decideSymbol config tape (weights.weight date symbol) state fillDate symbol with
    | .error error => .error error
    | .ok decision => state.carryOut config world fillDate release symbol decision

/-- A run before its first session, on an empty ledger. -/
def opening (config : BacktestConfig) (weights : TargetWeights) : EngineState where
  cash := config.initialNav
  nav := config.initialNav
  positions _ := .none
  releaseDates _ := weights.dates.head?
  mirror := .fresh config.durable
  trades := []
  rejects := []
  tradableTarget _ := 0

/-- `EventDrivenBacktester.run` on an empty ledger, up to its report. -/
def run [Platform] (config : BacktestConfig) (weights : TargetWeights) (prices : PricePanel)
    (world : World) : Except EngineError EngineState := do
  let tape ← markPanel config.fillPriceColumn prices
  if weights.dates = [] ∧ weights.symbols ≠ [] then throw .noDates
  (schedule config tape weights.symbols weights.dates).foldlM (tick config weights tape world)
    (opening config weights)

end Run

end QuantAgent.Backtest
