import QuantAgent.Data.GoldPanel

/-!
# The execution panel

One row for each session in the life of a symbol: the bars that traded, the sessions without a trade
at the close that is carried, and a row that writes a delisted holding off.  Prices are as they
traded, so a row also credits the corporate actions that take effect on it.  Prices and factors are
exact, and a cell without a finite number is `none`.
-/

namespace QuantAgent.Data

open Library Domain MarketRules

/-- `GAP_TRADED`, `GAP_NO_TRADE`, `GAP_CLASSES` and `GAP_DELISTED`. -/
inductive GapClass where
  | traded | noTradeZeroVolume | suspended | missingUnexplained | providerHistoryTruncated | delisted
  deriving DecidableEq, Repr

/-- A class of `GAP_CLASSES`, by its name. -/
def gapClassNamed (name : String) : Option GapClass :=
  if name = "SUSPENDED" then some .suspended
  else if name = "MISSING_UNEXPLAINED" then some .missingUnexplained
  else if name = "PROVIDER_HISTORY_TRUNCATED" then some .providerHistoryTruncated
  else none

/-- The state of a price limit; a session without a trade has none. -/
inductive LimitStatus where
  | notTraded
  | known (mask : Mask)
  deriving DecidableEq, Repr

/-- `CA_BASIS_NONE`, `CA_BASIS_CORPORATE_ACTION` and `CA_BASIS_FACTOR_VALUE`. -/
inductive CaBasis where
  | nothing | corporateAction | factorValueEquivalent
  deriving DecidableEq, Repr

/-- `CA_MATCH_TOLERANCE`. -/
def caMatchTolerance : ℚ := 5 / 1000

structure TradedBar where
  symbol : String
  tradeDate : Date
  openPrice : Option ℚ
  high : Option ℚ
  low : Option ℚ
  close : Option ℚ
  volume : Option ℚ
  amount : Option ℚ
  /-- A date and the minutes of its clock. -/
  availableAt : Option (Date × ℕ)
  servingProvider : Option String
  source : Option String
  adjustmentMethod : Option String
  maskIsSuspended : Mask
  maskIsSt : Mask
  maskLimitUp : Mask
  maskLimitDown : Mask

structure TradedBars where
  columns : List String
  bars : List TradedBar

structure SessionGap where
  symbol : String
  tradeDate : Date
  classification : String

structure FactorStep where
  symbol : String
  effectiveDate : Option Date
  hfqFactor : Option ℚ

/-- A row of the dividend record; `rightsRatio` is the transfer of capital reserve. -/
structure DividendRecord where
  symbol : String
  exDate : Option Date
  cashDividendPerShare : Option ℚ
  stockDividendRatio : Option ℚ
  rightsRatio : Option ℚ

structure DividendTable where
  columns : List String
  records : List DividendRecord

structure PanelTables where
  sessionGaps : List SessionGap
  factors : List FactorStep
  corporateActions : DividendTable
  st : List RegisterInterval
  stCoverage : RegisterCoverage
  delistingDates : List (String × Option Date)

inductive ExecutionPanelError where
  | missingColumns (names : List String)
  | rawPricesNeeded (methods : List String)
  | gapsCollide (count : ℕ)
  | unknownClasses (names : List String)
  | register (error : GoldBridgeError)
  | noDefault (column : String)

structure SessionRow where
  symbol : String
  tradeDate : Date
  openPrice : Option ℚ
  high : Option ℚ
  low : Option ℚ
  close : Option ℚ
  volume : Option ℚ
  amount : Option ℚ
  availableAt : Option (Date × ℕ)
  servingProvider : Option String
  gapClassification : GapClass
  suspensionStatus : Mask
  stStatus : Mask
  limitUpStatus : LimitStatus
  limitDownStatus : LimitStatus
  deriving DecidableEq

def SessionRow.key (row : SessionRow) : String ×ₗ Date := toLex (row.symbol, row.tradeDate)

/-- A row that is valued at a carried close and never trades. -/
def SessionRow.isGap (row : SessionRow) : Bool := row.gapClassification ≠ .traded

def requiredColumns : List String :=
  ["symbol", "trade_date", "open", "high", "low", "close", "volume", "amount", "mask_is_suspended",
    "mask_is_st", "mask_limit_up", "mask_limit_down"]

def afterClose (date : Date) : Date × ℕ := (date, 15 * 60)

namespace TradedBars

/-- `no_trade`: the stock printed but did not trade. -/
def noTrade (bar : TradedBar) : Bool := bar.volume.any (· ≤ 0) || bar.amount.any (· ≤ 0)

def rowOf (traded : TradedBars) (bar : TradedBar) : SessionRow where
  symbol := bar.symbol
  tradeDate := bar.tradeDate
  openPrice := bar.openPrice
  high := bar.high
  low := bar.low
  close := bar.close
  volume := bar.volume
  amount := bar.amount
  availableAt :=
    if "available_at" ∈ traded.columns then bar.availableAt else some (afterClose bar.tradeDate)
  servingProvider :=
    if "serving_provider" ∈ traded.columns then bar.servingProvider
    else if "source" ∈ traded.columns then bar.source else some "unknown"
  gapClassification := if noTrade bar then .noTradeZeroVolume else .traded
  suspensionStatus := bar.maskIsSuspended
  stStatus := bar.maskIsSt
  limitUpStatus := if noTrade bar then .notTraded else .known bar.maskLimitUp
  limitDownStatus := if noTrade bar then .notTraded else .known bar.maskLimitDown

def declaredMethods (traded : TradedBars) : List String :=
  if "adjustment_method" ∈ traded.columns then
    (traded.bars.filterMap TradedBar.adjustmentMethod).dedup.insertionSort (· ≤ ·)
  else []

end TradedBars

def gapsInSpan (bars : List SessionRow) (gaps : List SessionGap) (finish : Option Date) :
    List SessionGap :=
  match (bars.map SessionRow.tradeDate).min?, (bars.map SessionRow.tradeDate).max? with
  | some lo, some last =>
    (gaps.filter fun gap ↦
      gap.symbol ∈ bars.map SessionRow.symbol ∧ lo ≤ gap.tradeDate ∧
        gap.tradeDate ≤ finish.getD last).eraseDupsBy
      fun first second ↦ first.symbol = second.symbol && first.tradeDate = second.tradeDate
  | _, _ => []

def overlap (bars : List SessionRow) (gaps : List SessionGap) : ℕ :=
  (gaps.map fun gap ↦ bars.countP fun row ↦
    row.symbol = gap.symbol ∧ row.tradeDate = gap.tradeDate).sum

def providerOf (rows : List SessionRow) (symbol : String) : Option String :=
  (rows.find? fun row ↦ row.symbol = symbol).bind SessionRow.servingProvider

def untradedRow (bars : List SessionRow) (symbol : String) (date : Date) (gapClass : GapClass)
    (suspended st : Mask) : SessionRow where
  symbol := symbol
  tradeDate := date
  openPrice := none
  high := none
  low := none
  close := none
  volume := some 0
  amount := some 0
  availableAt := some (afterClose date)
  servingProvider := providerOf bars symbol
  gapClassification := gapClass
  suspensionStatus := suspended
  stStatus := st
  limitUpStatus := .notTraded
  limitDownStatus := .notTraded

def gapRow (bars : List SessionRow) (st : List RegisterInterval) (covered : List String)
    (gap : SessionGap) (gapClass : GapClass) : SessionRow :=
  untradedRow bars gap.symbol gap.tradeDate gapClass
    (if gapClass = .suspended then .isTrue else .unknown)
    (intervalMask st covered ⟨gap.symbol, gap.tradeDate, none, none, none, none, none, none⟩)

/-- `gap_rows`. -/
def gapRows (bars : List SessionRow) (tables : PanelTables) (gaps : List SessionGap) :
    Except ExecutionPanelError (List SessionRow) :=
  if 0 < overlap bars gaps then .error (.gapsCollide (overlap bars gaps))
  else
    let unknown := (gaps.map SessionGap.classification).filter fun name ↦ gapClassNamed name = none
    if unknown ≠ [] then .error (.unknownClasses (unknown.dedup.insertionSort (· ≤ ·)))
    else if gaps = [] then .ok []
    else match normaliseCoverage tables.stCoverage with
      | .error error => .error (.register error)
      | .ok covered => .ok (gaps.filterMap fun gap ↦
        (gapClassNamed gap.classification).map (gapRow bars tables.st covered gap))

/-- `delisted_rows`: the first session after a delisting, when the rows of the name end by it. -/
def delistedRows (rows : List SessionRow) (delistingDates : List (String × Option Date)) :
    List SessionRow :=
  delistingDates.filterMap fun (symbol, date) ↦ do
    let delisting ← date
    let session ← ((rows.map SessionRow.tradeDate).filter (delisting < ·)).min?
    let lastSeen ← ((rows.filter fun row ↦ row.symbol = symbol).map SessionRow.tradeDate).max?
    if lastSeen < session then
      some (untradedRow rows symbol session .delisted .isTrue .unknown) else none

def sessionRows (traded : TradedBars) (tables : PanelTables) (finish : Option Date) :
    Except ExecutionPanelError (List SessionRow) :=
  let missing := requiredColumns.filter (· ∉ traded.columns)
  if missing ≠ [] then .error (.missingColumns (missing.insertionSort (· ≤ ·)))
  else if traded.declaredMethods.any (· ≠ "none") then
    .error (.rawPricesNeeded traded.declaredMethods)
  else
    let bars := traded.bars.map traded.rowOf
    match gapRows bars tables (gapsInSpan bars tables.sessionGaps finish) with
    | .error error => .error error
    | .ok gaps => .ok ((bars ++ gaps ++ delistedRows (bars ++ gaps) tables.delistingDates
        ).insertionSort fun first second ↦ first.key ≤ second.key)

structure ExecutionRow extends SessionRow where
  adjustFactor : ℚ
  isSuspended : Bool
  isSt : Bool
  isLimitUp : Bool
  isLimitDown : Bool
  amountMeasured : Bool
  delistingWriteoff : Bool
  caCashPerShare : ℚ
  caShareRatio : ℚ
  caBasis : CaBasis
  deriving DecidableEq

/-- `_factor_asof`: the factor in force on a date, and one before the first step. -/
def factorAsof (factors : List FactorStep) (symbol : String) (date : Date) : ℚ :=
  let own := factors.filter fun step ↦ step.symbol = symbol
  let steps := own.filterMap fun step ↦
    (step.effectiveDate.filter (· ≤ date)).map fun effective ↦ (effective, step.hfqFactor)
  ((steps.insertionSort fun first second ↦ first.1 ≤ second.1).getLast?.bind Prod.snd).getD 1

/-- The last ex-rights date of a symbol up to a date, with the cash and the shares of that date. -/
def dividendAsof (records : List DividendRecord) (symbol : String) (date : Date) :
    Option (Date × ℚ × ℚ) :=
  let own := records.filter fun record ↦ record.symbol = symbol
  ((own.filterMap DividendRecord.exDate).filter (· ≤ date)).max?.map fun exDate ↦
    let dated := own.filter fun record ↦ record.exDate = some exDate
    (exDate, (dated.map fun record ↦ record.cashDividendPerShare.getD 0).sum,
      (dated.map fun record ↦ record.stockDividendRatio.getD 0 + record.rightsRatio.getD 0).sum)

/-- The dividends between two rows, when they explain the step of the factor. -/
def explained (records : List DividendRecord) (symbol : String) (previousDate date : Date)
    (previousClose factorRatio : ℚ) : Option (ℚ × ℚ) := do
  let (exDate, cash, share) ← dividendAsof records symbol date
  let denominator := previousClose - cash
  let implied := (1 + share) * previousClose / denominator
  if previousDate < exDate ∧ 0 < denominator ∧
      |implied / factorRatio - 1| ≤ caMatchTolerance then some (cash, share) else none

structure Credit where
  cash : ℚ
  share : ℚ
  basis : CaBasis

def creditOf (records : List DividendRecord) (previous : ExecutionRow) (date : Date) (factor : ℚ) :
    Credit :=
  match previous.close with
  | none => ⟨0, 0, .nothing⟩
  | some previousClose =>
    let factorRatio := factor / previous.adjustFactor
    if 1 / 1000000000 < |factorRatio - 1| then
      match explained records previous.symbol previous.tradeDate date previousClose
        factorRatio with
      | some (cash, share) => ⟨cash, share, .corporateAction⟩
      | none => ⟨previousClose - previousClose / factorRatio, 0, .factorValueEquivalent⟩
    else ⟨0, 0, .nothing⟩

/-- The row before, with the adjusted close that is carried from the last trade. -/
structure Carry where
  row : ExecutionRow
  adjustedFilled : Option ℚ

def rowAfter (factors : List FactorStep) (records : List DividendRecord) (last : Option Carry)
    (row : SessionRow) : Carry :=
  let before := last.filter fun carry ↦ carry.row.symbol = row.symbol
  let factor := factorAsof factors row.symbol row.tradeDate
  let filled := before.bind Carry.adjustedFilled
  -- Only traded closes anchor the carry.
  let adjustedFilled := if row.isGap then filled else (row.close.map (· * factor)).or filled
  let close := if row.isGap then adjustedFilled.map fun anchor ↦ roundCents (anchor / factor)
    else row.close
  let price := fun traded ↦ if row.isGap then close else traded
  let credit := (before.map fun carry ↦ creditOf records carry.row row.tradeDate factor).getD
    ⟨0, 0, .nothing⟩
  { row := {
      row with
      openPrice := price row.openPrice
      high := price row.high
      low := price row.low
      close
      adjustFactor := factor
      isSuspended := row.isGap || row.suspensionStatus = .isTrue
      isSt := row.stStatus = .isTrue
      isLimitUp := !row.isGap && row.limitUpStatus ≠ .known .isFalse
      isLimitDown := !row.isGap && row.limitDownStatus ≠ .known .isFalse
      amountMeasured := row.amount.isSome
      delistingWriteoff := row.gapClassification = .delisted
      caCashPerShare := credit.cash
      caShareRatio := credit.share
      caBasis := credit.basis }
    adjustedFilled }

def rowsAfter (factors : List FactorStep) (records : List DividendRecord) :
    Option Carry → List SessionRow → List ExecutionRow
  | _, [] => []
  | last, row :: rows =>
    let carry := rowAfter factors records last row
    carry.row :: rowsAfter factors records (some carry) rows

/-- The columns of the dividend record for which the code has a default of the wrong type. -/
def dividendColumns : List String :=
  ["stock_dividend_ratio", "rights_ratio", "cash_dividend_per_share"]

/-- `no_prior`: a session without a trade that no close can be carried to. -/
def ExecutionRow.noPrior (row : ExecutionRow) : Bool := row.isGap && row.close.isNone

def ExecutionRow.kept (start finish : Option Date) (row : ExecutionRow) : Bool :=
  !row.noPrior && start.all (· ≤ row.tradeDate) && finish.all (row.tradeDate ≤ ·)

/-- `build_execution_panel`. -/
def buildExecutionPanel (traded : TradedBars) (tables : PanelTables) (start finish : Option Date) :
    Except ExecutionPanelError (List ExecutionRow) :=
  match sessionRows traded tables finish with
  | .error error => .error error
  | .ok sessions =>
    let rows := rowsAfter tables.factors tables.corporateActions.records none sessions
    let read := rows.any (·.caBasis ≠ .nothing) && tables.corporateActions.records.length ≠ 0
    match dividendColumns.find? (· ∉ tables.corporateActions.columns), read with
    | some column, true => .error (.noDefault column)
    | _, _ => .ok (rows.filter (ExecutionRow.kept start finish))

end QuantAgent.Data
