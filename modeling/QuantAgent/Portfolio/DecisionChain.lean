import QuantAgent.Library.Decimal
import QuantAgent.Library.Dict
import QuantAgent.Library.Frame
import QuantAgent.Library.GateChain
import QuantAgent.Library.Rounding

/-!
# The decision chain

A candidate goes through fifteen gates in a fixed order.  Every gate that is enabled leaves its
result, and the first that does not pass ends the chain.  What a gate has no data for it passes.
Numbers are exact; a cell that is not a number is `none`.
-/

namespace QuantAgent.Portfolio

open Library

def fixedPoint (places : ℕ) (x : ℚ) : String :=
  let scaled := (roundHalfEven (|x| * 10 ^ places)).toNat
  let digits := decimal (scaled % 10 ^ places)
  let fraction := List.replicate (places - digits.length) '0' ++ digits
  String.ofList ((if x < 0 then ['-'] else []) ++ decimal (scaled / 10 ^ places) ++
    if places = 0 then [] else '.' :: fraction)

/-- `Timestamp.isoformat`. -/
class Timestamps (D : Type) where
  isoformat : D → String

/-- `GATE_ORDER`. -/
inductive Gate where
  | alphaThreshold | liquidity | tradeableToday | priceLimitBlock | stStatus | sectorPool
  | hardMarketGate | regimeAlignment | fundamentalFilter | policyAligned | brokerConsensus
  | drawdownKill | concentrationLimit | riskBudget | grossExposureBudget
  deriving DecidableEq, Repr

def gateOrder : List Gate :=
  [.alphaThreshold, .liquidity, .tradeableToday, .priceLimitBlock, .stStatus, .sectorPool,
    .hardMarketGate, .regimeAlignment, .fundamentalFilter, .policyAligned, .brokerConsensus,
    .drawdownKill, .concentrationLimit, .riskBudget, .grossExposureBudget]

def Gate.name : Gate → String
  | .alphaThreshold => "alpha_threshold"
  | .liquidity => "liquidity"
  | .tradeableToday => "tradeable_today"
  | .priceLimitBlock => "price_limit_block"
  | .stStatus => "st_status"
  | .sectorPool => "sector_pool"
  | .hardMarketGate => "hard_market_gate"
  | .regimeAlignment => "regime_alignment"
  | .fundamentalFilter => "fundamental_filter"
  | .policyAligned => "policy_aligned"
  | .brokerConsensus => "broker_consensus"
  | .drawdownKill => "drawdown_kill"
  | .concentrationLimit => "concentration_limit"
  | .riskBudget => "risk_budget"
  | .grossExposureBudget => "gross_exposure_budget"

/-- A value of `GateResult.detail`. -/
inductive Detail where
  | number (value : Option ℚ)
  | text (value : Option String)
  | flag (value : Bool)
  deriving DecidableEq

/-- `GateResult`. -/
structure GateResult where
  gateName : String
  passed : Bool
  reason : String
  detail : List (String × Detail)
  deriving DecidableEq

inductive ChainError where
  /-- A fill along an index that is not monotonic. -/
  | valueError
  deriving DecidableEq

/-- `DecisionChainConfig`. -/
structure DecisionChainConfig where
  minAlpha : ℚ := 0
  minAvgAmountCny : ℚ := 50000000
  blockLimitUpPct : ℚ := 95 / 1000
  blockLimitDownPct : ℚ := -95 / 1000
  allowSt : Bool := false
  excludedSectorTiers : List String := ["excluded"]
  regimeSetupCompatibility : Dict String (List String) :=
    (((Dict.empty.insert "normal" ["lowbuy", "breakout"]).insert "caution" ["lowbuy"]).insert
      "bear" ["lowbuy"]).insert "crisis" []
  fundamentalRankMinPct : ℚ := 30 / 100
  policySignalMin : ℚ := -20 / 100
  brokerConsensusMin : ℚ := -30 / 100
  stockDrawdownKillPct : ℚ := -20 / 100
  maxSectorWeight : ℚ := 30 / 100
  maxNameWeight : ℚ := 3 / 100
  defaultGrossExposureCap : ℚ := 60 / 100
  highConvictionGrossExposureCap : ℚ := 80 / 100
  highConvictionThreshold : ℚ := 80 / 100
  highConvictionFriendlyRegimes : List String := ["normal", "bull"]
  enabledGates : List String := gateOrder.map Gate.name

/-- `Candidate`. -/
structure Candidate (D : Type) where
  tradeDate : D
  symbol : String
  alphaScore : ℚ
  setupLabel : Option String := none
  targetWeight : ℚ := 0

structure MarketRow (D : Type) where
  tradeDate : D
  symbol : String
  amount : Option ℚ
  suspension : Option Bool
  dailyReturn : Option ℚ

structure StRow (D : Type) where
  tradeDate : D
  symbol : String
  isSt : Option Bool

structure SectorRow where
  symbol : String
  sectorLevel1 : String

structure PoolRow where
  sectorLevel1 : String
  poolTier : String

structure HardGateRow (D : Type) where
  tradeDate : D
  hardGateActive : Option Bool

structure RegimeRow (D : Type) where
  tradeDate : D
  regime : Option String

structure RankRow (D : Type) where
  symbol : String
  asOfDate : D
  compositeRank : Option ℚ

structure PolicyRow (D : Type) where
  tradeDate : D
  sector : String
  policySignal : Option ℚ

structure BrokerRow (D : Type) where
  tradeDate : D
  symbol : String
  brokerConsensusScore : Option ℚ

structure DrawdownRow (D : Type) where
  tradeDate : D
  symbol : String
  dd20d : Option ℚ

def MarketRow.key {D : Type} (row : MarketRow D) : D × String := (row.tradeDate, row.symbol)

def StRow.key {D : Type} (row : StRow D) : D × String := (row.tradeDate, row.symbol)

def RankRow.key {D : Type} (row : RankRow D) : D × String := (row.asOfDate, row.symbol)

def PolicyRow.key {D : Type} (row : PolicyRow D) : D × String := (row.tradeDate, row.sector)

def BrokerRow.key {D : Type} (row : BrokerRow D) : D × String := (row.tradeDate, row.symbol)

def DrawdownRow.key {D : Type} (row : DrawdownRow D) : D × String := (row.tradeDate, row.symbol)

/-- `DecisionContext`. -/
structure DecisionContext (D : Type) where
  marketPanel : Option (Frame (MarketRow.key (D := D))) := none
  stFlags : Option (Frame (StRow.key (D := D))) := none
  sectorMap : Option (Frame SectorRow.symbol) := none
  sectorPool : Option (Frame PoolRow.sectorLevel1) := none
  hardGateFrame : Option (Frame (HardGateRow.tradeDate (D := D))) := none
  regimeState : Option (Frame (RegimeRow.tradeDate (D := D))) := none
  fundamentalRanker : Option (Frame (RankRow.key (D := D))) := none
  policySignalBySector : Option (Frame (PolicyRow.key (D := D))) := none
  brokerConsensus : Option (Frame (BrokerRow.key (D := D))) := none
  stockDrawdown : Option (Frame (DrawdownRow.key (D := D))) := none
  sectorWeights : Dict String ℚ := Dict.empty
  currentGrossExposure : ℚ := 0
  globalConviction : ℚ := 0

/-- `DecisionTrace`. -/
structure DecisionTrace (D : Type) where
  candidateId : String
  tradeDate : D
  symbol : String
  finalDecision : String
  failedGate : Option String
  gateResults : List GateResult

section Chain

variable {D : Type} [LinearOrder D]

/-- `_candidate_id`. -/
def candidateId [Timestamps D] (candidate : Candidate D) : String :=
  Timestamps.isoformat candidate.tradeDate ++ "|" ++ candidate.symbol

/-- `_lookup_market_row`. -/
def lookupMarketRow (marketPanel : Frame (MarketRow.key (D := D))) (tradeDate : D)
    (symbol : String) : Option (MarketRow D) :=
  marketPanel.last? fun row ↦ row.tradeDate = tradeDate && row.symbol = symbol

/-- `_lookup_sector`. -/
def lookupSector (sectorMap : Option (Frame SectorRow.symbol)) (symbol : String) :
    Option String := do
  let frame ← sectorMap
  let row ← frame.last? fun row ↦ row.symbol = symbol
  some (if "sector_level_1" ∈ frame.columns then row.sectorLevel1 else "None")

/-- A series is increasing, or decreasing, in the order of its rows. -/
def increasing {A : Type} (date : A → D) (rows : List A) : Bool :=
  decide (rows.Pairwise fun first second ↦ date first ≤ date second)

def decreasing {A : Type} (date : A → D) (rows : List A) : Bool :=
  decide (rows.Pairwise fun first second ↦ date second ≤ date first)

/-- `Series.reindex([date], method="ffill")`: the row that is filled in for a date.  The fill goes
along the rows, and an index that goes neither up nor down raises. -/
def reindexFfill {A : Type} (date : A → D) (rows : List A) (tradeDate : D) :
    Except ChainError (Option A) :=
  if increasing date rows then
    .ok (rows.filter fun row ↦ date row ≤ tradeDate).getLast?
  else if decreasing date rows then
    .ok ((rows.find? fun row ↦ date row = tradeDate).or
      (rows.filter fun row ↦ tradeDate < date row).getLast?)
  else .error .valueError

/-- `str` of the tag of a regime that is filled in. -/
def regimeText (row : Option (RegimeRow D)) : String := (row.bind RegimeRow.regime).getD "nan"

def skipped (gate : Gate) (reason : String) : GateResult := ⟨gate.name, true, reason, []⟩

/-- `_gate_alpha_threshold`. -/
def gateAlphaThreshold (candidate : Candidate D) (config : DecisionChainConfig) : GateResult :=
  let detail := [("alpha", Detail.number (some candidate.alphaScore))]
  if candidate.alphaScore < config.minAlpha then
    ⟨Gate.alphaThreshold.name, false, "alpha_" ++ fixedPoint 4 candidate.alphaScore ++ "_below_" ++
      fixedPoint 4 config.minAlpha, detail⟩
  else ⟨Gate.alphaThreshold.name, true, "passed", detail⟩

/-- `_gate_liquidity`. -/
def gateLiquidity (candidate : Candidate D) (context : DecisionContext D)
    (config : DecisionChainConfig) : GateResult :=
  match context.marketPanel with
  | none => skipped .liquidity "skipped_no_panel"
  | some panel =>
    if panel.rows.isEmpty then skipped .liquidity "skipped_no_panel"
    else
      match lookupMarketRow panel candidate.tradeDate candidate.symbol with
      | none => skipped .liquidity "skipped_no_row"
      | some row =>
        if "amount" ∉ panel.columns then skipped .liquidity "skipped_no_row"
        else
          let amount := row.amount.getD 0
          let detail := [("amount_cny", Detail.number (some amount))]
          if amount < config.minAvgAmountCny then
            ⟨Gate.liquidity.name, false, "amount_" ++ fixedPoint 0 amount ++ "_below_" ++
              fixedPoint 0 config.minAvgAmountCny, detail⟩
          else ⟨Gate.liquidity.name, true, "passed", detail⟩

/-- `_gate_tradeable_today`; a cell that is missing counts as suspended. -/
def gateTradeableToday (candidate : Candidate D) (context : DecisionContext D) : GateResult :=
  match context.marketPanel with
  | none => skipped .tradeableToday "skipped_no_panel"
  | some panel =>
    if panel.rows.isEmpty then skipped .tradeableToday "skipped_no_panel"
    else
      match lookupMarketRow panel candidate.tradeDate candidate.symbol with
      | none => skipped .tradeableToday "skipped_no_row"
      | some row =>
        if "suspension" ∈ panel.columns ∧ row.suspension.getD true = true then
          ⟨Gate.tradeableToday.name, false, "suspended", [("suspension", .flag true)]⟩
        else ⟨Gate.tradeableToday.name, true, "passed", []⟩

/-- `_gate_price_limit_block`. -/
def gatePriceLimitBlock (candidate : Candidate D) (context : DecisionContext D)
    (config : DecisionChainConfig) : GateResult :=
  match context.marketPanel with
  | none => skipped .priceLimitBlock "skipped_no_panel"
  | some panel =>
    if panel.rows.isEmpty then skipped .priceLimitBlock "skipped_no_panel"
    else
      match lookupMarketRow panel candidate.tradeDate candidate.symbol with
      | none => skipped .priceLimitBlock "skipped_no_row"
      | some row =>
        if "daily_return" ∉ panel.columns then skipped .priceLimitBlock "skipped_no_row"
        else
          let ret := row.dailyReturn.getD 0
          let detail := [("daily_return", Detail.number (some ret))]
          if config.blockLimitUpPct ≤ ret then
            ⟨Gate.priceLimitBlock.name, false, "at_limit_up", detail⟩
          else if ret ≤ config.blockLimitDownPct then
            ⟨Gate.priceLimitBlock.name, false, "at_limit_down", detail⟩
          else ⟨Gate.priceLimitBlock.name, true, "passed", detail⟩

/-- The row that the risk warning is read from: the one of the date, or else the last one of the
symbol whatever its date. -/
def stRow (flags : Frame (StRow.key (D := D))) (candidate : Candidate D) : Option (StRow D) :=
  (flags.last? fun row ↦ row.tradeDate = candidate.tradeDate && row.symbol = candidate.symbol).or
    (flags.last? fun row ↦ row.symbol = candidate.symbol)

/-- `_gate_st_status`; a cell that is missing counts as a warning. -/
def gateStStatus (candidate : Candidate D) (context : DecisionContext D)
    (config : DecisionChainConfig) : GateResult :=
  match context.stFlags with
  | none => skipped .stStatus "skipped_no_st_flags"
  | some flags =>
    if flags.rows.isEmpty then skipped .stStatus "skipped_no_st_flags"
    else
      match stRow flags candidate with
      | none => skipped .stStatus "skipped_no_match"
      | some row =>
        let isSt := "is_st" ∈ flags.columns && row.isSt.getD true
        if isSt && !config.allowSt then
          ⟨Gate.stStatus.name, false, "is_st", [("is_st", .flag true)]⟩
        else ⟨Gate.stStatus.name, true, "passed", [("is_st", .flag isSt)]⟩

/-- `_gate_sector_pool`. -/
def gateSectorPool (candidate : Candidate D) (context : DecisionContext D)
    (config : DecisionChainConfig) : GateResult :=
  match lookupSector context.sectorMap candidate.symbol with
  | none => skipped .sectorPool "skipped_no_sector_for_symbol"
  | some sector =>
    match context.sectorPool with
    | none => skipped .sectorPool "skipped_no_pool"
    | some pool =>
      if pool.rows.isEmpty ∨ "pool_tier" ∉ pool.columns then
        skipped .sectorPool "skipped_no_pool"
      else
        match pool.last? fun row ↦ row.sectorLevel1 = sector with
        | none => ⟨Gate.sectorPool.name, true, "skipped_sector_not_in_pool",
            [("sector", .text (some sector))]⟩
        | some row =>
          let detail := [("sector", Detail.text (some sector)),
            ("tier", Detail.text (some row.poolTier))]
          if row.poolTier ∈ config.excludedSectorTiers then
            ⟨Gate.sectorPool.name, false, "sector_tier_" ++ row.poolTier, detail⟩
          else ⟨Gate.sectorPool.name, true, "passed", detail⟩

/-- `_gate_hard_market_gate`, of a row; a date that nothing is filled in for counts as gated. -/
def hardMarketGate (row : Option (HardGateRow D)) : GateResult :=
  if (row.bind HardGateRow.hardGateActive).getD true = true then
    ⟨Gate.hardMarketGate.name, false, "hard_gate_active", []⟩
  else ⟨Gate.hardMarketGate.name, true, "passed", []⟩

/-- `_gate_hard_market_gate`. -/
def gateHardMarketGate (candidate : Candidate D) (context : DecisionContext D) :
    Except ChainError GateResult :=
  match context.hardGateFrame with
  | none => .ok (skipped .hardMarketGate "skipped_no_hard_gate")
  | some frame =>
    if frame.rows.isEmpty then .ok (skipped .hardMarketGate "skipped_no_hard_gate")
    else
      match frame.rows.find? fun row ↦ row.tradeDate = candidate.tradeDate with
      | some row => .ok (hardMarketGate (some row))
      | none => (reindexFfill HardGateRow.tradeDate frame.rows candidate.tradeDate).map
          hardMarketGate

/-- `_gate_regime_alignment`, of a regime and a setup. -/
def regimeAlignment (regime setup : String) (config : DecisionChainConfig) : GateResult :=
  let compatible := (config.regimeSetupCompatibility.get? regime).getD []
  let detail := [("regime", Detail.text (some regime)), ("setup", Detail.text (some setup))]
  if compatible = [] then
    ⟨Gate.regimeAlignment.name, false, "regime_" ++ regime ++ "_blocks_all",
      [("regime", .text (some regime))]⟩
  else if setup ∉ compatible then
    ⟨Gate.regimeAlignment.name, false, "setup_" ++ setup ++ "_not_compatible_with_" ++ regime,
      detail⟩
  else ⟨Gate.regimeAlignment.name, true, "passed", detail⟩

/-- `_gate_regime_alignment`. -/
def gateRegimeAlignment (candidate : Candidate D) (context : DecisionContext D)
    (config : DecisionChainConfig) : Except ChainError GateResult :=
  match context.regimeState, candidate.setupLabel with
  | some series, some setup =>
    if series.rows.isEmpty then
      .ok (skipped .regimeAlignment "skipped_no_regime_or_setup")
    else
      (reindexFfill RegimeRow.tradeDate series.rows candidate.tradeDate).map fun row ↦
        regimeAlignment (regimeText row) setup config
  | _, _ => .ok (skipped .regimeAlignment "skipped_no_regime_or_setup")

/-- `_gate_fundamental_filter`: the last row of the symbol, whatever its date. -/
def gateFundamentalFilter (candidate : Candidate D) (context : DecisionContext D)
    (config : DecisionChainConfig) : GateResult :=
  match context.fundamentalRanker with
  | none => skipped .fundamentalFilter "skipped_no_ranker"
  | some ranker =>
    if ranker.rows.isEmpty ∨ "composite_rank" ∉ ranker.columns then
      skipped .fundamentalFilter "skipped_no_ranker"
    else
      match ranker.last? fun row ↦ row.symbol = candidate.symbol with
      | none => skipped .fundamentalFilter "skipped_no_match"
      | some row =>
        let detail := [("composite_rank", Detail.number row.compositeRank)]
        match row.compositeRank.filter (· < config.fundamentalRankMinPct) with
        | some rank => ⟨Gate.fundamentalFilter.name, false, "rank_" ++ fixedPoint 3 rank ++
            "_below_" ++ fixedPoint 3 config.fundamentalRankMinPct, detail⟩
        | none => ⟨Gate.fundamentalFilter.name, true, "passed", detail⟩

/-- The row of a date, or else the last listed of those that are not later. -/
def rowOrPrior {R K : Type} {key : R → K} (frame : Frame key) (date : R → D) (own : R → Bool)
    (tradeDate : D) : Option R :=
  (frame.last? fun row ↦ date row = tradeDate && own row).or
    (frame.last? fun row ↦ own row && decide (date row ≤ tradeDate))

/-- `_gate_policy_aligned`. -/
def gatePolicyAligned (candidate : Candidate D) (context : DecisionContext D)
    (config : DecisionChainConfig) : GateResult :=
  match context.policySignalBySector with
  | none => skipped .policyAligned "skipped_no_policy"
  | some signals =>
    if signals.rows.isEmpty then skipped .policyAligned "skipped_no_policy"
    else
      match lookupSector context.sectorMap candidate.symbol with
      | none => skipped .policyAligned "skipped_no_sector_for_symbol"
      | some sector =>
        match rowOrPrior signals PolicyRow.tradeDate (·.sector = sector)
          candidate.tradeDate with
        | none => skipped .policyAligned "skipped_no_signal_for_sector_date"
        | some row =>
          let signal := if "policy_signal" ∈ signals.columns then row.policySignal else some 0
          let detail := [("sector", Detail.text (some sector)),
            ("signal", Detail.number signal)]
          match signal.filter (· < config.policySignalMin) with
          | some low => ⟨Gate.policyAligned.name, false, "signal_" ++ fixedPoint 3 low ++
              "_below_" ++ fixedPoint 3 config.policySignalMin, detail⟩
          | none => ⟨Gate.policyAligned.name, true, "passed", detail⟩

/-- `_gate_broker_consensus`. -/
def gateBrokerConsensus (candidate : Candidate D) (context : DecisionContext D)
    (config : DecisionChainConfig) : GateResult :=
  match context.brokerConsensus with
  | none => skipped .brokerConsensus "skipped_no_broker"
  | some scores =>
    if scores.rows.isEmpty ∨ "broker_consensus_score" ∉ scores.columns then
      skipped .brokerConsensus "skipped_no_broker"
    else
      match rowOrPrior scores BrokerRow.tradeDate (·.symbol = candidate.symbol)
        candidate.tradeDate with
      | none => skipped .brokerConsensus "skipped_no_match"
      | some row =>
        let detail := [("score", Detail.number row.brokerConsensusScore)]
        match row.brokerConsensusScore.filter (· < config.brokerConsensusMin) with
        | some low => ⟨Gate.brokerConsensus.name, false, "score_" ++ fixedPoint 3 low ++
            "_below_" ++ fixedPoint 3 config.brokerConsensusMin, detail⟩
        | none => ⟨Gate.brokerConsensus.name, true, "passed", detail⟩

/-- `_gate_drawdown_kill`. -/
def gateDrawdownKill (candidate : Candidate D) (context : DecisionContext D)
    (config : DecisionChainConfig) : GateResult :=
  match context.stockDrawdown with
  | none => skipped .drawdownKill "skipped_no_dd"
  | some drawdowns =>
    if drawdowns.rows.isEmpty ∨ "dd_20d" ∉ drawdowns.columns then
      skipped .drawdownKill "skipped_no_dd"
    else
      match drawdowns.last? fun row ↦
        row.tradeDate = candidate.tradeDate && row.symbol = candidate.symbol with
      | none => skipped .drawdownKill "skipped_no_match"
      | some row =>
        let detail := [("dd_20d", Detail.number row.dd20d)]
        match row.dd20d.filter (· < config.stockDrawdownKillPct) with
        | some low => ⟨Gate.drawdownKill.name, false, "dd_" ++ fixedPoint 3 low ++
            "_below_" ++ fixedPoint 3 config.stockDrawdownKillPct, detail⟩
        | none => ⟨Gate.drawdownKill.name, true, "passed", detail⟩

/-- `_gate_concentration_limit`. -/
def gateConcentrationLimit (candidate : Candidate D) (context : DecisionContext D)
    (config : DecisionChainConfig) : GateResult :=
  match lookupSector context.sectorMap candidate.symbol with
  | none => skipped .concentrationLimit "skipped_no_sector"
  | some sector =>
    let current := (context.sectorWeights.get? sector).getD 0
    let proposed := current + max 0 candidate.targetWeight
    let detail := [("sector", Detail.text (some sector)), ("current", .number (some current)),
      ("proposed", .number (some proposed))]
    if config.maxSectorWeight < proposed then
      ⟨Gate.concentrationLimit.name, false, "sector_weight_" ++ fixedPoint 3 proposed ++
        "_above_" ++ fixedPoint 3 config.maxSectorWeight, detail⟩
    else ⟨Gate.concentrationLimit.name, true, "passed", detail⟩

/-- `_gate_risk_budget`. -/
def gateRiskBudget (candidate : Candidate D) (config : DecisionChainConfig) : GateResult :=
  let detail := [("target_weight", Detail.number (some candidate.targetWeight))]
  if config.maxNameWeight < |candidate.targetWeight| then
    ⟨Gate.riskBudget.name, false, "target_weight_" ++ fixedPoint 4 candidate.targetWeight ++
      "_above_" ++ fixedPoint 4 config.maxNameWeight, detail⟩
  else ⟨Gate.riskBudget.name, true, "passed", detail⟩

/-- `_resolve_regime_label`. -/
def resolveRegimeLabel (context : DecisionContext D) (tradeDate : D) :
    Except ChainError (Option String) :=
  match context.regimeState with
  | none => .ok none
  | some series =>
    if series.rows.isEmpty then .ok none
    else match series.rows.find? fun row ↦ row.tradeDate = tradeDate with
      | some row => .ok (some (regimeText (some row)))
      | none => (reindexFfill RegimeRow.tradeDate series.rows tradeDate).map fun row ↦
        row.bind RegimeRow.regime

/-- `_gate_gross_exposure_budget`, once the regime is known. -/
def grossExposureBudget (context : DecisionContext D) (config : DecisionChainConfig)
    (detail : List (String × Detail)) (regime : Option String) : GateResult :=
  let detail := detail ++ [("regime", .text regime)]
  let convictionOk := config.highConvictionThreshold ≤ context.globalConviction
  let regimeOk := regime.any (· ∈ config.highConvictionFriendlyRegimes)
  if convictionOk ∧ regimeOk then
    ⟨Gate.grossExposureBudget.name, true, "high_conviction_extension_allowed", detail⟩
  else
    let reasonParts :=
      (if convictionOk then [] else ["global_conviction_" ++
        fixedPoint 3 context.globalConviction ++ "_below_" ++
        fixedPoint 3 config.highConvictionThreshold]) ++
      if regimeOk then [] else ["regime_" ++ regime.getD "None" ++ "_not_in_friendly"]
    ⟨Gate.grossExposureBudget.name, false, "above_default_" ++
      fixedPoint 2 config.defaultGrossExposureCap ++ "_and_(" ++
      ",".intercalate reasonParts ++ ")", detail⟩

def proposedGross (candidate : Candidate D) (context : DecisionContext D) : ℚ :=
  max 0 context.currentGrossExposure + candidate.targetWeight

/-- `_gate_gross_exposure_budget`. -/
def gateGrossExposureBudget (candidate : Candidate D) (context : DecisionContext D)
    (config : DecisionChainConfig) : Except ChainError GateResult :=
  let proposed := proposedGross candidate context
  let detail := [("current_gross", Detail.number (some (max 0 context.currentGrossExposure))),
    ("proposed_gross", .number (some proposed)),
    ("default_cap", .number (some config.defaultGrossExposureCap)),
    ("high_conviction_cap", .number (some config.highConvictionGrossExposureCap)),
    ("global_conviction", .number (some context.globalConviction))]
  if candidate.targetWeight ≤ 0 then
    .ok ⟨Gate.grossExposureBudget.name, true, "passed_sell_or_trim",
      [("target_weight", .number (some candidate.targetWeight))]⟩
  else if proposed ≤ config.defaultGrossExposureCap then
    .ok ⟨Gate.grossExposureBudget.name, true, "within_default_cap", detail⟩
  else if config.highConvictionGrossExposureCap < proposed then
    .ok ⟨Gate.grossExposureBudget.name, false, "proposed_gross_" ++ fixedPoint 3 proposed ++
      "_above_high_conviction_cap_" ++ fixedPoint 3 config.highConvictionGrossExposureCap, detail⟩
  else (resolveRegimeLabel context candidate.tradeDate).map
    (grossExposureBudget context config detail)

/-- `GATE_FUNCTIONS`. -/
def gateFunctions (candidate : Candidate D) (config : DecisionChainConfig) (gate : Gate)
    (context : DecisionContext D) : Except ChainError GateResult :=
  match gate with
  | .alphaThreshold => .ok (gateAlphaThreshold candidate config)
  | .liquidity => .ok (gateLiquidity candidate context config)
  | .tradeableToday => .ok (gateTradeableToday candidate context)
  | .priceLimitBlock => .ok (gatePriceLimitBlock candidate context config)
  | .stStatus => .ok (gateStStatus candidate context config)
  | .sectorPool => .ok (gateSectorPool candidate context config)
  | .hardMarketGate => gateHardMarketGate candidate context
  | .regimeAlignment => gateRegimeAlignment candidate context config
  | .fundamentalFilter => .ok (gateFundamentalFilter candidate context config)
  | .policyAligned => .ok (gatePolicyAligned candidate context config)
  | .brokerConsensus => .ok (gateBrokerConsensus candidate context config)
  | .drawdownKill => .ok (gateDrawdownKill candidate context config)
  | .concentrationLimit => .ok (gateConcentrationLimit candidate context config)
  | .riskBudget => .ok (gateRiskBudget candidate config)
  | .grossExposureBudget => gateGrossExposureBudget candidate context config

def enabledInOrder (config : DecisionChainConfig) : List Gate :=
  gateOrder.filter fun gate ↦ gate.name ∈ config.enabledGates

/-- `run_decision_chain`. -/
def runDecisionChain [Timestamps D] (candidate : Candidate D) (context : DecisionContext D)
    (config : DecisionChainConfig) : Except ChainError (DecisionTrace D) :=
  (runGates (gateFunctions candidate config) GateResult.passed (enabledInOrder config)
    context).map fun results ↦
      let failed := results.find? fun result ↦ !result.passed
      { candidateId := candidateId candidate
        tradeDate := candidate.tradeDate
        symbol := candidate.symbol
        finalDecision := if failed.isSome then "rejected" else "eligible"
        failedGate := failed.map GateResult.gateName
        gateResults := results }

end Chain

end QuantAgent.Portfolio
