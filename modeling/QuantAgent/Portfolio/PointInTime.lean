import QuantAgent.Portfolio.DecisionChain

/-!
# What the decision chain knows of the future

A chain is point in time when rows behind the date of its candidate, and the order in which rows are
listed, do not change what it records.  Some gates read the last row that is listed, fill along the
order of a series, or ask whether a table has any row at all.  So a chain is point in time exactly
when every gate that it gets to is settled by the rows up to the date.
-/

namespace QuantAgent.Portfolio

open Library

variable {D : Type} [LinearOrder D]

/-! ## Contexts that agree up to a date -/

/-- Two contexts with the same tables and the same rows up to a date, in whatever order. -/
structure SameInputs (limit : D) (first second : DecisionContext D) : Prop where
  marketPanel : Option.Rel (Frame.SameUpTo MarketRow.tradeDate limit) first.marketPanel
    second.marketPanel
  stFlags : Option.Rel (Frame.SameUpTo StRow.tradeDate limit) first.stFlags second.stFlags
  sectorMap : Option.Rel Frame.SameRows first.sectorMap second.sectorMap
  sectorPool : Option.Rel Frame.SameRows first.sectorPool second.sectorPool
  hardGateFrame : Option.Rel (Frame.SameUpTo HardGateRow.tradeDate limit) first.hardGateFrame
    second.hardGateFrame
  regimeState : Option.Rel (Frame.SameUpTo RegimeRow.tradeDate limit) first.regimeState
    second.regimeState
  fundamentalRanker : Option.Rel (Frame.SameUpTo RankRow.asOfDate limit) first.fundamentalRanker
    second.fundamentalRanker
  policySignalBySector : Option.Rel (Frame.SameUpTo PolicyRow.tradeDate limit)
    first.policySignalBySector second.policySignalBySector
  brokerConsensus : Option.Rel (Frame.SameUpTo BrokerRow.tradeDate limit) first.brokerConsensus
    second.brokerConsensus
  stockDrawdown : Option.Rel (Frame.SameUpTo DrawdownRow.tradeDate limit) first.stockDrawdown
    second.stockDrawdown
  sectorWeights : first.sectorWeights = second.sectorWeights
  currentGrossExposure : first.currentGrossExposure = second.currentGrossExposure
  globalConviction : first.globalConviction = second.globalConviction

/-- The chain records the same whatever the rows behind the date of the candidate. -/
def PointInTime [Timestamps D] (candidate : Candidate D) (config : DecisionChainConfig)
    (context : DecisionContext D) : Prop :=
  ∀ other, SameInputs candidate.tradeDate context other →
    runDecisionChain candidate other config = runDecisionChain candidate context config

/-! ## Settled gates -/

/-- Of the rows that are not later, one is of the date, or all say the same. -/
def SettledBy {R K A : Type} {key : R → K} (frame : Frame key) (date : R → D) (own : R → Bool)
    (value : R → A) (limit : D) : Prop :=
  (∃ row ∈ frame.upTo date limit, date row = limit ∧ own row = true) ∨
    ∀ row ∈ frame.upTo date limit, ∀ other ∈ frame.upTo date limit, own row = true →
      own other = true → value row = value other

def signalOf (signals : Frame (PolicyRow.key (D := D))) (row : PolicyRow D) : Option ℚ :=
  if "policy_signal" ∈ signals.columns then row.policySignal else some 0

def AsksRegime (candidate : Candidate D) (config : DecisionChainConfig)
    (context : DecisionContext D) : Prop :=
  0 < candidate.targetWeight ∧ config.defaultGrossExposureCap < proposedGross candidate context ∧
    proposedGross candidate context ≤ config.highConvictionGrossExposureCap

def Settled (candidate : Candidate D) (config : DecisionChainConfig) (gate : Gate)
    (context : DecisionContext D) : Prop :=
  match gate with
  | .alphaThreshold | .sectorPool | .concentrationLimit | .riskBudget => True
  -- A panel without a row up to the date may be empty or not.
  | .liquidity | .tradeableToday | .priceLimitBlock =>
    ∀ panel, context.marketPanel = some panel →
      panel.upTo MarketRow.tradeDate candidate.tradeDate ≠ []
  -- Without a row of the date the last row of the symbol is read, whatever its date.
  | .stStatus => ∀ flags, context.stFlags = some flags →
      (∃ row ∈ flags.upTo StRow.tradeDate candidate.tradeDate,
        row.tradeDate = candidate.tradeDate ∧ row.symbol = candidate.symbol) ∨
      "is_st" ∉ flags.columns ∧ ∃ row ∈ flags.upTo StRow.tradeDate candidate.tradeDate,
        row.symbol = candidate.symbol
  | .hardMarketGate => ∀ frame, context.hardGateFrame = some frame →
      ∃ row ∈ frame.upTo HardGateRow.tradeDate candidate.tradeDate,
        row.tradeDate = candidate.tradeDate
  -- The regime is always filled in along the series.
  | .regimeAlignment => context.regimeState = none ∨ candidate.setupLabel = none
  -- The last row of the symbol is read, whatever its date.
  | .fundamentalFilter => ∀ ranker, context.fundamentalRanker = some ranker →
      "composite_rank" ∉ ranker.columns
  | .policyAligned => ∀ signals, context.policySignalBySector = some signals →
      signals.upTo PolicyRow.tradeDate candidate.tradeDate ≠ [] ∧
        ∀ sector, lookupSector context.sectorMap candidate.symbol = some sector →
          SettledBy signals PolicyRow.tradeDate (·.sector = sector) (signalOf signals)
            candidate.tradeDate
  | .brokerConsensus => ∀ scores, context.brokerConsensus = some scores →
      "broker_consensus_score" ∈ scores.columns →
        scores.upTo BrokerRow.tradeDate candidate.tradeDate ≠ [] ∧
          SettledBy scores BrokerRow.tradeDate (·.symbol = candidate.symbol)
            BrokerRow.brokerConsensusScore candidate.tradeDate
  | .drawdownKill => ∀ drawdowns, context.stockDrawdown = some drawdowns →
      "dd_20d" ∈ drawdowns.columns →
        drawdowns.upTo DrawdownRow.tradeDate candidate.tradeDate ≠ []
  | .grossExposureBudget => AsksRegime candidate config context →
      ∀ series, context.regimeState = some series →
        ∃ row ∈ series.upTo RegimeRow.tradeDate candidate.tradeDate,
          row.tradeDate = candidate.tradeDate

/-! ## Settled gates are blind -/

section Blind

omit [LinearOrder D] in
theorem lookupSector_eq {sectorMap other : Option (Frame SectorRow.symbol)}
    (h : Option.Rel Frame.SameRows sectorMap other) (symbol : String) :
    lookupSector other symbol = lookupSector sectorMap symbol := by
  cases h with
  | none => rfl
  | some hrows =>
    have hlast := hrows.last?_eq (fun row ↦ row.symbol = symbol) fun row row' hrow hrow' ↦ by
      simp_all
    simp only [lookupSector, Option.bind_eq_bind, Option.bind_some, hlast, hrows.columns]

theorem lookupMarketRow_eq {panel other : Frame (MarketRow.key (D := D))} {tradeDate : D}
    (h : Frame.SameUpTo MarketRow.tradeDate tradeDate panel other) (symbol : String) :
    lookupMarketRow other tradeDate symbol = lookupMarketRow panel tradeDate symbol :=
  h.exact?_eq (fun row ↦ row.symbol = symbol) fun row row' hdate hrow hrow' ↦ by
    simp_all [MarketRow.key]

variable {R : Type} {limit : D}

/-- What is read from the row of a date, or from the last row that is not later. -/
theorem map_rowOrPrior_eq {K A : Type} {key : R → K} {date : R → D} {own : R → Bool} {value : R → A}
    {frame other : Frame key} (h : Frame.SameUpTo date limit frame other)
    (hkey : ∀ row other, date row = date other → own row = true → own other = true → key row = key
      other) (hsettled : SettledBy frame date own value limit) :
    (rowOrPrior other date own limit).map value = (rowOrPrior frame date own limit).map value := by
  unfold rowOrPrior
  rw [h.exact?_eq own hkey]
  cases hexact : frame.last? (fun row ↦ decide (date row = limit) && own row) with
  | some row => rfl
  | none =>
    have hsame := hsettled.resolve_left fun ⟨row, hrow, hdate, hown⟩ ↦ by
      have hno := Frame.last?_eq_none_iff.mp hexact row (List.mem_of_mem_filter hrow)
      simp [hdate, hown] at hno
    apply Frame.map_getLast?_eq (h.perm_filter fun row hrow ↦ by simp_all)
    have hmem : ∀ row ∈ frame.rows.filter (fun row ↦ own row && decide (date row ≤ limit)),
        row ∈ frame.upTo date limit ∧ own row = true := fun row hrow ↦ by
      simp_all [Frame.upTo]
    intro row hrow row' hrow'
    exact hsame row (hmem row hrow).1 row' (hmem row' hrow').1 (hmem row hrow).2 (hmem row' hrow').2

/-- Rows that are read agree in what is asked of them. -/
theorem rowOrPrior_cases {K A : Type} {key : R → K} {date : R → D} {own : R → Bool} {value : R → A}
    {frame other : Frame key} (h : (rowOrPrior other date own limit).map value =
      (rowOrPrior frame date own limit).map value) :
    (rowOrPrior other date own limit = none ∧ rowOrPrior frame date own limit = none) ∨
      ∃ row row', rowOrPrior other date own limit = some row' ∧
        rowOrPrior frame date own limit = some row ∧ value row' = value row := by
  cases hfound : rowOrPrior frame date own limit <;>
    cases hfound' : rowOrPrior other date own limit <;> simp_all

variable {candidate : Candidate D} {config : DecisionChainConfig}
  {context other : DecisionContext D}

/-- The gates that read the market panel ask for the row of the date alone. -/
theorem market_eq (h : SameInputs candidate.tradeDate context other)
    (hsettled : ∀ panel, context.marketPanel = some panel →
      panel.upTo MarketRow.tradeDate candidate.tradeDate ≠ []) :
    gateLiquidity candidate other config = gateLiquidity candidate context config ∧
      gateTradeableToday candidate other = gateTradeableToday candidate context ∧
      gatePriceLimitBlock candidate other config =
        gatePriceLimitBlock candidate context config := by
  have hpanel := h.marketPanel
  unfold gateLiquidity gateTradeableToday gatePriceLimitBlock
  generalize context.marketPanel = panel, other.marketPanel = panel' at hpanel hsettled ⊢
  cases hpanel with
  | none => exact ⟨rfl, rfl, rfl⟩
  | some hrows =>
    simp only [hrows.isEmpty_eq (hsettled _ rfl), lookupMarketRow_eq hrows, hrows.columns, and_self]

theorem exists_stRow {flags : Frame (StRow.key (D := D))} {row : StRow D} (hmem : row ∈ flags.rows)
    (hsymbol : row.symbol = candidate.symbol) : ∃ found, stRow flags candidate = some found := by
  obtain ⟨found, hfound⟩ : ∃ found, flags.last? (fun row ↦ row.symbol = candidate.symbol) =
      some found := Frame.exists_last? hmem (by simpa using hsymbol)
  unfold stRow
  rw [hfound]
  cases flags.last? (fun row ↦ decide (row.tradeDate = candidate.tradeDate) &&
    decide (row.symbol = candidate.symbol)) with
  | none => exact ⟨found, rfl⟩
  | some exact => exact ⟨exact, rfl⟩

theorem stStatus_eq (h : SameInputs candidate.tradeDate context other)
    (hsettled : Settled candidate config .stStatus context) :
    gateStStatus candidate other config = gateStStatus candidate context config := by
  have hflags := h.stFlags
  unfold Settled at hsettled
  unfold gateStStatus
  generalize context.stFlags = flags, other.stFlags = flags' at hflags hsettled ⊢
  cases hflags with
  | none => rfl
  | @some flags flags' hrows =>
    have hsettled := hsettled _ rfl
    have hne : flags.upTo StRow.tradeDate candidate.tradeDate ≠ [] := by
      rcases hsettled with ⟨row, hrow, -⟩ | ⟨-, row, hrow, -⟩ <;> exact List.ne_nil_of_mem hrow
    have hexact := hrows.exact?_eq (fun row ↦ row.symbol = candidate.symbol)
      fun row row' hdate hrow hrow' ↦ by simp_all [StRow.key]
    simp only [hrows.isEmpty_eq hne, ← hrows.columns]
    rcases hsettled with ⟨row, hrow, hdate, hsymbol⟩ | ⟨hcolumn, row, hrow, hsymbol⟩
    · obtain ⟨found, hfound⟩ : ∃ found, flags.last? (fun row ↦
          decide (row.tradeDate = candidate.tradeDate) && decide (row.symbol = candidate.symbol))
            = some found :=
        Frame.exists_last? (List.mem_of_mem_filter hrow) (by simp [hdate, hsymbol])
      simp only [stRow, hexact, hfound, Option.some_or]
    · obtain ⟨found, hfound⟩ := exists_stRow (List.mem_of_mem_filter hrow) hsymbol
      obtain ⟨found', hfound'⟩ :=
        exists_stRow (List.mem_of_mem_filter (hrows.rows.subset hrow)) hsymbol
      simp [hfound, hfound', hcolumn]

theorem sectorPool_eq (h : SameInputs candidate.tradeDate context other) :
    gateSectorPool candidate other config = gateSectorPool candidate context config := by
  have hpool := h.sectorPool
  unfold gateSectorPool
  rw [lookupSector_eq h.sectorMap]
  generalize context.sectorPool = pool, other.sectorPool = pool' at hpool ⊢
  cases hpool with
  | none => rfl
  | some hrows =>
    have hlast := fun sector ↦ hrows.last?_eq (fun row ↦ row.sectorLevel1 = sector)
      fun row row' hrow hrow' ↦ by simp_all
    simp only [hlast, hrows.isEmpty_eq, hrows.columns]

theorem find?_date_eq {date : R → D} {frame other : Frame date}
    (h : Frame.SameUpTo date limit frame other) :
    other.rows.find? (fun row ↦ date row = limit) = frame.rows.find? fun row ↦ date row = limit :=
  h.find?_eq _ (fun row hrow ↦ (by simpa using hrow : date row = limit).le)
    fun row row' hrow hrow' ↦ by simp_all

theorem exists_find?_date {date : R → D} {frame : Frame date} {row : R}
    (hrow : row ∈ frame.upTo date limit) (hdate : date row = limit) :
    ∃ found, frame.rows.find? (fun row ↦ date row = limit) = some found :=
  Option.isSome_iff_exists.mp
    (List.find?_isSome.mpr ⟨row, List.mem_of_mem_filter hrow, by simpa using hdate⟩)

section

variable (h : SameInputs candidate.tradeDate context other)
include h

theorem hardMarketGate_eq (hsettled : Settled candidate config .hardMarketGate context) :
    gateHardMarketGate candidate other = gateHardMarketGate candidate context := by
  have hframe := h.hardGateFrame
  unfold Settled at hsettled
  unfold gateHardMarketGate
  generalize context.hardGateFrame = frame, other.hardGateFrame = frame' at hframe hsettled ⊢
  cases hframe with
  | none => rfl
  | @some frame frame' hrows =>
    obtain ⟨row, hrow, hdate⟩ := hsettled _ rfl
    have hne := List.ne_nil_of_mem hrow
    have hfind := find?_date_eq hrows
    obtain ⟨found, hfound⟩ := exists_find?_date hrow hdate
    simp only [hrows.isEmpty_eq hne, hfind, hfound]

theorem regimeAlignment_eq (hsettled : Settled candidate config .regimeAlignment context) :
    gateRegimeAlignment candidate other config = gateRegimeAlignment candidate context config := by
  have hseries := h.regimeState
  unfold Settled at hsettled
  unfold gateRegimeAlignment
  generalize context.regimeState = series, other.regimeState = series' at hseries hsettled ⊢
  rcases hsettled with rfl | hlabel
  · cases hseries
    rfl
  · rw [hlabel]
    cases hseries <;> rfl

theorem fundamentalFilter_eq (hsettled : Settled candidate config .fundamentalFilter context) :
    gateFundamentalFilter candidate other config =
      gateFundamentalFilter candidate context config := by
  have hranker := h.fundamentalRanker
  unfold Settled at hsettled
  unfold gateFundamentalFilter
  generalize context.fundamentalRanker = ranker, other.fundamentalRanker = ranker'
    at hranker hsettled ⊢
  cases hranker with
  | none => rfl
  | some hrows =>
    have hcolumn := hsettled _ rfl
    have hcolumn' := hrows.columns ▸ hcolumn
    simp [hcolumn, hcolumn']

theorem drawdownKill_eq (hsettled : Settled candidate config .drawdownKill context) :
    gateDrawdownKill candidate other config = gateDrawdownKill candidate context config := by
  have hdrawdown := h.stockDrawdown
  unfold Settled at hsettled
  unfold gateDrawdownKill
  generalize context.stockDrawdown = drawdowns, other.stockDrawdown = drawdowns'
    at hdrawdown hsettled ⊢
  cases hdrawdown with
  | none => rfl
  | @some drawdowns drawdowns' hrows =>
    have hlast := hrows.exact?_eq (fun row ↦ row.symbol = candidate.symbol)
      fun row row' hdate hrow hrow' ↦ by simp_all [DrawdownRow.key]
    by_cases hcolumn : "dd_20d" ∈ drawdowns.columns
    · have hne := hsettled _ rfl hcolumn
      simp only [hrows.isEmpty_eq hne, hlast, hrows.columns]
    · have hcolumn' := hrows.columns ▸ hcolumn
      simp [hcolumn, hcolumn']

theorem policyAligned_eq (hsettled : Settled candidate config .policyAligned context) :
    gatePolicyAligned candidate other config = gatePolicyAligned candidate context config := by
  have hpolicy := h.policySignalBySector
  unfold Settled at hsettled
  unfold gatePolicyAligned
  rw [lookupSector_eq h.sectorMap]
  generalize context.policySignalBySector = signals, other.policySignalBySector = signals'
    at hpolicy hsettled ⊢
  cases hpolicy with
  | none => rfl
  | @some signals signals' hrows =>
    obtain ⟨hne, hsettled⟩ := hsettled _ rfl
    simp only [hrows.isEmpty_eq hne]
    cases hsector : lookupSector context.sectorMap candidate.symbol with
    | none => rfl
    | some sector =>
      obtain ⟨hnone, hnone'⟩ | ⟨row, row', hfound, hfound', hsignal⟩ := rowOrPrior_cases
        (map_rowOrPrior_eq hrows (fun row row' hdate hrow hrow' ↦ by simp_all [PolicyRow.key])
          (hsettled sector hsector))
      · simp only [hnone, hnone']
      · unfold signalOf at hsignal
        simp only [hfound, hfound', ← hrows.columns, hsignal]

theorem brokerConsensus_eq (hsettled : Settled candidate config .brokerConsensus context) :
    gateBrokerConsensus candidate other config = gateBrokerConsensus candidate context config := by
  have hbroker := h.brokerConsensus
  unfold Settled at hsettled
  unfold gateBrokerConsensus
  generalize context.brokerConsensus = scores, other.brokerConsensus = scores'
    at hbroker hsettled ⊢
  cases hbroker with
  | none => rfl
  | @some scores scores' hrows =>
    by_cases hcolumn : "broker_consensus_score" ∈ scores.columns
    · obtain ⟨hne, hsettled⟩ := hsettled _ rfl hcolumn
      simp only [hrows.isEmpty_eq hne, ← hrows.columns]
      obtain ⟨hnone, hnone'⟩ | ⟨row, row', hfound, hfound', hscore⟩ := rowOrPrior_cases
        (map_rowOrPrior_eq hrows (fun row row' hdate hrow hrow' ↦ by simp_all [BrokerRow.key])
          hsettled)
      · simp only [hnone, hnone']
      · simp only [hfound, hfound', hscore]
    · have hcolumn' := hrows.columns ▸ hcolumn
      simp [hcolumn, hcolumn']

end

theorem resolveRegimeLabel_eq
    (h : Option.Rel (Frame.SameUpTo RegimeRow.tradeDate candidate.tradeDate) context.regimeState
      other.regimeState)
    (hsettled : ∀ series, context.regimeState = some series →
      ∃ row ∈ series.upTo RegimeRow.tradeDate candidate.tradeDate,
        row.tradeDate = candidate.tradeDate) :
    resolveRegimeLabel other candidate.tradeDate =
      resolveRegimeLabel context candidate.tradeDate := by
  unfold resolveRegimeLabel
  generalize context.regimeState = series, other.regimeState = series' at h hsettled ⊢
  cases h with
  | none => rfl
  | @some series series' hrows =>
    obtain ⟨row, hrow, hdate⟩ := hsettled _ rfl
    have hne := List.ne_nil_of_mem hrow
    have hfind := find?_date_eq hrows
    obtain ⟨found, hfound⟩ := exists_find?_date hrow hdate
    simp only [hrows.isEmpty_eq hne, hfind, hfound]

theorem grossExposureBudget_eq (h : SameInputs candidate.tradeDate context other)
    (hsettled : Settled candidate config .grossExposureBudget context) :
    gateGrossExposureBudget candidate other config =
      gateGrossExposureBudget candidate context config := by
  have hgross : proposedGross candidate other = proposedGross candidate context := by
    unfold proposedGross
    rw [h.currentGrossExposure]
  have hbudget : grossExposureBudget other config = grossExposureBudget context config := by
    funext detail regime
    unfold grossExposureBudget
    rw [h.globalConviction]
  unfold gateGrossExposureBudget
  simp only [hgross, hbudget, h.currentGrossExposure, h.globalConviction]
  split_ifs with hsell hdefault hhigh
  · rfl
  · rfl
  · rfl
  · rw [resolveRegimeLabel_eq h.regimeState
      (hsettled ⟨not_le.mp hsell, not_le.mp hdefault, not_lt.mp hhigh⟩)]

theorem concentrationLimit_eq (h : SameInputs candidate.tradeDate context other) :
    gateConcentrationLimit candidate other config =
      gateConcentrationLimit candidate context config := by
  unfold gateConcentrationLimit
  rw [lookupSector_eq h.sectorMap, h.sectorWeights]

/-- A gate that is settled says the same of contexts that agree up to the date. -/
theorem blind_of_settled {gate : Gate} (hsettled : Settled candidate config gate context) :
    Blind (SameInputs candidate.tradeDate) (gateFunctions candidate config gate) context := by
  intro other h
  cases gate with
  | alphaThreshold => rfl
  | liquidity => exact congrArg Except.ok (market_eq h hsettled).1
  | tradeableToday =>
    obtain ⟨-, htradeable, -⟩ : _ ∧ _ ∧ gatePriceLimitBlock _ _ config = _ := market_eq h hsettled
    exact congrArg Except.ok htradeable
  | priceLimitBlock => exact congrArg Except.ok (market_eq h hsettled).2.2
  | stStatus => exact congrArg Except.ok (stStatus_eq h hsettled)
  | sectorPool => exact congrArg Except.ok (sectorPool_eq h)
  | hardMarketGate => exact hardMarketGate_eq h hsettled
  | regimeAlignment => exact regimeAlignment_eq h hsettled
  | fundamentalFilter => exact congrArg Except.ok (fundamentalFilter_eq h hsettled)
  | policyAligned => exact congrArg Except.ok (policyAligned_eq h hsettled)
  | brokerConsensus => exact congrArg Except.ok (brokerConsensus_eq h hsettled)
  | drawdownKill => exact congrArg Except.ok (drawdownKill_eq h hsettled)
  | concentrationLimit => exact congrArg Except.ok (concentrationLimit_eq h)
  | riskBudget => rfl
  | grossExposureBudget => exact grossExposureBudget_eq h hsettled

end Blind

/-! ## Calm contexts -/

structure Calm (context : DecisionContext D) : Prop where
  hardGateFrame : ∀ frame, context.hardGateFrame = some frame →
    increasing HardGateRow.tradeDate frame.rows = true
  regimeState : ∀ series, context.regimeState = some series →
    increasing RegimeRow.tradeDate series.rows = true

def calmed (context : DecisionContext D) : DecisionContext D :=
  { context with
    hardGateFrame := context.hardGateFrame.map fun frame ↦ frame.sortedBy HardGateRow.tradeDate
    regimeState := context.regimeState.map fun series ↦ series.sortedBy RegimeRow.tradeDate }

variable {R A : Type}

theorem increasing_sortedBy {date : R → D} (frame : Frame date) :
    increasing date (frame.sortedBy date).rows = true :=
  decide_eq_true (frame.pairwise_sortedBy date)

theorem calm_calmed (context : DecisionContext D) : Calm (calmed context) where
  hardGateFrame frame hframe := by
    obtain ⟨found, -, rfl⟩ := Option.map_eq_some_iff.mp hframe
    exact increasing_sortedBy found
  regimeState series hseries := by
    obtain ⟨found, -, rfl⟩ := Option.map_eq_some_iff.mp hseries
    exact increasing_sortedBy found

theorem rel_map {r : A → A → Prop} {f : A → A} (h : ∀ value, r value (f value)) (found : Option A) :
    Option.Rel r found (found.map f) := by
  cases found with
  | none => exact .none
  | some value => exact .some (h value)

theorem rel_refl {r : A → A → Prop} (h : ∀ value, r value value) (found : Option A) :
    Option.Rel r found found := by
  cases found with
  | none => exact .none
  | some value => exact .some (h value)

theorem sameInputs_calmed (limit : D) (context : DecisionContext D) :
    SameInputs limit context (calmed context) where
  marketPanel := rel_refl Frame.SameUpTo.refl _
  stFlags := rel_refl Frame.SameUpTo.refl _
  sectorMap := rel_refl Frame.SameRows.refl _
  sectorPool := rel_refl Frame.SameRows.refl _
  hardGateFrame := rel_map (fun frame ↦ frame.sameUpTo_sortedBy _) _
  regimeState := rel_map (fun series ↦ series.sameUpTo_sortedBy _) _
  fundamentalRanker := rel_refl Frame.SameUpTo.refl _
  policySignalBySector := rel_refl Frame.SameUpTo.refl _
  brokerConsensus := rel_refl Frame.SameUpTo.refl _
  stockDrawdown := rel_refl Frame.SameUpTo.refl _
  sectorWeights := rfl
  currentGrossExposure := rfl
  globalConviction := rfl

variable {limit : D}

theorem reindexFfill_of_increasing {date : R → D} {rows : List R}
    (h : increasing date rows = true) :
    reindexFfill date rows limit = .ok (rows.filter fun row ↦ date row ≤ limit).getLast? :=
  if_pos h

theorem Calm.returns {context : DecisionContext D} (h : Calm context) (candidate : Candidate D)
    (config : DecisionChainConfig) (gate : Gate) :
    ∃ result, gateFunctions candidate config gate context = .ok result := by
  cases gate with
  | hardMarketGate =>
    unfold gateFunctions gateHardMarketGate
    cases hframe : context.hardGateFrame with
    | none => exact ⟨_, rfl⟩
    | some frame =>
      simp only [reindexFfill_of_increasing (h.hardGateFrame frame hframe)]
      split
      · exact ⟨_, rfl⟩
      · split
        · exact ⟨_, rfl⟩
        · exact ⟨_, rfl⟩
  | regimeAlignment =>
    unfold gateFunctions gateRegimeAlignment
    cases hseries : context.regimeState with
    | none => exact ⟨_, rfl⟩
    | some series =>
      cases candidate.setupLabel with
      | none => exact ⟨_, rfl⟩
      | some setup =>
        simp only [reindexFfill_of_increasing (h.regimeState series hseries)]
        split
        · exact ⟨_, rfl⟩
        · exact ⟨_, rfl⟩
  | grossExposureBudget =>
    have hlabel : ∃ label, resolveRegimeLabel context candidate.tradeDate = .ok label := by
      unfold resolveRegimeLabel
      cases hseries : context.regimeState with
      | none => exact ⟨_, rfl⟩
      | some series =>
        simp only [reindexFfill_of_increasing (h.regimeState series hseries)]
        split
        · exact ⟨_, rfl⟩
        · split
          · exact ⟨_, rfl⟩
          · exact ⟨_, rfl⟩
    obtain ⟨label, hlabel⟩ := hlabel
    unfold gateFunctions gateGrossExposureBudget
    simp only [hlabel]
    split_ifs
    · exact ⟨_, rfl⟩
    · exact ⟨_, rfl⟩
    · exact ⟨_, rfl⟩
    · exact ⟨_, rfl⟩
  | _ => exact ⟨_, rfl⟩

/-! ## Gates that are not settled tell contexts apart -/

/-- Two contexts that agree up to the date and on which a gate differs.  No gate raises on the
first, and on the second none does but the gate itself. -/
structure TellsApart (candidate : Candidate D) (config : DecisionChainConfig) (gate : Gate)
    (context first second : DecisionContext D) : Prop where
  sameFirst : SameInputs candidate.tradeDate context first
  sameSecond : SameInputs candidate.tradeDate context second
  calm : Calm first
  differ : gateFunctions candidate config gate first ≠ gateFunctions candidate config gate second
  calm_or : Calm second ∨ ∃ error, gateFunctions candidate config gate second = .error error

/-- A gate tells two contexts apart that agree up to the date. -/
def Tells (candidate : Candidate D) (config : DecisionChainConfig) (gate : Gate)
    (context : DecisionContext D) : Prop :=
  ∃ first second, TellsApart candidate config gate context first second

/-- A table without a row up to a date may be empty or not. -/
theorem exists_empty_or_later {K : Type} {key : R → K} {date : R → D} {frame : Frame key}
    (hkey : ∀ row other, key row = key other → date row = date other)
    (hnil : frame.upTo date limit = []) (row : R) (hrow : limit < date row) :
    ∃ empty later, Frame.SameUpTo date limit frame empty ∧ Frame.SameUpTo date limit frame later ∧
      empty.columns = frame.columns ∧ later.columns = frame.columns ∧ empty.rows = [] ∧
        later.rows = [row] := by
  have hnone : ∀ row ∈ ([] : List R), limit < date row := by simp
  obtain ⟨empty, hempty, hcolumns, hrows⟩ := frame.exists_later date hkey [] hnone List.nodup_nil
  obtain ⟨later, hlater, hcolumns', hrows'⟩ := frame.exists_later date hkey [row]
    (by simpa using hrow) (List.nodup_singleton _)
  exact ⟨empty, later, hempty, hlater, hcolumns, hcolumns', by simpa [hnil] using hrows,
    by simpa [hnil] using hrows'⟩

/-- Every listing of a table that agrees with it up to a date makes a calm context that agrees with
another one up to the date. -/
def Places {K : Type} {key : R → K} (date : R → D) (limit : D) (context : DecisionContext D)
    (table : Frame key) (place : Frame key → DecisionContext D) : Prop :=
  ∀ listing, Frame.SameUpTo date limit table listing →
    SameInputs limit context (place listing) ∧ Calm (place listing)

section Tells

variable [NoMaxOrder D] {candidate : Candidate D} {config : DecisionChainConfig}
  {context : DecisionContext D}

variable {R K : Type} {gate : Gate}

omit [NoMaxOrder D] in
theorem tells_of_listings {key : R → K} {date : R → D} {table first second : Frame key}
    {place : Frame key → DecisionContext D}
    (hplace : Places date candidate.tradeDate context table place)
    (hfirst : Frame.SameUpTo date candidate.tradeDate table first)
    (hsecond : Frame.SameUpTo date candidate.tradeDate table second)
    (hdiffer : gateFunctions candidate config gate (place first) ≠ gateFunctions candidate config
      gate (place second)) : Tells candidate config gate context :=
  ⟨place first, place second, (hplace first hfirst).1, (hplace second hsecond).1,
    (hplace first hfirst).2, hdiffer, .inl (hplace second hsecond).2⟩

variable {panel : Frame (MarketRow.key (D := D))}

omit [NoMaxOrder D] in
theorem places_marketPanel (h : context.marketPanel = some panel) :
    Places MarketRow.tradeDate candidate.tradeDate context panel fun listing ↦
      { calmed context with marketPanel := some listing } := fun _ hlisting ↦
  ⟨{ sameInputs_calmed _ context with marketPanel := by rw [h]; exact .some hlisting },
    (calm_calmed context).hardGateFrame, (calm_calmed context).regimeState⟩

variable {drawdowns : Frame (DrawdownRow.key (D := D))}

section

omit [NoMaxOrder D]

theorem places_stockDrawdown (h : context.stockDrawdown = some drawdowns) :
    Places DrawdownRow.tradeDate candidate.tradeDate context drawdowns fun listing ↦
      { calmed context with stockDrawdown := some listing } := fun _ hlisting ↦
  ⟨{ sameInputs_calmed _ context with stockDrawdown := by rw [h]; exact .some hlisting },
    (calm_calmed context).hardGateFrame, (calm_calmed context).regimeState⟩

theorem places_fundamentalRanker {ranker : Frame (RankRow.key (D := D))}
    (h : context.fundamentalRanker = some ranker) :
    Places RankRow.asOfDate candidate.tradeDate context ranker fun listing ↦
      { calmed context with fundamentalRanker := some listing } := fun _ hlisting ↦
  ⟨{ sameInputs_calmed _ context with fundamentalRanker := by rw [h]; exact .some hlisting },
    (calm_calmed context).hardGateFrame, (calm_calmed context).regimeState⟩

theorem places_stFlags {flags : Frame (StRow.key (D := D))} (h : context.stFlags = some flags) :
    Places StRow.tradeDate candidate.tradeDate context flags fun listing ↦
      { calmed context with stFlags := some listing } := fun _ hlisting ↦
  ⟨{ sameInputs_calmed _ context with stFlags := by rw [h]; exact .some hlisting },
    (calm_calmed context).hardGateFrame, (calm_calmed context).regimeState⟩

theorem places_policySignalBySector {signals : Frame (PolicyRow.key (D := D))}
    (h : context.policySignalBySector = some signals) :
    Places PolicyRow.tradeDate candidate.tradeDate context signals fun listing ↦
      { calmed context with policySignalBySector := some listing } := fun _ hlisting ↦
  ⟨{ sameInputs_calmed _ context with policySignalBySector := by rw [h]; exact .some hlisting },
    (calm_calmed context).hardGateFrame, (calm_calmed context).regimeState⟩

theorem places_brokerConsensus {scores : Frame (BrokerRow.key (D := D))}
    (h : context.brokerConsensus = some scores) :
    Places BrokerRow.tradeDate candidate.tradeDate context scores fun listing ↦
      { calmed context with brokerConsensus := some listing } := fun _ hlisting ↦
  ⟨{ sameInputs_calmed _ context with brokerConsensus := by rw [h]; exact .some hlisting },
    (calm_calmed context).hardGateFrame, (calm_calmed context).regimeState⟩

end

theorem tells_market (hpanel : context.marketPanel = some panel)
    (hnil : panel.upTo MarketRow.tradeDate candidate.tradeDate = [])
    (hgate : gate = .liquidity ∨ gate = .tradeableToday ∨ gate = .priceLimitBlock) :
    Tells candidate config gate context := by
  obtain ⟨later, hlater⟩ := exists_gt candidate.tradeDate
  let row : MarketRow D := ⟨later, candidate.symbol, none, none, none⟩
  obtain ⟨first, second, hfirst, hsecond, -, -, hrows, hrows'⟩ := exists_empty_or_later
    (fun _ _ hkey ↦ congrArg Prod.fst hkey) hnil row hlater
  refine tells_of_listings (places_marketPanel hpanel) hfirst hsecond ?_
  have hno : lookupMarketRow second candidate.tradeDate candidate.symbol = none := by
    simp [lookupMarketRow, Frame.last?, hrows', row, hlater.ne']
  rcases hgate with rfl | rfl | rfl
  · simp [gateFunctions, gateLiquidity, hrows, hrows', hno, skipped]
  · simp [gateFunctions, gateTradeableToday, hrows, hrows', hno, skipped]
  · simp [gateFunctions, gatePriceLimitBlock, hrows, hrows', hno, skipped]

theorem tells_drawdownKill (hdrawdown : context.stockDrawdown = some drawdowns)
    (hcolumn : "dd_20d" ∈ drawdowns.columns)
    (hnil : drawdowns.upTo DrawdownRow.tradeDate candidate.tradeDate = []) :
    Tells candidate config .drawdownKill context := by
  obtain ⟨later, hlater⟩ := exists_gt candidate.tradeDate
  let row : DrawdownRow D := ⟨later, candidate.symbol, none⟩
  obtain ⟨first, second, hfirst, hsecond, hcolumns, hcolumns', hrows, hrows'⟩ :=
    exists_empty_or_later (fun _ _ hkey ↦ congrArg Prod.fst hkey) hnil row hlater
  refine tells_of_listings (places_stockDrawdown hdrawdown) hfirst hsecond ?_
  have hno : second.last? (fun row ↦ decide (row.tradeDate = candidate.tradeDate) &&
      decide (row.symbol = candidate.symbol)) = none := by
    simp [Frame.last?, hrows', row, hlater.ne']
  simp [gateFunctions, gateDrawdownKill, hrows, hrows', hcolumns', hcolumn, hno, skipped]

variable {ranker : Frame (RankRow.key (D := D))}

omit [NoMaxOrder D] [LinearOrder D] in
theorem fundamentalFilter_detail {row : RankRow D}
    (hranker : context.fundamentalRanker = some ranker) (hempty : ranker.rows ≠ [])
    (hcolumn : "composite_rank" ∈ ranker.columns)
    (hlast : ranker.last? (fun row ↦ row.symbol = candidate.symbol) = some row) :
    (gateFundamentalFilter candidate context config).detail =
      [("composite_rank", .number row.compositeRank)] := by
  unfold gateFundamentalFilter
  simp only [hranker, List.isEmpty_iff, hempty, hcolumn, hlast, not_true_eq_false, or_self,
    if_false]
  split <;> rfl

theorem tells_fundamentalFilter (hranker : context.fundamentalRanker = some ranker)
    (hcolumn : "composite_rank" ∈ ranker.columns) :
    Tells candidate config .fundamentalFilter context := by
  obtain ⟨later, hlater⟩ := exists_gt candidate.tradeDate
  have hrank (rank : ℚ) := ranker.exists_later RankRow.asOfDate (fun _ _ hkey ↦ congrArg Prod.fst hkey)
    [⟨candidate.symbol, later, some rank⟩] (by simpa using hlater) (List.nodup_singleton _)
  obtain ⟨first, hfirst, hcolumns, hrows⟩ := hrank 0
  obtain ⟨second, hsecond, hcolumns', hrows'⟩ := hrank 1
  refine tells_of_listings (places_fundamentalRanker hranker) hfirst hsecond ?_
  have hlast : first.last? (fun row ↦ decide (row.symbol = candidate.symbol)) =
      some ⟨candidate.symbol, later, some 0⟩ := Frame.last?_of_append hrows (by simp)
  have hlast' : second.last? (fun row ↦ decide (row.symbol = candidate.symbol)) =
      some ⟨candidate.symbol, later, some 1⟩ := Frame.last?_of_append hrows' (by simp)
  have hempty : first.rows ≠ [] := by simp [hrows]
  have hempty' : second.rows ≠ [] := by simp [hrows']
  intro heq
  have hdetail := congrArg GateResult.detail (Except.ok.inj heq)
  rw [fundamentalFilter_detail rfl hempty (hcolumns ▸ hcolumn) hlast,
    fundamentalFilter_detail rfl hempty' (hcolumns' ▸ hcolumn) hlast'] at hdetail
  simp at hdetail

variable {flags : Frame (StRow.key (D := D))}

variable {row : StRow D}

section

omit [NoMaxOrder D]

/-- No listing has a row of the date when the table has none. -/
theorem exact?_eq_none {limit : D} {key : R → K} {date : R → D} {own : R → Bool}
    {frame other : Frame key} (hsame : Frame.SameUpTo date limit frame other)
    (hno : ¬ ∃ row ∈ frame.upTo date limit, date row = limit ∧ own row = true) :
    other.last? (fun row ↦ decide (date row = limit) && own row) = none := by
  rw [Frame.last?_eq_none_iff]
  intro found hfound
  by_contra hfit
  simp only [Bool.not_eq_false, Bool.and_eq_true, decide_eq_true_eq] at hfit
  have hseen : found ∈ other.upTo date limit :=
    List.mem_filter.mpr ⟨hfound, by simpa using hfit.1.le⟩
  exact hno ⟨found, hsame.rows.symm.subset hseen, hfit⟩

theorem stStatus_detail (hflags : context.stFlags = some flags) (hempty : flags.rows ≠ [])
    (hrow : stRow flags candidate = some row) :
    (gateStStatus candidate context config).detail =
      [("is_st", .flag ("is_st" ∈ flags.columns && row.isSt.getD true))] := by
  unfold gateStStatus
  simp only [hflags, List.isEmpty_iff, hempty, hrow, if_false]
  split
  · simp_all
  · rfl

theorem stRow_of_last {other : Frame (StRow.key (D := D))} {rest : List (StRow D)}
    (hsame : Frame.SameUpTo StRow.tradeDate candidate.tradeDate flags other)
    (hno : ¬ ∃ row ∈ flags.upTo StRow.tradeDate candidate.tradeDate, row.tradeDate =
      candidate.tradeDate ∧ row.symbol = candidate.symbol) (hrows : other.rows = rest ++ [row])
    (hrow : row.symbol = candidate.symbol) :
    stRow other candidate = some row := by
  rw [stRow, exact?_eq_none hsame (by simpa using hno), Option.none_or]
  exact Frame.last?_of_append hrows (by simpa using hrow)

end

theorem tells_stStatus (hflags : context.stFlags = some flags)
    (hno : ¬ ∃ row ∈ flags.upTo StRow.tradeDate candidate.tradeDate, row.tradeDate =
      candidate.tradeDate ∧ row.symbol = candidate.symbol)
    (hor : "is_st" ∈ flags.columns ∨ ¬ ∃ row ∈ flags.upTo StRow.tradeDate candidate.tradeDate,
      row.symbol = candidate.symbol) : Tells candidate config .stStatus context := by
  obtain ⟨later, hlater⟩ := exists_gt candidate.tradeDate
  have hwarned (isSt : Bool) := flags.exists_later StRow.tradeDate
    (fun _ _ hkey ↦ congrArg Prod.fst hkey) [⟨later, candidate.symbol, some isSt⟩]
    (by simpa using hlater) (List.nodup_singleton _)
  obtain ⟨second, hsecond, hcolumns', hrows'⟩ := hwarned false
  have hrow' := stRow_of_last hsecond hno hrows' rfl
  have hempty' : second.rows ≠ [] := by simp [hrows']
  rcases hor with hcolumn | hnone
  · obtain ⟨first, hfirst, hcolumns, hrows⟩ := hwarned true
    have hempty : first.rows ≠ [] := by simp [hrows]
    refine tells_of_listings (places_stFlags hflags) hfirst hsecond (fun heq ↦ ?_)
    have hdetail := congrArg GateResult.detail (Except.ok.inj heq)
    rw [stStatus_detail rfl hempty (stRow_of_last hfirst hno hrows rfl),
      stStatus_detail rfl hempty' hrow'] at hdetail
    simp [hcolumns, hcolumn] at hdetail
  · have hnothing : ∀ row ∈ ([] : List (StRow D)), candidate.tradeDate < row.tradeDate := by simp
    obtain ⟨first, hfirst, hcolumns, hrows⟩ := flags.exists_later StRow.tradeDate
      (fun _ _ hkey ↦ congrArg Prod.fst hkey) [] hnothing List.nodup_nil
    refine tells_of_listings (places_stFlags hflags) hfirst hsecond (fun heq ↦ ?_)
    have hunseen : ∀ row ∈ first.rows, ¬ row.symbol = candidate.symbol := fun row hrow hsymbol ↦
      hnone ⟨row, by simpa [hrows] using hrow, hsymbol⟩
    have hmissing : stRow first candidate = none := by
      simp only [stRow, Option.or_eq_none_iff, Frame.last?_eq_none_iff]
      constructor <;> intro row hrow <;> simp [hunseen row hrow]
    have hskipped : (gateStStatus candidate { calmed context with stFlags := some first }
        config).detail = [] := by
      simp only [gateStStatus, hmissing]
      split <;> rfl
    have hdetail := congrArg GateResult.detail (Except.ok.inj heq)
    rw [hskipped, stStatus_detail rfl hempty' hrow'] at hdetail
    simp at hdetail

variable {limit : D}

section

omit [NoMaxOrder D]

/-- Without a row of the date the last listed of the rows that are not later is read. -/
theorem rowOrPrior_of_last {key : R → K} {date : R → D} {own : R → Bool} {frame other : Frame key}
    {rest : List R} {row : R} (hsame : Frame.SameUpTo date limit frame other)
    (hno : ¬ ∃ row ∈ frame.upTo date limit, date row = limit ∧ own row = true)
    (hrows : other.rows = rest ++ [row]) (hrow : row ∈ frame.upTo date limit)
    (hown : own row = true) : rowOrPrior other date own limit = some row := by
  rw [rowOrPrior, exact?_eq_none hsame hno, Option.none_or]
  exact Frame.last?_of_append hrows (by simp [hown, of_decide_eq_true (List.mem_filter.mp hrow).2])

/-- Rows that are not later and say different things can each be the last one. -/
theorem exists_differing {A : Type} {key : R → K} {date : R → D} {own : R → Bool} {value : R → A}
    {frame : Frame key} (h : ¬ SettledBy frame date own value limit) :
    ∃ first second row row', Frame.SameUpTo date limit frame first ∧
      Frame.SameUpTo date limit frame second ∧ first.columns = frame.columns ∧
      second.columns = frame.columns ∧ first.rows ≠ [] ∧ second.rows ≠ [] ∧
      rowOrPrior first date own limit = some row ∧ rowOrPrior second date own limit = some row' ∧
      value row ≠ value row' := by
  unfold SettledBy at h
  push Not at h
  obtain ⟨hno, row, hrow, row', hrow', hown, hown', hne⟩ := h
  have hno' : ¬ ∃ row ∈ frame.upTo date limit, date row = limit ∧ own row = true :=
    fun ⟨found, hfound, hdate, hfit⟩ ↦ hno found hfound hdate hfit
  obtain ⟨first, rest, hfirst, hcolumns, hrows⟩ := frame.exists_last hrow
  obtain ⟨second, rest', hsecond, hcolumns', hrows'⟩ := frame.exists_last hrow'
  exact ⟨first, second, row, row', hfirst, hsecond, hcolumns, hcolumns', by simp [hrows],
    by simp [hrows'], rowOrPrior_of_last hfirst hno' hrows hrow hown,
    rowOrPrior_of_last hsecond hno' hrows' hrow' hown', hne⟩

end

variable {signals : Frame (PolicyRow.key (D := D))}

variable {sector : String}

section

variable (hpolicy : context.policySignalBySector = some signals)
include hpolicy

omit [NoMaxOrder D] in
theorem policyAligned_detail {row : PolicyRow D} (hempty : signals.rows ≠ [])
    (hsector : lookupSector context.sectorMap candidate.symbol = some sector)
    (hrow : rowOrPrior signals PolicyRow.tradeDate (·.sector = sector) candidate.tradeDate = some
      row) : (gatePolicyAligned candidate context config).detail =
        [("sector", .text (some sector)), ("signal", .number (signalOf signals row))] := by
  unfold gatePolicyAligned signalOf
  simp only [hpolicy, List.isEmpty_iff, hempty, hsector, hrow, if_false]
  split <;> rfl

theorem tells_policyAligned_unseen
    (hnil : signals.upTo PolicyRow.tradeDate candidate.tradeDate = []) :
    Tells candidate config .policyAligned context := by
  obtain ⟨later, hlater⟩ := exists_gt candidate.tradeDate
  let row : PolicyRow D := ⟨later, "", none⟩
  obtain ⟨first, second, hfirst, hsecond, -, -, hrows, hrows'⟩ :=
    exists_empty_or_later (fun _ _ hkey ↦ congrArg Prod.fst hkey) hnil row hlater
  refine tells_of_listings (places_policySignalBySector hpolicy) hfirst hsecond ?_
  have hno (sector : String) : rowOrPrior second PolicyRow.tradeDate (·.sector = sector)
      candidate.tradeDate = none := by
    simp [rowOrPrior, Frame.last?, hrows', row, hlater.ne', hlater]
  simp only [gateFunctions, gatePolicyAligned, hrows, hrows', hno, List.isEmpty_nil,
    List.isEmpty_cons, if_true, Bool.false_eq_true, if_false]
  split <;> simp [skipped]

omit [NoMaxOrder D] in
theorem tells_policyAligned
    (hsector : lookupSector context.sectorMap candidate.symbol = some sector)
    (hsettled : ¬ SettledBy signals PolicyRow.tradeDate (·.sector = sector) (signalOf signals)
      candidate.tradeDate) : Tells candidate config .policyAligned context := by
  obtain ⟨first, second, row, row', hfirst, hsecond, hcolumns, hcolumns', hempty, hempty', hrow,
    hrow', hne⟩ := exists_differing hsettled
  refine tells_of_listings (places_policySignalBySector hpolicy) hfirst hsecond (fun heq ↦ hne ?_)
  have hdetail := congrArg GateResult.detail (Except.ok.inj heq)
  have hsector (signals : Frame (PolicyRow.key (D := D))) :
      lookupSector ({ calmed context with policySignalBySector := some signals }).sectorMap
        candidate.symbol = some sector := hsector
  rw [policyAligned_detail rfl hempty (hsector first) hrow,
    policyAligned_detail rfl hempty' (hsector second) hrow'] at hdetail
  simpa [signalOf, hcolumns, hcolumns'] using hdetail

end

variable {scores : Frame (BrokerRow.key (D := D))}

omit [NoMaxOrder D] in
theorem brokerConsensus_detail {row : BrokerRow D} (hbroker : context.brokerConsensus = some scores)
    (hempty : scores.rows ≠ []) (hcolumn : "broker_consensus_score" ∈ scores.columns)
    (hrow : rowOrPrior scores BrokerRow.tradeDate (·.symbol = candidate.symbol) candidate.tradeDate
      = some row) : (gateBrokerConsensus candidate context config).detail =
        [("score", .number row.brokerConsensusScore)] := by
  unfold gateBrokerConsensus
  simp only [hbroker, List.isEmpty_iff, hempty, hcolumn, hrow, not_true_eq_false, or_self, if_false]
  split <;> rfl

theorem tells_brokerConsensus_unseen (hbroker : context.brokerConsensus = some scores)
    (hcolumn : "broker_consensus_score" ∈ scores.columns)
    (hnil : scores.upTo BrokerRow.tradeDate candidate.tradeDate = []) :
    Tells candidate config .brokerConsensus context := by
  obtain ⟨later, hlater⟩ := exists_gt candidate.tradeDate
  let row : BrokerRow D := ⟨later, candidate.symbol, none⟩
  obtain ⟨first, second, hfirst, hsecond, hcolumns, hcolumns', hrows, hrows'⟩ :=
    exists_empty_or_later (fun _ _ hkey ↦ congrArg Prod.fst hkey) hnil row hlater
  refine tells_of_listings (places_brokerConsensus hbroker) hfirst hsecond ?_
  have hno : rowOrPrior second BrokerRow.tradeDate (·.symbol = candidate.symbol)
      candidate.tradeDate = none := by
    simp [rowOrPrior, Frame.last?, hrows', row, hlater.ne', hlater]
  simp [gateFunctions, gateBrokerConsensus, hrows, hrows', hcolumns', hcolumn, hno, skipped]

section

omit [NoMaxOrder D]

theorem tells_brokerConsensus (hbroker : context.brokerConsensus = some scores)
    (hcolumn : "broker_consensus_score" ∈ scores.columns)
    (hsettled : ¬ SettledBy scores BrokerRow.tradeDate (·.symbol = candidate.symbol)
      BrokerRow.brokerConsensusScore candidate.tradeDate) :
    Tells candidate config .brokerConsensus context := by
  obtain ⟨first, second, row, row', hfirst, hsecond, hcolumns, hcolumns', hempty, hempty', hrow,
    hrow', hne⟩ := exists_differing hsettled
  refine tells_of_listings (places_brokerConsensus hbroker) hfirst hsecond (fun heq ↦ hne ?_)
  have hdetail := congrArg GateResult.detail (Except.ok.inj heq)
  rw [brokerConsensus_detail rfl hempty (hcolumns ▸ hcolumn) hrow,
    brokerConsensus_detail rfl hempty' (hcolumns' ▸ hcolumn) hrow'] at hdetail
  simpa using hdetail

theorem reindexFfill_of_valley {date : R → D} {rows rest : List R} {left bottom right : R}
    (hrows : rows = rest ++ [left, bottom, right]) (hdown : date bottom < date left)
    (hup : date bottom < date right) (limit : D) :
    reindexFfill date rows limit = .error .valueError := by
  have hincreasing : increasing date rows = false := by
    apply decide_eq_false
    intro hall
    rw [hrows, List.pairwise_append] at hall
    exact (List.rel_of_pairwise_cons hall.2.1 List.mem_cons_self).not_gt hdown
  have hdecreasing : decreasing date rows = false := by
    apply decide_eq_false
    intro hall
    rw [hrows, List.pairwise_append] at hall
    exact (List.rel_of_pairwise_cons hall.2.1.tail List.mem_cons_self).not_gt hup
  simp [reindexFfill, hincreasing, hdecreasing]

end

/-- The rows behind a date can be listed so that no fill goes along the series. -/
theorem exists_valley {date : R → D} (frame : Frame date) (limit : D) (make : D → R)
    (hmake : ∀ d, date (make d) = d) : ∃ other, Frame.SameUpTo date limit frame other ∧
      other.rows.isEmpty = false ∧
      (∀ t, reindexFfill date other.rows t = .error .valueError) ∧
      ((∀ row ∈ frame.upTo date limit, date row ≠ limit) →
        other.rows.find? (fun row ↦ date row = limit) = none) := by
  obtain ⟨bottom, hbottom⟩ := exists_gt limit
  obtain ⟨left, hleft⟩ := exists_gt bottom
  obtain ⟨right, hright⟩ := exists_gt left
  have hlater : ∀ row ∈ [make left, make bottom, make right], limit < date row := by
    simp [hmake, hbottom, hbottom.trans hleft, (hbottom.trans hleft).trans hright]
  obtain ⟨other, hother, -, hrows⟩ := frame.exists_later date (fun _ _ hkey ↦ hkey)
    [make left, make bottom, make right] hlater
    (by simp [hmake, hleft.ne', hright.ne, (hleft.trans hright).ne])
  refine ⟨other, hother, by simp [hrows], fun t ↦ reindexFfill_of_valley hrows
    (by simpa [hmake] using hleft) (by simpa [hmake] using hleft.trans hright) t, fun hno ↦ ?_⟩
  rw [List.find?_eq_none]
  intro row hrow
  rw [hrows, List.mem_append] at hrow
  rcases hrow with hseen | hunseen
  · simpa using hno row hseen
  · simpa using (hlater row hunseen).ne'

omit [NoMaxOrder D] in
/-- A context on which a gate raises is told from the calm one. -/
theorem tells_of_raise {other : DecisionContext D} {error : ChainError}
    (herror : gateFunctions candidate config gate other = .error error)
    (hsame : SameInputs candidate.tradeDate context other) :
    Tells candidate config gate context := by
  obtain ⟨result, hresult⟩ := (calm_calmed context).returns candidate config gate
  exact ⟨calmed context, other, sameInputs_calmed _ context, hsame, calm_calmed context,
    by simp [hresult, herror], .inr ⟨error, herror⟩⟩

theorem tells_hardMarketGate {frame : Frame (HardGateRow.tradeDate (D := D))}
    (hframe : context.hardGateFrame = some frame)
    (hno : ∀ row ∈ frame.upTo HardGateRow.tradeDate candidate.tradeDate,
      row.tradeDate ≠ candidate.tradeDate) : Tells candidate config .hardMarketGate context := by
  obtain ⟨valley, hvalley, hempty, hraises, hfind⟩ := exists_valley frame candidate.tradeDate
    (fun later ↦ ⟨later, none⟩) fun _ ↦ rfl
  have herror : gateFunctions candidate config .hardMarketGate
      { calmed context with hardGateFrame := some valley } = .error .valueError := by
    simp [gateFunctions, gateHardMarketGate, hempty, hfind hno, hraises, Except.map]
  exact tells_of_raise herror { sameInputs_calmed _ context with
    hardGateFrame := by rw [hframe]; exact .some hvalley }

variable {series : Frame (RegimeRow.tradeDate (D := D))}

theorem tells_regimeAlignment {setup : String} (hseries : context.regimeState = some series)
    (hsetup : candidate.setupLabel = some setup) :
    Tells candidate config .regimeAlignment context := by
  obtain ⟨valley, hvalley, hempty, hraises, -⟩ := exists_valley series candidate.tradeDate
    (fun later ↦ ⟨later, none⟩) fun _ ↦ rfl
  have herror : gateFunctions candidate config .regimeAlignment
      { calmed context with regimeState := some valley } = .error .valueError := by
    simp [gateFunctions, gateRegimeAlignment, hsetup, hempty, hraises, Except.map]
  exact tells_of_raise herror { sameInputs_calmed _ context with
    regimeState := by rw [hseries]; exact .some hvalley }

theorem tells_grossExposureBudget (hasks : AsksRegime candidate config context)
    (hseries : context.regimeState = some series)
    (hno : ∀ row ∈ series.upTo RegimeRow.tradeDate candidate.tradeDate, row.tradeDate ≠
      candidate.tradeDate) :
    Tells candidate config .grossExposureBudget context := by
  obtain ⟨valley, hvalley, hempty, hraises, hfind⟩ := exists_valley series candidate.tradeDate
    (fun later ↦ ⟨later, none⟩) fun _ ↦ rfl
  have hlabel : resolveRegimeLabel { calmed context with regimeState := some valley }
      candidate.tradeDate = .error .valueError := by
    simp [resolveRegimeLabel, hempty, hfind hno, hraises, Except.map]
  have hproposed : proposedGross candidate { calmed context with regimeState := some valley } =
      proposedGross candidate context := rfl
  have herror : gateFunctions candidate config .grossExposureBudget
      { calmed context with regimeState := some valley } = .error .valueError := by
    simp only [gateFunctions, gateGrossExposureBudget, hlabel, hproposed]
    rw [if_neg hasks.1.not_ge, if_neg hasks.2.1.not_ge, if_neg hasks.2.2.not_gt]
    rfl
  exact tells_of_raise herror { sameInputs_calmed _ context with
    regimeState := by rw [hseries]; exact .some hvalley }

theorem tells_of_not_settled (h : ¬ Settled candidate config gate context) :
    Tells candidate config gate context := by
  cases gate with
  | alphaThreshold => exact absurd trivial h
  | liquidity | tradeableToday | priceLimitBlock =>
    simp only [Settled, not_forall, not_not] at h
    obtain ⟨panel, hpanel, hnil⟩ := h
    exact tells_market hpanel hnil (by simp)
  | stStatus =>
    simp only [Settled, not_forall, not_or, not_and_or, not_not] at h
    obtain ⟨flags, hflags, hno, hor⟩ := h
    exact tells_stStatus hflags hno hor
  | sectorPool => exact absurd trivial h
  | hardMarketGate =>
    simp only [Settled, not_forall, not_exists, not_and] at h
    obtain ⟨frame, hframe, hno⟩ := h
    exact tells_hardMarketGate hframe hno
  | regimeAlignment =>
    simp only [Settled, not_or] at h
    obtain ⟨series, hseries⟩ := Option.ne_none_iff_exists'.mp h.1
    obtain ⟨setup, hsetup⟩ := Option.ne_none_iff_exists'.mp h.2
    exact tells_regimeAlignment hseries hsetup
  | fundamentalFilter =>
    simp only [Settled, not_forall, not_not] at h
    obtain ⟨ranker, hranker, hcolumn⟩ := h
    exact tells_fundamentalFilter hranker hcolumn
  | policyAligned =>
    simp only [Settled, not_forall] at h
    obtain ⟨signals, hpolicy, hor⟩ := h
    by_cases hnil : signals.upTo PolicyRow.tradeDate candidate.tradeDate = []
    · exact tells_policyAligned_unseen hpolicy hnil
    · simp only [ne_eq, hnil, not_false_eq_true, true_and, not_forall] at hor
      obtain ⟨sector, hsector, hsettled⟩ := hor
      exact tells_policyAligned hpolicy hsector hsettled
  | brokerConsensus =>
    simp only [Settled, not_forall] at h
    obtain ⟨scores, hbroker, hcolumn, hor⟩ := h
    by_cases hnil : scores.upTo BrokerRow.tradeDate candidate.tradeDate = []
    · exact tells_brokerConsensus_unseen hbroker hcolumn hnil
    · exact tells_brokerConsensus hbroker hcolumn fun hsettled ↦ hor ⟨hnil, hsettled⟩
  | drawdownKill =>
    simp only [Settled, not_forall, not_not] at h
    obtain ⟨drawdowns, hdrawdown, hcolumn, hnil⟩ := h
    exact tells_drawdownKill hdrawdown hcolumn hnil
  | concentrationLimit => exact absurd trivial h
  | riskBudget => exact absurd trivial h
  | grossExposureBudget =>
    simp only [Settled, not_forall, not_exists, not_and] at h
    obtain ⟨hasks, series, hseries, hno⟩ := h
    exact tells_grossExposureBudget hasks hseries hno

theorem telling_gateFunctions (candidate : Candidate D) (config : DecisionChainConfig) :
    Telling (gateFunctions candidate config) (SameInputs candidate.tradeDate)
      (Settled candidate config) Calm where
  blind _ _ hsettled := blind_of_settled hsettled
  returns gate _ hcalm := hcalm.returns candidate config gate
  tells _ _ hsettled := by
    obtain ⟨first, second, hapart⟩ := tells_of_not_settled hsettled
    exact ⟨first, second, hapart.sameFirst, hapart.sameSecond, hapart.calm, hapart.differ,
      hapart.calm_or⟩

end Tells

/-! ## The chain -/

theorem runDecisionChain_eq_iff [Timestamps D] {candidate : Candidate D}
    {config : DecisionChainConfig} {first second : DecisionContext D} :
    runDecisionChain candidate first config = runDecisionChain candidate second config ↔
      runGates (gateFunctions candidate config) GateResult.passed (enabledInOrder config) first =
        runGates (gateFunctions candidate config) GateResult.passed (enabledInOrder config)
          second := by
  unfold runDecisionChain
  constructor
  · generalize runGates _ _ _ first = results, runGates _ _ _ second = results'
    intro h
    cases results <;> cases results' <;> simp_all [Except.map]
  · intro h
    rw [h]

/-- The chain is point in time exactly when every gate that it gets to is settled by the rows up to
the date of the candidate. -/
theorem pointInTime_iff [NoMaxOrder D] [Timestamps D] (candidate : Candidate D)
    (config : DecisionChainConfig) (context : DecisionContext D) :
    PointInTime candidate config context ↔
      Reached (gateFunctions candidate config) GateResult.passed (Settled candidate config)
        (enabledInOrder config) context := by
  rw [← (telling_gateFunctions candidate config).blind_runGates_iff]
  unfold PointInTime Blind
  simp only [runDecisionChain_eq_iff]

/-! ## A rank from the future -/

instance : Timestamps ℕ := ⟨Nat.repr⟩

def sampleCandidate : Candidate ℕ where
  tradeDate := 3
  symbol := "600000.SH"
  alphaScore := 1

/-- The ranks of a symbol: one of day 2, and those that come later. -/
def sampleRanks (later : List ℚ) (h : later.length ≤ 1) : Frame (RankRow.key (D := ℕ)) where
  columns := ["symbol", "composite_rank", "as_of_date"]
  rows := ⟨"600000.SH", 2, some (9 / 10)⟩ :: later.map fun rank ↦ ⟨"600000.SH", 5, some rank⟩
  distinct := by
    match later, h with
    | [], _ => simp
    | [rank], _ => simp [RankRow.key]

/-- A rank that is published later rejects a candidate that was eligible. -/
theorem not_pointInTime_laterRank : ¬ PointInTime sampleCandidate {}
    { fundamentalRanker := some (sampleRanks [] (by simp)) } := by
  intro h
  have hsame : SameInputs sampleCandidate.tradeDate
      { fundamentalRanker := some (sampleRanks [] (by simp)) }
      { fundamentalRanker := some (sampleRanks [1 / 10] (by simp)) } :=
    { marketPanel := .none, stFlags := .none, sectorMap := .none, sectorPool := .none
      hardGateFrame := .none, regimeState := .none, policySignalBySector := .none
      brokerConsensus := .none, stockDrawdown := .none
      fundamentalRanker := .some ⟨rfl, .of_eq (by simp [Frame.upTo, sampleRanks, sampleCandidate])⟩
      sectorWeights := rfl, currentGrossExposure := rfl, globalConviction := rfl }
  have hdecision := congrArg (fun outcome ↦ outcome.toOption.map DecisionTrace.finalDecision)
    (h _ hsame)
  exact absurd hdecision (by decide +kernel)

/-- A risk warning of the date settles the chain. -/
theorem pointInTime_datedWarning : PointInTime sampleCandidate {}
    { stFlags := some ⟨["trade_date", "symbol", "is_st"], [⟨3, "600000.SH", some false⟩], by simp⟩ } := by
  rw [pointInTime_iff]
  apply reached_of_forall
  intro gate _
  cases gate with
  | stStatus =>
    rintro flags ⟨⟩
    exact .inl ⟨_, List.mem_singleton_self _, rfl, rfl⟩
  | regimeAlignment => exact .inl rfl
  | grossExposureBudget => exact fun _ series hseries ↦ absurd hseries (by simp)
  | _ => simp [Settled]

end QuantAgent.Portfolio
