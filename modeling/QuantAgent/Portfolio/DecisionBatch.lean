import Mathlib.Algebra.Order.BigOperators.Group.List
import QuantAgent.Library.Fold
import QuantAgent.Portfolio.PointInTime

/-!
# Batches of candidates

A batch runs the chain for one candidate after another, each of them against the same context.  So
the budgets of a sector and of the gross exposure hold for every candidate that is admitted, taken
alone, and what the admitted candidates take together is bounded by their number.
-/

namespace QuantAgent.Portfolio

open Library

section Batch

variable {D : Type} [LinearOrder D]

/-- `run_decision_chain_batch`. -/
def runDecisionChainBatch [Timestamps D] (candidates : List (Candidate D))
    (context : DecisionContext D) (config : DecisionChainConfig) :
    Except ChainError (List (DecisionTrace D)) :=
  candidates.mapM fun candidate ↦ runDecisionChain candidate context config

def admitted (candidates : List (Candidate D)) (traces : List (DecisionTrace D)) :
    List (Candidate D) :=
  ((candidates.zip traces).filter fun pair ↦ pair.2.finalDecision = "eligible").map Prod.fst

def ofSector (context : DecisionContext D) (sector : String) (candidates : List (Candidate D)) :
    List (Candidate D) :=
  candidates.filter fun candidate ↦ lookupSector context.sectorMap candidate.symbol = some sector

def targetWeights (candidates : List (Candidate D)) : ℚ :=
  (candidates.map Candidate.targetWeight).sum

def DecisionContext.sectorWeight (context : DecisionContext D) (sector : String) : ℚ :=
  (context.sectorWeights.get? sector).getD 0

def highConviction (context : DecisionContext D) (config : DecisionChainConfig) (tradeDate : D) :
    Bool :=
  config.highConvictionThreshold ≤ context.globalConviction &&
    match resolveRegimeLabel context tradeDate with
    | .ok regime => regime.any (· ∈ config.highConvictionFriendlyRegimes)
    | .error _ => false

def exposureCap (context : DecisionContext D) (config : DecisionChainConfig) (tradeDate : D) : ℚ :=
  if highConviction context config tradeDate then
    max config.defaultGrossExposureCap config.highConvictionGrossExposureCap
  else config.defaultGrossExposureCap

/-- The budgets hold for what is admitted together. -/
structure SharesBudgets (context : DecisionContext D) (config : DecisionChainConfig) (tradeDate : D)
    (candidates : List (Candidate D)) : Prop where
  sector : ∀ symbol sector, lookupSector context.sectorMap symbol = some sector →
    context.sectorWeight sector + targetWeights (ofSector context sector candidates) ≤
      config.maxSectorWeight
  gross : context.currentGrossExposure + targetWeights candidates ≤
    config.highConvictionGrossExposureCap
  default : highConviction context config tradeDate = false →
    context.currentGrossExposure + targetWeights candidates ≤ config.defaultGrossExposureCap

/-- The budgets hold for every candidate that is admitted, and what the admitted candidates take is
at most their number times the room that the context leaves. -/
structure KeepsBudgets (context : DecisionContext D) (config : DecisionChainConfig) (tradeDate : D)
    (candidates : List (Candidate D)) : Prop where
  sector : ∀ candidate ∈ candidates, ∀ sector,
    lookupSector context.sectorMap candidate.symbol = some sector →
      context.sectorWeight sector + candidate.targetWeight ≤ config.maxSectorWeight
  gross : ∀ candidate ∈ candidates,
    max 0 context.currentGrossExposure + candidate.targetWeight ≤
      exposureCap context config tradeDate
  sectorTogether : ∀ sector, targetWeights (ofSector context sector candidates) ≤
    (ofSector context sector candidates).length *
      (config.maxSectorWeight - context.sectorWeight sector)
  grossTogether : targetWeights candidates ≤
    candidates.length * (exposureCap context config tradeDate - max 0 context.currentGrossExposure)

variable {candidate : Candidate D} {context : DecisionContext D} {config : DecisionChainConfig}

theorem passed_of_eligible [Timestamps D] {trace : DecisionTrace D} {gate : Gate}
    (h : runDecisionChain candidate context config = .ok trace)
    (heligible : trace.finalDecision = "eligible") (henabled : gate.name ∈ config.enabledGates) :
    ∃ result, gateFunctions candidate config gate context = .ok result ∧ result.passed = true := by
  unfold runDecisionChain at h
  cases hresults : runGates (gateFunctions candidate config) GateResult.passed
      (enabledInOrder config) context with
  | error error => rw [hresults] at h; cases h
  | ok results =>
    rw [hresults] at h
    cases h
    have hpassed : ∀ result ∈ results, result.passed = true := by
      by_contra hfailed
      have hfound : (results.find? fun result ↦ !result.passed).isSome := by
        rw [List.find?_isSome]
        simpa using hfailed
      dsimp only at heligible
      rw [if_pos hfound] at heligible
      exact absurd heligible (by decide)
    have hmem : gate ∈ enabledInOrder config :=
      List.mem_filter.mpr ⟨by cases gate <;> decide, decide_eq_true henabled⟩
    exact passed_of_runGates hresults hpassed hmem

omit [LinearOrder D] in
theorem sectorWeight_of_passed {sector : String}
    (hsector : lookupSector context.sectorMap candidate.symbol = some sector)
    (h : (gateConcentrationLimit candidate context config).passed = true) :
    context.sectorWeight sector + candidate.targetWeight ≤ config.maxSectorWeight := by
  unfold gateConcentrationLimit at h
  rw [hsector] at h
  dsimp only at h
  split at h
  · cases h
  · rename_i hroom
    calc context.sectorWeight sector + candidate.targetWeight
        ≤ context.sectorWeight sector + max 0 candidate.targetWeight := by
          gcongr
          exact le_max_right _ _
      _ ≤ config.maxSectorWeight := not_lt.mp hroom

theorem proposedGross_of_passed {result : GateResult} (hpositive : 0 < candidate.targetWeight)
    (h : gateGrossExposureBudget candidate context config = .ok result)
    (hpassed : result.passed = true) :
    proposedGross candidate context ≤ exposureCap context config candidate.tradeDate := by
  have hcap : config.defaultGrossExposureCap ≤ exposureCap context config candidate.tradeDate := by
    unfold exposureCap
    split
    · exact le_max_left _ _
    · exact le_rfl
  simp only [gateGrossExposureBudget, if_neg (not_le.mpr hpositive)] at h
  split at h
  · rename_i hwithin
    exact hwithin.trans hcap
  · split at h
    · cases h
      cases hpassed
    · rename_i habove
      cases hregime : resolveRegimeLabel context candidate.tradeDate with
      | error error => rw [hregime] at h; cases h
      | ok regime =>
        rw [hregime] at h
        cases h
        simp only [grossExposureBudget] at hpassed
        split at hpassed
        · rename_i hboth
          have hconviction : highConviction context config candidate.tradeDate = true := by
            rw [highConviction, hregime, Bool.and_eq_true, decide_eq_true_eq]
            exact hboth
          rw [exposureCap, if_pos hconviction]
          exact (not_lt.mp habove).trans (le_max_right _ _)
        · cases hpassed

variable {candidates : List (Candidate D)} {traces : List (DecisionTrace D)}

theorem exists_trace_of_admitted [Timestamps D]
    (h : runDecisionChainBatch candidates context config = .ok traces)
    (hmem : candidate ∈ admitted candidates traces) : candidate ∈ candidates ∧
      ∃ trace, runDecisionChain candidate context config = .ok trace ∧
        trace.finalDecision = "eligible" := by
  induction candidates generalizing traces with
  | nil => exact absurd hmem (by simp [admitted])
  | cons first rest ih =>
    rw [runDecisionChainBatch, List.mapM_cons, Fold.bind_iff] at h
    obtain ⟨trace, hfirst, h⟩ := h
    rw [Fold.bind_iff] at h
    obtain ⟨later, hrest, h⟩ := h
    cases h
    rw [admitted, List.zip_cons_cons] at hmem
    obtain ⟨pair, hpair, rfl⟩ := List.mem_map.mp hmem
    obtain ⟨hzip, hdecision⟩ := List.mem_filter.mp hpair
    rcases List.mem_cons.mp hzip with rfl | hlater
    · exact ⟨List.mem_cons_self, trace, hfirst, of_decide_eq_true hdecision⟩
    · have hadmitted : pair.1 ∈ admitted rest later :=
        List.mem_map_of_mem (List.mem_filter.mpr ⟨hlater, hdecision⟩)
      obtain ⟨hmember, hchain⟩ := ih hrest hadmitted
      exact ⟨List.mem_cons_of_mem _ hmember, hchain⟩

omit [LinearOrder D] in
/-- Weights that each fit into some room take at most their number times the room. -/
theorem targetWeights_le {room : ℚ} (h : ∀ candidate ∈ candidates, candidate.targetWeight ≤ room) :
    targetWeights candidates ≤ candidates.length * room := by
  have hsum := List.sum_le_card_nsmul (candidates.map Candidate.targetWeight) room
    (List.forall_mem_map.mpr h)
  rwa [List.length_map, nsmul_eq_mul] at hsum

end Batch

/-- A sector at 27 percent of a book that is invested to 57. -/
def sampleBudgets : DecisionContext ℕ where
  sectorMap := some ⟨["symbol", "sector_level_1"],
    [⟨"600000.SH", "Bank"⟩, ⟨"600036.SH", "Bank"⟩], by decide⟩
  sectorWeights := Dict.empty.insert "Bank" (27 / 100)
  currentGrossExposure := 57 / 100

/-- Two names of the sector with three percent each. -/
def sampleBatch : List (Candidate ℕ) :=
  [⟨3, "600000.SH", 1, none, 3 / 100⟩, ⟨3, "600036.SH", 1, none, 3 / 100⟩]

theorem exists_sampleTraces : ∃ traces, runDecisionChainBatch sampleBatch sampleBudgets {} =
    .ok traces ∧ admitted sampleBatch traces = sampleBatch := by
  have hdecisions : ∀ candidate ∈ sampleBatch, (runDecisionChain candidate sampleBudgets
      {}).toOption.map DecisionTrace.finalDecision = some "eligible" := by decide +kernel
  have heligible : ∀ candidate ∈ sampleBatch, ∃ trace,
      runDecisionChain candidate sampleBudgets {} = .ok trace ∧
        trace.finalDecision = "eligible" := by
    intro candidate hmem
    obtain ⟨trace, htrace, hdecision⟩ := Option.map_eq_some_iff.mp (hdecisions candidate hmem)
    exact ⟨trace, Fold.toOption_iff.mp htrace, hdecision⟩
  obtain ⟨first, hfirst, hfirstEligible⟩ := heligible _ List.mem_cons_self
  obtain ⟨second, hsecond, hsecondEligible⟩ :=
    heligible _ (List.mem_cons_of_mem _ List.mem_cons_self)
  refine ⟨[first, second], ?_, ?_⟩
  · rw [runDecisionChainBatch, sampleBatch, List.mapM_cons, hfirst, List.mapM_cons, hsecond]
    rfl
  · simp [admitted, sampleBatch, hfirstEligible, hsecondEligible]

end QuantAgent.Portfolio
