import QuantAgent.Backtest.Record
import QuantAgent.MarketRules.Reference

/-!
# Cash

A purchase that costs more than there is gets cut down to the whole lots that the cash covers, but
their fees come on top; and a small sale can cost more than it yields.  Cash stays non-negative
exactly as long as neither happens.
-/

namespace QuantAgent.Backtest

open Library Domain QuantMath MarketRules

def Passes [Hashing ℚ] [FloatPower] [Platform] (config : BacktestConfig) (weights : TargetWeights)
    (prices : PricePanel) (world : World) (state : EngineState) : Prop :=
  ∃ tape, markPanel config.fillPriceColumn prices = .ok tape ∧
    Fold.Reaches (tick config weights tape world) (opening config weights)
      (schedule config tape weights.symbols weights.dates) state

def CashCovered [Hashing ℚ] [FloatPower] [Platform] (config : BacktestConfig)
    (weights : TargetWeights) (prices : PricePanel) (world : World) : Prop :=
  ∀ state, Passes config weights prices world state → 0 ≤ state.cash

def buyFees (cost : CostModelConfig) (gross : ℚ) : ℚ := commissionOf cost gross + transferOf cost gross

def sellFees (cost : CostModelConfig) (gross : ℚ) : ℚ :=
  commissionOf cost gross + transferOf cost gross + stampOf cost gross

/-- What a decision may charge: a purchase beyond the cash leaves the fees of its whole lots, and a
sale costs no more than the cash and its gross. -/
def Charged (config : BacktestConfig) (state : EngineState) (symbol : String) : Decision → Prop
  | .trade .buy _ _ fill =>
    let lots := affordableLots config state.cash fill.fillPrice
    0 < fill.filledQuantity → 0 < fill.fillPrice →
      state.cash < costTotal config.cost (fill.filledQuantity * fill.fillPrice) → 0 < lots →
        buyFees config.cost (lots * fill.fillPrice) ≤ state.cash - lots * fill.fillPrice
  | .trade .sell _ _ fill =>
    let shares := soldShares (state.positions symbol) fill.filledQuantity fill.fillPrice
    0 < shares →
      sellFees config.cost (shares * fill.fillPrice) ≤ state.cash + shares * fill.fillPrice
  | _ => True

/-- The condition on a step: what is decided about a symbol may be charged. -/
def ChargedStep [FloatPower] (config : BacktestConfig) (weights : TargetWeights) (tape : List Bar)
    (state : EngineState) : Tick → Prop
  | .trade date fillDate _ symbol => ∀ decision,
      decideSymbol config tape (weights.weight date symbol) state fillDate symbol = .ok decision →
        Charged config state symbol decision
  | _ => True

section Steps

variable [Hashing ℚ] {config : BacktestConfig} {world : World} {state next : EngineState}
  {fillDate symbol : String} {release : Option String} {price : ℚ} {fill : FillModelResult}
  {quantity : ℤ}

theorem cash_buy (h : state.carryOut config world fillDate release symbol
      (.trade .buy quantity price fill) = .ok next) :
    ∃ shares, boughtShares config state.cash fill.filledQuantity fill.fillPrice = .ok shares ∧
      next.cash = if shares ≤ 0 then state.cash
        else state.cash - costTotal config.cost (shares * fill.fillPrice) := by
  obtain ⟨mirror, order, -, hbuy⟩ := EngineState.carryOut_trade h
  obtain ⟨shares, after, hshares, hnone | hsome⟩ := EngineState.buy_ok hbuy
  · obtain ⟨hnone, -, rfl⟩ := hnone
    refine ⟨shares, hshares, ?_⟩
    rw [if_pos hnone]
    rfl
  · obtain ⟨hsome, -, rfl⟩ := hsome
    refine ⟨shares, hshares, ?_⟩
    rw [if_neg hsome.not_ge]
    rfl

theorem cash_sell (h : state.carryOut config world fillDate release symbol
      (.trade .sell quantity price fill) = .ok next) :
    next.cash =
      if soldShares (state.positions symbol) fill.filledQuantity fill.fillPrice ≤ 0 then state.cash
      else state.cash + proceedsOf config.cost
        (soldShares (state.positions symbol) fill.filledQuantity fill.fillPrice * fill.fillPrice) := by
  obtain ⟨mirror, order, -, hsell⟩ := EngineState.carryOut_trade h
  obtain ⟨after, hnone | hsome⟩ := EngineState.sell_ok hsell
  · obtain ⟨hnone, -, rfl⟩ := hnone
    rw [if_pos hnone]
    rfl
  · obtain ⟨hsome, -, rfl⟩ := hsome
    rw [if_neg hsome.not_ge]
    rfl

omit [Hashing ℚ] in
/-- A purchase is charged to cash that is there exactly when what is bought is paid for. -/
theorem nonneg_buy_iff {shares : ℤ} (hcash : 0 ≤ state.cash)
    (hshares : boughtShares config state.cash fill.filledQuantity fill.fillPrice = .ok shares) :
    0 ≤ (if shares ≤ 0 then state.cash
      else state.cash - costTotal config.cost (shares * fill.fillPrice)) ↔
        Charged config state symbol (.trade .buy quantity price fill) := by
  unfold boughtShares at hshares
  simp only [Charged]
  split at hshares
  · rename_i hnothing
    cases hshares
    refine iff_of_true hcash ?_
    intro hquantity hprice
    exact absurd hnothing (not_or.mpr ⟨hquantity.not_ge, hprice.not_ge⟩)
  · rename_i hsomething
    obtain ⟨hquantity, hprice⟩ := not_or.mp hsomething
    rw [not_le] at hquantity hprice
    simp only [hquantity, hprice, forall_const]
    split at hshares
    · rename_i hshort
      split at hshares
      · cases hshares
      · cases hshares
        simp only [hshort, forall_const]
        rcases le_or_gt (affordableLots config state.cash fill.fillPrice) 0 with hnone | hsome
        · rw [max_eq_left hnone, if_pos le_rfl]
          exact iff_of_true hcash fun hsome ↦ absurd hsome hnone.not_gt
        · rw [max_eq_right hsome.le, if_neg hsome.not_ge]
          simp only [hsome, forall_const, costTotal, buyFees]
          constructor <;> intro hle <;> linarith
    · rename_i henough
      cases hshares
      rw [if_neg hquantity.not_ge]
      refine iff_of_true ?_ fun hshort ↦ absurd hshort henough
      exact sub_nonneg.mpr (not_lt.mp henough)

/-- A decision leaves cash non-negative exactly when it may be charged. -/
theorem nonneg_carryOut_iff {decision : Decision} (hcash : 0 ≤ state.cash)
    (h : state.carryOut config world fillDate release symbol decision = .ok next) :
    0 ≤ next.cash ↔ Charged config state symbol decision := by
  cases decision with
  | hold =>
    cases h
    exact iff_of_true hcash trivial
  | missingPrice =>
    cases h
    exact iff_of_true hcash trivial
  | refuse side quantity price reason oneWordBoard =>
    obtain ⟨mirror, -, rfl⟩ := EngineState.carryOut_refuse h
    exact iff_of_true hcash trivial
  | trade side quantity price fill =>
    cases side with
    | buy =>
      obtain ⟨shares, hshares, hnext⟩ := cash_buy h
      rw [hnext]
      exact nonneg_buy_iff hcash hshares
    | sell =>
      rw [cash_sell h]
      simp only [Charged]
      split
      · rename_i hnone
        exact iff_of_true hcash fun hsome ↦ absurd hsome hnone.not_gt
      · rename_i hsome
        rw [not_le] at hsome
        simp only [hsome, forall_const, proceedsOf, sellFees]
        constructor <;> intro hle <;> linarith

end Steps

section Runs

variable [Hashing ℚ] [FloatPower] [Platform]

omit [Platform] in
/-- A tick leaves cash non-negative exactly when what it decides may be charged. -/
theorem nonneg_tick_iff {config : BacktestConfig} {weights : TargetWeights} {tape : List Bar}
    {world : World} {state next : EngineState} {step : Tick} (hcash : 0 ≤ state.cash)
    (h : tick config weights tape world state step = .ok next) :
    0 ≤ next.cash ↔ ChargedStep config weights tape state step := by
  cases step with
  | trade date fillDate release symbol =>
    unfold tick at h
    simp only at h
    split at h
    · cases h
    rename_i decision hdecision
    rw [nonneg_carryOut_iff hcash h, ChargedStep]
    simp [hdecision]
  | _ =>
    cases h
    exact iff_of_true hcash trivial

/-- The condition on a run: whatever it decides may be charged. -/
def ChargedThroughout (config : BacktestConfig) (weights : TargetWeights) (prices : PricePanel)
    (world : World) : Prop :=
  ∀ tape, markPanel config.fillPriceColumn prices = .ok tape →
    ∀ state step next, Fold.Meets (tick config weights tape world) (opening config weights)
      (schedule config tape weights.symbols weights.dates) state step →
        tick config weights tape world state step = .ok next →
          ChargedStep config weights tape state step

/-- In a run that begins with money, cash stays non-negative exactly when every purchase that is cut
down leaves the fees of its whole lots, and no sale costs more than the cash and its gross. -/
theorem cashCovered_iff_charged {config : BacktestConfig} (hnav : 0 < config.initialNav)
    (weights : TargetWeights) (prices : PricePanel) (world : World) :
    CashCovered config weights prices world ↔ ChargedThroughout config weights prices world := by
  have htape : ∀ tape : List Bar, (∀ state, Fold.Reaches (tick config weights tape world)
      (opening config weights) (schedule config tape weights.symbols weights.dates) state →
        0 ≤ state.cash) ↔
      ∀ state step next, Fold.Meets (tick config weights tape world) (opening config weights)
        (schedule config tape weights.symbols weights.dates) state step →
          tick config weights tape world state step = .ok next →
            ChargedStep config weights tape state step := by
    intro tape
    refine Fold.reaches_iff_steps (fun state : EngineState ↦ 0 ≤ state.cash)
      (ChargedStep config weights tape) ?_ hnav.le
    intro state step next hcash hstep
    exact nonneg_tick_iff hcash hstep
  constructor
  · intro hcash tape hmarked
    refine (htape tape).mp ?_
    intro state hreached
    exact hcash state ⟨tape, hmarked, hreached⟩
  · intro hcharged state hpasses
    obtain ⟨tape, hmarked, hreached⟩ := hpasses
    exact (htape tape).mpr (hcharged tape hmarked) state hreached

end Runs

deriving instance DecidableEq for FillModelResult, Decision

instance wholePower : FloatPower where
  power base exponent := base ^ ⌊exponent⌋

def explicitFees : CostModelConfig := ⟨5 / 2, 5, 5, 1 / 10, 0, 0, 1 / 2⟩

def runOn (nav : ℚ) (nextDayFill : Bool) (lineage : Lineage) : BacktestConfig where
  initialNav := nav
  lotSize := 100
  fillPriceColumn := "close"
  nextDayFill
  cost := explicitFees
  fillModel := ⟨1 / 10, 1, 1⟩
  durable := false
  lineage

def flatRow (date : String) : PriceRow where
  symbol := "600000.SH"
  tradeDate := date
  isSt := false
  cell name :=
    if name = "volume" then some 100000 else if name = "high" then some 11 else some 10

def flatBar (date : String) : Bar := ⟨flatRow date, false, false, false, false⟩

def flatPanel (dates : List String) (h : dates.Nodup) : PricePanel where
  columns := ["close", "high", "low", "volume"]
  rows := dates.map flatRow
  distinct := by
    rw [List.map_map]
    refine (List.nodup_map_iff ?_).mpr h
    intro first second heq
    exact congrArg Prod.snd heq

/-- The share is held with the same weight in all sessions. -/
def oneShare (dates : List String) (sorted : dates.Pairwise (· < ·)) (dated : "" ∉ dates)
    (weight : ℚ) : TargetWeights where
  dates
  symbols := ["600000.SH"]
  weight _ _ := weight
  sorted
  dated
  distinct := List.nodup_singleton _

def stillWorld : World := ⟨fun _ ↦ ⟨"", "", .landed⟩, fun _ ↦ ""⟩

def firstDay : String := "2024-01-02"

/-- A run before it trades in its first session. -/
def plannedFirst (config : BacktestConfig) (weights : TargetWeights) (tape : List Bar)
    (date : String) : EngineState :=
  let settled := (opening config weights).settle date weights.symbols
  { settled with tradableTarget := settled.plan weights tape date date }

def halfIn : TargetWeights := oneShare [firstDay] (List.pairwise_singleton _ _) (by decide) (1 / 2)

/-- Half of the money is traded for five thousand shares. -/
theorem decideSymbol_halfIn (lineage : Lineage) :
    decideSymbol (runOn 100000 false lineage) [flatBar firstDay] (1 / 2)
      (plannedFirst (runOn 100000 false lineage) halfIn [flatBar firstDay] firstDay) firstDay
        "600000.SH" = .ok (.trade .buy 5000 10 ⟨5000, 10, none⟩) := by
  have hplain : (decideSymbol (runOn 100000 false .empty) [flatBar firstDay] (1 / 2)
      (plannedFirst (runOn 100000 false .empty) halfIn [flatBar firstDay] firstDay) firstDay
        "600000.SH").toOption = some (.trade .buy 5000 10 ⟨5000, 10, none⟩) := by
    decide +kernel
  exact Fold.toOption_iff.mp hplain

/-- The ticks of a run in one session, up to the trade of the share. -/
theorem meets_halfIn {lineage : Lineage} {state : EngineState} {step : Tick}
    (h : Fold.Meets (tick (runOn 100000 false lineage) halfIn [flatBar firstDay] stillWorld)
      (opening (runOn 100000 false lineage) halfIn)
      (schedule (runOn 100000 false lineage) [flatBar firstDay] halfIn.symbols halfIn.dates) state
      step) :
    step ∈ [.settle firstDay, .plan firstDay firstDay, .mark firstDay] ∨
      (state = plannedFirst (runOn 100000 false lineage) halfIn [flatBar firstDay] firstDay ∧
        step = .trade firstDay firstDay none "600000.SH") := by
  have hschedule : schedule (runOn 100000 false lineage) [flatBar firstDay] halfIn.symbols
      halfIn.dates = [.settle firstDay, .plan firstDay firstDay,
        .trade firstDay firstDay none "600000.SH", .mark firstDay] := rfl
  rw [hschedule] at h
  rcases (Fold.meets_cons_iff rfl).mp h with ⟨-, rfl⟩ | h
  · exact .inl List.mem_cons_self
  have hplanned : tick (runOn 100000 false lineage) halfIn [flatBar firstDay] stillWorld _
      (.plan firstDay firstDay) =
        .ok (plannedFirst (runOn 100000 false lineage) halfIn [flatBar firstDay] firstDay) := rfl
  rcases (Fold.meets_cons_iff hplanned).mp h with ⟨-, rfl⟩ | h
  · exact .inl (List.mem_cons_of_mem _ List.mem_cons_self)
  obtain ⟨before, after, hsplit, hbefore⟩ := h
  cases before with
  | nil =>
    cases hsplit
    exact .inr ⟨(Except.ok.inj hbefore).symm, rfl⟩
  | cons head before =>
    have hmem : step ∈ [Tick.mark firstDay] := by
      rw [(List.cons.inj hsplit).2]
      simp
    exact .inl (List.mem_cons_of_mem _ (List.mem_cons_of_mem _ hmem))

/-- With half of the money kept, the fees are paid for. -/
theorem cashCovered_halfIn :
    CashCovered (runOn 100000 false .empty) halfIn (flatPanel [firstDay] (List.nodup_singleton _))
      stillWorld := by
  refine (cashCovered_iff_charged (by decide +kernel) _ _ _).mpr ?_
  intro tape hmarked state step next hmeets hstep
  obtain rfl : [flatBar firstDay] = tape := Except.ok.inj hmarked
  rcases meets_halfIn hmeets with hother | ⟨rfl, rfl⟩
  · simp only [List.mem_cons, List.not_mem_nil, or_false] at hother
    rcases hother with rfl | rfl | rfl <;> trivial
  · intro decision hdecided
    obtain rfl := Except.ok.inj ((decideSymbol_halfIn .empty).symm.trans hdecided)
    intro _ _ hshort
    have henough : ¬ (100000 : ℚ) < costTotal explicitFees (5000 * 10) := by decide +kernel
    exact absurd hshort henough

def allIn : TargetWeights := oneShare [firstDay] (List.pairwise_singleton _ _) (by decide) 1

/-- All the money buys a lot, and there is none left for its fees. -/
theorem not_cashCovered_allIn :
    ¬ CashCovered (runOn 1000 false .empty) allIn (flatPanel [firstDay] (List.nodup_singleton _))
      stillWorld := by
  intro hcovered
  let config := runOn 1000 false .empty
  let tape := [flatBar firstDay]
  let planned := plannedFirst config allIn tape firstDay
  have hdecision : decideSymbol config tape 1 planned firstDay "600000.SH" =
      .ok (.trade .buy 100 10 ⟨100, 10, none⟩) := by
    refine Fold.toOption_iff.mp (?_ : (decideSymbol (runOn 1000 false .empty) [flatBar firstDay] 1
      (plannedFirst (runOn 1000 false .empty) allIn [flatBar firstDay] firstDay) firstDay
        "600000.SH").toOption = _)
    decide +kernel
  have hshares : boughtShares config planned.cash 100 10 = .ok 100 := by
    refine Fold.toOption_iff.mp
      (?_ : (boughtShares (runOn 1000 false .empty) 1000 100 10).toOption = _)
    decide +kernel
  have hbuys : ∃ next, planned.carryOut config stillWorld firstDay none "600000.SH"
      (.trade .buy 100 10 ⟨100, 10, none⟩) = .ok next :=
    EngineState.exists_carryOut_buy inMemory_fresh (fun _ ↦ rfl) stillWorld (by decide) hshares
      (by decide) le_rfl firstDay "600000.SH" none 10
  obtain ⟨next, hnext⟩ := hbuys
  have htraded : tick config allIn tape stillWorld planned
      (.trade firstDay firstDay none "600000.SH") = .ok next := by
    unfold tick
    simp only
    have hweight : allIn.weight firstDay "600000.SH" = 1 := rfl
    rw [hweight, hdecision]
    exact hnext
  have hreached : Fold.Reaches (tick config allIn tape stillWorld) (opening config allIn)
      (schedule config tape allIn.symbols allIn.dates) next := by
    refine ⟨[.settle firstDay, .plan firstDay firstDay,
      .trade firstDay firstDay none "600000.SH"], [.mark firstDay], rfl, ?_⟩
    refine Fold.cons_iff.mpr ⟨_, rfl, ?_⟩
    refine Fold.cons_iff.mpr ⟨planned, rfl, ?_⟩
    rw [Fold.singleton]
    exact htraded
  obtain ⟨shares, hbought, hcash⟩ := cash_buy hnext
  cases hshares.symm.trans hbought
  have hspent := hcash
  have hnegative : 1000 - costTotal explicitFees (100 * 10) < 0 := by decide +kernel
  have hcash' := hcovered next ⟨tape, rfl, hreached⟩
  rw [hspent] at hcash'
  exact absurd hcash' hnegative.not_ge

end QuantAgent.Backtest
