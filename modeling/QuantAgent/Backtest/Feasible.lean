import QuantAgent.Backtest.Agreement
import QuantAgent.Backtest.Sizing

/-!
# Feasible trades

An executed trade takes no more than its share of the session's volume, and a purchase is a legal
number of whole lots.  The fill model forgets the cap when it is no share at all, and neither the cap
nor what cash covers knows the lots of the board.  All trades of a run are feasible exactly as long
as no order meets these.
-/

namespace QuantAgent.Backtest

open Library Domain QuantMath MarketRules

/-- A number of shares that the board lets be bought. -/
structure LegalPurchase (symbol : String) (shares : ℤ) : Prop where
  wholeLots : (getRule symbol).lotSize ∣ shares
  minimum : (getRule symbol).minimumBuyQuantity ≤ shares

structure FeasibleTrade (config : FillModelConfig) (tape : List Bar) (row : TradeRow)
    (shares : ℤ) : Prop where
  whole : row.shares = shares
  capped : ∃ volume, cellOf tape row.tradeDate row.symbol "volume" = some volume ∧
    shares ≤ participationCap config volume
  legal : row.side = .buy → 0 < shares ∧ LegalPurchase row.symbol shares

def AllFeasible (config : BacktestConfig) (tape : List Bar) (state : EngineState) : Prop :=
  ∀ row ∈ state.trades, ∃ shares, FeasibleTrade config.fillModel tape row shares

/-- The trades of a run are feasible, in every state that it passes through. -/
def TradesFeasible [Hashing ℚ] [FloatPower] [Platform] (config : BacktestConfig)
    (weights : TargetWeights) (prices : PricePanel) (world : World) : Prop :=
  ∀ tape, markPanel config.fillPriceColumn prices = .ok tape →
    ∀ state, Fold.Reaches (tick config weights tape world) (opening config weights)
      (schedule config tape weights.symbols weights.dates) state → AllFeasible config tape state

/-- What an order may execute.  A sale needs a cap of one share.  A purchase needs one too, and a
legal number of shares under it; if cash does not cover its fill, the lots that cash covers are legal
and under the cap. -/
def Fits (config : BacktestConfig) (state : EngineState) (symbol : String) (volume : ℚ) :
    Decision → Prop
  | .trade .buy quantity _ fill =>
    let cap := participationCap config.fillModel volume
    let lots := affordableLots config state.cash fill.fillPrice
    0 < fill.fillPrice →
      (costTotal config.cost (fill.filledQuantity * fill.fillPrice) ≤ state.cash →
        1 ≤ cap ∧ LegalPurchase symbol (min quantity cap)) ∧
      (state.cash < costTotal config.cost (fill.filledQuantity * fill.fillPrice) → 0 < lots →
        lots ≤ cap ∧ LegalPurchase symbol lots)
  | .trade .sell _ _ fill =>
    0 < soldShares (state.positions symbol) fill.filledQuantity fill.fillPrice →
      1 ≤ participationCap config.fillModel volume
  | _ => True

def FitsStep [FloatPower] (config : BacktestConfig) (weights : TargetWeights) (tape : List Bar)
    (state : EngineState) : Tick → Prop
  | .trade date fillDate _ symbol => ∀ decision volume,
      decideSymbol config tape (weights.weight date symbol) state fillDate symbol = .ok decision →
        cellOf tape fillDate symbol "volume" = some volume →
          Fits config state symbol volume decision
  | _ => True

section Steps

variable [FloatPower] {config : BacktestConfig} {tape : List Bar} {state next : EngineState}
  {fillDate symbol : String} {quantity : ℤ} {price volume : ℚ} {fill : FillModelResult}

variable {bar : Bar}

theorem Ordered.filledQuantity {side : Side}
    (h : Ordered config tape state fillDate symbol side quantity price fill bar) :
    ∃ traded, cellOf tape fillDate symbol "volume" = some traded ∧
      fill.filledQuantity = executable config.fillModel traded quantity := by
  obtain ⟨traded, htraded, hfilled⟩ := filledQuantity_eq h.filled h.positive
  refine ⟨traded, ?_, hfilled⟩
  rw [cellOf, h.onTape]
  exact htraded

variable {row : TradeRow} {shares : ℤ}

omit [FloatPower] in
theorem exists_feasible_iff (hdate : row.tradeDate = fillDate) (hsymbol : row.symbol = symbol)
    (hshares : row.shares = (shares : ℚ))
    (hvolume : cellOf tape fillDate symbol "volume" = some volume) :
    (∃ shares, FeasibleTrade config.fillModel tape row shares) ↔
      shares ≤ participationCap config.fillModel volume ∧
        (row.side = .buy → 0 < shares ∧ LegalPurchase symbol shares) := by
  subst hdate hsymbol
  constructor
  · intro hfeasible
    obtain ⟨other, hwhole, ⟨traded, htraded, hcapped⟩, hlegal⟩ := hfeasible
    have hsame := Int.cast_injective (hwhole.symm.trans hshares)
    subst hsame
    cases hvolume.symm.trans htraded
    exact ⟨hcapped, hlegal⟩
  · intro hfeasible
    exact ⟨shares, hshares, ⟨volume, hvolume, hfeasible.1⟩, hfeasible.2⟩

omit [FloatPower] in
/-- What is added to the trades is all there is to check. -/
theorem allFeasible_concat_iff (hbefore : AllFeasible config tape state)
    (hnext : next.trades = state.trades ++ [row]) :
    AllFeasible config tape next ↔ ∃ shares, FeasibleTrade config.fillModel tape row shares := by
  rw [AllFeasible, hnext]
  constructor
  · intro hall
    exact hall row (List.mem_append_right _ (List.mem_singleton_self row))
  · intro hrow other hother
    rcases List.mem_append.mp hother with hold | hnew
    · exact hbefore other hold
    · rw [List.mem_singleton.mp hnew]
      exact hrow

omit [FloatPower] in
theorem allFeasible_of_same (hbefore : AllFeasible config tape state)
    (hnext : next.trades = state.trades) : AllFeasible config tape next := by
  rw [AllFeasible, hnext]
  exact hbefore

omit [FloatPower] in
theorem forall_max_iff {lots : ℤ} (property : ℤ → Prop) :
    (0 < max 0 lots → property (max 0 lots)) ↔ (0 < lots → property lots) := by
  rcases le_or_gt lots 0 with hnone | hsome
  · rw [max_eq_left hnone]
    exact iff_of_true (fun h ↦ absurd h (lt_irrefl 0)) fun h ↦ absurd h hnone.not_gt
  · rw [max_eq_right hsome.le]

/-- The shares of a purchase are feasible exactly when its order fits. -/
theorem purchase_iff_fits
    (h : Ordered config tape state fillDate symbol .buy quantity price fill bar)
    (hvolume : cellOf tape fillDate symbol "volume" = some volume)
    (hshares : boughtShares config state.cash fill.filledQuantity fill.fillPrice = .ok shares) :
    (0 < shares → shares ≤ participationCap config.fillModel volume ∧
        LegalPurchase symbol shares) ↔
      Fits config state symbol volume (.trade .buy quantity price fill) := by
  obtain ⟨traded, htraded, hfilled⟩ := h.filledQuantity
  cases hvolume.symm.trans htraded
  simp only [Fits]
  rcases boughtShares_cases h.positive hshares with
    ⟨hprice, rfl⟩ | ⟨hprice, hcovered, rfl⟩ | ⟨hprice, hshort, rfl⟩
  · exact iff_of_true (fun hsome ↦ absurd hsome (lt_irrefl 0))
      (fun hsome ↦ absurd hsome hprice.not_gt)
  · -- the whole fill is bought
    simp only [hprice, hcovered, hcovered.not_gt, forall_const, false_imp_iff, and_true]
    constructor
    · intro hfeasible
      obtain ⟨hcapped, hlegal⟩ := hfeasible h.positive
      have hcap := h.positive.trans_le hcapped
      rw [executable_of_pos _ hcap] at hfilled
      rw [← hfilled]
      exact ⟨hcap, hlegal⟩
    · intro hfits _
      obtain ⟨hcap, hlegal⟩ := hfits
      rw [executable_of_pos _ (Int.lt_iff_add_one_le.mpr hcap)] at hfilled
      rw [hfilled]
      exact ⟨min_le_right _ _, hlegal⟩
  · -- the lots that cash covers are bought
    simp only [hprice, hshort, hshort.not_ge, forall_const, false_imp_iff, true_and]
    exact forall_max_iff (fun lots ↦ lots ≤ participationCap config.fillModel volume ∧
      LegalPurchase symbol lots)

/-- The shares of a sale are feasible exactly when its order fits. -/
theorem sale_iff_fits (h : Ordered config tape state fillDate symbol .sell quantity price fill bar)
    (hvolume : cellOf tape fillDate symbol "volume" = some volume) :
    (0 < soldShares (state.positions symbol) fill.filledQuantity fill.fillPrice →
        soldShares (state.positions symbol) fill.filledQuantity fill.fillPrice ≤
          participationCap config.fillModel volume) ↔
      Fits config state symbol volume (.trade .sell quantity price fill) := by
  obtain ⟨traded, htraded, hfilled⟩ := h.filledQuantity
  cases hvolume.symm.trans htraded
  simp only [Fits]
  refine forall_congr' fun hsold ↦ ?_
  constructor
  · exact fun hcapped ↦ hsold.trans_le hcapped
  · intro hcap
    rw [executable_of_pos _ (Int.lt_iff_add_one_le.mpr hcap)] at hfilled
    calc soldShares (state.positions symbol) fill.filledQuantity fill.fillPrice
        = (state.positions symbol).sellable fill.filledQuantity := (soldShares_of_pos hsold).symm
      _ ≤ max fill.filledQuantity 0 := min_le_right _ _
      _ = fill.filledQuantity := max_eq_left h.positive.le
      _ ≤ participationCap config.fillModel volume := by
          rw [hfilled]
          exact min_le_right _ _

variable [Hashing ℚ] {world : World} {release : Option String} {target : ℚ}

/-- A decision keeps the trades feasible exactly when what it orders fits. -/
theorem allFeasible_carryOut_iff {decision : Decision} (hbefore : AllFeasible config tape state)
    (hdecision : decideSymbol config tape target state fillDate symbol = .ok decision)
    (h : state.carryOut config world fillDate release symbol decision = .ok next) :
    AllFeasible config tape next ↔ ∀ volume,
      cellOf tape fillDate symbol "volume" = some volume →
        Fits config state symbol volume decision := by
  by_cases htrade : ∃ side quantity price fill, decision = .trade side quantity price fill
  · obtain ⟨side, quantity, price, fill, rfl⟩ := htrade
    obtain ⟨bar, hordered⟩ := decideSymbol_trade hdecision
    obtain ⟨traded, hvolume, -⟩ := hordered.filledQuantity
    simp only [hvolume, Option.some.injEq, forall_eq']
    cases side with
    | buy =>
      obtain ⟨shares, hshares, hnone | hsome⟩ := carryOut_buy h
      · obtain ⟨hnone, -, hsame⟩ := hnone
        rw [← purchase_iff_fits hordered hvolume hshares]
        exact iff_of_true (allFeasible_of_same hbefore hsame) fun hsome ↦ absurd hsome hnone.not_gt
      · obtain ⟨hsome, -, row, hrow, hdate, hsymbol, hside, hrowShares⟩ := hsome
        rw [← purchase_iff_fits hordered hvolume hshares, allFeasible_concat_iff hbefore hrow,
          exists_feasible_iff hdate hsymbol hrowShares hvolume, hside]
        simp [hsome]
    | sell =>
      rw [← sale_iff_fits hordered hvolume]
      obtain ⟨-, hnone | hsome⟩ := carryOut_sell h
      · obtain ⟨hnone, hsame⟩ := hnone
        exact iff_of_true (allFeasible_of_same hbefore hsame) fun hsome ↦ absurd hsome hnone.not_gt
      · obtain ⟨hsome, row, hrow, hdate, hsymbol, hside, hrowShares⟩ := hsome
        rw [allFeasible_concat_iff hbefore hrow,
          exists_feasible_iff hdate hsymbol hrowShares hvolume, hside]
        simp [hsome]
  · obtain ⟨-, hsame⟩ := carryOut_other
      (fun side quantity price fill heq ↦ htrade ⟨side, quantity, price, fill, heq⟩) h
    refine iff_of_true (allFeasible_of_same hbefore hsame) ?_
    intro volume _
    cases decision with
    | trade side quantity price fill => exact absurd ⟨side, quantity, price, fill, rfl⟩ htrade
    | _ => trivial

end Steps

section Runs

variable [Hashing ℚ] [FloatPower]

/-- A tick keeps the trades feasible exactly when what it orders fits. -/
theorem allFeasible_tick_iff {config : BacktestConfig} {weights : TargetWeights} {tape : List Bar}
    {world : World} {state next : EngineState} {step : Tick}
    (hbefore : AllFeasible config tape state)
    (h : tick config weights tape world state step = .ok next) :
    AllFeasible config tape next ↔ FitsStep config weights tape state step := by
  cases step with
  | trade date fillDate release symbol =>
    obtain ⟨decision, hdecision, hcarried⟩ := carryOut_of_trade h
    rw [allFeasible_carryOut_iff hbefore hdecision hcarried, FitsStep]
    constructor
    · intro hfits other volume hother
      cases hdecision.symm.trans hother
      exact hfits volume
    · intro hfits volume
      exact hfits decision volume hdecision
  | _ =>
    cases h
    exact iff_of_true (allFeasible_of_same hbefore rfl) trivial

variable [Platform]

/-- The condition on a run: every order fits. -/
def FitsThroughout (config : BacktestConfig) (weights : TargetWeights) (prices : PricePanel)
    (world : World) : Prop :=
  ∀ tape, markPanel config.fillPriceColumn prices = .ok tape →
    ∀ state step next, Fold.Meets (tick config weights tape world) (opening config weights)
      (schedule config tape weights.symbols weights.dates) state step →
        tick config weights tape world state step = .ok next →
          FitsStep config weights tape state step

end Runs

def thinRow (date : String) : PriceRow :=
  { flatRow date with cell := fun name ↦ if name = "volume" then some 5 else (flatRow date).cell name }

def thinBar (date : String) : Bar := ⟨thinRow date, false, false, false, false⟩

def thinPanel : PricePanel where
  columns := ["close", "high", "low", "volume"]
  rows := [thinRow firstDay]
  distinct := List.nodup_singleton _

end QuantAgent.Backtest
