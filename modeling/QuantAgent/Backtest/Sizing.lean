import QuantAgent.Backtest.Cash

/-!
# The size of an order

An order that reaches the fill model moves the holding from what is held to the desired total.  The
fill model fills no more of it than the participation cap, unless the cap is less than one share:
then it fills all of it.  What is paid for in the end may be another number of shares again.
-/

namespace QuantAgent.Backtest

open Library Domain QuantMath MarketRules

namespace EngineState

/-- `raw_target`: the shares that the tradable weight is worth. -/
def rawTarget (state : EngineState) (symbol : String) (price : ℚ) : ℚ :=
  state.tradableTarget symbol * state.nav / max price (1 / 1000000000000)

/-- `desired_total`: the holding that is asked for. -/
def desiredTotal (state : EngineState) (symbol : String) (price : ℚ) : ℤ :=
  let held := (state.positions symbol).totalShares
  if (held : ℚ) ≤ state.rawTarget symbol price then
    roundOrderQuantity symbol .buy (state.rawTarget symbol price)
  else held - roundOrderQuantity symbol .sell (held - state.rawTarget symbol price)

def delta (state : EngineState) (symbol : String) (price : ℚ) : ℤ :=
  state.desiredTotal symbol price - (state.positions symbol).totalShares

end EngineState

structure Ordered [FloatPower] (config : BacktestConfig) (tape : List Bar) (state : EngineState)
    (fillDate symbol : String) (side : Side) (quantity : ℤ) (price : ℚ) (fill : FillModelResult)
    (bar : Bar) : Prop where
  onTape : barOf tape fillDate symbol = some bar
  priced : bar.row.cell config.fillPriceColumn = some price
  moves : state.delta symbol price ≠ 0
  ofSide : side = sideOf (state.delta symbol price)
  ofSize : quantity = |state.delta symbol price|
  filled : fillOrder config.fillModel config.cost symbol side quantity price
    (bar.row.cell "volume") = .ok fill
  positive : 0 < fill.filledQuantity

section Decided

variable [FloatPower] {config : BacktestConfig} {tape : List Bar} {state : EngineState}
  {fillDate symbol : String} {side : Side} {quantity : ℤ} {price : ℚ} {fill : FillModelResult}

theorem decideOrder_trade {bar : Bar} {price' : ℚ} {available delta : ℤ}
    (h : decideOrder config bar symbol price available delta =
      .ok (.trade side quantity price' fill)) :
    price' = price ∧ side = sideOf delta ∧ quantity = |delta| ∧
      fillOrder config.fillModel config.cost symbol side quantity price (bar.row.cell "volume") =
        .ok fill ∧ 0 < fill.filledQuantity := by
  unfold decideOrder at h
  simp only at h
  split at h
  · cases h
  split at h
  · cases h
  split at h
  · cases h
  split at h
  · cases h
  split at h
  · cases h
  rename_i filled hfilled
  split at h
  · cases h
  rename_i hsome
  cases h
  exact ⟨rfl, rfl, rfl, hfilled, not_le.mp hsome⟩

theorem decideSymbol_trade {target : ℚ}
    (h : decideSymbol config tape target state fillDate symbol =
      .ok (.trade side quantity price fill)) :
    ∃ bar, Ordered config tape state fillDate symbol side quantity price fill bar := by
  unfold decideSymbol at h
  split at h
  · cases h
  rename_i bar hbar
  split at h
  · cases h
  rename_i price' hprice
  unfold decideBar at h
  simp only at h
  split at h
  · cases h
  rw [show (if ((state.positions symbol).totalShares : ℚ) ≤
        state.tradableTarget symbol * state.nav / max price' (1 / 1000000000000) then
      roundOrderQuantity symbol .buy
        (state.tradableTarget symbol * state.nav / max price' (1 / 1000000000000))
    else (state.positions symbol).totalShares - roundOrderQuantity symbol .sell
      ((state.positions symbol).totalShares -
        state.tradableTarget symbol * state.nav / max price' (1 / 1000000000000))) =
      state.desiredTotal symbol price' from rfl] at h
  split at h
  · split at h
    · cases h
    · split at h <;> cases h
  rename_i hmoves
  obtain ⟨rfl, hside, hquantity, hfilled, hpositive⟩ := decideOrder_trade h
  exact ⟨bar, hbar, hprice, hmoves, hside, hquantity, hfilled, hpositive⟩

end Decided

/-- The shares of a session that a fill may take. -/
def participationCap (config : FillModelConfig) (volume : ℚ) : ℤ :=
  ⌊volume * min config.participationRate config.volumeCapRatio * config.queueFillRatio⌋

/-- What the fill model fills of an order: no more than the cap, and everything where the cap is no
share. -/
def executable (config : FillModelConfig) (volume : ℚ) (quantity : ℤ) : ℤ :=
  min quantity (if 0 < participationCap config volume then participationCap config volume
    else quantity)

theorem executable_of_pos {config : FillModelConfig} {volume : ℚ} (quantity : ℤ)
    (h : 0 < participationCap config volume) :
    executable config volume quantity = min quantity (participationCap config volume) := by
  rw [executable, if_pos h]

theorem executable_le (config : FillModelConfig) (volume : ℚ) (quantity : ℤ) :
    executable config volume quantity ≤ quantity := min_le_left _ _

/-- The cap of the fill model: no shares where there would be less than none. -/
theorem max_truncate (x : ℚ) : max 0 (truncate x) = max 0 ⌊x⌋ := by
  unfold truncate
  split
  · rfl
  · rename_i hnegative
    have hneg := not_le.mp hnegative
    rw [max_eq_left (Int.ceil_le.mpr (by simpa using hneg.le)),
      max_eq_left (Int.floor_le_neg_one_iff.mpr hneg |>.trans (by decide))]

theorem filledQuantity_eq [FloatPower] {config : FillModelConfig} {cost : CostModelConfig}
    {symbol : String} {side : Side} {quantity : ℤ} {price : ℚ} {volume : Option ℚ}
    {fill : FillModelResult}
    (h : fillOrder config cost symbol side quantity price volume = .ok fill)
    (hpositive : 0 < fill.filledQuantity) :
    ∃ traded, volume = some traded ∧
      fill.filledQuantity = executable config traded quantity := by
  unfold fillOrder at h
  split at h
  · cases h
    exact absurd hpositive (lt_irrefl 0)
  split at h
  · cases h
    exact absurd hpositive (lt_irrefl 0)
  split at h
  · cases h
  rename_i traded
  simp only at h
  split at h
  · cases h
    exact absurd hpositive (lt_irrefl 0)
  refine ⟨traded, rfl, ?_⟩
  cases h
  simp only [max_truncate]
  change min quantity (if 0 < max 0 (participationCap config traded)
    then max 0 (participationCap config traded) else quantity) = _
  unfold executable
  by_cases hcap : 0 < participationCap config traded
  · rw [max_eq_right hcap.le]
  · rw [max_eq_left (not_lt.mp hcap), if_neg (lt_irrefl 0), if_neg hcap]

section Executed

variable [Hashing ℚ] {config : BacktestConfig} {world : World} {state next : EngineState}
  {fillDate symbol : String} {release : Option String} {price : ℚ} {fill : FillModelResult}
  {quantity : ℤ}

omit [Hashing ℚ] in
/-- What is bought: the whole fill where the cash covers it, and else whole lots. -/
theorem boughtShares_cases {cash : ℚ} {asked bought : ℤ} {price : ℚ} (hasked : 0 < asked)
    (h : boughtShares config cash asked price = .ok bought) :
    (price ≤ 0 ∧ bought = 0) ∨
      (0 < price ∧ costTotal config.cost (asked * price) ≤ cash ∧ bought = asked) ∨
      (0 < price ∧ cash < costTotal config.cost (asked * price) ∧
        bought = max 0 (affordableLots config cash price)) := by
  unfold boughtShares at h
  split at h
  · rename_i hnothing
    exact .inl ⟨hnothing.resolve_left hasked.not_ge, (Except.ok.inj h).symm⟩
  rename_i hsomething
  have hprice := not_le.mp (not_or.mp hsomething).2
  split at h
  · rename_i hshort
    split at h
    · cases h
    · exact .inr (.inr ⟨hprice, hshort, (Except.ok.inj h).symm⟩)
  · rename_i henough
    exact .inr (.inl ⟨hprice, not_lt.mp henough, (Except.ok.inj h).symm⟩)

theorem carryOut_buy (h : state.carryOut config world fillDate release symbol
      (.trade .buy quantity price fill) = .ok next) :
    ∃ shares, boughtShares config state.cash fill.filledQuantity fill.fillPrice = .ok shares ∧
      ((shares ≤ 0 ∧ next.positions = state.positions ∧ next.trades = state.trades) ∨
        (0 < shares ∧
          next.positions = Function.update state.positions symbol
            ((state.positions symbol).buy shares) ∧
          ∃ row, next.trades = state.trades ++ [row] ∧ row.tradeDate = fillDate ∧
            row.symbol = symbol ∧ row.side = .buy ∧ row.shares = (shares : ℚ))) := by
  obtain ⟨mirror, order, -, hbuy⟩ := EngineState.carryOut_trade h
  obtain ⟨shares, after, hshares, hnone | hsome⟩ := EngineState.buy_ok hbuy
  · obtain ⟨hnone, -, rfl⟩ := hnone
    exact ⟨shares, hshares, .inl ⟨hnone, rfl, rfl⟩⟩
  · obtain ⟨hsome, -, rfl⟩ := hsome
    exact ⟨shares, hshares, .inr ⟨hsome, rfl, _, rfl, rfl, rfl, rfl, rfl⟩⟩

/-- A sale takes its shares out of the position, and adds a row where there is a price. -/
theorem carryOut_sell (h : state.carryOut config world fillDate release symbol
      (.trade .sell quantity price fill) = .ok next) :
    next.positions = Function.update state.positions symbol
        ((state.positions symbol).sell fill.filledQuantity) ∧
      ((soldShares (state.positions symbol) fill.filledQuantity fill.fillPrice ≤ 0 ∧
          next.trades = state.trades) ∨
        (0 < soldShares (state.positions symbol) fill.filledQuantity fill.fillPrice ∧
          ∃ row, next.trades = state.trades ++ [row] ∧ row.tradeDate = fillDate ∧
            row.symbol = symbol ∧ row.side = .sell ∧
            row.shares = (soldShares (state.positions symbol) fill.filledQuantity
              fill.fillPrice : ℚ))) := by
  obtain ⟨mirror, order, -, hsell⟩ := EngineState.carryOut_trade h
  obtain ⟨after, hnone | hsome⟩ := EngineState.sell_ok hsell
  · obtain ⟨hnone, -, rfl⟩ := hnone
    exact ⟨rfl, .inl ⟨hnone, rfl⟩⟩
  · obtain ⟨hsome, -, rfl⟩ := hsome
    exact ⟨rfl, .inr ⟨hsome, _, rfl, rfl, rfl, rfl, rfl⟩⟩

theorem carryOut_other {decision : Decision}
    (hother : ∀ side quantity price fill, decision ≠ .trade side quantity price fill)
    (h : state.carryOut config world fillDate release symbol decision = .ok next) :
    next.positions = state.positions ∧ next.trades = state.trades := by
  cases decision with
  | hold =>
    cases h
    exact ⟨rfl, rfl⟩
  | missingPrice =>
    cases h
    exact ⟨rfl, rfl⟩
  | refuse side quantity price reason oneWordBoard =>
    obtain ⟨mirror, -, rfl⟩ := EngineState.carryOut_refuse h
    exact ⟨rfl, rfl⟩
  | trade side quantity price fill => exact absurd rfl (hother side quantity price fill)

end Executed

end QuantAgent.Backtest
