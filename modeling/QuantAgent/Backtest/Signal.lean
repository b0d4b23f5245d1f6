import QuantAgent.Backtest.Feasible
import QuantAgent.Backtest.Settlement

/-!
# Trading with the signal

A holding is to move towards what the target weight is worth, and not beyond it.  It does where the
target itself is traded and a sale starts above it.  Where one side of the market is blocked, the
weight of the signal session is traded at the price of the fill session instead; and a holding of an
odd number of shares is sold down to the lots below a target that is not below the holding.
-/

namespace QuantAgent.Backtest

open Library Domain QuantMath MarketRules

/-- `intended_shares`, at the price of the fill session. -/
def intendedShares (state : EngineState) (target price : ℚ) : ℚ := target * state.nav / price

/-- What a trade does about one symbol that is intended to be held in some number of shares: no sale
below that number, no purchase above it, and nothing beyond it. -/
structure Follows (state next : EngineState) (symbol : String) (intended : ℚ) : Prop where
  noSell : (state.positions symbol).totalShares ≤ intended →
    ∀ row ∈ next.trades.drop state.trades.length, row.symbol = symbol → row.side ≠ .sell
  noBuy : intended ≤ (state.positions symbol).totalShares →
    ∀ row ∈ next.trades.drop state.trades.length, row.symbol = symbol → row.side ≠ .buy
  notBelow : min ((state.positions symbol).totalShares : ℚ) intended ≤
    (next.positions symbol).totalShares
  notAbove : ((next.positions symbol).totalShares : ℚ) ≤
    max ((state.positions symbol).totalShares : ℚ) intended

/-- A run trades with its signal: so does whatever it does about a symbol in a session.  Each symbol
is traded at most once for a session. -/
def FollowsSignal [Hashing ℚ] [FloatPower] [Platform] (config : BacktestConfig)
    (weights : TargetWeights) (prices : PricePanel) (world : World) : Prop :=
  ∀ tape, markPanel config.fillPriceColumn prices = .ok tape →
    ∀ state date fillDate release symbol next, Fold.Meets (tick config weights tape world)
      (opening config weights) (schedule config tape weights.symbols weights.dates) state
      (.trade date fillDate release symbol) →
        tick config weights tape world state (.trade date fillDate release symbol) = .ok next →
          ∀ price, cellOf tape fillDate symbol config.fillPriceColumn = some price →
            Follows state next symbol (intendedShares state (weights.weight date symbol) price)

def Unpinned (state : EngineState) (symbol : String) (target price : ℚ) : Prop :=
  state.tradableTarget symbol = target ∧ 1 / 1000000000000 ≤ price

/-- What an order may do.  A sale trades the target itself, from above it, or its shares stay within
what is to be sold.  A purchase trades the target itself, or its shares stay within what is to be
bought; where cash does not cover its fill, the lots that cash covers do. -/
def OnSignal (config : BacktestConfig) (state : EngineState) (symbol : String)
    (target volume : ℚ) : Decision → Prop
  | .trade .buy quantity price fill =>
    let missing := intendedShares state target price - (state.positions symbol).totalShares
    let lots := affordableLots config state.cash fill.fillPrice
    0 < fill.fillPrice →
      (costTotal config.cost (fill.filledQuantity * fill.fillPrice) ≤ state.cash →
        Unpinned state symbol target price ∨
          executable config.fillModel volume quantity ≤ missing) ∧
      (state.cash < costTotal config.cost (fill.filledQuantity * fill.fillPrice) → 0 < lots →
        lots ≤ missing)
  | .trade .sell quantity price _ =>
    let excess := (state.positions symbol).totalShares - intendedShares state target price
    (Unpinned state symbol target price ∧
      state.rawTarget symbol price < (state.positions symbol).totalShares) ∨
    (state.positions symbol).sellable (executable config.fillModel volume quantity) ≤
      max 0 excess
  | _ => True

def OnSignalStep [FloatPower] (config : BacktestConfig) (weights : TargetWeights)
    (tape : List Bar) (state : EngineState) (date fillDate symbol : String) : Prop :=
  ∀ decision volume,
    decideSymbol config tape (weights.weight date symbol) state fillDate symbol = .ok decision →
      cellOf tape fillDate symbol "volume" = some volume →
        OnSignal config state symbol (weights.weight date symbol) volume decision

section Follows

variable {state next : EngineState} {symbol : String} {intended : ℚ}

theorem Follows.of_same (hpositions : next.positions symbol = state.positions symbol)
    (htrades : next.trades = state.trades) (intended : ℚ) :
    Follows state next symbol intended where
  noSell := by simp [htrades]
  noBuy := by simp [htrades]
  notBelow := by
    rw [hpositions]
    exact min_le_left _ _
  notAbove := by
    rw [hpositions]
    exact le_max_left _ _

variable {shares : ℤ}

/-- A purchase follows the signal exactly when it buys no more than is missing. -/
theorem follows_buy_iff {row : TradeRow} (hshares : 0 < shares)
    (hnext : (next.positions symbol).totalShares = (state.positions symbol).totalShares + shares)
    (htrades : next.trades = state.trades ++ [row]) (hside : row.side = .buy) :
    Follows state next symbol intended ↔
      (shares : ℚ) ≤ intended - (state.positions symbol).totalShares := by
  have hpos : (0 : ℚ) < shares := Int.cast_pos.mpr hshares
  have hheld : ((next.positions symbol).totalShares : ℚ) =
      (state.positions symbol).totalShares + shares := by
    rw [hnext]
    exact Int.cast_add _ _
  constructor
  · intro h
    have habove := h.notAbove
    rw [hheld] at habove
    rcases le_max_iff.mp habove with hless | hless <;> linarith
  · intro hle
    refine ⟨?_, ?_, ?_, ?_⟩
    · intro _ other hother _
      rw [htrades, List.drop_left, List.mem_singleton] at hother
      rw [hother, hside]
      decide
    · intro hless
      linarith
    · rw [hheld]
      exact min_le_of_left_le (by linarith)
    · rw [hheld]
      exact le_max_of_le_right (by linarith)

/-- A sale follows the signal exactly when it takes no more than is to be sold. -/
theorem follows_sell_iff (hshares : 0 ≤ shares)
    (hnext : (next.positions symbol).totalShares = (state.positions symbol).totalShares - shares)
    (htrades : next.trades = state.trades ∨ 0 < shares ∧ ∃ row, next.trades = state.trades ++ [row]
      ∧ row.side = .sell) :
    Follows state next symbol intended ↔
      (shares : ℚ) ≤ max 0 ((state.positions symbol).totalShares - intended) := by
  have hnonneg : (0 : ℚ) ≤ shares := Int.cast_nonneg hshares
  have hheld : ((next.positions symbol).totalShares : ℚ) =
      (state.positions symbol).totalShares - shares := by
    rw [hnext]
    exact Int.cast_sub _ _
  constructor
  · intro h
    have hbelow := h.notBelow
    rw [hheld] at hbelow
    rcases min_le_iff.mp hbelow with hless | hless
    · exact le_max_of_le_left (by linarith)
    · exact le_max_of_le_right (by linarith)
  · intro hle
    have hbetween : min ((state.positions symbol).totalShares : ℚ) intended ≤
        (state.positions symbol).totalShares - shares := by
      rcases le_max_iff.mp hle with hless | hless
      · exact min_le_of_left_le (by linarith)
      · exact min_le_of_right_le (by linarith)
    refine ⟨?_, ?_, ?_, ?_⟩
    · intro hless row hrow _
      rcases htrades with hsame | ⟨hsome, -⟩
      · simp [hsame] at hrow
      · have hsold : (0 : ℚ) < shares := Int.cast_pos.mpr hsome
        rcases le_max_iff.mp hle with hnone | hnone <;> linarith
    · intro _ row hrow _
      rcases htrades with hsame | ⟨-, sold, hsold, hside⟩
      · simp [hsame] at hrow
      · rw [hsold, List.drop_left, List.mem_singleton] at hrow
        rw [hrow, hside]
        decide
    · rw [hheld]
      exact hbetween
    · rw [hheld]
      exact le_max_of_le_left (by linarith)

end Follows

def Long (state : EngineState) : Prop :=
  ∀ symbol, 0 ≤ (state.positions symbol).availableShares ∧
    0 ≤ (state.positions symbol).frozenTodayShares

variable {state : EngineState}

theorem Long.total (h : Long state) (symbol : String) :
    0 ≤ (state.positions symbol).totalShares :=
  add_nonneg (h symbol).1 (h symbol).2

section Long

variable [Hashing ℚ] {config : BacktestConfig} {world : World} {state next : EngineState}

variable {symbol : String}

omit [Hashing ℚ] in
theorem Long.of_update {position : TPlusOnePosition} (h : Long state)
    (hposition : 0 ≤ position.availableShares ∧ 0 ≤ position.frozenTodayShares)
    (hnext : next.positions = Function.update state.positions symbol position) : Long next := by
  intro other
  rw [hnext]
  by_cases hother : other = symbol
  · subst hother
    rw [Function.update_self]
    exact hposition
  · rw [Function.update_of_ne hother]
    exact h other

theorem Long.carryOut {fillDate : String} {release : Option String} {decision : Decision}
    (h : Long state)
    (hnext : state.carryOut config world fillDate release symbol decision = .ok next) :
    Long next := by
  by_cases htrade : ∃ side quantity price fill, decision = .trade side quantity price fill
  · obtain ⟨side, quantity, price, fill, rfl⟩ := htrade
    cases side with
    | buy =>
      obtain ⟨shares, -, ⟨-, hsame, -⟩ | ⟨hsome, hbought, -⟩⟩ := carryOut_buy hnext
      · intro other
        rw [hsame]
        exact h other
      · refine h.of_update ?_ hbought
        rw [TPlusOnePosition.buy, if_neg hsome.not_ge]
        exact ⟨(h symbol).1, add_nonneg (h symbol).2 hsome.le⟩
    | sell =>
      obtain ⟨hsold, -⟩ := carryOut_sell hnext
      refine h.of_update ⟨?_, ?_⟩ hsold
      · exact sub_nonneg.mpr (min_le_left _ _)
      · exact (h symbol).2
  · obtain ⟨hsame, -⟩ := carryOut_other
      (fun side quantity price fill heq ↦ htrade ⟨side, quantity, price, fill, heq⟩) hnext
    intro other
    rw [hsame]
    exact h other

variable {weights : TargetWeights} {tape : List Bar} {step : Tick}

theorem Long.tick [FloatPower] (h : Long state)
    (hnext : tick config weights tape world state step = .ok next) : Long next := by
  cases step with
  | trade date fillDate release symbol =>
    obtain ⟨decision, -, hcarried⟩ := carryOut_of_trade hnext
    exact h.carryOut hcarried
  | settle date =>
    cases hnext
    intro symbol
    rcases settle_cases state date weights.symbols symbol with hsame | ⟨hsettled, -⟩
    · rw [hsame]
      exact h symbol
    · rw [hsettled]
      exact ⟨h.total symbol, le_rfl⟩
  | _ =>
    cases hnext
    exact h

/-- A run never holds less than nothing. -/
theorem long_of_meets [FloatPower]
    (h : Fold.Meets (Backtest.tick config weights tape world) (opening config weights) (schedule
      config tape weights.symbols weights.dates) state step) : Long state := by
  obtain ⟨before, after, -, hbefore⟩ := h
  refine Fold.invariant Long ?_ (fun _ ↦ ⟨le_rfl, le_rfl⟩) hbefore
  exact fun _ _ _ _ hlong hnext ↦ hlong.tick hnext

end Long

section Sizes

variable {state : EngineState} {symbol : String} {target price : ℚ}

/-- A target that is traded itself is worth what is intended. -/
theorem Unpinned.rawTarget (h : Unpinned state symbol target price) :
    state.rawTarget symbol price = intendedShares state target price := by
  rw [EngineState.rawTarget, intendedShares, h.1, max_eq_left h.2]

/-- What is bought for the traded target does not exceed it. -/
theorem delta_le_of_pos (hlong : 0 ≤ (state.positions symbol).totalShares)
    (h : 0 < state.delta symbol price) :
    (state.delta symbol price : ℚ) ≤
      state.rawTarget symbol price - (state.positions symbol).totalShares := by
  have hheld : (0 : ℚ) ≤ (state.positions symbol).totalShares := Int.cast_nonneg hlong
  unfold EngineState.delta EngineState.desiredTotal at h ⊢
  simp only at h ⊢
  split at h
  · rename_i hbelow
    have hrounded := roundOrderQuantity_le symbol .buy (hheld.trans hbelow)
    rw [if_pos hbelow, Int.cast_sub]
    exact sub_le_sub_right hrounded _
  · have hrounded := roundOrderQuantity_nonneg symbol .sell
      ((state.positions symbol).totalShares - state.rawTarget symbol price)
    omega

/-- What is sold from above the traded target does not go below it. -/
theorem neg_delta_le (h : state.rawTarget symbol price < (state.positions symbol).totalShares) :
    (-state.delta symbol price : ℚ) ≤
      (state.positions symbol).totalShares - state.rawTarget symbol price := by
  have hrounded := roundOrderQuantity_le symbol .sell (sub_nonneg.mpr h.le)
  have hdelta : -state.delta symbol price = roundOrderQuantity symbol .sell
      ((state.positions symbol).totalShares - state.rawTarget symbol price) := by
    unfold EngineState.delta EngineState.desiredTotal
    simp only [if_neg h.not_ge]
    ring
  calc (-state.delta symbol price : ℚ)
      = ((-state.delta symbol price : ℤ) : ℚ) := (Int.cast_neg _).symm
    _ ≤ _ := by
        rw [hdelta]
        exact hrounded

variable {delta : ℤ}

theorem sideOf_buy (h : Side.buy = sideOf delta) : 0 < delta := by
  by_contra hnot
  rw [sideOf, if_neg hnot] at h
  exact absurd h (by decide)

theorem sideOf_sell (h : Side.sell = sideOf delta) : delta ≤ 0 := by
  by_contra hnot
  rw [sideOf, if_pos (not_le.mp hnot)] at h
  exact absurd h (by decide)

end Sizes

section Orders

variable [FloatPower] {config : BacktestConfig} {tape : List Bar} {state next : EngineState}
  {fillDate symbol : String} {quantity : ℤ} {price target volume : ℚ} {fill : FillModelResult}
  {bar : Bar}

/-- What is bought stays within what is missing exactly when the order is on the signal. -/
theorem bought_le_iff_onSignal {shares : ℤ} (hlong : 0 ≤ (state.positions symbol).totalShares)
    (h : Ordered config tape state fillDate symbol .buy quantity price fill bar)
    (hvolume : cellOf tape fillDate symbol "volume" = some volume)
    (hshares : boughtShares config state.cash fill.filledQuantity fill.fillPrice = .ok shares) :
    (0 < shares → (shares : ℚ) ≤
        intendedShares state target price - (state.positions symbol).totalShares) ↔
      OnSignal config state symbol target volume (.trade .buy quantity price fill) := by
  obtain ⟨traded, htraded, hfilled⟩ := h.filledQuantity
  cases hvolume.symm.trans htraded
  simp only [OnSignal]
  rcases boughtShares_cases h.positive hshares with
    ⟨hprice, rfl⟩ | ⟨hprice, hcovered, rfl⟩ | ⟨hprice, hshort, rfl⟩
  · exact iff_of_true (fun hsome ↦ absurd hsome (lt_irrefl 0))
      (fun hsome ↦ absurd hsome hprice.not_gt)
  · simp only [hprice, hcovered, hcovered.not_gt, forall_const, false_imp_iff, and_true]
    constructor
    · intro hwithin
      have hbought := hwithin h.positive
      rw [hfilled] at hbought
      exact .inr hbought
    · intro honSignal _
      rw [hfilled]
      rcases honSignal with hunpinned | hwithin
      · have hdelta := sideOf_buy h.ofSide
        have hquantity := h.ofSize.trans (abs_of_pos hdelta)
        calc (executable config.fillModel volume quantity : ℚ)
            ≤ quantity := Int.cast_le.mpr (executable_le _ _ _)
          _ = state.delta symbol price := by rw [hquantity]
          _ ≤ state.rawTarget symbol price - (state.positions symbol).totalShares :=
              delta_le_of_pos hlong hdelta
          _ = intendedShares state target price - (state.positions symbol).totalShares := by
              rw [hunpinned.rawTarget]
      · exact hwithin
  · simp only [hprice, hshort, hshort.not_ge, forall_const, false_imp_iff, true_and]
    exact forall_max_iff (fun lots ↦ (lots : ℚ) ≤
      intendedShares state target price - (state.positions symbol).totalShares)

/-- What is sold stays within what is to be sold exactly when the order is on the signal. -/
theorem sold_le_iff_onSignal
    (h : Ordered config tape state fillDate symbol .sell quantity price fill bar)
    (hvolume : cellOf tape fillDate symbol "volume" = some volume) :
    ((state.positions symbol).sellable fill.filledQuantity : ℚ) ≤
        max 0 ((state.positions symbol).totalShares - intendedShares state target price) ↔
      OnSignal config state symbol target volume (.trade .sell quantity price fill) := by
  obtain ⟨traded, htraded, hfilled⟩ := h.filledQuantity
  cases hvolume.symm.trans htraded
  simp only [OnSignal]
  constructor
  · intro hwithin
    rw [hfilled] at hwithin
    exact .inr hwithin
  · intro honSignal
    rcases honSignal with ⟨hunpinned, habove⟩ | hwithin
    · have hquantity := h.ofSize.trans (abs_of_nonpos (sideOf_sell h.ofSide))
      have hsold : (state.positions symbol).sellable fill.filledQuantity ≤ quantity := by
        calc (state.positions symbol).sellable fill.filledQuantity
            ≤ max fill.filledQuantity 0 := min_le_right _ _
          _ = fill.filledQuantity := max_eq_left h.positive.le
          _ ≤ quantity := by
              rw [hfilled]
              exact executable_le _ _ _
      refine le_max_of_le_right ?_
      calc ((state.positions symbol).sellable fill.filledQuantity : ℚ)
          ≤ quantity := Int.cast_le.mpr hsold
        _ = -state.delta symbol price := by
            rw [hquantity]
            exact Int.cast_neg _
        _ ≤ (state.positions symbol).totalShares - state.rawTarget symbol price :=
            neg_delta_le habove
        _ = (state.positions symbol).totalShares - intendedShares state target price := by
            rw [hunpinned.rawTarget]
    · rw [hfilled]
      exact hwithin

variable [Hashing ℚ] {world : World} {release : Option String}

/-- A decision trades with the signal exactly when what it orders is on it. -/
theorem follows_carryOut_iff {decision : Decision} (hlong : Long state)
    (hdecision : decideSymbol config tape target state fillDate symbol = .ok decision)
    (hprice : cellOf tape fillDate symbol config.fillPriceColumn = some price)
    (h : state.carryOut config world fillDate release symbol decision = .ok next) :
    Follows state next symbol (intendedShares state target price) ↔ ∀ volume,
      cellOf tape fillDate symbol "volume" = some volume →
        OnSignal config state symbol target volume decision := by
  by_cases htrade : ∃ side quantity price fill, decision = .trade side quantity price fill
  · obtain ⟨side, quantity, price', fill, rfl⟩ := htrade
    obtain ⟨bar, hordered⟩ := decideSymbol_trade hdecision
    have hsame : some price = some price' := by
      rw [← hprice, cellOf, hordered.onTape]
      exact hordered.priced
    cases hsame
    obtain ⟨traded, hvolume, -⟩ := hordered.filledQuantity
    simp only [hvolume, Option.some.injEq, forall_eq']
    cases side with
    | buy =>
      obtain ⟨shares, hshares, hnone | hsome⟩ := carryOut_buy h
      · obtain ⟨hnone, hpositions, htrades⟩ := hnone
        rw [← bought_le_iff_onSignal (hlong.total symbol) hordered hvolume hshares]
        exact iff_of_true (.of_same (congrFun hpositions symbol) htrades _)
          fun hsome ↦ absurd hsome hnone.not_gt
      · obtain ⟨hsome, hpositions, row, htrades, -, -, hside, -⟩ := hsome
        have hheld : (next.positions symbol).totalShares =
            (state.positions symbol).totalShares + shares := by
          rw [hpositions, Function.update_self, TPlusOnePosition.totalShares_buy _ hsome]
        rw [← bought_le_iff_onSignal (hlong.total symbol) hordered hvolume hshares,
          follows_buy_iff hsome hheld htrades hside]
        exact ⟨fun hwithin _ ↦ hwithin, fun hwithin ↦ hwithin hsome⟩
    | sell =>
      obtain ⟨hpositions, hrows⟩ := carryOut_sell h
      have hheld : (next.positions symbol).totalShares = (state.positions symbol).totalShares -
          (state.positions symbol).sellable fill.filledQuantity := by
        rw [hpositions, Function.update_self, TPlusOnePosition.totalShares_sell]
      have htrades : next.trades = state.trades ∨
          0 < (state.positions symbol).sellable fill.filledQuantity ∧
            ∃ row, next.trades = state.trades ++ [row] ∧ row.side = .sell := by
        rcases hrows with ⟨-, hkept⟩ | ⟨hsold, row, hrow, -, -, hside, -⟩
        · exact .inl hkept
        · refine .inr ⟨?_, row, hrow, hside⟩
          rw [soldShares_of_pos hsold]
          exact hsold
      rw [← sold_le_iff_onSignal hordered hvolume]
      exact follows_sell_iff (sellable_nonneg (hlong symbol).1 _) hheld htrades
  · obtain ⟨hpositions, htrades⟩ := carryOut_other
      (fun side quantity price fill heq ↦ htrade ⟨side, quantity, price, fill, heq⟩) h
    refine iff_of_true (.of_same (congrFun hpositions symbol) htrades _) ?_
    intro volume _
    cases decision with
    | trade side quantity price fill => exact absurd ⟨side, quantity, price, fill, rfl⟩ htrade
    | _ => trivial

end Orders

section Runs

variable [Hashing ℚ] [FloatPower] [Platform]

/-- The condition on a run: every order is on the signal. -/
def OnSignalThroughout (config : BacktestConfig) (weights : TargetWeights) (prices : PricePanel)
    (world : World) : Prop :=
  ∀ tape, markPanel config.fillPriceColumn prices = .ok tape →
    ∀ state date fillDate release symbol next, Fold.Meets (tick config weights tape world)
      (opening config weights) (schedule config tape weights.symbols weights.dates) state
      (.trade date fillDate release symbol) →
        tick config weights tape world state (.trade date fillDate release symbol) = .ok next →
          OnSignalStep config weights tape state date fillDate symbol

omit [Hashing ℚ] [Platform] in
theorem onSignal_of_unpriced {config : BacktestConfig} {tape : List Bar} {target volume : ℚ}
    {state : EngineState} {fillDate symbol : String} {decision : Decision}
    (hprice : cellOf tape fillDate symbol config.fillPriceColumn = none)
    (hdecision : decideSymbol config tape target state fillDate symbol = .ok decision) :
    OnSignal config state symbol target volume decision := by
  cases decision with
  | trade side quantity price fill =>
    obtain ⟨bar, hordered⟩ := decideSymbol_trade hdecision
    rw [cellOf, hordered.onTape] at hprice
    exact absurd (hordered.priced.symm.trans hprice) (by simp)
  | _ => trivial

end Runs

def fallenRow (date : String) : PriceRow :=
  { flatRow date with
    cell := fun name ↦
      if name = "volume" then some 100000 else if name = "high" then some 10 else some 9 }

/-- The bar after one that closes at ten, with its marks. -/
def fallenBar (date : String) : Bar := ⟨fallenRow date, false, true, false, false⟩

/-- The share closes at ten for two sessions and falls to its limit in the third. -/
def fallingPanel : PricePanel where
  columns := ["close", "high", "low", "volume"]
  rows := [flatRow firstDay, flatRow secondDay, fallenRow thirdDay]
  distinct := by decide

def fallingTape : List Bar := [flatBar firstDay, flatBar secondDay, fallenBar thirdDay]

theorem markPanel_fallingPanel : markPanel "close" fallingPanel = .ok fallingTape :=
  markPanel_of_three (by decide) rfl rfl (markRow_of_marks (some (1 / 10)) (by decide +kernel))
    (markRow_of_marks (some (1 / 10)) (by decide +kernel))
    (markRow_of_marks (some (1 / 10)) (by decide +kernel))

/-- A decision sees the worth of the book, the position and the tradable weight. -/
theorem decideSymbol_congr [FloatPower] {config : BacktestConfig} {tape : List Bar} {target : ℚ}
    {other : EngineState} {fillDate symbol : String} (hnav : state.nav = other.nav)
    (hposition : state.positions symbol = other.positions symbol)
    (htarget : state.tradableTarget symbol = other.tradableTarget symbol) :
    decideSymbol config tape target state fillDate symbol =
      decideSymbol config tape target other fillDate symbol := by
  simp only [decideSymbol, decideBar, hnav, hposition, htarget]

/-- A run over these sessions, before it trades in its first one. -/
def plannedFalling : EngineState :=
  let settled := (opening (runOn 180000 true .empty) threeDays).settle firstDay threeDays.symbols
  let marked := { settled with nav := settled.markToMarket fallingTape firstDay threeDays.symbols }
  { marked with tradableTarget := marked.plan threeDays fallingTape firstDay secondDay }

theorem decideSymbol_plannedFalling :
    decideSymbol (runOn 180000 true .empty) fallingTape (1 / 2) plannedFalling secondDay
      "600000.SH" = .ok (.trade .buy 9000 10 ⟨9000, 10, none⟩) := by
  refine Fold.toOption_iff.mp ?_
  decide +kernel

/-- What the run has after it has bought nine thousand shares for ten. -/
def heldNine : EngineState where
  cash := 180000 - costTotal explicitFees (9000 * 10)
  nav := 180000 - costTotal explicitFees (9000 * 10) + 9000 * 10
  positions _ := ⟨0, 9000⟩
  releaseDates _ := none
  mirror := .fresh false
  trades := []
  rejects := []
  tradableTarget _ := 9000 * 10 / (180000 - costTotal explicitFees (9000 * 10) + 9000 * 10)

/-- The half that may not be sold down to is worth ten thousand shares at the lower price. -/
theorem decideSymbol_heldNine :
    decideSymbol (runOn 180000 true .empty) fallingTape (1 / 2) heldNine thirdDay "600000.SH" =
      .ok (.trade .buy 1000 9 ⟨1000, 9, none⟩) := by
  refine Fold.toOption_iff.mp ?_
  decide +kernel

end QuantAgent.Backtest
