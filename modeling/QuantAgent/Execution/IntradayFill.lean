import QuantAgent.Execution.BrokerBase
import QuantAgent.Library.Rounding

/-!
# Intraday fills

An intraday order is filled in one minute bar: in lots, up to a share of the volume, at a price with
slippage and spread.  The conservative mode asks this price whether it keeps the limit.  The other
modes ask the bar, and add slippage and spread afterwards.
-/

namespace QuantAgent.Execution

open Library

structure CostConfig where
  commissionRate : ℚ := 3 / 10000
  minCommission : ℚ := 5
  stampTaxSell : ℚ := 5 / 10000
  transferFee : ℚ := 1 / 100000
  slippageBps : ℚ := 8
  spreadBps : ℚ := 6

/-- The costs of a trade; those in basis points are relative to what is traded. -/
structure TradeCosts where
  grossPnlBps : ℚ := 0
  commissionBps : ℚ := 0
  stampTaxBps : ℚ := 0
  transferFeeBps : ℚ := 0
  slippageBps : ℚ := 0
  spreadCostBps : ℚ := 0
  netPnlBps : ℚ := 0
  commission : ℚ := 0
  stampTax : ℚ := 0
  transferFee : ℚ := 0
  slippageCost : ℚ := 0
  spreadCost : ℚ := 0
  total : ℚ := 0

def tradeCostBreakdown (side : OrderSide) (quantity : ℤ) (price : ℚ) (cfg : CostConfig) :
    TradeCosts :=
  let notional := max 0 quantity * max 0 price
  if notional ≤ 0 then {}
  else
    let commission := max cfg.minCommission (notional * cfg.commissionRate)
    let stamp := if side = .sell then notional * cfg.stampTaxSell else 0
    let transfer := notional * cfg.transferFee
    let slippage := notional * cfg.slippageBps / 10000
    let spread := notional * cfg.spreadBps / 10000
    let total := commission + stamp + transfer + slippage + spread
    { commissionBps := commission / notional * 10000
      stampTaxBps := stamp / notional * 10000
      transferFeeBps := transfer / notional * 10000
      slippageBps := cfg.slippageBps
      spreadCostBps := cfg.spreadBps
      netPnlBps := -total / notional * 10000
      commission
      stampTax := stamp
      transferFee := transfer
      slippageCost := slippage
      spreadCost := spread
      total }

inductive FillMode where
  | conservative
  | normal
  | optimistic
  deriving DecidableEq

def FillMode.value : FillMode → String
  | .conservative => "conservative"
  | .normal => "normal"
  | .optimistic => "optimistic"

/-- A row of the bar frame; a price limit that is missing is `none`. -/
structure IntradayBar where
  openPx : ℚ
  high : ℚ
  low : ℚ
  close : ℚ
  volume : ℚ
  limitUp : Option ℚ
  limitDown : Option ℚ
  tradeTime : String

/-- An infinite ratio is `none`. -/
structure IntradayFill where
  side : OrderSide
  requestedQty : ℤ
  filledQty : ℤ
  fillPrice : ℚ
  fillTime : String
  mode : String
  status : String
  reason : String
  participationRate : ℚ
  volumeCapacityRatio : Option ℚ
  costs : TradeCosts

def IntradayFill.filled (fill : IntradayFill) : Bool :=
  0 < fill.filledQty && fill.status ∈ ["filled", "partial"]

structure IntradayFillSimulator where
  costConfig : CostConfig := {}
  roundLot : ℤ := 100
  conservativeParticipation : ℚ := 1 / 20
  normalParticipation : ℚ := 1 / 10
  optimisticParticipation : ℚ := 1 / 5
  nearLimitBps : ℚ := 20

/-- `round(price, 6)`. -/
def roundMicros (x : ℚ) : ℚ := roundHalfEven (x * 1000000) / 1000000

namespace IntradayFillSimulator

variable (sim : IntradayFillSimulator)

/-- The bar of the signal itself, or the next one. -/
def executionBar (bars : List IntradayBar) (signalIndex : ℤ) (mode : FillMode) :
    Option IntradayBar :=
  let idx := if mode = .optimistic then signalIndex else signalIndex + 1
  if 0 ≤ idx then bars[idx.toNat]? else none

def participation : FillMode → ℚ
  | .conservative => sim.conservativeParticipation
  | .normal => sim.normalParticipation
  | .optimistic => sim.optimisticParticipation

def lot : ℤ := max 1 sim.roundLot

/-- `_round_lot`. -/
def lots (quantity : ℤ) : ℤ := max 0 quantity / sim.lot * sim.lot

def capacity (row : IntradayBar) (participation : ℚ) : ℤ :=
  sim.lots ⌊max 0 row.volume * participation⌋

def blockedByLimit (row : IntradayBar) (side : OrderSide) : Bool :=
  let closePx := if row.close = 0 then row.openPx else row.close
  let guard := sim.nearLimitBps / 10000
  match side with
  | .buy => row.limitUp.any fun lu ↦ 0 < lu && lu * (1 - guard) ≤ max row.openPx closePx
  | .sell => row.limitDown.any fun ld ↦ 0 < ld && min row.openPx closePx ≤ ld * (1 + guard)

/-- `_fill_price`. -/
def priceOf (row : IntradayBar) (side : OrderSide) (limitPrice : Option ℚ) (mode : FillMode) :
    Option ℚ :=
  let high := if row.high = 0 then row.openPx else row.high
  let low := if row.low = 0 then row.openPx else row.low
  let slip := sim.costConfig.slippageBps / 10000
  let spread := sim.costConfig.spreadBps / 10000
  match mode, side with
  | .conservative, .buy =>
    let price := row.openPx * (1 + (slip + spread))
    if limitPrice.any (· < price) then none else some price
  | .conservative, .sell =>
    let price := row.openPx * (1 - (slip + spread))
    if limitPrice.any (price < ·) then none else some price
  | .normal, .buy =>
    let target := limitPrice.getD row.openPx
    if target < low then none else some (min target row.openPx * (1 + slip + spread / 2))
  | .normal, .sell =>
    let target := limitPrice.getD row.openPx
    if high < target then none else some (max target row.openPx * (1 - slip - spread / 2))
  | .optimistic, .buy =>
    if limitPrice.any (· < low) then none
    else some ((limitPrice.elim low (min · row.openPx)) * (1 + spread / 4))
  | .optimistic, .sell =>
    if limitPrice.any (high < ·) then none
    else some ((limitPrice.elim high (max · row.openPx)) * (1 - spread / 4))

/-- `_empty`. -/
def empty (side : OrderSide) (quantity : ℤ) (mode : FillMode) (reason : String)
    (row : Option IntradayBar) : IntradayFill where
  side
  requestedQty := quantity
  filledQty := 0
  fillPrice := 0
  fillTime := row.elim "" (·.tradeTime)
  mode := mode.value
  status := "rejected"
  reason
  participationRate := 0
  volumeCapacityRatio := none
  costs := tradeCostBreakdown side 0 0 sim.costConfig

def simulate (bars : List IntradayBar) (signalIndex : ℤ) (side : OrderSide) (quantity : ℤ)
    (limitPrice : Option ℚ) (mode : FillMode) : IntradayFill :=
  if bars.isEmpty then sim.empty side quantity mode "no_bars" none
  else
    match executionBar bars signalIndex mode with
    | none => sim.empty side quantity mode "no_next_bar" none
    | some row =>
      if sim.blockedByLimit row side then
        sim.empty side quantity mode "near_price_limit" (some row)
      else
        match (sim.priceOf row side limitPrice mode).filter (0 < ·) with
        | none => sim.empty side quantity mode "limit_not_reached" (some row)
        | some price =>
          let participation := sim.participation mode
          let filledQty := sim.lots (min quantity (sim.capacity row participation))
          if filledQty ≤ 0 then sim.empty side quantity mode "no_liquidity" (some row)
          else
            let status := if filledQty = quantity then "filled" else "partial"
            let volume := max 0 row.volume
            { side
              requestedQty := quantity
              filledQty
              fillPrice := roundMicros price
              fillTime := row.tradeTime
              mode := mode.value
              status
              reason := if filledQty = quantity then "filled" else "capacity_partial"
              participationRate := if 0 < volume then filledQty / volume else 0
              volumeCapacityRatio :=
                if 0 < volume then some (quantity / max (volume * participation) 1) else none
              costs := tradeCostBreakdown side filledQty price sim.costConfig }

end IntradayFillSimulator

/-- The price keeps a limit. -/
def OrderSide.Keeps (side : OrderSide) (price limit : ℚ) : Prop :=
  match side with
  | .buy => price ≤ limit
  | .sell => limit ≤ price

/-- An order for a frame of positive consistent prices, with a limit of at most six decimals. -/
structure IntradayOrder where
  sim : IntradayFillSimulator
  bars : List IntradayBar
  consistent : ∀ row ∈ bars, 0 < row.low ∧ row.low ≤ row.openPx ∧ row.openPx ≤ row.high ∧
    row.low ≤ row.close ∧ row.close ≤ row.high
  signalIndex : ℤ
  side : OrderSide
  quantity : ℤ
  quantity_nonneg : 0 ≤ quantity
  limitPrice : Option ℚ
  sixDecimals : ∀ limit ∈ limitPrice, roundMicros limit = limit
  mode : FillMode
  rates : 0 ≤ sim.participation mode ∧ sim.participation mode ≤ 1

namespace IntradayOrder

variable (order : IntradayOrder)

def fill : IntradayFill :=
  order.sim.simulate order.bars order.signalIndex order.side order.quantity order.limitPrice
    order.mode

def bar : Option IntradayBar :=
  IntradayFillSimulator.executionBar order.bars order.signalIndex order.mode

/-- The lots that the bar leaves for the order. -/
def available (row : IntradayBar) : ℤ :=
  order.sim.lots (min order.quantity (order.sim.capacity row (order.sim.participation order.mode)))

/-- A fill keeps the limit, the lot, the quantity and the share of the volume, and says whether it
is whole. -/
structure Proper : Prop where
  limit : ∀ limit ∈ order.limitPrice, order.side.Keeps order.fill.fillPrice limit
  lot : 0 < order.fill.filledQty ∧ order.sim.lot ∣ order.fill.filledQty
  quantity : order.fill.filledQty ≤ order.quantity
  volume : ∀ row ∈ order.bar,
    order.fill.filledQty ≤ ⌊row.volume * order.sim.participation order.mode⌋
  status : order.fill.status = "filled" ↔ order.fill.filledQty = order.quantity

def FillsProperly : Prop := order.fill.filled = true → order.Proper

/-- What slippage and spread add where the bar alone is asked for the limit. -/
def markup : ℚ :=
  let slip := order.sim.costConfig.slippageBps / 10000
  let spread := order.sim.costConfig.spreadBps / 10000
  if order.mode = .normal then slip + spread / 2 else spread / 4

/-- The bar reaches the limit, and the better of limit and open is marked up beyond it. -/
def Oversteps (row : IntradayBar) (limit : ℚ) : Prop :=
  match order.side with
  | .buy => row.low ≤ limit ∧ 0 < min limit row.openPx * (1 + order.markup) ∧
      limit < roundMicros (min limit row.openPx * (1 + order.markup))
  | .sell => limit ≤ row.high ∧ 0 < max limit row.openPx * (1 - order.markup) ∧
      roundMicros (max limit row.openPx * (1 - order.markup)) < limit

/-- The price at which a bar fills the order. -/
structure Executes (row : IntradayBar) (price : ℚ) : Prop where
  bar : order.bar = some row
  free : order.sim.blockedByLimit row order.side = false
  priced : order.sim.priceOf row order.side order.limitPrice order.mode = some price
  pos : 0 < price
  available : 0 < order.available row

variable {order} {row : IntradayBar} {price limit : ℚ}

theorem mem_of_bar (h : order.bar = some row) : row ∈ order.bars := by
  simp only [bar, IntradayFillSimulator.executionBar, Option.ite_none_right_eq_some] at h
  exact List.mem_of_getElem? h.2

theorem Executes.fill (h : order.Executes row price) :
    order.fill.filled = true ∧ order.fill.fillPrice = roundMicros price ∧
      order.fill.filledQty = order.available row ∧
      order.fill.status = if order.available row = order.quantity then "filled" else "partial" := by
  have hbars : order.bars.isEmpty = false := by
    rw [List.isEmpty_eq_false_iff]
    exact List.ne_nil_of_mem (mem_of_bar h.bar)
  have hbar := h.bar
  have havailable := h.available
  rw [IntradayOrder.bar] at hbar
  rw [IntradayOrder.available] at havailable ⊢
  simp only [IntradayOrder.fill, IntradayFillSimulator.simulate, hbars, hbar, h.free, h.priced,
    Option.filter_some, h.pos, decide_true, Bool.false_eq_true, if_false, if_true,
    not_le.mpr havailable]
  simp only [IntradayFill.filled, havailable, decide_true, Bool.true_and, and_self, and_true]
  split <;> decide

theorem exists_executes (h : order.fill.filled = true) : ∃ row price, order.Executes row price := by
  simp only [IntradayOrder.fill, IntradayFillSimulator.simulate] at h
  split at h
  · cases h
  split at h
  · cases h
  split at h
  · cases h
  split at h
  · cases h
  split at h
  · cases h
  rename_i row hbar hfree _ price hpriced hlots
  obtain ⟨hpriced, hpos⟩ := Option.filter_eq_some_iff.mp hpriced
  exact ⟨row, price, hbar, Bool.eq_false_iff.mpr hfree, hpriced, of_decide_eq_true hpos,
    not_le.mp hlots⟩

theorem roundMicros_mono {x y : ℚ} (h : x ≤ y) : roundMicros x ≤ roundMicros y := by
  have hscaled := roundHalfEven_mono
    (mul_le_mul_of_nonneg_right h (by norm_num : (0 : ℚ) ≤ 1000000))
  exact div_le_div_of_nonneg_right (Int.cast_le.mpr hscaled) (by norm_num)

/-- Conservatively the price of a fill keeps the limit. -/
theorem keeps_of_conservative (hmode : order.mode = .conservative)
    (hlimit : order.limitPrice = some limit)
    (h : order.sim.priceOf row order.side order.limitPrice order.mode = some price) :
    order.side.Keeps (roundMicros price) limit := by
  have hround := order.sixDecimals limit hlimit
  rw [hmode, hlimit] at h
  cases hside : order.side with
  | buy =>
    simp only [hside, IntradayFillSimulator.priceOf, Option.any_some, decide_eq_true_eq,
      Option.ite_none_left_eq_some] at h
    cases h.2
    exact (roundMicros_mono (not_lt.mp h.1)).trans_eq hround
  | sell =>
    simp only [hside, IntradayFillSimulator.priceOf, Option.any_some, decide_eq_true_eq,
      Option.ite_none_left_eq_some] at h
    cases h.2
    exact hround.ge.trans (roundMicros_mono (not_lt.mp h.1))

/-- In the other modes it misses the limit exactly when it oversteps. -/
theorem oversteps_iff (hmode : order.mode ≠ .conservative) (hlimit : order.limitPrice = some limit)
    (hrow : row ∈ order.bars) :
    order.Oversteps row limit ↔
      ∃ price, order.sim.priceOf row order.side order.limitPrice order.mode = some price ∧
        0 < price ∧ ¬ order.side.Keeps (roundMicros price) limit := by
  obtain ⟨hlow, hopen, hhigh, -, -⟩ := order.consistent row hrow
  have hlow_ne := hlow.ne'
  have hhigh_ne := ((hlow.trans_le hopen).trans_le hhigh).ne'
  rw [hlimit]
  cases hside : order.side <;> cases hmarked : order.mode <;>
    simp_all [Oversteps, markup, IntradayFillSimulator.priceOf, OrderSide.Keeps, add_assoc, sub_sub]

theorem lots_le {sim : IntradayFillSimulator} {quantity : ℤ} (h : 0 < sim.lots quantity) :
    sim.lots quantity ≤ quantity := by
  have hlot : 0 < sim.lot := lt_of_lt_of_le one_pos (le_max_left _ _)
  have hle : sim.lots quantity ≤ max 0 quantity := Int.ediv_mul_le _ hlot.ne'
  rcases max_choice 0 quantity with hzero | hsame
  · exact absurd (h.trans_le (hle.trans_eq hzero)) (lt_irrefl _)
  · exact hle.trans_eq hsame

/-- A fill is proper when it keeps the limit. -/
theorem Executes.proper_iff (h : order.Executes row price) :
    order.Proper ↔ ∀ limit ∈ order.limitPrice, order.side.Keeps (roundMicros price) limit := by
  obtain ⟨-, hprice, hquantity, hstatus⟩ := h.fill
  rw [← hprice]
  refine ⟨fun hproper ↦ hproper.limit, fun hkeeps ↦ ?_⟩
  have hpos := h.available
  have hmin := lots_le hpos
  have hcapacity := hmin.trans (min_le_right _ _)
  have hfloor := hcapacity.trans (lots_le (hpos.trans_le hcapacity))
  refine ⟨hkeeps, ?_, ?_, fun row' hrow' ↦ ?_, ?_⟩
  · rw [hquantity]
    exact ⟨hpos, Dvd.intro_left _ rfl⟩
  · rw [hquantity]
    exact hmin.trans (min_le_left _ _)
  · cases h.bar.symm.trans hrow'
    rw [hquantity]
    rcases max_choice 0 row.volume with hzero | hsame
    · rw [hzero, zero_mul, Int.floor_zero] at hfloor
      exact absurd (hpos.trans_le hfloor) (lt_irrefl _)
    · exact hsame ▸ hfloor
  · rw [hstatus, hquantity]
    split
    · simp_all
    · simp_all

end IntradayOrder

/-- The bar opens above the limit of ten and reaches it. -/
def overstepping : IntradayOrder where
  sim := {}
  bars := [⟨51 / 5, 11, 9, 10, 100000, none, none, "09:31:00"⟩,
    ⟨51 / 5, 11, 9, 10, 100000, none, none, "09:32:00"⟩]
  consistent := by decide +kernel
  signalIndex := 0
  side := .buy
  quantity := 100
  quantity_nonneg := by decide
  limitPrice := some 10
  sixDecimals := by decide +kernel
  mode := .normal
  rates := by decide +kernel

end QuantAgent.Execution
