import QuantAgent.Simulator.TargetOrders

/-!
# Target weights as order intents

Each priced symbol is moved towards what its weight is worth, sales first, by a legal number of
shares.  A weight that counts as zero is sold as if it were worth nothing, and a fund or a bond is
sold below its lot whatever is left of it; all intents are legal exactly when neither leaves an odd
number of shares behind.
-/

namespace QuantAgent.Simulator

open Library QuantMath MarketRules
open Execution (OrderSide VenuePosition NormalLot cashEquityBoard maxOrderQuantity)

/-- What intents are made from: weights that are not negative, a positive price for each symbol, a
positive net asset value and one position for each symbol. -/
structure TargetRequest where
  weights : Weights
  prices : List (String × ℚ)
  nav : ℚ
  positions : List VenuePosition
  nonneg : ∀ symbol weight, weights.get? symbol = some (some weight) → 0 ≤ weight
  distinct : (prices.map Prod.fst).Nodup
  priced : ∀ entry ∈ prices, 0 < entry.2
  positive : 0 < nav
  single : (positions.map VenuePosition.symbol).Nodup

namespace TargetRequest

def weight (request : TargetRequest) (symbol : String) : ℚ :=
  ((request.weights.get? symbol).join).getD 0

/-- `current_shares`. -/
def currentShares (request : TargetRequest) (symbol : String) : ℤ :=
  match request.positions.find? fun position ↦ position.symbol = symbol with
  | none => 0
  | some position => position.availableShares + position.frozenShares

/-- `raw_target`. -/
def rawTarget (request : TargetRequest) (symbol : String) (price : ℚ) : ℚ :=
  request.weight symbol * request.nav / price

theorem weight_nonneg (request : TargetRequest) (symbol : String) : 0 ≤ request.weight symbol := by
  unfold weight
  cases hcell : request.weights.get? symbol with
  | none => exact le_rfl
  | some cell =>
    cases cell with
    | none => exact le_rfl
    | some weight => exact request.nonneg symbol weight hcell

theorem rawTarget_nonneg (request : TargetRequest) (symbol : String) {price : ℚ}
    (h : 0 < price) : 0 ≤ request.rawTarget symbol price :=
  div_nonneg (mul_nonneg (request.weight_nonneg symbol) request.positive.le) h.le

def intentOf (request : TargetRequest) (config : OrderManagerConfig) (entry : String × ℚ) :
    Intent :=
  intentFor config entry.1 (request.weight entry.1) entry.2 request.nav
    (request.currentShares entry.1)

end TargetRequest

structure TargetIntent where
  symbol : String
  side : OrderSide
  quantity : ℤ
  targetWeight : ℚ
  referencePrice : ℚ
  deriving DecidableEq

def unsortedIntents (config : OrderManagerConfig) (request : TargetRequest) : List TargetIntent :=
  request.prices.filterMap fun entry ↦ match request.intentOf config entry with
    | .order side quantity => some ⟨entry.1, side, quantity, request.weight entry.1, entry.2⟩
    | _ => none

/-- `target_weights_to_order_intents`: sales first. -/
def targetWeightsToOrderIntents (config : OrderManagerConfig) (request : TargetRequest) :
    List TargetIntent :=
  let intents := unsortedIntents config request
  (intents.filter fun intent ↦ intent.side = .sell) ++
    intents.filter fun intent ↦ intent.side ≠ .sell

def NormalQuantity (symbol : String) (quantity : ℤ) : Prop :=
  match cashEquityBoard symbol with
  | some board => NormalLot board quantity
  | none => (getRule symbol).minimumBuyQuantity ≤ quantity ∧ (getRule symbol).lotSize ∣ quantity

/-- A legal order: a normal one, or the sale of the whole holding. -/
def LegalQuantity (symbol : String) (side : OrderSide) (held quantity : ℤ) : Prop :=
  NormalQuantity symbol quantity ∨ side = .sell ∧ quantity = held

def WithinMaximum (symbol : String) (quantity : ℤ) : Prop :=
  ∀ board ∈ cashEquityBoard symbol, ∀ maximum ∈ maxOrderQuantity board .limit, quantity ≤ maximum

def snapping : ℚ := 1 / 1000000000

/-- Intents that move holdings towards their targets. -/
structure MovesTowards (request : TargetRequest) (intents : List TargetIntent) : Prop where
  single : (intents.map TargetIntent.symbol).Nodup
  sellsFirst : intents.Pairwise fun first second ↦ second.side = .sell → first.side = .sell
  sells : ∀ intent ∈ intents, intent.side = .sell →
    intent.quantity ≤ request.currentShares intent.symbol ∧
      request.rawTarget intent.symbol intent.referencePrice ≤
        request.currentShares intent.symbol - intent.quantity + snapping
  buys : ∀ intent ∈ intents, intent.side = .buy →
    request.currentShares intent.symbol + intent.quantity ≤
      request.rawTarget intent.symbol intent.referencePrice + snapping
  legal : ∀ intent ∈ intents, LegalQuantity intent.symbol intent.side
    (request.currentShares intent.symbol) intent.quantity
  withinMaximum : ∀ intent ∈ intents, WithinMaximum intent.symbol intent.quantity

/-- A holding above its target is sold in legal sizes.  A share whose weight counts as zero leaves
nothing behind, or reaches the maximum, or is sold in a normal lot.  Of a fund or a bond at least a
lot is sold, unless it leaves nothing behind or the order is too small. -/
def SoldLegally (config : OrderManagerConfig) (symbol : String) (weight price raw : ℚ)
    (held : ℤ) : Prop :=
  match cashEquityBoard symbol with
  | some board =>
    weight ≤ config.negligibleWeight → config.allowOddLotSellOnlyForFullLiquidation = true →
      let whole := wholeShares (held - raw)
      whole ≤ 0 ∨ raw ≤ snapping ∨ (∃ maximum ∈ maxOrderQuantity board .limit, maximum ≤ whole) ∨
        NormalLot board whole
  | none =>
    let whole := ⌊held - raw⌋
    whole ≤ 0 ∨ raw = 0 ∨ (getRule symbol).lotSize ≤ whole ∨
      (whole * price < config.minOrderValueYuan ∧ config.negligibleWeight < weight)

def TargetRequest.SellsLegally (request : TargetRequest) (config : OrderManagerConfig) : Prop :=
  ∀ entry ∈ request.prices,
    request.rawTarget entry.1 entry.2 < request.currentShares entry.1 →
      SoldLegally config entry.1 (request.weight entry.1) entry.2
        (request.rawTarget entry.1 entry.2) (request.currentShares entry.1)

section Rounding

variable {symbol : String} {board : Board} {side : OrderSide} {x : ℚ} {full : Bool}

section

variable (symbol : String) (side : OrderSide)

theorem roundDeltaQuantity_le_add (full : Bool) (h : 0 ≤ x) :
    (roundDeltaQuantity symbol side x full : ℚ) ≤ x + snapping := by
  unfold roundDeltaQuantity
  split
  · refine (roundOrderQuantity_le symbol side.canonical h).trans ?_
    exact le_add_of_nonneg_right (by norm_num [snapping])
  · rename_i board _
    have hlot := roundToLot_le_add h board side.canonical full
    simp only
    split
    · exact hlot
    · exact (Int.cast_le.mpr (min_le_left _ _)).trans hlot

theorem roundDeltaQuantity_le (full : Bool) (h : 0 ≤ x) {n : ℤ} (hn : x ≤ n) :
    roundDeltaQuantity symbol side x full ≤ n := by
  have hnonneg := Int.cast_nonneg_iff.mp (h.trans hn)
  unfold roundDeltaQuantity
  split
  · exact Int.cast_le.mp ((roundOrderQuantity_le symbol side.canonical h).trans hn)
  · rename_i board _
    have hlot := roundToLot_le hnonneg hn board side.canonical full
    simp only
    split
    · exact hlot
    · exact (min_le_left _ _).trans hlot

theorem withinMaximum_roundDeltaQuantity (x : ℚ) (full : Bool) :
    WithinMaximum symbol (roundDeltaQuantity symbol side x full) := by
  intro board hboard maximum hmaximum
  unfold roundDeltaQuantity
  rw [Option.mem_def.mp hboard]
  simp only [Option.mem_def.mp hmaximum]
  exact min_le_right _ _

end

/-- Lots are normal unless a whole holding is sold. -/
theorem normalLot_roundToLot (hfull : (side.canonical = .sell && full) = false)
    (h : 0 < roundToLot x board side.canonical full) :
    NormalLot board (roundToLot x board side.canonical full) := by
  unfold roundToLot at h ⊢
  simp only [hfull] at h ⊢
  split at h
  · exact absurd h (lt_irrefl 0)
  rename_i hpositive
  split at h
  · exact absurd h (lt_irrefl 0)
  rename_i hwhole
  split at h
  · rename_i himpossible
    cases himpossible
  split at h
  · exact absurd h (lt_irrefl 0)
  rename_i hminimum
  rw [if_neg hpositive, if_neg hwhole, if_neg Bool.false_ne_true, if_neg hminimum]
  have hrules := lotRules_pos board
  have hsteps : 0 ≤ (wholeShares x - (lotRules board).1) / (lotRules board).2 :=
    Int.ediv_nonneg (by omega) hrules.2.le
  refine ⟨le_add_of_nonneg_right (mul_nonneg hsteps hrules.2.le), ?_⟩
  rw [add_sub_cancel_left, Int.mul_emod_left]

theorem normalLot_maximum {maximum : ℤ} (h : maxOrderQuantity board .limit = some maximum) :
    NormalLot board maximum := by
  cases board with
  | star =>
    cases h
    decide
  | bse =>
    cases h
    decide
  | _ => cases h

/-- A fund, a bond or a future is bought from one lot on. -/
theorem minimum_of_unboarded (h : cashEquityBoard symbol = none) :
    (getRule symbol).minimumBuyQuantity = (getRule symbol).lotSize := by
  unfold cashEquityBoard at h
  unfold getRule
  cases hboard : inferBoard symbol <;> rw [hboard] at h
  all_goals first | rfl | cases h

theorem normalQuantity_lots (h : cashEquityBoard symbol = none) {whole : ℤ}
    (hlot : (getRule symbol).lotSize ≤ whole) :
    NormalQuantity symbol (whole / (getRule symbol).lotSize * (getRule symbol).lotSize) := by
  have hpos := lotSize_pos symbol
  unfold NormalQuantity
  rw [h]
  refine ⟨?_, Int.dvd_mul_left _ _⟩
  have hone : 1 ≤ whole / (getRule symbol).lotSize := (Int.le_ediv_iff_mul_le hpos).mpr (by omega)
  rw [minimum_of_unboarded h]
  exact le_mul_of_one_le_left hpos.le hone

/-- What is not the sale of a whole holding is normal, and so is any purchase. -/
theorem normalQuantity_boarded (hboard : cashEquityBoard symbol = some board)
    (hfull : (side.canonical = .sell && full) = false)
    (h : 0 < roundDeltaQuantity symbol side x full) :
    NormalQuantity symbol (roundDeltaQuantity symbol side x full) := by
  unfold NormalQuantity
  unfold roundDeltaQuantity at h ⊢
  rw [hboard] at h ⊢
  simp only at h ⊢
  split at h
  · exact normalLot_roundToLot hfull h
  · rename_i maximum hmaximum
    rcases min_choice (roundToLot x board side.canonical full) maximum with hmin | hmin
    · rw [hmin] at h ⊢
      exact normalLot_roundToLot hfull h
    · rw [hmin]
      exact normalLot_maximum hmaximum

theorem normalQuantity_buy (h : 0 < roundDeltaQuantity symbol .buy x full) :
    NormalQuantity symbol (roundDeltaQuantity symbol .buy x full) := by
  cases hboard : cashEquityBoard symbol with
  | some board => exact normalQuantity_boarded hboard rfl h
  | none =>
    unfold roundDeltaQuantity at h ⊢
    rw [hboard] at h ⊢
    simp only [OrderSide.canonical, roundOrderQuantity] at h ⊢
    split at h
    · exact absurd h (lt_irrefl 0)
    rename_i hsome
    split at h
    · exact absurd h (lt_irrefl 0)
    rename_i hminimum
    rw [if_neg hsome, if_neg hminimum]
    exact normalQuantity_lots hboard ((le_max_right _ _).trans (not_lt.mp hminimum))

end Rounding

section Symbol

variable {config : OrderManagerConfig} {symbol : String} {weight price nav raw : ℚ} {held : ℤ}

/-- `quantity` of a sale. -/
def sellQuantity (config : OrderManagerConfig) (symbol : String) (weight raw : ℚ) (held : ℤ) : ℤ :=
  roundDeltaQuantity symbol .sell (held - raw)
    (decide (weight ≤ config.negligibleWeight) && config.allowOddLotSellOnlyForFullLiquidation)

def SmallSale (config : OrderManagerConfig) (weight price : ℚ) (quantity : ℤ) : Prop :=
  quantity * price < config.minOrderValueYuan ∧ config.negligibleWeight < weight

theorem intentFor_order {side : OrderSide} {quantity : ℤ}
    (h : intentFor config symbol weight price nav held = .order side quantity) :
    0 < quantity ∧
      ((side = .buy ∧ held ≤ weight * nav / price ∧
          quantity = roundDeltaQuantity symbol .buy (weight * nav / price - held) false) ∨
        (side = .sell ∧ weight * nav / price < held ∧
          quantity = sellQuantity config symbol weight (weight * nav / price) held ∧
          ¬ SmallSale config weight price quantity)) := by
  unfold intentFor at h
  simp only at h
  split at h
  · cases h
  split at h
  · cases h
  split at h
  · rename_i hbelow
    split at h
    · cases h
    rename_i hpositive
    split at h
    · cases h
    cases h
    exact ⟨not_le.mp hpositive, .inl ⟨rfl, hbelow, rfl⟩⟩
  · rename_i habove
    split at h
    · cases h
    rename_i hpositive
    split at h
    · cases h
    rename_i hlarge
    cases h
    refine ⟨not_le.mp hpositive, .inr ⟨rfl, not_le.mp habove, rfl, ?_⟩⟩
    intro hsmall
    refine hlarge ?_
    simp only [Bool.and_eq_true, decide_eq_true_eq, Bool.not_eq_true', decide_eq_false_iff_not]
    exact ⟨hsmall.1, hsmall.2.not_ge⟩

/-- A holding above its target is sold, unless the order is none or too small. -/
theorem intentFor_sell (hprice : 0 < price) (hnav : 0 < nav) (hheld : held ≠ 0)
    (habove : weight * nav / price < held)
    (hpositive : 0 < sellQuantity config symbol weight (weight * nav / price) held)
    (hlarge : ¬ SmallSale config weight price
      (sellQuantity config symbol weight (weight * nav / price) held)) :
    intentFor config symbol weight price nav held =
      .order .sell (sellQuantity config symbol weight (weight * nav / price) held) := by
  unfold intentFor
  simp only [if_neg (not_or.mpr ⟨hprice.not_ge, hnav.not_ge⟩),
    if_neg (show ¬ (held = 0 ∧ |weight| ≤ config.negligibleWeight) from fun h ↦ hheld h.1),
    if_neg habove.not_ge]
  unfold sellQuantity at hpositive hlarge ⊢
  rw [if_neg hpositive.not_ge, if_neg]
  simp only [Bool.and_eq_true, decide_eq_true_eq, Bool.not_eq_true', decide_eq_false_iff_not]
  intro hsmall
  exact hlarge ⟨hsmall.1, not_le.mp hsmall.2⟩

/-- What a share whose weight counts as zero is sold for. -/
theorem sellQuantity_full {board : Board} (hboard : cashEquityBoard symbol = some board)
    (hzero : weight ≤ config.negligibleWeight)
    (hallowed : config.allowOddLotSellOnlyForFullLiquidation = true) (habove : raw < held)
    (hwhole : 0 < wholeShares (held - raw)) :
    sellQuantity config symbol weight raw held =
      (maxOrderQuantity board .limit).elim (wholeShares (held - raw))
        (min (wholeShares (held - raw))) := by
  have hfull : (decide (weight ≤ config.negligibleWeight) &&
      config.allowOddLotSellOnlyForFullLiquidation) = true := by
    simp [hzero, hallowed]
  have hlot : roundToLot (held - raw) board .sell true = wholeShares (held - raw) := by
    have hasked := (sub_pos.mpr habove).not_ge
    unfold roundToLot
    simp only [if_neg hasked, if_neg hwhole.not_ge, Bool.and_true, decide_true, if_true]
  unfold sellQuantity roundDeltaQuantity
  rw [hboard, hfull]
  simp only [OrderSide.canonical, hlot]
  cases maxOrderQuantity board .limit <;> rfl

/-- What is sold is legal unless the order is dropped for being small. -/
def SaleLegal (config : OrderManagerConfig) (symbol : String) (weight price raw : ℚ)
    (held : ℤ) : Prop :=
  0 < sellQuantity config symbol weight raw held →
    ¬ SmallSale config weight price (sellQuantity config symbol weight raw held) →
      LegalQuantity symbol .sell held (sellQuantity config symbol weight raw held)

/-- The sale of a share is legal exactly when the share is sold legally. -/
theorem soldLegally_boarded_iff {board : Board} (hboard : cashEquityBoard symbol = some board)
    (hraw : 0 ≤ raw) (habove : raw < held) :
    SaleLegal config symbol weight price raw held ↔
      SoldLegally config symbol weight price raw held := by
  unfold SaleLegal SoldLegally
  rw [hboard]
  simp only
  by_cases hfull : weight ≤ config.negligibleWeight ∧
      config.allowOddLotSellOnlyForFullLiquidation = true
  · obtain ⟨hzero, hallowed⟩ := hfull
    simp only [hzero, hallowed, forall_const]
    have hnotSmall : ∀ quantity, ¬ SmallSale config weight price quantity :=
      fun _ hsmall ↦ absurd hzero hsmall.2.not_ge
    simp only [hnotSmall, not_false_iff, forall_const]
    by_cases hwhole : 0 < wholeShares (held - raw)
    · have hquantity := sellQuantity_full hboard hzero hallowed habove hwhole
      have hnormal : ∀ quantity, NormalQuantity symbol quantity ↔ NormalLot board quantity := by
        intro quantity
        unfold NormalQuantity
        rw [hboard]
      have hwholeLegal : LegalQuantity symbol .sell held (wholeShares (held - raw)) ↔
          raw ≤ snapping ∨ NormalLot board (wholeShares (held - raw)) := by
        unfold LegalQuantity
        rw [hnormal, or_comm]
        simp only [true_and]
        exact or_congr (wholeShares_sub_eq_iff hraw habove) Iff.rfl
      cases hmaximum : maxOrderQuantity board .limit with
      | none =>
        rw [hmaximum, Option.elim_none] at hquantity
        rw [hquantity]
        simp only [hwhole, hwhole.not_ge, forall_const, false_or, hwholeLegal, Option.mem_def,
          reduceCtorEq, false_and, exists_false]
      | some maximum =>
        rw [hmaximum, Option.elim_some] at hquantity
        rw [hquantity]
        have hmaximumPos : 0 < maximum := by
          have hleast := (normalLot_maximum hmaximum).1
          have hrules := lotRules_pos board
          omega
        simp only [lt_min hwhole hmaximumPos, hwhole.not_ge, forall_const, false_or,
          Option.mem_def, Option.some.injEq, exists_eq_left']
        rcases le_or_gt maximum (wholeShares (held - raw)) with hcapped | hroom
        · rw [min_eq_right hcapped]
          refine iff_of_true (.inl ?_) (.inr (.inl hcapped))
          exact (hnormal maximum).mpr (normalLot_maximum hmaximum)
        · rw [min_eq_left hroom.le, hwholeLegal]
          simp only [hroom.not_ge, false_or]
    · refine iff_of_true ?_ (.inl (not_lt.mp hwhole))
      intro hpositive
      have hnone : sellQuantity config symbol weight raw held ≤ 0 := by
        unfold sellQuantity roundDeltaQuantity
        rw [hboard]
        have hlot : ∀ full, roundToLot (held - raw) board .sell full = 0 := by
          intro full
          unfold roundToLot
          simp [if_pos (not_lt.mp hwhole)]
        simp only [OrderSide.canonical, hlot]
        cases maxOrderQuantity board .limit with
        | none => exact le_rfl
        | some maximum => exact min_le_left _ _
      exact absurd hpositive hnone.not_gt
  · refine iff_of_true ?_ fun hzero hallowed ↦ absurd ⟨hzero, hallowed⟩ hfull
    intro hpositive _
    refine .inl (normalQuantity_boarded hboard ?_ hpositive)
    simpa [OrderSide.canonical] using hfull

/-- The shares of a fund, a bond or a future that are sold. -/
theorem sellQuantity_unboarded (hboard : cashEquityBoard symbol = none)
    (hwhole : 0 < ⌊(held : ℚ) - raw⌋) :
    sellQuantity config symbol weight raw held =
      if ⌊(held : ℚ) - raw⌋ < (getRule symbol).lotSize then ⌊(held : ℚ) - raw⌋
      else ⌊(held : ℚ) - raw⌋ / (getRule symbol).lotSize * (getRule symbol).lotSize := by
  unfold sellQuantity roundDeltaQuantity
  rw [hboard]
  simp only [OrderSide.canonical, roundOrderQuantity, max_eq_right hwhole.le, if_neg hwhole.not_ge]

/-- The sale of a fund, a bond or a future is legal exactly when it is sold legally. -/
theorem soldLegally_unboarded_iff (hboard : cashEquityBoard symbol = none)
    (hraw : 0 ≤ raw) :
    SaleLegal config symbol weight price raw held ↔
      SoldLegally config symbol weight price raw held := by
  unfold SaleLegal SoldLegally
  rw [hboard]
  simp only
  by_cases hwhole : 0 < ⌊(held : ℚ) - raw⌋
  · rw [sellQuantity_unboarded hboard hwhole]
    by_cases hlot : ⌊(held : ℚ) - raw⌋ < (getRule symbol).lotSize
    · rw [if_pos hlot]
      have hodd : ¬ NormalQuantity symbol ⌊(held : ℚ) - raw⌋ := by
        unfold NormalQuantity
        rw [hboard]
        intro hnormal
        rw [minimum_of_unboarded hboard] at hnormal
        exact absurd hnormal.1 hlot.not_ge
      have hrest : ⌊(held : ℚ) - raw⌋ = held ↔ raw = 0 := by
        rw [Int.floor_eq_iff]
        constructor
        · intro hbetween
          exact le_antisymm (by linarith [hbetween.1]) hraw
        · intro hzero
          constructor <;> linarith
      simp only [hwhole, hwhole.not_ge, hlot.not_ge, forall_const, false_or, LegalQuantity, hodd,
        true_and, hrest, SmallSale]
      exact Iff.intro (fun h ↦ or_iff_not_imp_right.mpr h) (fun h ↦ or_iff_not_imp_right.mp h)
    · rw [if_neg hlot]
      refine iff_of_true ?_ (.inr (.inr (.inl (not_lt.mp hlot))))
      exact fun _ _ ↦ .inl (normalQuantity_lots hboard (not_lt.mp hlot))
  · refine iff_of_true ?_ (.inl (not_lt.mp hwhole))
    intro hpositive
    have hnone : sellQuantity config symbol weight raw held = 0 := by
      unfold sellQuantity roundDeltaQuantity
      rw [hboard]
      simp only [OrderSide.canonical, roundOrderQuantity, max_eq_left (not_lt.mp hwhole), le_refl,
        if_true]
    rw [hnone] at hpositive
    exact absurd hpositive (lt_irrefl 0)

theorem soldLegally_iff (hraw : 0 ≤ raw) (habove : raw < held) :
    SaleLegal config symbol weight price raw held ↔
      SoldLegally config symbol weight price raw held := by
  cases hboard : cashEquityBoard symbol with
  | none => exact soldLegally_unboarded_iff hboard hraw
  | some board => exact soldLegally_boarded_iff hboard hraw habove

end Symbol

section Requests

variable {config : OrderManagerConfig} {request : TargetRequest}

theorem mem_unsortedIntents {intent : TargetIntent} :
    intent ∈ unsortedIntents config request ↔ ∃ entry ∈ request.prices,
      request.intentOf config entry = .order intent.side intent.quantity ∧
        intent.symbol = entry.1 ∧ intent.targetWeight = request.weight entry.1 ∧
          intent.referencePrice = entry.2 := by
  unfold unsortedIntents
  rw [List.mem_filterMap]
  refine exists_congr fun entry ↦ and_congr_right fun _ ↦ ?_
  cases hintent : request.intentOf config entry with
  | order side quantity =>
    cases intent
    simp only [Option.some.injEq, TargetIntent.mk.injEq, Intent.order.injEq]
    constructor
    · intro heq
      obtain ⟨rfl, rfl, rfl, rfl, rfl⟩ := heq
      exact ⟨⟨rfl, rfl⟩, rfl, rfl, rfl⟩
    · intro heq
      obtain ⟨⟨rfl, rfl⟩, rfl, rfl, rfl⟩ := heq
      exact ⟨rfl, rfl, rfl, rfl, rfl⟩
  | idle => simp
  | skip skipped => simp

section

variable (config : OrderManagerConfig) (request : TargetRequest)

theorem targetWeightsToOrderIntents_perm :
    (targetWeightsToOrderIntents config request).Perm (unsortedIntents config request) := by
  have hsplit := List.filter_append_perm (fun intent : TargetIntent ↦ decide (intent.side = .sell))
    (unsortedIntents config request)
  simpa [targetWeightsToOrderIntents] using hsplit

theorem symbols_sublist (prices : List (String × ℚ)) :
    ((prices.filterMap fun entry ↦ match request.intentOf config entry with
        | .order side quantity =>
          some (TargetIntent.mk entry.1 side quantity (request.weight entry.1) entry.2)
        | _ => none).map TargetIntent.symbol).Sublist (prices.map Prod.fst) := by
  induction prices with
  | nil => exact List.Sublist.refl _
  | cons entry prices ih =>
    rw [List.map_cons, List.filterMap_cons]
    split
    · exact ih.cons _
    · rename_i intent hintent
      have hsymbol : intent.symbol = entry.1 := by
        split at hintent
        · rw [← Option.some.inj hintent]
        · cases hintent
      rw [List.map_cons, hsymbol]
      exact ih.cons_cons _

end

end Requests

def defaultConfig : OrderManagerConfig := ⟨100, true, 5, 1 / 1000000⟩

/-- A hundred and fifty shares at one yuan, of which a hundred are worth a millionth of the book. -/
def millionth : TargetRequest where
  weights := Dict.empty.insert "600000.SH" (some (1 / 1000000))
  prices := [("600000.SH", 1)]
  nav := 100000000
  positions := [⟨"600000.SH", 150, 0, 1⟩]
  nonneg := by
    intro symbol weight hweight
    by_cases hsymbol : symbol = "600000.SH"
    · subst hsymbol
      rw [Dict.get?_insert_self] at hweight
      rw [← Option.some.inj (Option.some.inj hweight)]
      norm_num
    · rw [Dict.get?_insert_of_ne _ hsymbol] at hweight
      cases hweight
  distinct := List.nodup_singleton _
  priced := by simp
  positive := by norm_num
  single := List.nodup_singleton _

end QuantAgent.Simulator
