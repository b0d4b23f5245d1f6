import QuantAgent.Library.Grouping
import QuantAgent.Simulator.AuditTrail

/-!
# Realised round trips

The statistics that a strict backtest derives from the order audit: buys and sells of a symbol are
matched first in, first out, each with its fee for a share.  What the closed trips realise and what
the open lots are worth at a mark is together what the rows say of cash and shares at that mark.
-/

namespace QuantAgent.Simulator

open Library
open Execution (OrderSide OrderStatus)

variable {D : Type}

structure RoundTrip (D : Type) where
  symbol : String
  buyDate : D
  sellDate : D
  quantity : ℚ
  buyPrice : ℚ
  sellPrice : ℚ
  grossPnl : ℚ
  cost : ℚ
  netPnl : ℚ

structure OpenLot (D : Type) where
  quantity : ℚ
  price : ℚ
  date : D
  buyFeePerShare : ℚ

/-- The loop over the lots that a sale closes: the trips it makes, and the lots it leaves. -/
def closeLots (symbol : String) (sellDate : D) (sellPrice sellFeePerShare : ℚ) :
    List (OpenLot D) → ℚ → List (RoundTrip D) × List (OpenLot D)
  | [], _ => ([], [])
  | lot :: lots, remaining =>
    if lotTolerance < remaining then
      let matched := min remaining lot.quantity
      let gross := matched * (sellPrice - lot.price)
      let cost := matched * lot.buyFeePerShare + matched * sellFeePerShare
      let trip := ⟨symbol, lot.date, sellDate, matched, lot.price, sellPrice, gross, cost,
        gross - cost⟩
      if lot.quantity - matched ≤ lotTolerance then
        let (trips, left) :=
          closeLots symbol sellDate sellPrice sellFeePerShare lots (remaining - matched)
        (trip :: trips, left)
      -- More than the tolerance is left only where the sale is used up.
      else ([trip], { lot with quantity := lot.quantity - matched } :: lots)
    else ([], lot :: lots)

section Rows

variable [SquareRoot] [MarketRules.Platform] [Calendar D]

/-- `_fee_per_share`: the audited cost, or the cost the model computes where that is negative. -/
def feePerShare (row : OrderRow D) (side : OrderSide) (qty : ℤ) (price : ℚ) : ℚ :=
  if qty ≤ 0 then 0
  else
    let computed := (calculateCosts side qty price 0 (Calendar.text row.tradeDate)).total / qty
    match row.costs.map CostPart.totalCost with
    | some audited => if 0 ≤ audited then audited / qty else computed
    | none => computed

def matchRow (state : List (RoundTrip D) × List (OpenLot D)) (row : OrderRow D) :
    List (RoundTrip D) × List (OpenLot D) :=
  match row.order with
  | none => state
  | some order =>
    let qty := |row.filledQuantity|
    let fee := feePerShare row order.side qty row.avgPrice
    match order.side with
    | .buy => (state.1, state.2 ++ [⟨qty, row.avgPrice, row.tradeDate, fee⟩])
    | .sell =>
      let (trips, left) := closeLots order.symbol row.tradeDate row.avgPrice fee state.2 qty
      (state.1 ++ trips, left)

/-- The trips and the open lots of the rows of one symbol. -/
def matchGroup (rows : List (OrderRow D)) : List (RoundTrip D) × List (OpenLot D) :=
  rows.foldl matchRow ([], [])

omit [SquareRoot] [MarketRules.Platform] [Calendar D] in
/-- The filled rows by date.  A symbol has one of them in a session at most, so it does not matter
how the sort treats rows of one date. -/
def filledRows [LinearOrder D] (orderAudit : List (OrderRow D)) : List (OrderRow D) :=
  (orderAudit.filter fun row ↦ 0 < |row.filledQuantity|).insertionSort
    fun first second ↦ first.tradeDate ≤ second.tradeDate

omit [SquareRoot] [MarketRules.Platform] [Calendar D] in
def OrderRow.symbol (row : OrderRow D) : Option String := row.order.map OrderPart.symbol

omit [SquareRoot] [MarketRules.Platform] [Calendar D] in
def groupOf (rows : List (OrderRow D)) (symbol : String) : List (OrderRow D) :=
  withKey OrderRow.symbol rows symbol

omit [SquareRoot] [MarketRules.Platform] [Calendar D] in
/-- The keys of `groupby("symbol")`. -/
def groupSymbols (rows : List (OrderRow D)) : List String :=
  (rows.filterMap OrderRow.symbol).dedup.insertionSort (· ≤ ·)

/-- `_realized_round_trip_pnl`. -/
def realizedRoundTripPnl [LinearOrder D] (orderAudit : List (OrderRow D)) : List (RoundTrip D) :=
  let rows := filledRows orderAudit
  (groupSymbols rows).flatMap fun symbol ↦ (matchGroup (groupOf rows symbol)).1

def openLots [LinearOrder D] (orderAudit : List (OrderRow D)) (symbol : String) :
    List (OpenLot D) :=
  (matchGroup (groupOf (filledRows orderAudit) symbol)).2

end Rows

/-- Lots that each hold a positive whole number of shares. -/
def WholeLots (lots : List (OpenLot D)) : Prop :=
  ∀ lot ∈ lots, ∃ quantity : ℤ, 0 < quantity ∧ lot.quantity = quantity

def lotTotal (lots : List (OpenLot D)) : ℚ := (lots.map OpenLot.quantity).sum

def lotWorth (mark : ℚ) (lots : List (OpenLot D)) : ℚ :=
  (lots.map fun lot ↦ lot.quantity * (mark - lot.price) - lot.quantity * lot.buyFeePerShare).sum

@[simp]
theorem lotTotal_cons (lot : OpenLot D) (lots : List (OpenLot D)) :
    lotTotal (lot :: lots) = lot.quantity + lotTotal lots := rfl

@[simp]
theorem lotWorth_cons (mark : ℚ) (lot : OpenLot D) (lots : List (OpenLot D)) :
    lotWorth mark (lot :: lots) =
      lot.quantity * (mark - lot.price) - lot.quantity * lot.buyFeePerShare + lotWorth mark lots :=
  rfl

variable {lots : List (OpenLot D)}

theorem WholeLots.nonneg (h : WholeLots lots) : 0 ≤ lotTotal lots := by
  apply List.sum_nonneg
  intro quantity hquantity
  obtain ⟨lot, hlot, rfl⟩ := List.mem_map.mp hquantity
  obtain ⟨whole, hpositive, heq⟩ := h lot hlot
  rw [heq]
  exact_mod_cast hpositive.le

theorem WholeLots.eq_nil (h : WholeLots lots) (hzero : lotTotal lots = 0) :
    lots = [] := by
  cases lots with
  | nil => rfl
  | cons lot lots =>
    obtain ⟨whole, hpositive, heq⟩ := h lot List.mem_cons_self
    have hrest := WholeLots.nonneg fun other hother ↦ h other (List.mem_cons_of_mem _ hother)
    have hfirst : (0 : ℚ) < whole := by exact_mod_cast hpositive
    rw [lotTotal_cons, heq] at hzero
    linarith

/-- What a sale of whole shares that are there closes and leaves. -/
structure Closed (symbol : String) (price fee remaining : ℚ) (lots : List (OpenLot D))
    (outcome : List (RoundTrip D) × List (OpenLot D)) : Prop where
  whole : WholeLots outcome.2
  left : lotTotal outcome.2 = lotTotal lots - remaining
  closed : (outcome.1.map RoundTrip.quantity).sum = remaining
  worth : ∀ mark, (outcome.1.map RoundTrip.netPnl).sum + lotWorth mark outcome.2 =
    lotWorth mark lots + remaining * (price - fee - mark)
  symbols : ∀ trip ∈ outcome.1, trip.symbol = symbol

theorem closed_closeLots (symbol : String) (sellDate : D) (price fee : ℚ) (hwhole : WholeLots lots)
    {remaining : ℤ} (hremaining : 0 ≤ remaining) (hle : (remaining : ℚ) ≤ lotTotal lots) :
    Closed symbol price fee remaining lots
      (closeLots symbol sellDate price fee lots remaining) := by
  induction lots generalizing remaining with
  | nil =>
    have hzero : remaining = 0 := by
      have hnone : (remaining : ℚ) ≤ 0 := hle
      exact le_antisymm (by exact_mod_cast hnone) hremaining
    subst hzero
    exact ⟨List.forall_mem_nil _, by simp [closeLots, lotTotal],
      by simp [closeLots], by simp [closeLots, lotWorth], List.forall_mem_nil _⟩
  | cons lot lots ih =>
    obtain ⟨whole, hpositive, hquantity⟩ := hwhole lot List.mem_cons_self
    have hrest : WholeLots lots := fun other hother ↦ hwhole other (List.mem_cons_of_mem _ hother)
    have htolerance : lotTolerance < 1 := by norm_num [lotTolerance]
    have hsmall : (0 : ℚ) < lotTolerance := by norm_num [lotTolerance]
    rw [lotTotal_cons, hquantity] at hle
    rw [closeLots]
    split
    · simp only [hquantity]
      by_cases hall : whole ≤ remaining
      · -- The lot is closed as a whole.
        have hmin : min (remaining : ℚ) whole = whole := min_eq_right (by exact_mod_cast hall)
        have hused : (whole : ℚ) - min (remaining : ℚ) whole ≤ lotTolerance := by
          rw [hmin, sub_self]
          exact hsmall.le
        rw [if_pos hused, hmin, ← Int.cast_sub]
        obtain ⟨hwholeRest, hleft, hclosed, hworth, hsymbols⟩ :=
          ih hrest (sub_nonneg.mpr hall) (by rw [Int.cast_sub]; linarith)
        refine ⟨hwholeRest, ?_, ?_, ?_, ?_⟩
        · rw [hleft, lotTotal_cons, hquantity, Int.cast_sub]
          ring
        · rw [List.map_cons, List.sum_cons, hclosed, Int.cast_sub]
          ring
        · intro mark
          have hcast : ((remaining - whole : ℤ) : ℚ) = remaining - whole := Int.cast_sub ..
          rw [List.map_cons, List.sum_cons, lotWorth_cons, hquantity]
          linear_combination hworth mark + (price - fee - mark) * hcast
        · intro trip htrip
          rcases List.mem_cons.mp htrip with rfl | htrip
          · rfl
          · exact hsymbols trip htrip
      · -- The sale is used up in the lot.
        rw [not_le] at hall
        have hmin : min (remaining : ℚ) whole = remaining := min_eq_left (by exact_mod_cast hall.le)
        have hkept : ¬ (whole : ℚ) - min (remaining : ℚ) whole ≤ lotTolerance := by
          rw [hmin, ← Int.cast_sub, not_le]
          have hone : (1 : ℚ) ≤ ((whole - remaining : ℤ) : ℚ) := by
            exact_mod_cast Int.sub_pos.mpr hall
          exact htolerance.trans_le hone
        rw [if_neg hkept, hmin]
        refine ⟨?_, ?_, ?_, ?_, ?_⟩
        · intro other hother
          rcases List.mem_cons.mp hother with rfl | hother
          · exact ⟨whole - remaining, Int.sub_pos.mpr hall, by simp⟩
          · exact hrest other hother
        · rw [lotTotal_cons, lotTotal_cons, hquantity]
          ring
        · simp
        · intro mark
          rw [List.map_cons, List.map_nil, List.sum_cons, List.sum_nil, lotWorth_cons,
            lotWorth_cons, hquantity]
          ring
        · intro trip htrip
          rw [List.mem_singleton.mp htrip]
    · rename_i hnone
      have hzero : remaining = 0 := by
        by_contra hne
        have hone : (1 : ℚ) ≤ remaining := by
          exact_mod_cast Int.add_one_le_iff.mpr (lt_of_le_of_ne hremaining (Ne.symm hne))
        exact hnone (htolerance.trans_le hone)
      subst hzero
      exact ⟨hwhole, by simp, by simp, by simp, List.forall_mem_nil _⟩

section Costs

variable [SquareRoot] [MarketRules.Platform]

omit [SquareRoot] in
theorem stampDutyRate_nonneg (tradeDate : String) : 0 ≤ MarketRules.stampDutyRate tradeDate := by
  unfold MarketRules.stampDutyRate
  split
  · norm_num
  · split
    · norm_num
    · norm_num

omit [MarketRules.Platform] in
theorem impactCost_nonneg (value participation : ℚ) : 0 ≤ impactCost value participation := by
  unfold impactCost
  split
  · exact le_rfl
  · rename_i hvalue
    simp only
    split
    · exact le_rfl
    · have hroot := SquareRoot.sqrt_nonneg (max 0 participation) (le_max_left _ _)
      exact div_nonneg (mul_nonneg (not_le.mp hvalue).le (mul_nonneg (by norm_num) hroot))
        (by norm_num)

/-- Costs are negative only where the value is, and then no impact is part of them. -/
theorem total_eq_of_neg {side : OrderSide} {quantity : ℤ} {price participation : ℚ}
    {tradeDate : String}
    (h : (calculateCosts side quantity price participation tradeDate).total < 0)
    (participation' : ℚ) :
    (calculateCosts side quantity price participation' tradeDate).total =
      (calculateCosts side quantity price participation tradeDate).total := by
  have hvalue : (quantity : ℚ) * price ≤ 0 := by
    by_contra hpositive
    rw [not_le] at hpositive
    have hcommission : 0 ≤ max (if 0 < (quantity : ℚ) * price then (5 : ℚ) else 0)
        (quantity * price * (3 / 10000)) :=
      le_max_of_le_right (mul_nonneg hpositive.le (by norm_num))
    have hstamp : 0 ≤ if side = .sell then
        (quantity : ℚ) * price * MarketRules.stampDutyRate tradeDate else 0 := by
      split
      · exact mul_nonneg hpositive.le (stampDutyRate_nonneg tradeDate)
      · exact le_rfl
    have htransfer : 0 ≤ (quantity : ℚ) * price * (1 / 100000) :=
      mul_nonneg hpositive.le (by norm_num)
    have himpact := impactCost_nonneg ((quantity : ℚ) * price) participation
    simp only [calculateCosts, ExecutionCosts.total] at h
    linarith
  simp only [calculateCosts, ExecutionCosts.total, impactCost, if_pos hvalue]

variable [Calendar D]

structure Charged (row : OrderRow D) (part : OrderPart) : Prop where
  order : row.order = some part
  positive : 0 < row.filledQuantity
  costs : ∃ participation, row.costs.map CostPart.totalCost =
    some (calculateCosts part.side row.filledQuantity row.avgPrice participation
      (Calendar.text row.tradeDate)).total

theorem Charged.feePerShare_mul {row : OrderRow D} {part : OrderPart} (h : Charged row part) :
    row.filledQuantity * feePerShare row part.side |row.filledQuantity| row.avgPrice = row.cost := by
  obtain ⟨participation, hcosts⟩ := h.costs
  have hne : (row.filledQuantity : ℚ) ≠ 0 := by exact_mod_cast h.positive.ne'
  rw [abs_of_pos h.positive, feePerShare, if_neg (not_le.mpr h.positive), OrderRow.cost, hcosts]
  simp only [Option.getD_some]
  split
  · exact mul_div_cancel₀ _ hne
  · rename_i hnegative
    rw [total_eq_of_neg (not_le.mp hnegative)]
    exact mul_div_cancel₀ _ hne

end Costs

def signedTotal (rows : List (OrderRow D)) (symbol : String) : ℤ :=
  (rows.map fun row ↦ row.signedShares symbol).sum

def soldShares (rows : List (OrderRow D)) (symbol : String) : ℤ :=
  (rows.map fun row ↦ match row.order with
    | none => 0
    | some part => if part.symbol = symbol ∧ part.side = .sell then row.filledQuantity else 0).sum

/-- The trips and lots that the rows of a symbol come to. -/
structure Matched (symbol : String) (rows : List (OrderRow D))
    (state : List (RoundTrip D) × List (OpenLot D)) : Prop where
  whole : WholeLots state.2
  total : lotTotal state.2 = signedTotal rows symbol
  closed : (state.1.map RoundTrip.quantity).sum = soldShares rows symbol
  worth : ∀ mark, (state.1.map RoundTrip.netPnl).sum + lotWorth mark state.2 =
    (rows.map fun row ↦ row.proceeds - row.cost).sum + signedTotal rows symbol * mark
  symbols : ∀ trip ∈ state.1, trip.symbol = symbol

section Groups

variable [SquareRoot] [MarketRules.Platform] [Calendar D]

variable {symbol : String} {rows : List (OrderRow D)}

/-- One more row of the symbol that does not sell more than there is. -/
theorem Matched.step {state : List (RoundTrip D) × List (OpenLot D)} (h : Matched symbol rows state)
    {row : OrderRow D} {part : OrderPart} (hcharged : Charged row part)
    (hsymbol : part.symbol = symbol) (hcovered : 0 ≤ signedTotal (rows ++ [row]) symbol) :
    Matched symbol (rows ++ [row]) (matchRow state row) := by
  have hfee := hcharged.feePerShare_mul
  have habs := abs_of_pos hcharged.positive
  have hsigned : signedTotal (rows ++ [row]) symbol =
      signedTotal rows symbol + row.signedShares symbol := by
    simp [signedTotal]
  rw [hsigned] at hcovered
  unfold matchRow
  rw [hcharged.order]
  simp only
  cases hside : part.side with
  | buy =>
    have hrow : row.signedShares symbol = row.filledQuantity := by
      rw [OrderRow.signedShares, hcharged.order]
      simp [hsymbol, hside]
    rw [hside] at hfee
    rw [habs] at hfee ⊢
    refine ⟨?_, ?_, ?_, ?_, h.symbols⟩
    · exact List.forall_mem_append.mpr
        ⟨h.whole, List.forall_mem_singleton.mpr ⟨row.filledQuantity, hcharged.positive, rfl⟩⟩
    · rw [hsigned, hrow, Int.cast_add, ← h.total]
      simp [lotTotal]
    · rw [h.closed]
      simp [soldShares, hcharged.order, hside]
    · intro mark
      have hworth := h.worth mark
      have hproceeds : row.proceeds = -(row.filledQuantity * row.avgPrice) := by
        rw [OrderRow.proceeds, hcharged.order]
        simp [hside]
      rw [hsigned, hrow, Int.cast_add, List.map_append, List.sum_append, List.map_singleton,
        List.sum_singleton, hproceeds]
      simp only [lotWorth, List.map_append, List.sum_append, List.map_singleton,
        List.sum_singleton] at hworth ⊢
      linear_combination hworth - hfee
  | sell =>
    have hrow : row.signedShares symbol = -row.filledQuantity := by
      rw [OrderRow.signedShares, hcharged.order]
      simp [hsymbol, hside]
    rw [hside] at hfee
    rw [habs] at hfee ⊢
    have hthere : (row.filledQuantity : ℚ) ≤ lotTotal state.2 := by
      rw [h.total]
      rw [hrow] at hcovered
      exact_mod_cast (by omega : row.filledQuantity ≤ signedTotal rows symbol)
    obtain ⟨hwhole, hleft, hclosed, hworth, hsymbols⟩ := closed_closeLots part.symbol
      row.tradeDate row.avgPrice (feePerShare row .sell row.filledQuantity row.avgPrice) h.whole
      hcharged.positive.le hthere
    refine ⟨hwhole, ?_, ?_, ?_, ?_⟩
    · rw [hleft, h.total, hsigned, hrow, Int.cast_add, Int.cast_neg]
      ring
    · rw [List.map_append, List.sum_append, h.closed, hclosed]
      simp [soldShares, hcharged.order, hside, hsymbol]
    · intro mark
      have hproceeds : row.proceeds = row.filledQuantity * row.avgPrice := by
        rw [OrderRow.proceeds, hcharged.order]
        simp [hside]
      rw [hsigned, hrow, Int.cast_add, Int.cast_neg, List.map_append, List.sum_append,
        List.map_append, List.sum_append, List.map_singleton, List.sum_singleton, hproceeds]
      linear_combination h.worth mark + hworth mark - hfee
    · intro trip htrip
      rcases List.mem_append.mp htrip with htrip | htrip
      · exact h.symbols trip htrip
      · exact (hsymbols trip htrip).trans hsymbol

/-- The rows of a symbol that never sell more than there is. -/
theorem matched_matchGroup (hrows : ∀ row ∈ rows, ∃ part, Charged row part ∧ part.symbol = symbol)
    (hcovered : ∀ first rest, rows = first ++ rest → 0 ≤ signedTotal first symbol) :
    Matched symbol rows (matchGroup rows) := by
  induction rows using List.reverseRecOn with
  | nil =>
    exact ⟨List.forall_mem_nil _, by simp [matchGroup, lotTotal, signedTotal],
      by simp [matchGroup, soldShares], by simp [matchGroup, lotWorth, signedTotal],
      List.forall_mem_nil _⟩
  | append_singleton rows row ih =>
    have hbefore := ih (fun other hother ↦ hrows other (List.mem_append_left _ hother))
      (fun first rest heq ↦ hcovered first (rest ++ [row]) (by rw [heq, List.append_assoc]))
    obtain ⟨part, hcharged, hsymbol⟩ := hrows row (List.mem_append_right _ List.mem_cons_self)
    rw [matchGroup, List.foldl_append]
    exact hbefore.step hcharged hsymbol (hcovered _ [] (List.append_nil _).symm)

end Groups

end QuantAgent.Simulator
