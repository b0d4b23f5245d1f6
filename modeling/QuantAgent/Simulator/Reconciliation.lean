import Mathlib.Algebra.BigOperators.Group.Finset.Piecewise
import QuantAgent.Simulator.NetAssetValue
import QuantAgent.Simulator.RoundTrips

/-!
# Round trips and the net asset value

On a panel without corporate actions the closed round trips and the open lots at the last closes
account for the whole change of the account, and the trips close exactly the shares that were sold.
-/

namespace QuantAgent.Simulator

open Library Library.Run
open Execution (OrderSide OrderStatus)

variable {D : Type}

def Panel.Plain (market : Panel D) : Prop :=
  .caCashPerShare ∉ market.columns ∧ .caShareRatio ∉ market.columns ∧
    .delistingWriteoff ∉ market.columns

instance (market : Panel D) : Decidable market.Plain := inferInstanceAs (Decidable (_ ∧ _))

structure Unfilled (row : OrderRow D) : Prop where
  quantity : row.filledQuantity = 0
  costs : row.costs = none

theorem signedTotal_append (rows rows' : List (OrderRow D)) (symbol : String) :
    signedTotal (rows ++ rows') symbol = signedTotal rows symbol + signedTotal rows' symbol := by
  simp [signedTotal]

theorem auditedShares_nil (rows : List (OrderRow D)) (symbol : String) :
    auditedShares rows [] symbol = signedTotal rows symbol := by
  simp [auditedShares, signedTotal]

section Steps

variable [LinearOrder D] [SquareRoot] [MarketRules.Platform] [Calendar D]

omit [LinearOrder D] in
theorem totalCost_tradeOf (day : Panel D) (date : D) (order : Order D) (fill : FillDecision) :
    ∃ participation, (Books.tradeOf day date order fill).totalCost =
      (calculateCosts order.side (Books.tradeOf day date order fill).fillQuantity
        (Books.tradeOf day date order fill).fillPrice participation (Calendar.text date)).total :=
  ⟨_, rfl⟩

variable {day : Panel D} {books after : Books D}

variable {date : D}

/-- A submission on the date of its row leaves no position short, and its row is empty or has the
costs of its fill. -/
theorem Submission.long {order : Order D} {row : OrderRow D}
    (h : Submission day date books order after row) (hlong : books.ledger.Long)
    (hdate : row.tradeDate = date) :
    after.ledger.Long ∧ (Unfilled row ∨ ∃ part, Charged row part) := by
  cases h with
  | refused _ hquantity hcosts => exact ⟨hlong, .inl ⟨hquantity, hcosts⟩⟩
  | rejected price message _ hquantity hcosts => exact ⟨hlong, .inl ⟨hquantity, hcosts⟩⟩
  | traded trade _ hid hpositive hdeliverable hcharged hquantity hprice hcosts horder =>
    constructor
    · obtain ⟨rows, -, hfill⟩ := books.book_spec date order trade
      rw [hfill]
      exact hlong.applyFill hpositive _
    · obtain ⟨fill, htrade⟩ := hcharged
      obtain ⟨participation, htotal⟩ := totalCost_tradeOf day date order fill
      rw [← htrade] at htotal
      refine .inr ⟨_, horder, ?_, participation, ?_⟩
      · rw [hquantity]
        exact hpositive
      · rw [hcosts, hquantity, hprice, hdate, htotal]

variable {orders : List (Order D)} {rows : List (OrderRow D)}

/-- The rows of a session never sell more than there is. -/
theorem Submissions.long (h : Submissions day date books orders after rows)
    (hlong : books.ledger.Long) (hdates : ∀ row ∈ rows, row.tradeDate = date) :
    after.ledger.Long ∧ (∀ row ∈ rows, Unfilled row ∨ ∃ part, Charged row part) ∧
      ∀ first rest, rows = first ++ rest → ∀ symbol,
        0 ≤ books.ledger.shares symbol + signedTotal first symbol := by
  induction h with
  | nil books =>
    refine ⟨hlong, fun _ h ↦ absurd h List.not_mem_nil, ?_⟩
    intro first rest heq symbol
    rw [(List.append_eq_nil_iff.mp heq.symm).1, signedTotal]
    simpa using hlong.shares_nonneg symbol
  | @cons books between after order orders row rows first rest ih =>
    obtain ⟨hbetween, hrow⟩ := first.long hlong (hdates row List.mem_cons_self)
    obtain ⟨hafter, hrows, hcovered⟩ :=
      ih hbetween fun other hother ↦ hdates other (List.mem_cons_of_mem _ hother)
    refine ⟨hafter, ?_, ?_⟩
    · intro other hother
      rcases List.mem_cons.mp hother with rfl | hother
      · exact hrow
      · exact hrows other hother
    · intro early late heq symbol
      cases early with
      | nil => simpa [signedTotal] using hlong.shares_nonneg symbol
      | cons head early =>
        obtain ⟨rfl, hlater⟩ := List.cons.inj heq
        have hstep := hcovered early late hlater symbol
        rw [first.shares_signed] at hstep
        simpa [signedTotal, add_assoc] using hstep

omit [SquareRoot] [MarketRules.Platform] [Calendar D] in
/-- Without corporate actions a session opens with its settled inventory. -/
theorem Books.opened_of_plain (books : Books D) {market : Panel D} (h : market.Plain) (date : D) :
    books.opened (market.onDay date) date =
      { books with ledger := books.ledger.releaseFrozenShares } := by
  unfold opened applyCorporateActions
  rw [if_neg]
  rintro (hcolumn | hcolumn | hcolumn)
  · exact h.1 hcolumn
  · exact h.2.1 hcolumn
  · exact h.2.2 hcolumn

/-- Without a lot book a session audits no tax. -/
theorem Submissions.untaxed (h : Submissions day date books orders after rows)
    (hnone : books.taxLots = none) :
    after.taxLots = none ∧ after.caRows = books.caRows := by
  refine h.induct (P := fun books after _ ↦ books.taxLots = none →
    after.taxLots = none ∧ after.caRows = books.caRows) (fun _ hnone ↦ ⟨hnone, rfl⟩) ?_ hnone
  intro books between after order row rows _ first rest hnone
  have hfirst : between.taxLots = none ∧ between.caRows = books.caRows := by
    cases first with
    | refused => exact ⟨hnone, rfl⟩
    | rejected => exact ⟨hnone, rfl⟩
    | traded trade =>
      have hbook : books.book date order trade = { books with
          ledger := books.ledger.applyFill trade
          orderObjects := books.orderObjects.insert order.clientOrderId order
          fillsByClientOrderId :=
            books.fillsByClientOrderId.insert order.clientOrderId trade } := by
        unfold Books.book Books.onFill
        simp only [hnone]
      rw [hbook]
      exact ⟨hnone, rfl⟩
  obtain ⟨hafter, hrows⟩ := rest hfirst.1
  exact ⟨hafter, hrows.trans hfirst.2⟩

end Steps

/-- What the net asset value is where all that is held has a close. -/
theorem markToMarketNav_eq_sum {ledger : PositionLedger} {prices : List (String × ℚ)}
    {symbols : Finset String} (hsymbols : ∀ symbol, ledger.shares symbol ≠ 0 → symbol ∈ symbols)
    (hprices : ∀ symbol, ledger.shares symbol ≠ 0 → symbol ∈ prices.map Prod.fst) :
    markToMarketNav ledger prices =
      ledger.cash + ∑ symbol ∈ symbols, ledger.shares symbol * (prices.lookup symbol).getD 0 := by
  have hshare : ∀ symbol, ledger.positions.share (fun symbol position ↦
      position.shares * positionPrice prices symbol position) symbol =
        ledger.shares symbol * (prices.lookup symbol).getD 0 := by
    intro symbol
    cases hposition : ledger.positions.get? symbol with
    | none =>
      rw [Dict.share_of_none hposition, PositionLedger.shares, hposition]
      simp
    | some position =>
      rw [Dict.share_of_get? hposition, PositionLedger.shares_of_get? hposition]
      by_cases hzero : position.shares = 0
      · rw [hzero, Int.cast_zero, zero_mul, zero_mul]
      · have hmem := hprices symbol (by rwa [PositionLedger.shares_of_get? hposition])
        obtain ⟨price, hprice⟩ := Option.isSome_iff_exists.mp (Dict.lookup_isSome.mpr hmem)
        rw [positionPrice, hprice, Option.getD_some, Option.getD_some]
  rw [markToMarketNav, Dict.total_eq_sum_share _ _ symbols]
  · rw [Finset.sum_congr rfl fun symbol _ ↦ hshare symbol]
  · intro symbol hne
    apply hsymbols
    intro hzero
    rw [hshare, hzero, Int.cast_zero, zero_mul] at hne
    exact hne rfl

structure Reconcilable (config : SimulationConfig) [LinearOrder D] [SquareRoot]
    [MarketRules.Platform] [Calendar D] (market : Panel D) (state : Simulation D) : Prop where
  accounted : Accounted config.initialCash state
  untaxed : state.books.taxLots = none
  actions : state.books.caRows = []
  long : state.books.ledger.Long
  rows : ∀ row ∈ state.orderRows, Unfilled row ∨ ∃ part, Charged row part
  covered : ∀ first rest, state.orderRows = first ++ rest → ∀ symbol, 0 ≤ signedTotal first symbol
  last : ∀ date value, state.navRows.getLast? = some (date, value) →
    ∀ symbols : Finset String,
      (∀ symbol, state.books.ledger.shares symbol ≠ 0 → symbol ∈ symbols) →
      value = state.books.ledger.cash + ∑ symbol ∈ symbols,
        state.books.ledger.shares symbol * (closeOn market date symbol).getD 0
  closes : ∀ date value, state.navRows.getLast? = some (date, value) →
    ∀ symbol, 0 < state.books.ledger.shares symbol → (closeOn market date symbol).isSome

section Runs

variable [LinearOrder D] [SquareRoot] [MarketRules.Platform] [Calendar D]
  {config : SimulationConfig} {market : Panel D} {schedule : Schedule D}

variable {state : Simulation D}

theorem Reconcilable.shares_eq (h : Reconcilable config market state) (symbol : String) :
    state.books.ledger.shares symbol = signedTotal state.orderRows symbol := by
  rw [h.accounted.shares, h.actions, auditedShares_nil]

theorem Reconcilable.step (hplain : market.Plain) {after : Simulation D} {date : D}
    (hstep : SessionStep config market schedule state date after)
    (h : Reconcilable config market state) : Reconcilable config market after := by
  have haccounted := h.accounted.step hstep
  have hopened := state.books.opened_of_plain hplain date
  cases hstep with
  | blocked => exact h
  | unpriced hopen =>
    refine ⟨haccounted, ?_, ?_, ?_, h.rows, h.covered, ?_, ?_⟩
    · rw [hopened]
      exact h.untaxed
    · rw [hopened]
      exact h.actions
    · rw [hopened]
      exact h.long.release
    · intro last value hlast symbols
      rw [hopened]
      simp only [PositionLedger.shares_releaseFrozenShares, PositionLedger.cash_releaseFrozenShares]
      exact h.last last value hlast symbols
    · intro last value hlast symbol
      rw [hopened, PositionLedger.shares_releaseFrozenShares]
      exact h.closes last value hlast symbol
  | valued hopen manager books orders rows skipped hsubmissions horders hdates =>
    have hheld : ∀ symbol, 0 < books.ledger.shares symbol →
        symbol ∈ (pricesOf (market.onDay date)).map Prod.fst :=
      fun _ ↦ mem_pricesOf_of_held hopen hsubmissions horders
    rw [hopened] at hsubmissions
    obtain ⟨huntaxed, hactions⟩ := hsubmissions.untaxed h.untaxed
    obtain ⟨hlong, hrows, hcovered⟩ := hsubmissions.long h.long.release hdates
    refine ⟨haccounted, huntaxed, hactions.trans h.actions, hlong, ?_, ?_, ?_, ?_⟩
    · exact List.forall_mem_append.mpr ⟨h.rows, hrows⟩
    · intro first rest heq symbol
      rcases List.append_eq_append_iff.mp heq with ⟨early, rfl, hlater⟩ | ⟨late, hearly, -⟩
      · rw [signedTotal_append, ← h.shares_eq]
        have hprefix := hcovered early rest hlater symbol
        rwa [PositionLedger.shares_releaseFrozenShares] at hprefix
      · exact h.covered first late hearly symbol
    · intro last value hlast symbols hsymbols
      rw [List.getLast?_concat] at hlast
      cases hlast
      apply markToMarketNav_eq_sum hsymbols
      intro symbol hne
      exact hheld symbol (lt_of_le_of_ne (hlong.shares_nonneg symbol) (Ne.symm hne))
    · intro last value hlast symbol hpositive
      rw [List.getLast?_concat] at hlast
      cases hlast
      exact Dict.lookup_isSome.mpr (hheld symbol hpositive)

theorem reconcilable_upTo (config : SimulationConfig) (hplain : market.Plain) (clock : D → String)
    (schedule : Schedule D) {dates : List D} (hsorted : dates.Pairwise (· < ·)) :
    Reconcilable config market (upTo config market clock schedule dates) := by
  refine run_of_sessionStep clock hsorted (fun date _ ↦ freshAt_openingOf config market date) ?_
    fun _ _ _ _ hstep h ↦ h.step hplain hstep
  refine ⟨accounted_upTo config market clock schedule .nil, ?_, rfl, ?_, ?_, ?_, ?_, ?_⟩
  · apply if_neg
    rintro (hcolumn | hcolumn)
    · exact hplain.1 hcolumn
    · exact hplain.2.1 hcolumn
  · intro symbol position hposition
    cases hposition
  · exact fun _ hrow ↦ absurd hrow List.not_mem_nil
  · intro first rest heq symbol
    rw [(List.append_eq_nil_iff.mp heq.symm).1]
    rfl
  · intro date value hlast
    cases hlast
  · intro date value hlast
    cases hlast

end Runs

section Groups

variable {rows : List (OrderRow D)}

/-- The filled rows of a symbol show whatever all rows show of it. -/
theorem sum_groupOf {symbol : String} {amount : OrderRow D → ℤ}
    (hunfilled : ∀ row, row.filledQuantity = 0 → amount row = 0)
    (hother : ∀ row, row.symbol ≠ some symbol → amount row = 0) :
    ((groupOf (rows.filter fun row ↦ 0 < |row.filledQuantity|) symbol).map amount).sum =
      (rows.map amount).sum := by
  rw [groupOf, withKey, sum_filter, sum_filter]
  · intro row _ hnone
    apply hunfilled
    simpa using hnone
  · intro row _ hnone
    apply hother
    simpa using hnone

theorem signedTotal_groupOf (rows : List (OrderRow D)) (symbol : String) :
    signedTotal (groupOf (rows.filter fun row ↦ 0 < |row.filledQuantity|) symbol) symbol =
      signedTotal rows symbol := by
  apply sum_groupOf
  · intro row hzero
    unfold OrderRow.signedShares
    rw [hzero]
    split
    · rfl
    · split
      · split <;> rfl
      · rfl
  · intro row hother
    unfold OrderRow.signedShares
    cases horder : row.order with
    | none => rfl
    | some part =>
      apply if_neg
      rintro rfl
      exact hother (by rw [OrderRow.symbol, horder]; rfl)

theorem soldShares_groupOf (rows : List (OrderRow D)) (symbol : String) :
    soldShares (groupOf (rows.filter fun row ↦ 0 < |row.filledQuantity|) symbol) symbol =
      soldShares rows symbol := by
  apply sum_groupOf
  · intro row hzero
    simp only [hzero, ite_self]
    split <;> rfl
  · intro row hother
    cases horder : row.order with
    | none => simp
    | some part =>
      apply if_neg
      rintro ⟨rfl, -⟩
      exact hother (by rw [OrderRow.symbol, horder]; rfl)

variable [SquareRoot] [MarketRules.Platform] [Calendar D]

theorem matched_groupOf (hrows : ∀ row ∈ rows, Unfilled row ∨ ∃ part, Charged row part)
    (hcovered : ∀ first rest, rows = first ++ rest → ∀ symbol, 0 ≤ signedTotal first symbol)
    (symbol : String) :
    Matched symbol (groupOf (rows.filter fun row ↦ 0 < |row.filledQuantity|) symbol)
      (matchGroup (groupOf (rows.filter fun row ↦ 0 < |row.filledQuantity|) symbol)) := by
  apply matched_matchGroup
  · intro row hrow
    obtain ⟨hfilled, hsymbol⟩ := List.mem_filter.mp hrow
    obtain ⟨hmem, hquantity⟩ := List.mem_filter.mp hfilled
    rcases hrows row hmem with hunfilled | ⟨part, hcharged⟩
    · simp [hunfilled.quantity] at hquantity
    · refine ⟨part, hcharged, ?_⟩
      simpa [OrderRow.symbol, hcharged.order] using hsymbol
  · intro first rest heq
    rw [groupOf, withKey, List.filter_filter, List.filter_eq_append_iff] at heq
    obtain ⟨early, late, hsplit, rfl, -⟩ := heq
    have hprefix := hcovered early late hsplit symbol
    rwa [← signedTotal_groupOf, groupOf, withKey, List.filter_filter] at hprefix

end Groups

section Statistics

variable [LinearOrder D] [SquareRoot] [MarketRules.Platform] [Calendar D]

/-- The closed trips and the open lots at the last closes come to the change of the account, what
is open has a last close, and the trips close what was sold. -/
structure RoundTripsReconcile (config : SimulationConfig) (market : Panel D)
    (result : Simulation D) : Prop where
  nav : ∀ date value, result.navRows.getLast? = some (date, value) →
    ((realizedRoundTripPnl result.orderRows).map RoundTrip.netPnl).sum +
        ((groupSymbols (filledRows result.orderRows)).map fun symbol ↦
          lotWorth ((closeOn market date symbol).getD 0) (openLots result.orderRows symbol)).sum =
      value - config.initialCash
  marked : ∀ date value, result.navRows.getLast? = some (date, value) → ∀ symbol,
    openLots result.orderRows symbol ≠ [] → (closeOn market date symbol).isSome
  closed : ∀ symbol, (((realizedRoundTripPnl result.orderRows).filter fun trip ↦
    trip.symbol = symbol).map RoundTrip.quantity).sum = soldShares result.orderRows symbol

variable {rows : List (OrderRow D)}

variable {symbol : String}

section

omit [LinearOrder D] [SquareRoot] [MarketRules.Platform] [Calendar D]

theorem mem_groupSymbols :
    symbol ∈ groupSymbols rows ↔ ∃ row ∈ rows, row.symbol = some symbol := by
  rw [groupSymbols, (List.perm_insertionSort _ _).mem_iff, List.mem_dedup, List.mem_filterMap]

theorem nodup_groupSymbols (rows : List (OrderRow D)) : (groupSymbols rows).Nodup :=
  (List.perm_insertionSort _ _).nodup_iff.mpr (List.nodup_dedup _)

/-- A symbol that no row carries has an empty group. -/
theorem groupOf_eq_nil (h : symbol ∉ groupSymbols rows) :
    groupOf rows symbol = [] := by
  apply List.filter_eq_nil_iff.mpr
  intro row hrow heq
  exact h (mem_groupSymbols.mpr ⟨row, hrow, by simpa using heq⟩)

theorem sum_flatMap_groups {R : Type} (f : String → List R) (amount : R → ℚ) :
    (((groupSymbols rows).flatMap f).map amount).sum =
      ∑ symbol ∈ (groupSymbols rows).toFinset, ((f symbol).map amount).sum := by
  rw [List.sum_toFinset _ (nodup_groupSymbols rows), List.map_flatMap, List.flatMap,
    List.sum_flatten, List.map_map]
  rfl

end

omit [LinearOrder D] in
theorem sum_groups_cash (hrows : ∀ row ∈ rows, Unfilled row ∨ ∃ part, Charged row part) :
    ∑ symbol ∈ (groupSymbols (rows.filter fun row ↦ 0 < |row.filledQuantity|)).toFinset,
        ((groupOf (rows.filter fun row ↦ 0 < |row.filledQuantity|) symbol).map fun row ↦
          row.proceeds - row.cost).sum = auditedCash rows [] := by
  have hcash : ∀ rows : List (OrderRow D),
      (rows.map fun row ↦ row.proceeds - row.cost).sum = auditedCash rows [] := by
    intro rows
    have hsub := Multiset.sum_map_sub (m := (rows : Multiset (OrderRow D)))
      (f := OrderRow.proceeds) (g := OrderRow.cost)
    simpa [auditedCash] using hsub
  rw [← hcash rows]
  unfold groupOf
  rw [sum_withKey OrderRow.symbol, sum_filter]
  · intro row hrow hnone
    have hzero : row.filledQuantity = 0 := by simpa using hnone
    rcases hrows row hrow with hunfilled | ⟨part, hcharged⟩
    · obtain ⟨hproceeds, hcost, -⟩ := OrderRow.of_unfilled hzero hunfilled.costs
      rw [hproceeds, hcost, sub_zero]
    · exact absurd hzero hcharged.positive.ne'
  · intro row hrow
    obtain ⟨hmem, hquantity⟩ := List.mem_filter.mp hrow
    rcases hrows row hmem with hunfilled | ⟨part, hcharged⟩
    · simp [hunfilled.quantity] at hquantity
    · have hsymbol : row.symbol = some part.symbol := by
        rw [OrderRow.symbol, hcharged.order]
        rfl
      exact .inl ⟨_, List.mem_toFinset.mpr (mem_groupSymbols.mpr ⟨row, hrow, hsymbol⟩), hsymbol⟩

theorem roundTripsReconcile_of {config : SimulationConfig} {market : Panel D}
    {result : Simulation D} (h : Reconcilable config market result)
    (hsorted : result.orderRows.Pairwise fun first second ↦ first.tradeDate ≤ second.tradeDate) :
    RoundTripsReconcile config market result := by
  have hfilled : filledRows result.orderRows =
      result.orderRows.filter fun row ↦ 0 < |row.filledQuantity| :=
    (hsorted.filter _).insertionSort_eq
  have hmatched := matched_groupOf h.rows h.covered
  rw [← hfilled] at hmatched
  have hshares : ∀ symbol, signedTotal (groupOf (filledRows result.orderRows) symbol) symbol =
      result.books.ledger.shares symbol := by
    intro symbol
    rw [hfilled, signedTotal_groupOf, h.shares_eq]
  have hsupport : ∀ symbol, result.books.ledger.shares symbol ≠ 0 →
      symbol ∈ (groupSymbols (filledRows result.orderRows)).toFinset := by
    intro symbol hne
    by_contra hnot
    rw [List.mem_toFinset] at hnot
    rw [← hshares, groupOf_eq_nil hnot] at hne
    exact hne rfl
  refine ⟨?_, ?_, ?_⟩
  · intro date value hlast
    have hrows : ∑ symbol ∈ (groupSymbols (filledRows result.orderRows)).toFinset,
        ((groupOf (filledRows result.orderRows) symbol).map fun row ↦
          row.proceeds - row.cost).sum = auditedCash result.orderRows [] := by
      rw [hfilled]
      exact sum_groups_cash h.rows
    have htrips : ((realizedRoundTripPnl result.orderRows).map RoundTrip.netPnl).sum =
        ∑ symbol ∈ (groupSymbols (filledRows result.orderRows)).toFinset,
          ((matchGroup (groupOf (filledRows result.orderRows) symbol)).1.map
            RoundTrip.netPnl).sum := sum_flatMap_groups _ _
    have hlots : ((groupSymbols (filledRows result.orderRows)).map fun symbol ↦
          lotWorth ((closeOn market date symbol).getD 0) (openLots result.orderRows symbol)).sum =
        ∑ symbol ∈ (groupSymbols (filledRows result.orderRows)).toFinset,
          lotWorth ((closeOn market date symbol).getD 0)
            (matchGroup (groupOf (filledRows result.orderRows) symbol)).2 :=
      (List.sum_toFinset _ (nodup_groupSymbols _)).symm
    have hvalue := h.last date value hlast _ hsupport
    have hcash := h.accounted.cash
    rw [h.actions] at hcash
    calc
      _ = ∑ symbol ∈ (groupSymbols (filledRows result.orderRows)).toFinset,
          (((groupOf (filledRows result.orderRows) symbol).map fun row ↦
              row.proceeds - row.cost).sum +
            result.books.ledger.shares symbol * (closeOn market date symbol).getD 0) := by
        rw [htrips, hlots, ← Finset.sum_add_distrib]
        apply Finset.sum_congr rfl
        intro symbol _
        rw [(hmatched symbol).worth, hshares]
      _ = auditedCash result.orderRows [] +
          ∑ symbol ∈ (groupSymbols (filledRows result.orderRows)).toFinset,
            result.books.ledger.shares symbol * (closeOn market date symbol).getD 0 := by
        rw [Finset.sum_add_distrib, hrows]
      _ = value - config.initialCash := by
        rw [hvalue, hcash]
        ring
  · intro date value hlast symbol hopen
    apply h.closes date value hlast
    have htotal := (hmatched symbol).total
    rw [hshares] at htotal
    have hne : lotTotal (openLots result.orderRows symbol) ≠ 0 :=
      fun hzero ↦ hopen ((hmatched symbol).whole.eq_nil hzero)
    have hpositive := lt_of_le_of_ne (hmatched symbol).whole.nonneg (Ne.symm hne)
    have hcast := htotal ▸ hpositive
    exact_mod_cast hcast
  · intro symbol
    have hgroup : ∀ other, (((matchGroup (groupOf (filledRows result.orderRows) other)).1.filter
        fun trip ↦ trip.symbol = symbol).map RoundTrip.quantity).sum =
          if symbol = other then
            (soldShares (groupOf (filledRows result.orderRows) symbol) symbol : ℚ) else 0 := by
      intro other
      split
      · rename_i heq
        subst heq
        rw [List.filter_eq_self.mpr, (hmatched symbol).closed]
        intro trip htrip
        simpa using (hmatched symbol).symbols trip htrip
      · rename_i hne
        rw [List.filter_eq_nil_iff.mpr]
        · rfl
        · intro trip htrip
          rw [(hmatched other).symbols trip htrip]
          simpa using Ne.symm hne
    rw [← soldShares_groupOf, ← hfilled, realizedRoundTripPnl, List.filter_flatMap,
      sum_flatMap_groups, Finset.sum_congr rfl fun other _ ↦ hgroup other, Finset.sum_ite_eq]
    split
    · rfl
    · rename_i hnot
      rw [List.mem_toFinset] at hnot
      rw [groupOf_eq_nil hnot]
      rfl

/-- The round trips of a run without corporate actions reconcile with its net asset value. -/
theorem roundTripsReconcile_simulate (config : SimulationConfig) (clock : D → String)
    (target : TargetHistory D) {market : Panel D} (hplain : market.Plain) {result : Simulation D}
    (h : simulateAshareTargetWeights config clock target market = .ok result) :
    RoundTripsReconcile config market result := by
  obtain ⟨schedule, dates, hsorted, rfl⟩ := eq_upTo_of_ok h
  apply roundTripsReconcile_of (reconcilable_upTo config hplain clock schedule hsorted)
  exact (dated_orderRows config market clock schedule).pairwise_run rfl hsorted

end Statistics

def tradedPanel : Panel ℕ where
  columns := [.close]
  rows := [1, 2, 3, 4].map fun day ↦ ⟨day, "600000.SH", fun
    | .close => .num (10 + day)
    | _ => .none, ""⟩

/-- Half of the account goes to the stock, and then a quarter. -/
def tradedTarget : TargetHistory ℕ where
  columns := ["600000.SH"]
  nodup := List.nodup_singleton _
  rows := [(1, fun _ ↦ some (1 / 2)), (2, fun _ ↦ some (1 / 4)), (3, fun _ ↦ some (1 / 4))]

/-- A run that buys and sells reconciles. -/
theorem roundTripsReconcile_traded : ∃ result,
    simulateAshareTargetWeights plainConfig (fun _ ↦ "2026-07-06") tradedTarget tradedPanel =
        .ok result ∧
      RoundTripsReconcile plainConfig tradedPanel result :=
  ⟨_, rfl, roundTripsReconcile_simulate plainConfig (fun _ ↦ "2026-07-06") tradedTarget
    (by decide) rfl⟩

end QuantAgent.Simulator
