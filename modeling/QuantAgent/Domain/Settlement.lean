import QuantAgent.Domain.AccountReplay
import QuantAgent.Domain.BookAccount
import Mathlib.Algebra.Order.BigOperators.Group.List

/-!
# Shares that may be sold

What bookings do to the dated lots of a symbol, session by session: a purchase adds shares that may
be sold from the next session on, a sale takes shares that any later session could have sold too.
The replay of a settled chain is the fold of its bookings.
-/

namespace QuantAgent.Domain

open Library

def OrderBook.fills (book : OrderBook ℚ) : List (Fill ℚ) := book.events.filterMap OrderEvent.fill

namespace AccountState

theorem allPositive_opening (initialCash : ℚ) : (opening initialCash).AllPositive := by
  intro symbol lot hlot
  cases hlot

variable {state : AccountState}

/-- No more may be sold than is held. -/
theorem sellable_le_position (h : state.AllPositive) (symbol date : String) :
    state.sellable symbol date ≤ state.position symbol := by
  unfold sellable position totalQuantity sellableQuantity
  rw [← Parcels.total_filter_add PositionLot.parcels (PositionLot.sellableOn date)
    (state.lotsOf symbol)]
  refine le_add_of_nonneg_right (List.sum_nonneg ?_)
  intro size hsize
  obtain ⟨lot, hlot, rfl⟩ := List.mem_map.mp hsize
  exact (h symbol lot (List.mem_of_mem_filter hlot)).le

variable {date : String}

/-- Shares of earlier sessions may all be sold. -/
theorem sellable_eq_position {symbol : String}
    (h : ∀ lot ∈ state.lotsOf symbol, lot.acquiredOn < date) :
    state.sellable symbol date = state.position symbol := by
  have hall : (state.lotsOf symbol).filter (PositionLot.sellableOn date) = state.lotsOf symbol := by
    rw [List.filter_eq_self]
    intro lot hlot
    exact decide_eq_true (h lot hlot)
  unfold sellable position totalQuantity sellableQuantity Parcels.available
  rw [hall]

variable [Hashing ℚ]

variable {fill : Fill ℚ}

/-- A purchase of something is booked: it adds its lot and takes its cost. -/
theorem exists_book_buy (h : state.AllPositive) (hside : fill.side = .buy)
    (hquantity : 0 < fill.quantity) (date : String) :
    ∃ after, state.book fill date = .ok after ∧ after.AllPositive ∧
      after.cash = state.cash + fill.cashDelta ∧
      ∀ symbol, after.lotsOf symbol = if symbol = fill.symbol then
          state.lotsOf fill.symbol ++ [PositionLot.fromFill fill date]
        else state.lotsOf symbol := by
  have hlots := lotsOf_insert state (state.applyBuy fill date) rfl
  have hpositive : (state.applyBuy fill date).AllPositive := by
    intro symbol lot hlot
    rw [hlots] at hlot
    split at hlot
    · rcases List.mem_append.mp hlot with hlot | hlot
      · exact h _ lot hlot
      · rw [List.mem_singleton.mp hlot]
        exact hquantity
    · exact h symbol lot hlot
  refine ⟨state.applyBuy fill date, ?_, hpositive, rfl, hlots⟩
  simp only [book, applyFill, hside, bind, Except.bind, check_of_allPositive hpositive]
  rfl

/-- A sale of what may be sold is booked: it takes the oldest shares and brings its proceeds. -/
theorem exists_book_sell (h : state.AllPositive) (hside : fill.side = .sell)
    (henough : fill.quantity ≤ state.sellable fill.symbol date) :
    ∃ after, state.book fill date = .ok after ∧ after.AllPositive ∧
      after.cash = state.cash + fill.cashDelta ∧
      ∀ symbol, after.lotsOf symbol = if symbol = fill.symbol then
          PositionLot.parcels.consume (PositionLot.sellableOn date) fill.quantity
            (state.lotsOf fill.symbol)
        else state.lotsOf symbol := by
  let kept := PositionLot.parcels.consume (PositionLot.sellableOn date) fill.quantity
    (state.lotsOf fill.symbol)
  let basis := (state.costBasis.get? fill.symbol).getD fill.price
  let sold : AccountState := { state with
    cash := state.cash + fill.cashDelta
    lots := if kept.isEmpty then state.lots.erase fill.symbol
      else state.lots.insert fill.symbol kept
    realisedPnl := state.realisedPnl + ((fill.price - basis) * fill.quantity - fill.fees)
    totalFees := state.totalFees + fill.fees
    totalSlippage := state.totalSlippage + fill.slippage }
  have hlots : ∀ symbol, sold.lotsOf symbol =
      if symbol = fill.symbol then kept else state.lotsOf symbol := by
    intro symbol
    by_cases hempty : kept.isEmpty = true
    · rw [lotsOf_erase state sold (if_pos hempty), List.isEmpty_iff.mp hempty]
    · exact lotsOf_insert state sold (if_neg hempty) symbol
  have hpositive : sold.AllPositive := by
    intro symbol lot hlot
    rw [hlots] at hlot
    split at hlot
    · exact Parcels.pos_of_mem_consume (h fill.symbol) lot hlot
    · exact h symbol lot hlot
  have hsold : state.applySell fill date = .ok sold := if_neg (not_lt.mpr henough)
  refine ⟨sold, ?_, hpositive, rfl, hlots⟩
  simp only [book, applyFill, hside, hsold, bind, Except.bind, check_of_allPositive hpositive]
  rfl

omit [Hashing ℚ] in
/-- What a sale leaves to sell in its session and in later ones. -/
theorem sellableQuantity_consume {lots : List PositionLot}
    (hpositive : ∀ lot ∈ lots, 0 < lot.quantity) {quantity : ℚ} {later : String}
    (hlater : date ≤ later) (hquantity : 0 ≤ quantity)
    (henough : quantity ≤ sellableQuantity lots date) :
    sellableQuantity (PositionLot.parcels.consume (PositionLot.sellableOn date) quantity lots)
        later = sellableQuantity lots later - quantity := by
  refine Parcels.available_consume_of_imp ?_ (fun _ _ ↦ rfl) hpositive hquantity henough
  intro lot hlot
  have hearlier := of_decide_eq_true hlot
  exact decide_eq_true (hearlier.trans_le hlater)

/-- What a purchase adds to what may be sold: its shares, in the sessions after its own. -/
theorem sellableQuantity_fromFill (lots : List PositionLot) (fill : Fill ℚ) (date later : String) :
    sellableQuantity (lots ++ [PositionLot.fromFill fill date]) later =
      sellableQuantity lots later + if date < later then fill.quantity else 0 := by
  unfold sellableQuantity Parcels.available
  rw [List.filter_append, Parcels.total_append]
  congr 1
  by_cases hlater : date < later
  · have hsellable : PositionLot.sellableOn later (PositionLot.fromFill fill date) = true :=
      decide_eq_true hlater
    rw [if_pos hlater, List.filter_cons, if_pos hsellable]
    simp [PositionLot.parcels, PositionLot.fromFill]
  · have hfrozen : PositionLot.sellableOn later (PositionLot.fromFill fill date) ≠ true := by
      simpa [PositionLot.sellableOn, PositionLot.fromFill] using hlater
    rw [if_neg hlater, List.filter_cons, if_neg hfrozen]
    rfl

end AccountState

namespace CanonicalLedger

variable {ledger : CanonicalLedger ℚ}

/-- A chain of order events holds no corporate action. -/
theorem corporateActions_of_settled (h : ∀ record ∈ ledger.records, record.event ≠ none) :
    ledger.corporateActions = some [] := by
  have hnone : ∀ (records : List (LedgerRecord ℚ)) (seen : ℕ),
      (∀ record ∈ records, record.event ≠ none) → actionsFrom seen records = [] := by
    intro records
    induction records with
    | nil =>
      intro seen _
      rfl
    | cons record records ih =>
      intro seen hrecords
      obtain ⟨event, hevent⟩ := Option.ne_none_iff_exists'.mp (hrecords record List.mem_cons_self)
      rw [actionsFrom, hevent]
      exact ih (seen + 1) fun other hother ↦ hrecords other (List.mem_cons_of_mem _ hother)
  rw [corporateActions, hnone ledger.records 0 h]
  rfl

theorem replay_of_settled [Hashing ℚ] (hlinked : ledger.Linked)
    (hsettled : SettledChain ledger.records) {now : String} {book : OrderBook ℚ}
    (hbook : replayRecords now .empty ledger.records = .ok book) {initialCash : ℚ}
    {account : AccountState}
    (haccount : (AccountState.opening initialCash).bookAll (bookings ledger.records) = .ok account)
      :
    ledger.replay now initialCash = .ok (book, account) := by
  have hactions := corporateActions_of_settled fun record hrecord ↦
    (hsettled.settled record hrecord).present
  have hverify : ledger.verify = .ok ledger.head := hlinked
  simp only [replay, replayBook, hverify, hbook, hactions, replayAccount_of_settled hsettled,
    haccount]

end CanonicalLedger

end QuantAgent.Domain
