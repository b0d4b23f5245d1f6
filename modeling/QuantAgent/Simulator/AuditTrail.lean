import Mathlib.Algebra.Order.BigOperators.Group.List
import Mathlib.Tactic.LinearCombination
import QuantAgent.Simulator.Sessions

/-!
# The audit trail of the strict simulator

What the order rows and the corporate-action rows say of cash and shares, and that the book is what
they say: every step of a session changes the ledger by what it adds to the audit.  The net asset
value is then the audited cash and the audited shares at their marks.
-/

namespace QuantAgent.Simulator

open Library Library.Run
open Execution (OrderSide OrderStatus)

variable {D : Type}

namespace OrderRow

/-- The proceeds of a row: what a sale brings, or minus what a purchase pays. -/
def proceeds (row : OrderRow D) : ℚ :=
  match row.order.map OrderPart.side with
  | some .buy => -(row.filledQuantity * row.avgPrice)
  | some .sell => row.filledQuantity * row.avgPrice
  | none => 0

/-- `total_cost`, where the row has one. -/
def cost (row : OrderRow D) : ℚ := (row.costs.map CostPart.totalCost).getD 0

def signedShares (row : OrderRow D) (symbol : String) : ℤ :=
  match row.order with
  | none => 0
  | some order =>
    if symbol = order.symbol then
      match order.side with
      | .buy => row.filledQuantity
      | .sell => -row.filledQuantity
    else 0

end OrderRow

def ActionRow.bonusOf (row : ActionRow D) (symbol : String) : ℤ :=
  if symbol = row.symbol then row.bonusShares else 0

def auditedCash (orders : List (OrderRow D)) (actions : List (ActionRow D)) : ℚ :=
  (orders.map OrderRow.proceeds).sum - (orders.map OrderRow.cost).sum +
    (actions.map ActionRow.cashCredit).sum

def auditedShares (orders : List (OrderRow D)) (actions : List (ActionRow D)) (symbol : String) :
    ℤ :=
  (orders.map fun row ↦ row.signedShares symbol).sum +
    (actions.map fun row ↦ row.bonusOf symbol).sum

def auditedSymbols (orders : List (OrderRow D)) (actions : List (ActionRow D)) : Finset String :=
  (orders.filterMap fun row ↦ row.order.map OrderPart.symbol).toFinset ∪
    (actions.map ActionRow.symbol).toFinset

section

variable (orders orders' : List (OrderRow D)) (actions actions' : List (ActionRow D))

theorem auditedCash_append :
    auditedCash (orders ++ orders') (actions ++ actions') =
      auditedCash orders actions + auditedCash orders' actions' := by
  simp only [auditedCash, List.map_append, List.sum_append]
  ring

theorem auditedShares_append (symbol : String) :
    auditedShares (orders ++ orders') (actions ++ actions') symbol =
      auditedShares orders actions symbol + auditedShares orders' actions' symbol := by
  simp only [auditedShares, List.map_append, List.sum_append]
  ring

end

variable {orders : List (OrderRow D)} {symbol : String}

/-- Rows say nothing of a symbol they do not name. -/
theorem auditedShares_of_notMem {actions : List (ActionRow D)}
    (h : symbol ∉ auditedSymbols orders actions) :
    auditedShares orders actions symbol = 0 := by
  rw [auditedSymbols, Finset.mem_union, not_or, List.mem_toFinset, List.mem_toFinset] at h
  obtain ⟨horders, hactions⟩ := h
  have hsigned : ∀ signed ∈ orders.map fun row ↦ row.signedShares symbol, signed = 0 := by
    intro signed hsigned
    obtain ⟨row, hrow, rfl⟩ := List.mem_map.mp hsigned
    unfold OrderRow.signedShares
    cases horder : row.order with
    | none => rfl
    | some order =>
      apply if_neg
      rintro rfl
      exact horders (List.mem_filterMap.mpr ⟨row, hrow, by rw [horder]; rfl⟩)
  have hbonus : ∀ bonus ∈ actions.map fun row ↦ row.bonusOf symbol, bonus = 0 := by
    intro bonus hbonus
    obtain ⟨row, hrow, rfl⟩ := List.mem_map.mp hbonus
    apply if_neg
    rintro rfl
    exact hactions (List.mem_map_of_mem hrow)
  rw [auditedShares, List.sum_eq_zero hsigned, List.sum_eq_zero hbonus, add_zero]

theorem OrderRow.of_unfilled {row : OrderRow D} (hquantity : row.filledQuantity = 0)
    (hcosts : row.costs = none) :
    row.proceeds = 0 ∧ row.cost = 0 ∧ ∀ symbol, row.signedShares symbol = 0 := by
  refine ⟨?_, ?_, ?_⟩
  · unfold OrderRow.proceeds
    rw [hquantity]
    split <;> simp
  · rw [OrderRow.cost, hcosts, Option.map_none, Option.getD_none]
  · intro symbol
    unfold OrderRow.signedShares
    rw [hquantity]
    split
    · rfl
    · split
      · split <;> rfl
      · rfl

/-- What changed in the books is what the order rows and the new action rows say. -/
def Explains (books after : Books D) (orders : List (OrderRow D)) : Prop :=
  ∃ actions, after.caRows = books.caRows ++ actions ∧
    after.ledger.cash = books.ledger.cash + auditedCash orders actions ∧
    ∀ symbol, after.ledger.shares symbol =
      books.ledger.shares symbol + auditedShares orders actions symbol

theorem Explains.refl (books : Books D) : Explains books books [] :=
  ⟨[], by simp, by simp [auditedCash], by simp [auditedShares]⟩

variable {books : Books D}

theorem Explains.trans {between after : Books D} {orders' : List (OrderRow D)}
    (h : Explains books between orders) (h' : Explains between after orders') :
    Explains books after (orders ++ orders') := by
  obtain ⟨actions, hrows, hcash, hshares⟩ := h
  obtain ⟨actions', hrows', hcash', hshares'⟩ := h'
  refine ⟨actions ++ actions', ?_, ?_, ?_⟩
  · rw [hrows', hrows, List.append_assoc]
  · rw [hcash', hcash, auditedCash_append, add_assoc]
  · intro symbol
    rw [hshares', hshares, auditedShares_append, add_assoc]

theorem explains_release (books : Books D) :
    Explains books { books with ledger := books.ledger.releaseFrozenShares } [] :=
  ⟨[], by simp, by simp [auditedCash], by simp [auditedShares]⟩

variable {row : Bar D} {position : Position}

theorem explains_writeOff (date : D) (close : ℚ)
    (hposition : books.ledger.positions.get? row.symbol = some position) :
    Explains books (books.writeOff date row position close) [] := by
  refine ⟨[_], rfl, ?_, ?_⟩
  · simp [Books.writeOff, auditedCash]
  · intro symbol
    have hshares := books.ledger.shares_erase row.symbol symbol books.ledger.cash
    by_cases hsymbol : symbol = row.symbol
    · subst hsymbol
      rw [if_pos rfl] at hshares
      simp only [Books.writeOff, auditedShares, List.map_nil, List.sum_nil, List.map_cons,
        List.sum_cons, ActionRow.bonusOf, if_pos]
      rw [hshares, PositionLedger.shares_of_get? hposition]
      ring
    · rw [if_neg hsymbol] at hshares
      simp only [Books.writeOff, auditedShares, List.map_nil, List.sum_nil, List.map_cons,
        List.sum_cons, ActionRow.bonusOf, if_neg hsymbol]
      rw [hshares]
      ring

theorem explains_credit (date : D) (cashPerShare shareRatio close : ℚ)
    (hposition : books.ledger.positions.get? row.symbol = some position) :
    Explains books (books.credit date row position cashPerShare shareRatio close) [] := by
  refine ⟨[_], rfl, ?_, ?_⟩
  · simp [Books.credit, auditedCash]
  · intro symbol
    by_cases hsymbol : symbol = row.symbol
    · subst hsymbol
      simp only [Books.credit, auditedShares, List.map_nil, List.sum_nil, List.map_cons,
        List.sum_cons, ActionRow.bonusOf, if_pos]
      rw [PositionLedger.shares_insert, if_pos rfl, PositionLedger.shares_of_get? hposition]
      simp only [Position.shares]
      ring
    · simp only [Books.credit, auditedShares, List.map_nil, List.sum_nil, List.map_cons,
        List.sum_cons, ActionRow.bonusOf, if_neg hsymbol]
      rw [PositionLedger.shares_insert, if_neg hsymbol]
      ring

variable {day : Panel D}

/-- The opening of a session is explained by its corporate-action rows. -/
theorem explains_opened (books : Books D) (date : D) (hnodup : day.symbols.Nodup) :
    Explains books (books.opened day date) [] := by
  suffices h : Explains { books with ledger := books.ledger.releaseFrozenShares }
      (books.opened day date) [] from (explains_release books).trans h
  refine Books.applyCorporateActions_of_step (P := fun reached ↦ Explains _ reached []) hnodup
    (.refl _) ?_ ?_
  · intro reached row position close _ hheld huntouched _ hreached
    exact hreached.trans (explains_writeOff date close (huntouched.position.trans hheld))
  · intro reached row position cashPerShare shareRatio close _ hheld huntouched _ _ _ _ hreached
    exact hreached.trans
      (explains_credit date cashPerShare shareRatio close (huntouched.position.trans hheld))

section Orders

variable [LinearOrder D] [Calendar D]

variable {books after : Books D} {order : Order D} {row : OrderRow D}

variable {trade : TradeFill D}

section

variable (date : D) (hid : trade.clientOrderId = order.clientOrderId)
  (hdeliverable : books.Deliverable trade) (hquantity : row.filledQuantity = trade.fillQuantity)
include hid hdeliverable hquantity

theorem shares_book
    (horder : row.order = some ⟨order.symbol, order.side, order.quantity, order.price⟩)
    (symbol : String) :
    (books.book date order trade).ledger.shares symbol =
      books.ledger.shares symbol + row.signedShares symbol := by
  obtain ⟨rows, -, hfill⟩ := books.book_spec date order trade
  have hsymbol : order.symbol = trade.symbol := congrArg OrderId.symbol hid.symm
  have hside : order.side = trade.side := congrArg OrderId.side hid.symm
  rw [hfill]
  simp only [OrderRow.signedShares, horder, hsymbol, hside, hquantity]
  have hshares : ∀ cash, PositionLedger.shares
      ⟨(books.ledger.applyFill trade).positions, cash⟩ symbol =
        (books.ledger.applyFill trade).shares symbol := fun _ ↦ rfl
  rw [hshares]
  cases htrade : trade.side with
  | buy => rw [PositionLedger.shares_applyFill_buy htrade]
  | sell =>
    rw [PositionLedger.shares_applyFill_sell htrade (hdeliverable htrade)]
    split
    · ring
    · ring

theorem explains_book (hprice : row.avgPrice = trade.fillPrice)
    (hcosts : row.costs.map CostPart.totalCost = some trade.totalCost)
    (horder : row.order = some ⟨order.symbol, order.side, order.quantity, order.price⟩) :
    Explains books (books.book date order trade) [row] := by
  obtain ⟨rows, htax, hfill⟩ := books.book_spec date order trade
  have hside : order.side = trade.side := congrArg OrderId.side hid.symm
  have hbonus : ∀ symbol, (rows.map fun row ↦ row.bonusOf symbol).sum = 0 := by
    intro symbol
    apply List.sum_eq_zero
    intro bonus hbonus
    obtain ⟨action, haction, rfl⟩ := List.mem_map.mp hbonus
    unfold ActionRow.bonusOf
    rw [htax.shares action haction, ite_self]
  have hcost : row.cost = trade.totalCost := by rw [OrderRow.cost, hcosts, Option.getD_some]
  refine ⟨rows, ?_, ?_, ?_⟩
  · rw [hfill]
  · rw [hfill]
    simp only [auditedCash, List.map_cons, List.map_nil, List.sum_cons, List.sum_nil, add_zero,
      htax.credit, hcost, OrderRow.proceeds, horder, Option.map_some, hside, hquantity, hprice]
    cases htrade : trade.side with
    | buy =>
      rw [PositionLedger.cash_applyFill_buy htrade]
      ring
    | sell =>
      rw [PositionLedger.cash_applyFill_sell htrade (hdeliverable htrade)]
      ring
  · intro symbol
    rw [shares_book date hid hdeliverable hquantity horder]
    simp [auditedShares, hbonus]

end

variable [SquareRoot] [MarketRules.Platform]

variable {day : Panel D}

variable {date : D}

theorem Submission.explains (h : Submission day date books order after row) :
    Explains books after [row] := by
  cases h with
  | refused _ hquantity hcosts =>
    obtain ⟨hproceeds, hcost, hshares⟩ := OrderRow.of_unfilled hquantity hcosts
    exact ⟨[], by simp, by simp [auditedCash, hproceeds, hcost], by simp [auditedShares, hshares]⟩
  | rejected price message _ hquantity hcosts =>
    obtain ⟨hproceeds, hcost, hshares⟩ := OrderRow.of_unfilled hquantity hcosts
    exact ⟨[], by simp [Books.reject], by simp [Books.reject, auditedCash, hproceeds, hcost],
      by simp [Books.reject, auditedShares, hshares]⟩
  | traded trade _ hid _ hdeliverable _ hquantity hprice hcosts horder =>
    exact explains_book date hid hdeliverable hquantity hprice hcosts horder

theorem Submission.shares_signed (h : Submission day date books order after row) (symbol : String) :
    after.ledger.shares symbol = books.ledger.shares symbol + row.signedShares symbol := by
  cases h with
  | refused _ hquantity hcosts =>
    rw [(OrderRow.of_unfilled hquantity hcosts).2.2 symbol, add_zero]
  | rejected price message _ hquantity hcosts =>
    rw [(OrderRow.of_unfilled hquantity hcosts).2.2 symbol, add_zero]
    rfl
  | traded trade _ hid _ hdeliverable _ hquantity _ _ horder =>
    exact shares_book date hid hdeliverable hquantity horder symbol

theorem Submissions.explains {orders : List (Order D)} {rows : List (OrderRow D)}
    (h : Submissions day date books orders after rows) : Explains books after rows :=
  h.induct .refl fun _ _ _ _ _ _ _ first rest ↦ first.explains.trans rest

end Orders

structure Accounted (initialCash : ℚ) (state : Simulation D) : Prop where
  cash : state.books.ledger.cash =
    initialCash + auditedCash state.orderRows state.books.caRows
  shares : ∀ symbol, state.books.ledger.shares symbol =
    auditedShares state.orderRows state.books.caRows symbol

theorem Accounted.of_explains {initialCash : ℚ} {state after : Simulation D}
    {rows : List (OrderRow D)} (h : Accounted initialCash state)
    (hexplains : Explains state.books after.books rows)
    (hrows : after.orderRows = state.orderRows ++ rows) : Accounted initialCash after := by
  obtain ⟨actions, hactions, hcash, hshares⟩ := hexplains
  constructor
  · rw [hcash, h.cash, hrows, hactions, auditedCash_append, add_assoc]
  · intro symbol
    rw [hshares, h.shares, hrows, hactions, auditedShares_append]

section Runs

variable [LinearOrder D] [SquareRoot] [MarketRules.Platform] [Calendar D]
  {config : SimulationConfig} {market : Panel D} {schedule : Schedule D}

theorem Accounted.step {initialCash : ℚ} {state after : Simulation D} {date : D}
    (hstep : SessionStep config market schedule state date after)
    (h : Accounted initialCash state) : Accounted initialCash after := by
  cases hstep with
  | blocked => exact h
  | unpriced hopen =>
    exact h.of_explains (explains_opened state.books date (of_not_blocked hopen).1) (by simp)
  | valued hopen manager books orders rows skipped hsubmissions =>
    have hopened := explains_opened state.books date (of_not_blocked hopen).1
    exact h.of_explains (hopened.trans hsubmissions.explains) rfl

theorem accounted_upTo (config : SimulationConfig) (market : Panel D) (clock : D → String)
    (schedule : Schedule D) {dates : List D} (hsorted : dates.Pairwise (· < ·)) :
    Accounted config.initialCash (upTo config market clock schedule dates) :=
  run_of_sessionStep clock hsorted (fun date _ ↦ freshAt_openingOf config market date)
    ⟨by simp [openingOf, auditedCash], fun symbol ↦ by
      simp [openingOf, auditedShares, PositionLedger.shares]⟩
    fun _ _ _ _ hstep h ↦ h.step hstep

end Runs

/-- A position without shares at the opening of a session is left alone by it. -/
theorem shares_opened_of_nonpos (date : D) (hnodup : day.symbols.Nodup)
    (h : books.ledger.shares symbol ≤ 0) :
    (books.opened day date).ledger.shares symbol = books.ledger.shares symbol := by
  have hheld : ∀ (row : Bar D) (position : Position),
      books.ledger.releaseFrozenShares.positions.get? row.symbol = some position →
      0 < position.shares → symbol ≠ row.symbol := by
    rintro row position hposition hpositive rfl
    rw [← PositionLedger.shares_releaseFrozenShares, PositionLedger.shares_of_get? hposition] at h
    exact absurd hpositive (not_lt.mpr h)
  refine Books.applyCorporateActions_of_step
    (P := fun reached ↦ reached.ledger.shares symbol = books.ledger.shares symbol) hnodup
    (books.ledger.shares_releaseFrozenShares symbol) ?_ ?_
  · intro reached row position close _ hposition _ hpositive hreached
    rw [← hreached]
    exact (PositionLedger.shares_erase ..).trans (if_neg (hheld row position hposition hpositive))
  · intro reached row position cashPerShare shareRatio close _ hposition _ hpositive _ _ _ hreached
    rw [← hreached]
    exact (PositionLedger.shares_insert ..).trans (if_neg (hheld row position hposition hpositive))

section Marks

variable [LinearOrder D]

def closeOn (market : Panel D) (date : D) (symbol : String) : Option ℚ :=
  (pricesOf (market.onDay date)).lookup symbol

variable [SquareRoot] [MarketRules.Platform] [Calendar D]

variable {books after : Books D} {symbol : String}

variable {day : Panel D} {date : D}

theorem Submission.shares_eq {order : Order D} {row : OrderRow D}
    (h : Submission day date books order after row) (hsymbol : symbol ≠ order.symbol) :
    after.ledger.shares symbol = books.ledger.shares symbol := by
  have hsigned : row.signedShares symbol = 0 := by
    cases h with
    | refused _ hquantity hcosts => exact (OrderRow.of_unfilled hquantity hcosts).2.2 symbol
    | rejected _ _ _ hquantity hcosts => exact (OrderRow.of_unfilled hquantity hcosts).2.2 symbol
    | traded _ _ _ _ _ _ _ _ _ horder =>
      rw [OrderRow.signedShares, horder]
      exact if_neg hsymbol
  rw [h.shares_signed, hsigned, add_zero]

variable {orders : List (Order D)} {rows : List (OrderRow D)}

theorem Submissions.shares_eq (h : Submissions day date books orders after rows)
    (hsymbol : ∀ order ∈ orders, symbol ≠ order.symbol) :
    after.ledger.shares symbol = books.ledger.shares symbol :=
  h.induct (P := fun books after _ ↦ after.ledger.shares symbol = books.ledger.shares symbol)
    (fun _ ↦ rfl)
    fun _ _ _ _ _ _ horder first rest ↦ rest.trans (first.shares_eq (hsymbol _ horder))

/-- Whatever is held after a valued session has a close in it. -/
theorem mem_pricesOf_of_held {market : Panel D} {schedule : Schedule D} {state : Simulation D}
    (hopen : ¬ Blocked market schedule state date)
    (hsubmissions : Submissions (market.onDay date) date (state.books.opened (market.onDay date)
      date) orders books rows)
    (horders : ∀ order ∈ orders, order.symbol ∈ (pricesOf (market.onDay date)).map Prod.fst)
    (h : 0 < books.ledger.shares symbol) :
    symbol ∈ (pricesOf (market.onDay date)).map Prod.fst := by
  obtain ⟨hnodup, -, hrequired⟩ := of_not_blocked hopen
  by_contra hnot
  have hafter : books.ledger.shares symbol =
      (state.books.opened (market.onDay date) date).ledger.shares symbol :=
    hsubmissions.shares_eq fun order horder heq ↦ hnot (heq ▸ horders order horder)
  have hbefore : state.books.ledger.shares symbol ≤ 0 := by
    by_contra hpositive
    apply hnot
    apply hrequired
    unfold requiredSymbols
    cases hposition : state.books.ledger.positions.get? symbol with
    | none =>
      rw [PositionLedger.shares, hposition] at hpositive
      exact absurd le_rfl hpositive
    | some position =>
      rw [PositionLedger.shares_of_get? hposition, not_le] at hpositive
      refine List.mem_append_left _ (List.mem_map.mpr ⟨(symbol, position), ?_, rfl⟩)
      exact List.mem_filter.mpr ⟨Dict.mem_entries_of_get? hposition, decide_eq_true hpositive⟩
  rw [hafter, shares_opened_of_nonpos date hnodup hbefore] at h
  exact absurd h (not_lt.mpr hbefore)

end Marks

end QuantAgent.Simulator
