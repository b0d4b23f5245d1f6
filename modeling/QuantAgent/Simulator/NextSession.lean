import QuantAgent.Simulator.NetAssetValue

/-!
# Settlement at the next session

No share is sold on the day it came: what the order rows of a date sell of a symbol, the audit of
the earlier dates holds.
-/

namespace QuantAgent.Simulator

open Library Library.Run

variable {D : Type}

def OrderRow.sold (row : OrderRow D) (symbol : String) : ℤ := max 0 (-row.signedShares symbol)

def soldBy (rows : List (OrderRow D)) (symbol : String) : ℤ :=
  (rows.map fun row ↦ row.sold symbol).sum

namespace Simulation

variable [LinearOrder D] (result : Simulation D) (date : D) (symbol : String)

def soldOn : ℤ := soldBy (result.orderRows.filter fun row ↦ row.tradeDate = date) symbol

def heldBefore : ℤ :=
  auditedShares (result.orderRows.filter fun row ↦ row.tradeDate < date)
    (result.books.caRows.filter fun row ↦ row.tradeDate < date) symbol

/-- Whatever is sold on a date was held before it. -/
def SettlesNextSession : Prop :=
  ∀ date symbol, result.soldOn date symbol = 0 ∨
    result.soldOn date symbol ≤ result.heldBefore date symbol

end Simulation

def Books.available (books : Books D) (symbol : String) : ℤ :=
  ((books.ledger.positions.get? symbol).map Position.availableShares).getD 0

/-- The opening makes no more available than was held. -/
theorem Books.available_opened_le {day : Panel D} (books : Books D) (date : D)
    (hnodup : day.symbols.Nodup) (symbol : String) :
    (books.opened day date).available symbol ≤ books.ledger.shares symbol := by
  refine applyCorporateActions_of_step
    (P := fun reached ↦ reached.available symbol ≤ books.ledger.shares symbol) hnodup ?_ ?_ ?_
  · simp only [available, PositionLedger.releaseFrozenShares, Dict.get?_map, Option.map_map]
    exact le_rfl
  · intro reached row position close _ hheld _ hpositive hreached
    simp only [available, writeOff, Dict.get?_erase]
    split
    · rename_i hsymbol
      rw [hsymbol, ← PositionLedger.shares_releaseFrozenShares, PositionLedger.shares_of_get? hheld]
      exact hpositive.le
    · exact hreached
  · intro reached row position _ _ close _ hheld huntouched _ _ _ _ hreached
    simp only [available, credit, Dict.get?_insert]
    split
    · rename_i hsymbol
      subst hsymbol
      rw [available, huntouched.position, hheld] at hreached
      exact hreached
    · exact hreached

section

variable [LinearOrder D] [Calendar D] [SquareRoot] [MarketRules.Platform] {day : Panel D} {date : D}
  {books after : Books D}

/-- A submission takes from what is available exactly what its row sells. -/
theorem Submission.available_eq {order : Order D} {row : OrderRow D}
    (h : Submission day date books order after row) (symbol : String) :
    books.available symbol = after.available symbol + row.sold symbol ∧
      (row.sold symbol = 0 ∨ 0 ≤ after.available symbol) := by
  cases h with
  | refused _ hquantity hcosts =>
    simp [OrderRow.sold, (OrderRow.of_unfilled hquantity hcosts).2.2]
  | rejected _ _ _ hquantity hcosts =>
    simp [OrderRow.sold, (OrderRow.of_unfilled hquantity hcosts).2.2, Books.reject, Books.available]
  | traded trade _ hid hpositive hdeliverable _ hquantity _ _ horder =>
    obtain ⟨rows, -, hbook⟩ := books.book_spec date order trade
    have hsymbol : order.symbol = trade.symbol := congrArg OrderId.symbol hid.symm
    have hside : order.side = trade.side := congrArg OrderId.side hid.symm
    simp only [hbook, OrderRow.sold, OrderRow.signedShares, horder, hsymbol, hside, hquantity,
      Books.available, PositionLedger.applyFill]
    cases htrade : trade.side with
    | buy =>
      simp only [Dict.get?_insert]
      split
      · rename_i heq
        rw [heq]
        cases books.ledger.positions.get? trade.symbol <;> simp [hpositive.le]
      · simp
    | sell =>
      have havailable := hdeliverable htrade
      simp only [Dict.get?_insert]
      split
      · rename_i heq
        rw [heq]
        cases hposition : books.ledger.positions.get? trade.symbol with
        | none =>
          rw [hposition] at havailable
          exact absurd hpositive (not_lt.mpr havailable)
        | some position =>
          rw [hposition] at havailable
          simp only [Option.map_some, Option.getD_some] at havailable ⊢
          omega
      · simp

theorem Submissions.available_eq {orders : List (Order D)} {rows : List (OrderRow D)}
    (h : Submissions day date books orders after rows) (symbol : String) :
    books.available symbol = after.available symbol + soldBy rows symbol ∧
      (soldBy rows symbol = 0 ∨ 0 ≤ after.available symbol) :=
  h.induct (P := fun books after rows ↦
      books.available symbol = after.available symbol + soldBy rows symbol ∧
        (soldBy rows symbol = 0 ∨ 0 ≤ after.available symbol))
    (fun books ↦ by simp [soldBy]) fun _ _ _ _ _ _ _ first rest ↦ by
      have hfirst := first.available_eq symbol
      simp only [soldBy, List.map_cons, List.sum_cons] at rest ⊢
      omega

end

end QuantAgent.Simulator
