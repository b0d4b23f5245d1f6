import QuantAgent.Simulator.Execution

/-!
# What the steps of a session do

The cases of a submission and of the callback behind it, the shares a ledger holds after each of
its operations, and the part of a position that a corporate action changes.
-/

namespace QuantAgent.Simulator

open Library
open Execution (OrderSide OrderStatus)

variable {D : Type}

namespace PositionLedger

section

variable (ledger : PositionLedger) (symbol other : String)

theorem shares_insert (position : Position) (cash : ℚ) :
    PositionLedger.shares ⟨ledger.positions.insert symbol position, cash⟩ other =
      if other = symbol then position.shares else ledger.shares other := by
  unfold shares
  simp only
  rw [Dict.get?_insert]
  split
  · rfl
  · rfl

theorem shares_erase (cash : ℚ) :
    PositionLedger.shares ⟨ledger.positions.erase symbol, cash⟩ other =
      if other = symbol then 0 else ledger.shares other := by
  unfold shares
  simp only
  rw [Dict.get?_erase]
  split
  · rfl
  · rfl

end

variable {ledger : PositionLedger}

theorem shares_of_get? {symbol : String} {position : Position}
    (h : ledger.positions.get? symbol = some position) :
    ledger.shares symbol = position.shares := by
  rw [shares, h, Option.map_some, Option.getD_some]

@[simp]
theorem shares_releaseFrozenShares (ledger : PositionLedger) (symbol : String) :
    ledger.releaseFrozenShares.shares symbol = ledger.shares symbol := by
  unfold shares releaseFrozenShares
  simp only
  rw [Dict.get?_map, Option.map_map]
  congr 2
  funext position
  simp [Position.shares]

@[simp]
theorem cash_releaseFrozenShares (ledger : PositionLedger) :
    ledger.releaseFrozenShares.cash = ledger.cash := rfl

variable {fill : TradeFill D}

theorem shares_applyFill_buy (h : fill.side = .buy) (symbol : String) :
    (ledger.applyFill fill).shares symbol =
      ledger.shares symbol + if symbol = fill.symbol then fill.fillQuantity else 0 := by
  simp only [applyFill, h]
  rw [shares_insert]
  split
  · rename_i hsymbol
    rw [hsymbol, shares]
    cases ledger.positions.get? fill.symbol with
    | none => simp [Position.shares]
    | some position => simp [Position.shares, add_assoc]
  · rw [add_zero]

theorem shares_applyFill_sell (h : fill.side = .sell)
    (havailable : fill.fillQuantity ≤ ((ledger.positions.get? fill.symbol).map
      Position.availableShares).getD 0) (symbol : String) :
    (ledger.applyFill fill).shares symbol =
      ledger.shares symbol - if symbol = fill.symbol then fill.fillQuantity else 0 := by
  simp only [applyFill, h]
  rw [shares_insert]
  split
  · rename_i hsymbol
    rw [hsymbol, shares]
    cases hposition : ledger.positions.get? fill.symbol with
    | none =>
      rw [hposition] at havailable
      simp only [Option.map_none, Option.getD_none] at havailable
      simp [Position.shares, min_eq_left havailable]
    | some position =>
      rw [hposition] at havailable
      simp only [Option.map_some, Option.getD_some] at havailable
      simp only [Position.shares, Option.map_some, Option.getD_some, min_eq_left havailable]
      omega
  · rw [sub_zero]

theorem cash_applyFill_buy (h : fill.side = .buy) :
    (ledger.applyFill fill).cash =
      ledger.cash - (fill.fillQuantity * fill.fillPrice + fill.totalCost) := by
  simp only [applyFill, h]

theorem cash_applyFill_sell (h : fill.side = .sell)
    (havailable : fill.fillQuantity ≤ ((ledger.positions.get? fill.symbol).map
      Position.availableShares).getD 0) :
    (ledger.applyFill fill).cash =
      ledger.cash + (fill.fillQuantity * fill.fillPrice - fill.totalCost) := by
  simp only [applyFill, h]
  cases hposition : ledger.positions.get? fill.symbol with
  | none =>
    rw [hposition] at havailable
    simp only [Option.map_none, Option.getD_none] at havailable
    simp [min_eq_left havailable]
  | some position =>
    rw [hposition] at havailable
    simp only [Option.map_some, Option.getD_some] at havailable
    simp only [Option.getD_some, min_eq_left havailable]

/-- No position is short, in what may be sold as in what settles later. -/
def Long (ledger : PositionLedger) : Prop :=
  ∀ symbol position, ledger.positions.get? symbol = some position →
    0 ≤ position.availableShares ∧ 0 ≤ position.frozenShares

theorem Long.shares_nonneg (h : ledger.Long) (symbol : String) :
    0 ≤ ledger.shares symbol := by
  cases hposition : ledger.positions.get? symbol with
  | none =>
    rw [shares, hposition]
    exact le_rfl
  | some position =>
    obtain ⟨havailable, hfrozen⟩ := h symbol position hposition
    rw [shares_of_get? hposition]
    exact add_nonneg havailable hfrozen

theorem Long.release (h : ledger.Long) :
    ledger.releaseFrozenShares.Long := by
  intro symbol position hposition
  rw [releaseFrozenShares, Dict.get?_map] at hposition
  obtain ⟨before, hbefore, rfl⟩ := Option.map_eq_some_iff.mp hposition
  obtain ⟨havailable, hfrozen⟩ := h symbol before hbefore
  exact ⟨add_nonneg havailable hfrozen, le_rfl⟩

theorem Long.applyFill (h : ledger.Long) (hpositive : 0 < fill.fillQuantity) (cash : ℚ) :
    PositionLedger.Long ⟨(ledger.applyFill fill).positions, cash⟩ := by
  -- The position a fill meets, which may be an empty one, is not short.
  have hcurrent : 0 ≤ ((ledger.positions.get? fill.symbol).getD
        ⟨0, 0, fill.fillPrice⟩).availableShares ∧
      0 ≤ ((ledger.positions.get? fill.symbol).getD ⟨0, 0, fill.fillPrice⟩).frozenShares := by
    cases hposition : ledger.positions.get? fill.symbol with
    | none => exact ⟨le_rfl, le_rfl⟩
    | some position => exact h fill.symbol position hposition
  obtain ⟨havailable, hfrozen⟩ := hcurrent
  intro symbol position hposition
  cases hside : fill.side with
  | buy =>
    simp only [PositionLedger.applyFill, hside] at hposition
    rw [Dict.get?_insert] at hposition
    split at hposition
    · cases hposition
      exact ⟨havailable, add_nonneg hfrozen hpositive.le⟩
    · exact h symbol position hposition
  | sell =>
    simp only [PositionLedger.applyFill, hside] at hposition
    rw [Dict.get?_insert] at hposition
    split at hposition
    · cases hposition
      exact ⟨sub_nonneg.mpr (min_le_right _ _), hfrozen⟩
    · exact h symbol position hposition

/-- What may be sold of a symbol is part of its shares. -/
theorem Long.available_le (h : ledger.Long) (symbol : String) :
    ((ledger.positions.get? symbol).map Position.availableShares).getD 0 ≤
      ledger.shares symbol := by
  cases hposition : ledger.positions.get? symbol with
  | none =>
    rw [shares, hposition]
    exact le_rfl
  | some position =>
    rw [shares_of_get? hposition]
    exact le_add_of_nonneg_right (h symbol position hposition).2

end PositionLedger

/-- A fill is positive or nothing, and never larger than its order. -/
theorem FillSimulator.quantity_le (simulator : FillSimulator) {order : Order D}
    {availableVolume : Option ℚ} (h : 0 < (simulator.simulate order availableVolume).quantity) :
    (simulator.simulate order availableVolume).quantity ≤ order.quantity := by
  unfold simulate at h ⊢
  cases availableVolume with
  | none =>
    simp only at h ⊢
    split at h
    · exact absurd h (lt_irrefl _)
    · rename_i hquantity
      rw [if_neg hquantity]
  | some volume =>
    simp only at h ⊢
    split at h
    · exact absurd h (lt_irrefl _)
    · rename_i hquantity
      rw [if_neg hquantity]
      exact min_le_left _ _

namespace Books

variable [LinearOrder D] [Calendar D]

/-- What a fill needs: there are the shares it sells. -/
def Deliverable (books : Books D) (fill : TradeFill D) : Prop :=
  fill.side = .sell → fill.fillQuantity ≤
    ((books.ledger.positions.get? fill.symbol).map Position.availableShares).getD 0

variable [SquareRoot] [MarketRules.Platform]

theorem submit_cases (simulator : FillSimulator) (day : Panel D) (date : D) (books : Books D)
    (order : Order D) :
    (∃ price message, books.submit simulator day date order = books.reject order price message) ∨
      ∃ trade : TradeFill D, ∃ status message,
        trade.clientOrderId = order.clientOrderId ∧ 0 < trade.fillQuantity ∧
        trade.fillQuantity ≤ order.quantity ∧ books.Deliverable trade ∧
        (∃ fill, trade = tradeOf day date order fill) ∧
        books.submit simulator day date order = (books.book date order trade,
          ⟨order.clientOrderId, status, trade.fillQuantity, trade.fillPrice, message⟩) := by
  unfold submit
  cases hreject : books.rejectReason day order with
  | some message => exact .inl ⟨0, message, rfl⟩
  | none =>
    simp only
    split
    · exact .inl ⟨_, _, rfl⟩
    · rename_i hquantity
      have hpositive := not_le.mp hquantity
      have hle := simulator.quantity_le hpositive
      split
      · exact .inl ⟨_, _, rfl⟩
      · refine .inr ⟨_, _, _, rfl, hpositive, hle, ?_, ⟨_, rfl⟩, rfl⟩
        intro hside
        have hsell : order.side = .sell := hside
        unfold rejectReason at hreject
        simp only [hsell] at hreject
        split at hreject
        · cases hreject
        split at hreject
        · cases hreject
        split at hreject
        · cases hreject
        split at hreject
        · cases hreject
        rename_i havailable
        simp only [decide_true, Bool.true_and, decide_eq_true_eq, not_lt] at havailable
        exact hle.trans havailable

omit [SquareRoot] [MarketRules.Platform]

def taxOf (books : Books D) (date : D) (fill : TradeFill D) : ℚ :=
  match books.taxLots, fill.side with
  | some lots, .sell => max 0 (lots.sell fill.symbol date fill.fillQuantity).2
  | _, _ => 0

def lotsAfter (books : Books D) (date : D) (fill : TradeFill D) : Option (DividendTaxLots D) :=
  books.taxLots.map fun lots ↦ match fill.side with
    | .buy => lots.buy fill.symbol date fill.fillQuantity
    | .sell => (lots.sell fill.symbol date fill.fillQuantity).1

/-- The audit rows of the callback: at most one, for the tax. -/
structure TaxRows (date : D) (fill : TradeFill D) (tax : ℚ) (rows : List (ActionRow D)) : Prop where
  dated : ∀ row ∈ rows, row.tradeDate = date
  credit : (rows.map ActionRow.cashCredit).sum = -tax
  shares : ∀ row ∈ rows, row.bonusShares = 0
  unpaid : ∀ row ∈ rows, row.cashPerShare = 0

/-- The callback charges the tax and keeps the rest. -/
theorem onFill_spec (books : Books D) (date : D) (fill : TradeFill D) :
    ∃ rows, TaxRows date fill (books.taxOf date fill) rows ∧ books.onFill date fill =
      { books with
        ledger := { books.ledger with cash := books.ledger.cash - books.taxOf date fill }
        taxLots := books.lotsAfter date fill
        caRows := books.caRows ++ rows } := by
  have hnone : TaxRows date fill 0 [] :=
    ⟨List.forall_mem_nil _, by simp, List.forall_mem_nil _,
      List.forall_mem_nil _⟩
  unfold onFill taxOf lotsAfter
  cases hlots : books.taxLots with
  | none =>
    refine ⟨[], hnone, ?_⟩
    simp only [sub_zero, Option.map_none, List.append_nil]
    rw [← hlots]
  | some lots =>
    cases hside : fill.side with
    | buy =>
      refine ⟨[], hnone, ?_⟩
      simp
    | sell =>
      simp only [Option.map_some]
      split
      · rename_i htax
        rw [max_eq_right htax.le]
        refine ⟨[_], ⟨?_, ?_, ?_, ?_⟩, rfl⟩
        · intro row hrow
          rw [List.mem_singleton.mp hrow]
        · simp
        · intro row hrow
          rw [List.mem_singleton.mp hrow]
        · intro row hrow
          rw [List.mem_singleton.mp hrow]
      · rename_i htax
        rw [max_eq_left (not_lt.mp htax)]
        refine ⟨[], hnone, ?_⟩
        simp

/-- A booked fill is applied and recorded, and the callback has charged its tax. -/
theorem book_spec (books : Books D) (date : D) (order : Order D) (trade : TradeFill D) :
    ∃ rows, TaxRows date trade (books.taxOf date trade) rows ∧ books.book date order trade =
      { ledger := ⟨(books.ledger.applyFill trade).positions,
          (books.ledger.applyFill trade).cash - books.taxOf date trade⟩
        orderObjects := books.orderObjects.insert order.clientOrderId order
        fillsByClientOrderId := books.fillsByClientOrderId.insert order.clientOrderId trade
        taxLots := books.lotsAfter date trade
        caRows := books.caRows ++ rows } :=
  onFill_spec { books with
    ledger := books.ledger.applyFill trade
    orderObjects := books.orderObjects.insert order.clientOrderId order
    fillsByClientOrderId :=
      books.fillsByClientOrderId.insert order.clientOrderId trade } date trade

end Books

namespace Books

theorem applyRow_cases (day : Panel D) (date : D) (held : Dict String Position) (books : Books D)
    (row : Bar D) :
    applyRow day date held books row = books ∨
      ∃ position close, held.get? row.symbol = some position ∧ 0 < position.shares ∧
        (applyRow day date held books row = books.writeOff date row position close ∨
          ∃ cashPerShare shareRatio, (day.cell row .caCashPerShare).orZero = some cashPerShare ∧
            (day.cell row .caShareRatio).orZero = some shareRatio ∧
            (day.cell row .delistingWriteoff).truthy = false ∧
            applyRow day date held books row =
              books.credit date row position cashPerShare shareRatio close) := by
  unfold applyRow
  cases hheld : (held.get? row.symbol).filter fun position ↦ 0 < position.shares with
  | none => exact .inl rfl
  | some position =>
    obtain ⟨hposition, hpositive⟩ := Option.filter_eq_some_iff.mp hheld
    simp only
    split
    · exact .inr ⟨position, _, hposition, by simpa using hpositive, .inl rfl⟩
    · rename_i hlisted
      split
      · rename_i cashPerShare shareRatio hcash hratio
        split
        · exact .inl rfl
        · exact .inr ⟨position, _, hposition, by simpa using hpositive, .inr
            ⟨cashPerShare, shareRatio, hcash, hratio, by simpa using hlisted, rfl⟩⟩
      · exact .inl rfl

structure Untouched (symbol : String) (books reached : Books D) : Prop where
  position : reached.ledger.positions.get? symbol = books.ledger.positions.get? symbol
  lots : (reached.taxLots.map fun lots ↦ lots.queue symbol) =
    books.taxLots.map fun lots ↦ lots.queue symbol

variable {books : Books D}

variable {symbol : String}

theorem Untouched.trans {between reached : Books D} (h : Untouched symbol books between)
    (h' : Untouched symbol between reached) :
    Untouched symbol books reached :=
  ⟨h'.position.trans h.position, h'.lots.trans h.lots⟩

theorem untouched_applyRow (day : Panel D) (date : D) (held : Dict String Position)
    (books : Books D) {row : Bar D} (h : symbol ≠ row.symbol) :
    Untouched symbol books (applyRow day date held books row) := by
  obtain heq | ⟨position, close, -, -, heq | ⟨cashPerShare, shareRatio, -, -, -, heq⟩⟩ :=
    applyRow_cases day date held books row
  · rw [heq]
    exact ⟨rfl, rfl⟩
  · rw [heq]
    refine ⟨(Dict.get?_erase ..).trans (if_neg h), ?_⟩
    rw [writeOff, Option.map_map]
    congr 1
    funext lots
    exact (lots.queue_writeOff row.symbol symbol).trans (if_neg h)
  · rw [heq]
    refine ⟨Dict.get?_insert_of_ne _ h _, ?_⟩
    rw [credit, Option.map_map]
    congr 1
    funext lots
    calc
      _ = (lots.dividend row.symbol cashPerShare).queue symbol :=
        ((lots.dividend row.symbol cashPerShare).queue_bonus row.symbol symbol shareRatio).trans
          (if_neg fun hboth ↦ h hboth.1)
      _ = lots.queue symbol := (lots.queue_dividend row.symbol symbol cashPerShare).trans (if_neg h)

variable {P : Books D → Prop} {day : Panel D} {date : D}

section

variable (hnodup : day.symbols.Nodup) (h : P books)
  (hwriteOff : ∀ reached row position close, row ∈ day.rows → books.ledger.positions.get? row.symbol
    = some position → Untouched row.symbol books reached → 0 < position.shares → P reached → P
    (reached.writeOff date row position close))
  (hcredit : ∀ reached row position cashPerShare shareRatio close, row ∈ day.rows →
    books.ledger.positions.get? row.symbol = some position → Untouched row.symbol books reached → 0
    < position.shares → (day.cell row .caCashPerShare).orZero = some cashPerShare → (day.cell row
    .caShareRatio).orZero = some shareRatio → (day.cell row .delistingWriteoff).truthy = false → P
    reached → P (reached.credit date row position cashPerShare shareRatio close))
include hnodup h hwriteOff hcredit

/-- The invariant rule of the corporate actions: each row meets the position of before the loop. -/
theorem of_applyRow :
    P (Run.run (applyRow day date books.ledger.positions) books day.rows) ∧
      Run.Always (applyRow day date books.ledger.positions)
        (fun reached row ↦ P reached ∧ Untouched row.symbol books reached) books day.rows := by
  have hfold : ∀ rows reached, (rows.map Bar.symbol).Nodup → rows ⊆ day.rows →
      (∀ row ∈ rows, Untouched row.symbol books reached) →
      P reached → P (Run.run (applyRow day date books.ledger.positions) reached rows) ∧
        Run.Always (applyRow day date books.ledger.positions)
          (fun reached row ↦ P reached ∧ Untouched row.symbol books reached) reached rows := by
    intro rows
    induction rows with
    | nil => exact fun reached _ _ _ hreached ↦ ⟨hreached, trivial⟩
    | cons row rows ih =>
      intro reached hrows hsubset hsame hreached
      rw [List.map_cons, List.nodup_cons] at hrows
      have hrow := hsubset List.mem_cons_self
      have huntouched := hsame row List.mem_cons_self
      have hnext : P (applyRow day date books.ledger.positions reached row) := by
        obtain heq | ⟨position, close, hheld, hpositive, heq |
            ⟨cashPerShare, shareRatio, hcash, hratio, hlisted, heq⟩⟩ :=
          applyRow_cases day date books.ledger.positions reached row
        · rw [heq]
          exact hreached
        · rw [heq]
          exact hwriteOff _ _ _ _ hrow hheld huntouched hpositive hreached
        · rw [heq]
          exact hcredit _ _ _ _ _ _ hrow hheld huntouched hpositive hcash hratio hlisted hreached
      have hlater : ∀ other ∈ rows, Untouched other.symbol books
          (applyRow day date books.ledger.positions reached row) := by
        intro other hother
        apply (hsame other (List.mem_cons_of_mem _ hother)).trans
        apply untouched_applyRow
        intro heq
        exact hrows.1 (List.mem_map.mpr ⟨other, hother, heq⟩)
      obtain ⟨hlast, halways⟩ := ih _ hrows.2
        (fun other hother ↦ hsubset (List.mem_cons_of_mem _ hother)) hlater hnext
      exact ⟨hlast, ⟨hreached, huntouched⟩, halways⟩
  exact hfold day.rows books hnodup (fun row hrow ↦ hrow) (fun row _ ↦ ⟨rfl, rfl⟩) h

theorem applyCorporateActions_of_step :
    P (books.applyCorporateActions day date) := by
  unfold applyCorporateActions
  split
  · exact (of_applyRow hnodup h hwriteOff hcredit).1
  · exact h

end

end Books

end QuantAgent.Simulator
