import QuantAgent.Domain.AccountIdentity
import QuantAgent.Domain.SealedChain

/-!
# One chain, two folds

The order book and the account that are rebuilt from one chain.  The book knows an execution again
within one order and counts it for the side and the symbol of the order; the account knows it again
anywhere on the chain and counts it for the side and the symbol of the fill.  The two agree as long
as this makes no difference.
-/

namespace QuantAgent.Domain

open Library

/-- Whether a side adds shares or takes them. -/
def Side.sign : Side → ℚ
  | .buy => 1
  | .sell => -1

namespace OrderBook

def signedFilled (symbol : String) (_ : String) (order : Order ℚ) : ℚ :=
  if order.symbol = symbol then order.side.sign * order.filledQuantity else 0

def position (book : OrderBook ℚ) (symbol : String) : ℚ := book.orders.total (signedFilled symbol)

def orderCash (_ : String) (order : Order ℚ) : ℚ := (order.fills.map Fill.cashDelta).sum

def orderFees (_ : String) (order : Order ℚ) : ℚ := (order.fills.map Fill.fees).sum

def cashDelta (book : OrderBook ℚ) : ℚ := book.orders.total orderCash

def totalFees (book : OrderBook ℚ) : ℚ := book.orders.total orderFees

end OrderBook

structure Agrees (initialCash : ℚ) (book : OrderBook ℚ) (account : AccountState) : Prop where
  position : ∀ symbol, account.position symbol = book.position symbol
  cash : account.cash = initialCash + book.cashDelta
  fees : account.totalFees = book.totalFees

/-! ## What one fill does to an account -/

namespace AccountState

def AllPositive (state : AccountState) : Prop :=
  ∀ symbol, ∀ lot ∈ state.lotsOf symbol, 0 < lot.quantity

/-- The change of a position by a fill: a sale of less than nothing moves no share. -/
def shareDelta (fill : Fill ℚ) (symbol : String) : ℚ :=
  if fill.symbol = symbol then
    match fill.side with
    | .buy => fill.quantity
    | .sell => -max fill.quantity 0
  else 0

variable {state after : AccountState}

theorem allPositive_of_check (h : state.check = .ok ()) :
    state.AllPositive := by
  intro symbol lot hlot
  unfold lotsOf at hlot
  cases hget : state.lots.get? symbol with
  | none =>
    rw [hget] at hlot
    cases hlot
  | some lots =>
    rw [hget] at hlot
    exact positive_of_check h hget lot hlot

/-- An account whose lots all hold something passes its check. -/
theorem check_of_allPositive (h : state.AllPositive) :
    state.check = .ok () := by
  unfold check
  simp only
  have hnone : (state.lots.entries.flatMap fun entry ↦ entry.2.map fun lot ↦ (entry.1, lot)).find?
      (fun entry ↦ entry.2.quantity ≤ 0) = none := by
    rw [List.find?_eq_none]
    intro entry hentry
    obtain ⟨held, hheld, hlot⟩ := List.mem_flatMap.mp hentry
    obtain ⟨lot, hmem, rfl⟩ := List.mem_map.mp hlot
    have hget := Dict.get?_of_mem_entries (d := state.lots) hheld
    have hpositive := h held.1 lot (by rwa [lotsOf, hget])
    simpa using hpositive
  rw [hnone]

variable {symbol date : String} {lots : List PositionLot}

theorem lotsOf_insert (state after : AccountState) (h : after.lots = state.lots.insert symbol lots)
    (other : String) :
    after.lotsOf other = if other = symbol then lots else state.lotsOf other := by
  unfold lotsOf
  rw [h, Dict.get?_insert]
  split <;> rfl

theorem lotsOf_erase (state after : AccountState) (h : after.lots = state.lots.erase symbol)
    (other : String) :
    after.lotsOf other = if other = symbol then [] else state.lotsOf other := by
  unfold lotsOf
  rw [h, Dict.get?_erase]
  split <;> rfl

theorem position_of_lots
    (h : ∀ other, after.lotsOf other = if other = symbol then lots else state.lotsOf other)
    (other : String) :
    after.position other = if other = symbol then totalQuantity lots else state.position other := by
  unfold position
  rw [h]
  split <;> rfl

theorem totalQuantity_consume (hpositive : ∀ lot ∈ lots, 0 < lot.quantity) {quantity : ℚ}
    (henough : quantity ≤ sellableQuantity lots date) :
    totalQuantity (PositionLot.parcels.consume (PositionLot.sellableOn date) quantity lots) =
      totalQuantity lots - max quantity 0 := by
  rcases le_total quantity 0 with hnone | hsome
  · rw [Parcels.consume_of_nonpos hnone, max_eq_right hnone, sub_zero]
  · rw [max_eq_left hsome]
    exact Parcels.total_consume (fun _ _ ↦ rfl) hpositive hsome henough

variable [Hashing ℚ]

/-- Everything a booked fill does to positions, cash and fees. -/
theorem book_ok (hpositive : state.AllPositive) {fill : Fill ℚ}
    (h : state.book fill date = .ok after) :
    after.AllPositive ∧
      (∀ symbol, after.position symbol = state.position symbol + shareDelta fill symbol) ∧
      after.cash = state.cash + fill.cashDelta ∧
      after.totalFees = state.totalFees + fill.fees ∧
      (fill.side = .buy → 0 < fill.quantity) := by
  unfold book applyFill at h
  cases hside : fill.side with
  | buy =>
    simp only [hside, bind, Except.bind] at h
    split at h
    · cases h
    · rename_i hcheck
      cases h
      have hafter := allPositive_of_check hcheck
      have hlots := lotsOf_insert state (state.applyBuy fill date) rfl
      refine ⟨hafter, fun symbol ↦ ?_, rfl, rfl, fun _ ↦ ?_⟩
      · rw [position_of_lots hlots, shareDelta, hside]
        by_cases hsame : symbol = fill.symbol
        · rw [if_pos hsame, if_pos hsame.symm, hsame, totalQuantity, Parcels.total_append]
          simp [position, totalQuantity, PositionLot.parcels, PositionLot.fromFill]
        · rw [if_neg hsame, if_neg (Ne.symm hsame), add_zero]
      · have hnew : PositionLot.fromFill fill date ∈ (state.applyBuy fill date).lotsOf fill.symbol := by
          rw [hlots, if_pos rfl]
          simp
        exact hafter fill.symbol _ hnew
  | sell =>
    simp only [hside, applySell, bind, Except.bind] at h
    split at h
    · cases h
    · rename_i sold hsold
      split at hsold
      · cases hsold
      · rename_i henough
        cases hsold
        split at h
        · cases h
        · rename_i hcheck
          cases h
          have hkept := totalQuantity_consume (hpositive fill.symbol) (not_lt.mp henough)
          refine ⟨allPositive_of_check hcheck, fun symbol ↦ ?_, rfl, rfl, (by rintro ⟨⟩)⟩
          have hlots : ∀ other, lotsOf { state with
              lots := if (PositionLot.parcels.consume (PositionLot.sellableOn date)
                  fill.quantity (state.lotsOf fill.symbol)).isEmpty = true then
                  state.lots.erase fill.symbol
                else state.lots.insert fill.symbol (PositionLot.parcels.consume
                  (PositionLot.sellableOn date) fill.quantity (state.lotsOf fill.symbol)) } other =
              if other = fill.symbol then PositionLot.parcels.consume
                (PositionLot.sellableOn date) fill.quantity (state.lotsOf fill.symbol)
              else state.lotsOf other := by
            intro other
            by_cases hempty : (PositionLot.parcels.consume (PositionLot.sellableOn date)
                fill.quantity (state.lotsOf fill.symbol)).isEmpty = true
            · rw [lotsOf_erase state _ (if_pos hempty), List.isEmpty_iff.mp hempty]
            · exact lotsOf_insert state _ (if_neg hempty) other
          have hposition := position_of_lots hlots symbol
          rw [shareDelta, hside]
          refine hposition.trans ?_
          by_cases hsame : symbol = fill.symbol
          · rw [if_pos hsame, if_pos hsame.symm, hsame, hkept, position]
            ring
          · rw [if_neg hsame, if_neg (Ne.symm hsame), add_zero]

end AccountState

/-! ## What one fill does to a book -/

namespace OrderBook

variable {quantity : String → Order ℚ → ℚ} {orders : Dict String (Order ℚ)}

variable {orderId : String}

/-- Replacing an order moves each total by what the order's contribution changed. -/
theorem total_update {order : Order ℚ} (hget : orders.get? orderId = some order)
    (updated : Order ℚ) :
    (orders.insert orderId updated).total quantity =
      orders.total quantity + (quantity orderId updated - quantity orderId order) := by
  have hinsert := Dict.total_insert quantity orders orderId updated
  rw [Dict.share_of_get? hget] at hinsert
  linarith

theorem total_open (hget : orders.get? orderId = none) (order : Order ℚ) :
    (orders.insert orderId order).total quantity =
      orders.total quantity + quantity orderId order := by
  have hinsert := Dict.total_insert quantity orders orderId order
  rw [Dict.share_of_none hget] at hinsert
  linarith

theorem signedFilled_afterFill (symbol orderId : String) (order : Order ℚ) (fill : Fill ℚ) :
    signedFilled symbol orderId (order.afterFill fill) - signedFilled symbol orderId order =
      if order.symbol = symbol then order.side.sign * fill.quantity else 0 := by
  unfold signedFilled Order.afterFill
  split
  · simp only [rat_add]
    ring
  · simp

section

variable (orderId : String) (order : Order ℚ) (fill : Fill ℚ)

theorem orderCash_afterFill :
    orderCash orderId (order.afterFill fill) - orderCash orderId order = fill.cashDelta := by
  simp [orderCash, Order.afterFill]

theorem orderFees_afterFill :
    orderFees orderId (order.afterFill fill) - orderFees orderId order = fill.fees := by
  simp [orderFees, Order.afterFill]

end

end OrderBook

/-! ## One record -/

structure Rebuild where
  book : OrderBook ℚ
  replay : AccountReplay

namespace Rebuild

open CanonicalLedger (replayRecord replayRecords AccountReplayError)

variable [Hashing ℚ]

def step (now : String) (dates : Dict String String) (state : Rebuild) (record : LedgerRecord ℚ) :
    Except AccountReplayError Rebuild :=
  match replayRecord now state.book record with
  | .error error => .error (.book error)
  | .ok book =>
    match record.event with
    | none => .ok { state with book }
    | some event =>
      match state.replay.step dates event with
      | .error violation => .error (.account violation)
      | .ok replay => .ok ⟨book, replay⟩

def start (initialCash : ℚ) : Rebuild := ⟨.empty, .start initialCash⟩

variable {book after : OrderBook ℚ}

variable {now : String}

/-- Two folds that both return are one fold that returns. -/
theorem foldlM_step {dates : Dict String String} {records : List (LedgerRecord ℚ)} {state : Rebuild}
    {replay : AccountReplay} (hbook : replayRecords now state.book records = .ok book)
    (hreplay : (records.filterMap LedgerRecord.event).foldlM (AccountReplay.step dates)
      state.replay = .ok replay) :
    records.foldlM (step now dates) state = .ok ⟨book, replay⟩ := by
  induction records generalizing state with
  | nil =>
    cases hbook
    cases hreplay
    rfl
  | cons record records ih =>
    obtain ⟨between, hfirst, hrest⟩ := Fold.cons_iff.mp hbook
    rw [Fold.cons_iff]
    cases hevent : record.event with
    | none =>
      rw [List.filterMap_cons, hevent] at hreplay
      refine ⟨{ state with book := between }, ?_, ih hrest hreplay⟩
      simp only [step, hfirst, hevent]
    | some event =>
      rw [List.filterMap_cons, hevent] at hreplay
      obtain ⟨stepped, hstepped, hlater⟩ := Fold.cons_iff.mp hreplay
      refine ⟨⟨between, stepped⟩, ?_, ih hrest hlater⟩
      simp only [step, hfirst, hevent, hstepped]

/-- What every reached state satisfies: positive lots, and every execution of the book applied. -/
structure Sound (state : Rebuild) : Prop where
  positive : state.replay.account.AllPositive
  applied : ∀ orderId order, state.book.orders.get? orderId = some order → ∀ fill ∈ order.fills,
    state.replay.applied.get? fill.executionId ≠ none

/-- Where book and account may part: an execution that is new to a working order is booked for the
order's side and symbol, and counted by the account for its own, or not at all. -/
def Attributed (state : Rebuild) (record : LedgerRecord ℚ) : Prop :=
  ∀ event fill order, record.event = some event → event.eventType.isExecution = true →
    event.fill = some fill → state.book.orders.get? event.orderId = some order →
    order.findFill fill.executionId = none →
    if state.replay.applied.get? fill.executionId = none then
      fill.quantity = 0 ∨
        (0 < fill.quantity ∧ fill.symbol = order.symbol ∧ fill.side = order.side)
    else fill.quantity = 0 ∧ fill.fees = 0

variable {order : Order ℚ}

omit [Hashing ℚ] in
/-- The shares an account counts are those the book counts. -/
theorem shareDelta_iff {fill : Fill ℚ} (hbuy : fill.side = .buy → 0 < fill.quantity) :
    (∀ symbol, AccountState.shareDelta fill symbol =
      if order.symbol = symbol then order.side.sign * fill.quantity else 0) ↔
      fill.quantity = 0 ∨
        (0 < fill.quantity ∧ fill.symbol = order.symbol ∧ fill.side = order.side) := by
  constructor
  · intro h
    by_cases hzero : fill.quantity = 0
    · exact .inl hzero
    right
    have hown := h order.symbol
    rw [if_pos rfl] at hown
    unfold AccountState.shareDelta at hown
    by_cases hsymbol : fill.symbol = order.symbol
    · rw [if_pos hsymbol] at hown
      cases hside : fill.side <;> cases horder : order.side <;>
        simp only [hside, horder, Side.sign] at hown hbuy ⊢
      · exact ⟨hbuy trivial, hsymbol, trivial⟩
      · exact absurd (by linarith) hzero
      · rcases le_total fill.quantity 0 with hnegative | hpositive
        · rw [max_eq_right hnegative] at hown
          exact absurd (by linarith) hzero
        · rw [max_eq_left hpositive] at hown
          exact absurd (by linarith) hzero
      · have hmax : max fill.quantity 0 = fill.quantity := by linarith
        exact ⟨lt_of_le_of_ne (max_eq_left_iff.mp hmax) (Ne.symm hzero), hsymbol, trivial⟩
    · rw [if_neg hsymbol] at hown
      have hsign : order.side.sign ≠ 0 := by cases order.side <;> norm_num [Side.sign]
      exact absurd hown.symm (mul_ne_zero hsign hzero)
  · intro h symbol
    rcases h with hzero | ⟨hpositive, hsymbol, hside⟩
    · unfold AccountState.shareDelta
      cases fill.side <;> simp [hzero]
    · unfold AccountState.shareDelta
      rw [hsymbol]
      split
      · rw [hside]
        cases order.side <;> simp [Side.sign, hpositive.le]
      · rfl

omit [Hashing ℚ] in
/-- A book with the same positions, cash and fees agrees with the same accounts. -/
theorem agrees_congr {initialCash : ℚ} {account : AccountState}
    (h : ∀ quantity : String → Order ℚ → ℚ, quantity ∈ Set.range OrderBook.signedFilled ∪
      {OrderBook.orderCash, OrderBook.orderFees} → after.orders.total quantity = book.orders.total
      quantity) :
    Agrees initialCash after account ↔ Agrees initialCash book account := by
  have hposition : ∀ symbol, after.position symbol = book.position symbol :=
    fun symbol ↦ h _ (.inl ⟨symbol, rfl⟩)
  have hcash : after.cashDelta = book.cashDelta := h _ (.inr (.inl rfl))
  have hfees : after.totalFees = book.totalFees := h _ (.inr (.inr rfl))
  constructor
  · intro hagrees
    exact ⟨fun symbol ↦ by rw [hagrees.position, hposition], by rw [hagrees.cash, hcash],
      by rw [hagrees.fees, hfees]⟩
  · intro hagrees
    exact ⟨fun symbol ↦ by rw [hagrees.position, hposition], by rw [hagrees.cash, hcash],
      by rw [hagrees.fees, hfees]⟩

/-- An order of a book after a record that books no execution: one that was there, or one without
fills. -/
def Idle (book after : OrderBook ℚ) : Prop :=
  (∀ initialCash account, Agrees initialCash after account ↔ Agrees initialCash book account) ∧
    ∀ orderId order, after.orders.get? orderId = some order → order.fills = [] ∨
      ∃ before, book.orders.get? orderId = some before ∧ order.fills = before.fills

omit [Hashing ℚ] in
theorem idle_refl (book : OrderBook ℚ) : Idle book book :=
  ⟨fun _ _ ↦ Iff.rfl, fun _ order hget ↦ .inr ⟨order, hget, rfl⟩⟩

theorem idle_open (book : OrderBook ℚ) (intent : OrderIntent ℚ) (parentOrderId : Option String)
    (now : String) : Idle book (book.openOrder intent parentOrderId now).1 := by
  cases hget : book.orders.get? (Order.fromIntent intent parentOrderId).orderId with
  | some known =>
    rw [OrderBook.openOrder_known now hget]
    exact idle_refl book
  | none =>
    have horders := OrderBook.orders_openOrder now hget
    refine ⟨fun initialCash account ↦ agrees_congr fun quantity hquantity ↦ ?_, ?_⟩
    · rw [horders, OrderBook.total_open hget, add_eq_left]
      rcases hquantity with ⟨symbol, rfl⟩ | rfl | rfl
      · simp [OrderBook.signedFilled, Order.fromIntent]
      · simp [OrderBook.orderCash, Order.fromIntent]
      · simp [OrderBook.orderFees, Order.fromIntent]
    · intro orderId order hafter
      rw [horders, Dict.get?_insert] at hafter
      split at hafter
      · left
        rw [← Option.some.inj hafter]
        rfl
      · exact .inr ⟨order, hafter, rfl⟩

omit [Hashing ℚ] in
/-- An event that is no execution leaves the fills alone. -/
theorem idle_event {orderId : String} (hget : book.orders.get? orderId = some order)
    {kind : OrderEventType} {reason : Option String}
    (hafter : after.orders = book.orders.insert orderId (order.afterEvent kind reason)) :
    Idle book after := by
  refine ⟨fun initialCash account ↦ agrees_congr fun quantity hquantity ↦ ?_, ?_⟩
  · rw [hafter, OrderBook.total_update hget, add_eq_left]
    rcases hquantity with ⟨symbol, rfl⟩ | rfl | rfl
    · exact sub_self _
    · exact sub_self _
    · exact sub_self _
  · intro other held hheld
    rw [hafter, Dict.get?_insert] at hheld
    split at hheld
    · rename_i hsame
      rw [hsame]
      refine .inr ⟨order, hget, ?_⟩
      rw [← Option.some.inj hheld]
      rfl
    · exact .inr ⟨held, hheld, rfl⟩

/-- Everything a record can do to a book: book a new execution, or none. -/
theorem replayRecord_cases {record : LedgerRecord ℚ}
    (h : replayRecord now book record = .ok after) :
    (∃ event fill order, record.event = some event ∧ event.eventType.isExecution = true ∧
      event.fill = some fill ∧ book.orders.get? event.orderId = some order ∧
      order.findFill fill.executionId = none ∧
      after.orders = book.orders.insert event.orderId (order.afterFill fill)) ∨
    (Idle book after ∧ ∀ event fill, record.event = some event →
      event.eventType.isExecution = true → event.fill = some fill →
        ∃ order, book.orders.get? event.orderId = some order ∧
          order.findFill fill.executionId ≠ none) := by
  unfold CanonicalLedger.replayRecord at h
  cases hevent : record.event with
  | none =>
    rw [hevent] at h
    cases h
    refine .inr ⟨idle_refl book, fun event fill hsome ↦ ?_⟩
    cases hsome
  | some event =>
    rw [hevent] at h
    simp only at h
    by_cases hcreated : event.eventType = .created
    · right
      rw [if_pos hcreated] at h
      refine ⟨?_, fun other fill hother hexecution _ ↦ ?_⟩
      · split at h
        · cases h
        · split at h
          · cases h
          · cases h
            exact idle_open book _ _ now
      · rw [← Option.some.inj hother, hcreated] at hexecution
        cases hexecution
    · rw [if_neg hcreated] at h
      split at h
      · cases h
      · rename_i applied updated happly
        cases h
        obtain ⟨order, hget, ⟨habsorbed, rfl, -⟩ | ⟨hadvance, horders, -⟩⟩ :=
          OrderBook.apply_ok happly
        · refine .inr ⟨idle_refl _, fun other fill hother hexecution hfill ↦ ?_⟩
          cases hother
          refine ⟨order, hget, fun hnone ↦ ?_⟩
          unfold Order.apply at habsorbed
          rw [if_pos hexecution, hfill] at habsorbed
          simp only [Order.applyFill, hnone] at habsorbed
          split at habsorbed
          · cases habsorbed
          · split at habsorbed
            · cases habsorbed
            · split at habsorbed <;> cases habsorbed
        · rcases Order.apply_some hadvance with
            ⟨fill, hexecution, hfill, hnew, -, -, -, rfl⟩ | ⟨hexecution, -, rfl⟩
          · exact .inl ⟨event, fill, order, rfl, hexecution, hfill, hget, hnew, horders⟩
          · refine .inr ⟨idle_event hget horders, fun other fill hother hexecution' _ ↦ ?_⟩
            rw [← Option.some.inj hother, hexecution] at hexecution'
            cases hexecution'

end Rebuild

namespace AccountReplay

variable [Hashing ℚ]

/-- Everything an event can do to an account: book a new execution, or none. -/
theorem step_cases {dates : Dict String String} {replay next : AccountReplay}
    {event : OrderEvent ℚ} (h : replay.step dates event = .ok next) :
    (∃ fill date account, event.eventType.isExecution = true ∧ event.fill = some fill ∧
      replay.applied.get? fill.executionId = none ∧ replay.account.book fill date = .ok account ∧
      next.account = account ∧ next.applied = replay.applied.insert fill.executionId fill) ∨
    (next.account = replay.account ∧ next.applied = replay.applied ∧
      ∀ fill, event.eventType.isExecution = true → event.fill = some fill →
        replay.applied.get? fill.executionId ≠ none) := by
  unfold AccountReplay.step at h
  by_cases hexecution : event.eventType.isExecution = true
  · rw [if_pos hexecution] at h
    split at h
    · cases h
    · rename_i fill hfill
      split at h
      · rename_i seen hseen
        split at h
        · cases h
          refine .inr ⟨rfl, rfl, fun other _ hother ↦ ?_⟩
          rw [← Option.some.inj (hfill.symm.trans hother), hseen]
          exact Option.some_ne_none seen
        · cases h
      · rename_i hnew
        cases hbook : replay.account.book fill (settlementDate dates event fill) with
        | error violation =>
          rw [hbook] at h
          cases h
        | ok account =>
          rw [hbook] at h
          cases h
          exact .inl ⟨fill, _, account, hexecution, hfill, hnew, hbook, rfl, rfl⟩
  · rw [if_neg hexecution] at h
    cases h
    exact .inr ⟨rfl, rfl, fun _ hexecution' _ ↦ absurd hexecution' hexecution⟩

end AccountReplay

namespace Rebuild

open CanonicalLedger (replayRecord replayRecords AccountReplayError)

variable [Hashing ℚ] {now : String} {dates : Dict String String} {initialCash : ℚ}

variable {state next : Rebuild} {record : LedgerRecord ℚ}

/-- A record that is folded is folded into the book, and its event into the account. -/
theorem step_ok (h : state.step now dates record = .ok next) :
    replayRecord now state.book record = .ok next.book ∧
      ((record.event = none ∧ next.replay = state.replay) ∨
        ∃ event, record.event = some event ∧ state.replay.step dates event = .ok next.replay) := by
  unfold step at h
  cases hbook : replayRecord now state.book record with
  | error error =>
    rw [hbook] at h
    cases h
  | ok book =>
    rw [hbook] at h
    cases hevent : record.event with
    | none =>
      rw [hevent] at h
      cases h
      exact ⟨rfl, .inl ⟨rfl, rfl⟩⟩
    | some event =>
      rw [hevent] at h
      simp only at h
      split at h
      · cases h
      rename_i replay hreplay
      cases h
      exact ⟨rfl, .inr ⟨event, rfl, hreplay⟩⟩

/-- The account after a record: a new execution was booked, or none. -/
theorem account_cases (h : state.step now dates record = .ok next) :
    (∃ event fill date account, record.event = some event ∧ event.eventType.isExecution = true ∧
      event.fill = some fill ∧ state.replay.applied.get? fill.executionId = none ∧
      state.replay.account.book fill date = .ok account ∧ next.replay.account = account ∧
      next.replay.applied = state.replay.applied.insert fill.executionId fill) ∨
    (next.replay.account = state.replay.account ∧ next.replay.applied = state.replay.applied ∧
      ∀ event fill, record.event = some event → event.eventType.isExecution = true →
        event.fill = some fill → state.replay.applied.get? fill.executionId ≠ none) := by
  obtain ⟨-, ⟨hnone, hsame⟩ | ⟨event, hevent, hreplay⟩⟩ := step_ok h
  · refine .inr ⟨by rw [hsame], by rw [hsame], fun event fill hevent ↦ ?_⟩
    rw [hnone] at hevent
    cases hevent
  · rcases AccountReplay.step_cases hreplay with
      ⟨fill, date, account, hexecution, hfill, hnew, hbook, haccount, happlied⟩ |
      ⟨haccount, happlied, hseen⟩
    · exact .inl ⟨event, fill, date, account, hevent, hexecution, hfill, hnew, hbook, haccount,
        happlied⟩
    · refine .inr ⟨haccount, happlied, fun other fill hother ↦ ?_⟩
      rw [← Option.some.inj (hevent.symm.trans hother)]
      exact hseen fill

omit [Hashing ℚ] in
theorem sound_start (initialCash : ℚ) : Sound (start initialCash) where
  positive symbol lot hlot := by cases hlot
  applied orderId order hget := by cases hget

/-- Every execution is applied once its record is folded. -/
theorem applied_of_step (h : state.step now dates record = .ok next) :
    (∀ executionId, state.replay.applied.get? executionId ≠ none →
      next.replay.applied.get? executionId ≠ none) ∧
    ∀ event fill, record.event = some event → event.eventType.isExecution = true →
      event.fill = some fill → next.replay.applied.get? fill.executionId ≠ none := by
  rcases account_cases h with
    ⟨event, fill, date, account, hevent, -, hfill, -, -, -, happlied⟩ | ⟨-, happlied, hseen⟩
  · constructor
    · intro executionId hknown
      rw [happlied, Dict.get?_insert]
      split
      · exact Option.some_ne_none _
      · exact hknown
    · intro other fill' hother _ hfill'
      cases hevent.symm.trans hother
      cases hfill.symm.trans hfill'
      rw [happlied, Dict.get?_insert_self]
      exact Option.some_ne_none _
  · rw [happlied]
    exact ⟨fun _ hknown ↦ hknown, hseen⟩

theorem Sound.step (h : Sound state) (hstep : state.step now dates record = .ok next) :
    Sound next where
  positive := by
    rcases account_cases hstep with
      ⟨event, fill, date, account, -, -, -, -, hbook, haccount, -⟩ | ⟨haccount, -, -⟩
    · rw [haccount]
      exact (AccountState.book_ok h.positive hbook).1
    · rw [haccount]
      exact h.positive
  applied := by
    obtain ⟨hkept, hnew⟩ := applied_of_step hstep
    intro orderId order hget fill hfill
    rcases replayRecord_cases (step_ok hstep).1 with
      ⟨event, booked, before, hevent, hexecution, hbooked, hbefore, -, horders⟩ | ⟨⟨-, hfills⟩, -⟩
    · rw [horders, Dict.get?_insert] at hget
      split at hget
      · rw [← Option.some.inj hget] at hfill
        rcases List.mem_append.mp hfill with hold | hlast
        · exact hkept _ (h.applied _ _ hbefore fill hold)
        · rw [List.mem_singleton.mp hlast]
          exact hnew event booked hevent hexecution hbooked
      · exact hkept _ (h.applied _ _ hget fill hfill)
    · rcases hfills orderId order hget with hempty | ⟨before, hbefore, hsame⟩
      · rw [hempty] at hfill
        cases hfill
      · rw [hsame] at hfill
        exact hkept _ (h.applied _ _ hbefore fill hfill)

section

variable (h : Sound state) (hagrees : Agrees initialCash state.book state.replay.account)
include h hagrees

/-- A record keeps book and account in agreement exactly when it attributes its execution alike. -/
theorem agrees_step_iff (hstep : state.step now dates record = .ok next) :
    Agrees initialCash next.book next.replay.account ↔ Attributed state record := by
  have haccount := account_cases hstep
  rcases replayRecord_cases (step_ok hstep).1 with
    ⟨event, fill, order, hevent, hexecution, hfill, hget, hnew, horders⟩ | ⟨⟨hidle, -⟩, hknown⟩
  · have hposition : ∀ symbol, next.book.position symbol = state.book.position symbol +
        if order.symbol = symbol then order.side.sign * fill.quantity else 0 := by
      intro symbol
      rw [OrderBook.position, horders, OrderBook.total_update hget,
        OrderBook.signedFilled_afterFill]
      rfl
    have hcash : next.book.cashDelta = state.book.cashDelta + fill.cashDelta := by
      rw [OrderBook.cashDelta, horders, OrderBook.total_update hget, OrderBook.orderCash_afterFill]
      rfl
    have hfees : next.book.totalFees = state.book.totalFees + fill.fees := by
      rw [OrderBook.totalFees, horders, OrderBook.total_update hget, OrderBook.orderFees_afterFill]
      rfl
    have hattributed : Attributed state record ↔
        if state.replay.applied.get? fill.executionId = none then
          fill.quantity = 0 ∨
            (0 < fill.quantity ∧ fill.symbol = order.symbol ∧ fill.side = order.side)
        else fill.quantity = 0 ∧ fill.fees = 0 := by
      constructor
      · intro hall
        exact hall event fill order hevent hexecution hfill hget hnew
      · intro hone other fill' order' hother _ hfill' hget' _
        cases hevent.symm.trans hother
        cases hfill.symm.trans hfill'
        cases hget.symm.trans hget'
        exact hone
    rw [hattributed]
    rcases haccount with
      ⟨other, fill', date, account, hother, -, hfill', hunseen, hbook, haccount, -⟩ |
      ⟨haccount, -, hseen⟩
    · cases hevent.symm.trans hother
      cases hfill.symm.trans hfill'
      obtain ⟨-, hshares, hmoney, hcosts, hbuy⟩ := AccountState.book_ok h.positive hbook
      rw [if_pos hunseen, ← shareDelta_iff hbuy, haccount]
      constructor
      · intro hafter symbol
        have := hafter.position symbol
        rw [hshares, hposition, hagrees.position] at this
        linarith
      · intro hsame
        refine ⟨fun symbol ↦ ?_, ?_, ?_⟩
        · rw [hshares, hposition, hagrees.position, hsame]
        · rw [hmoney, hcash, hagrees.cash]
          ring
        · rw [hcosts, hfees, hagrees.fees]
    · rw [if_neg (hseen event fill hevent hexecution hfill), haccount]
      have hsign : order.side.sign ≠ 0 := by cases order.side <;> norm_num [Side.sign]
      constructor
      · intro hafter
        have hshares := hafter.position order.symbol
        rw [hposition, hagrees.position, if_pos rfl] at hshares
        have hcosts := hafter.fees
        rw [hfees, hagrees.fees] at hcosts
        have hzero : order.side.sign * fill.quantity = 0 := by linarith
        exact ⟨(mul_eq_zero.mp hzero).resolve_left hsign, by linarith⟩
      · intro hnone
        obtain ⟨hquantity, hfree⟩ := hnone
        have hmoney : fill.cashDelta = 0 := by
          unfold Fill.cashDelta Fill.gross
          cases fill.side <;> simp [hquantity, hfree]
        refine ⟨fun symbol ↦ ?_, ?_, ?_⟩
        · rw [hposition, hquantity, hagrees.position]
          simp
        · rw [hcash, hmoney, hagrees.cash]
          ring
        · rw [hfees, hfree, hagrees.fees]
          ring
  · have hattributed : Attributed state record := by
      intro event fill order hevent hexecution hfill hget hnew
      obtain ⟨held, hheld, hpresent⟩ := hknown event fill hevent hexecution hfill
      rw [← Option.some.inj (hget.symm.trans hheld)] at hpresent
      exact absurd hnew hpresent
    refine iff_of_true ((hidle _ _).mpr ?_) hattributed
    rcases haccount with
      ⟨event, fill, date, account, hevent, hexecution, hfill, hunseen, -, -, -⟩ | ⟨haccount, -, -⟩
    · obtain ⟨order, hget, hpresent⟩ := hknown event fill hevent hexecution hfill
      obtain ⟨existing, hexisting⟩ := Option.ne_none_iff_exists'.mp hpresent
      have hmem := List.mem_of_find?_eq_some hexisting
      have hsame : existing.executionId = fill.executionId := by
        simpa using List.find?_some hexisting
      have happlied := h.applied _ _ hget existing hmem
      rw [hsame] at happlied
      exact absurd hunseen happlied
    · rw [haccount]
      exact hagrees

/-- In a fold that returns, book and account agree in every state exactly when every record
attributes its execution alike. -/
theorem agrees_iff {records : List (LedgerRecord ℚ)} {after : Rebuild}
    (hfold : records.foldlM (step now dates) state = .ok after) :
    (∀ reached, Fold.Reaches (step now dates) state records reached →
        Agrees initialCash reached.book reached.replay.account) ↔
      ∀ reached record, Fold.Meets (step now dates) state records reached record →
        Attributed reached record := by
  have hstep : ∀ reached record next,
      (Sound reached ∧ Agrees initialCash reached.book reached.replay.account) →
        reached.step now dates record = .ok next →
          ((Sound next ∧ Agrees initialCash next.book next.replay.account) ↔
            Attributed reached record) := by
    intro reached record next hreached hnext
    rw [← agrees_step_iff hreached.1 hreached.2 hnext]
    exact and_iff_right (hreached.1.step hnext)
  rw [← Fold.reaches_iff_meets (fun reached ↦ Sound reached ∧
    Agrees initialCash reached.book reached.replay.account) Attributed hstep ⟨h, hagrees⟩ hfold]
  constructor
  · intro hall reached hreaches
    exact ⟨Fold.of_reaches Sound (fun _ _ _ hsound hnext ↦ hsound.step hnext) h hreaches,
      hall reached hreaches⟩
  · intro hall reached hreaches
    exact (hall reached hreaches).2

end

end Rebuild

theorem schedule_nil (events : List (OrderEvent ℚ)) :
    schedule events [] = events.map ReplayInput.event := by
  have hfrom : ∀ index, scheduleFrom [] index events = events.map ReplayInput.event := by
    induction events with
    | nil =>
      intro index
      rfl
    | cons event events ih =>
      intro index
      rw [scheduleFrom, ih]
      rfl
  rw [schedule, hfrom]
  simp

/-- Replaying the account of a chain without corporate actions folds its order events. -/
theorem replayAccount_nil_ok_iff [Hashing ℚ] {events : List (OrderEvent ℚ)} {initialCash : ℚ}
    {dates : Dict String String} {account : AccountState} :
    replayAccount events initialCash dates [] = .ok account ↔
      ∃ replay, events.foldlM (AccountReplay.step dates) (AccountReplay.start initialCash) =
          .ok replay ∧
        account = { replay.account with duplicateExecutions := replay.duplicates } := by
  rw [replayAccount_ok_iff, schedule_nil, List.foldlM_map]
  rfl

namespace CanonicalLedger

variable [Hashing ℚ]

/-- Everything a replay without corporate actions returns. -/
theorem replay_ok {ledger : CanonicalLedger ℚ} {now : String} {initialCash : ℚ}
    {book : OrderBook ℚ} {account : AccountState}
    (h : ledger.replay now initialCash = .ok (book, account))
    (hactions : ledger.corporateActions = some []) :
    replayRecords now .empty ledger.records = .ok book ∧
      ∃ replay, ledger.events.foldlM (AccountReplay.step ledger.tradeDates)
          (AccountReplay.start initialCash) = .ok replay ∧
        account = { replay.account with duplicateExecutions := replay.duplicates } := by
  unfold replay at h
  cases hbook : ledger.replayBook now with
  | error error =>
    rw [hbook] at h
    cases h
  | ok replayed =>
    rw [hbook, hactions] at h
    simp only at h
    split at h
    · cases h
    rename_i settled haccount
    cases h
    refine ⟨?_, replayAccount_nil_ok_iff.mp haccount⟩
    unfold replayBook at hbook
    split at hbook
    · cases hbook
    · exact hbook

/-- The records of a chain, folded into book and account with the settlement dates of the chain. -/
def Passes (ledger : CanonicalLedger ℚ) (now : String) (initialCash : ℚ) (state : Rebuild) : Prop :=
  Fold.Reaches (Rebuild.step now ledger.tradeDates) (.start initialCash) ledger.records state

/-- Every execution is attributed alike where it is folded. -/
def AttributedThroughout (ledger : CanonicalLedger ℚ) (now : String) (initialCash : ℚ) : Prop :=
  ∀ state record, Fold.Meets (Rebuild.step now ledger.tradeDates) (.start initialCash)
    ledger.records state record → Rebuild.Attributed state record

/-- Book and account of an accepted chain without corporate actions agree after every record exactly
when every execution is attributed alike; and then those that the replay returns agree. -/
theorem agrees_iff_attributed {ledger : CanonicalLedger ℚ} {now : String} {initialCash : ℚ}
    {book : OrderBook ℚ} {account : AccountState}
    (hreplay : ledger.replay now initialCash = .ok (book, account))
    (hactions : ledger.corporateActions = some []) :
    ((∀ state, ledger.Passes now initialCash state →
        Agrees initialCash state.book state.replay.account) ↔
      ledger.AttributedThroughout now initialCash) ∧
    (ledger.AttributedThroughout now initialCash → Agrees initialCash book account) := by
  obtain ⟨hbook, replay, haccount, rfl⟩ := replay_ok hreplay hactions
  have hfold : ledger.records.foldlM (Rebuild.step now ledger.tradeDates) (.start initialCash) =
      .ok ⟨book, replay⟩ := Rebuild.foldlM_step hbook haccount
  have hstart : Agrees initialCash (Rebuild.start initialCash).book
      (Rebuild.start initialCash).replay.account := by
    refine ⟨fun symbol ↦ rfl, ?_, rfl⟩
    exact (add_zero initialCash).symm
  have hiff := Rebuild.agrees_iff (Rebuild.sound_start initialCash) hstart hfold
  refine ⟨hiff, fun hattributed ↦ ?_⟩
  have hlast := hiff.mpr hattributed _ (.last hfold)
  exact ⟨hlast.position, hlast.cash, hlast.fees⟩

end CanonicalLedger

/-! ## One execution identifier on two orders -/

def hundredShares (orderIntentId : String) : OrderIntent ℚ where
  orderIntentId
  symbol := "600000.SH"
  side := .buy
  quantity := 100
  tradeDate := "2024-01-02"
  limitPrice := none
  referencePrice := none
  lineage := .empty

/-- The fill of its order, always reported under one identifier. -/
def hundredFilled (order : Order ℚ) : Fill ℚ := { sampleFill with orderId := order.orderId }

section Sample

variable [Hashing ℚ]

def filledRecords (orderIntentId : String) : List (LedgerRecord ℚ) :=
  let intent := hundredShares orderIntentId
  openingRecords intent (some "2024-01-02") ++
    [fillRecord (openedOrder intent) (hundredFilled (openedOrder intent)) (some "2024-01-02")]

theorem openedOrder_ne : (openedOrder (hundredShares "oi_1")).orderId ≠
    (openedOrder (hundredShares "oi_2")).orderId := by
  intro h
  have hparts := Hashing.contentId_injective (N := ℚ) h
  rw [shown, shown] at hparts
  simp [shownMembers, hundredShares, OrderIntent.kept] at hparts

open CanonicalLedger (replayRecords)

variable {replay : AccountReplay}

theorem exists_filled (state : Rebuild) (orderIntentId : String) (dates : Dict String String)
    (hnew : state.book.orders.get? (openedOrder (hundredShares orderIntentId)).orderId = none)
    (hreplay : state.replay.step dates (orderEvent (openedOrder (hundredShares orderIntentId))
      .fill (some (hundredFilled (openedOrder (hundredShares orderIntentId))))) = .ok replay) :
    ∃ opened filled, (openingRecords (hundredShares orderIntentId) (some "2024-01-02")).foldlM
        (Rebuild.step "t0" dates) state = .ok ⟨opened, state.replay⟩ ∧
      opened.orders.get? (openedOrder (hundredShares orderIntentId)).orderId =
        some (acceptedOrder (hundredShares orderIntentId)) ∧
      Rebuild.step "t0" dates ⟨opened, state.replay⟩
        (fillRecord (openedOrder (hundredShares orderIntentId))
          (hundredFilled (openedOrder (hundredShares orderIntentId))) (some "2024-01-02")) =
        .ok ⟨filled, replay⟩ ∧
      replayRecords "t0" state.book (filledRecords orderIntentId) = .ok filled ∧
      ∀ other, other ≠ (openedOrder (hundredShares orderIntentId)).orderId →
        filled.orders.get? other = state.book.orders.get? other := by
  obtain ⟨opened, hopening, hget, hkeeps⟩ :=
    exists_replayRecords_opening "t0" (some "2024-01-02") hnew
  have haccepts : (acceptedOrder (hundredShares orderIntentId)).Accepts
      (hundredFilled (openedOrder (hundredShares orderIntentId))) := by
    refine acceptedOrder_accepts ?_
    have hwhole := truncate_natCast 100
    exact le_rfl
  obtain ⟨filled, hfill, -, hkeepsFill⟩ := replayRecord_fill "t0" (some "2024-01-02") hget haccepts
  refine ⟨opened, filled, Rebuild.foldlM_step hopening (foldlM_step_opening _ _ _), hget, ?_, ?_,
    fun other hne ↦ by rw [hkeepsFill other hne, hkeeps other hne]⟩
  · simp only [Rebuild.step, hfill]
    simp only [fillRecord, eventRecord, hreplay]
  · rw [filledRecords, CanonicalLedger.replayRecords_append]
    exact ⟨opened, hopening, by rw [CanonicalLedger.replayRecords_singleton, hfill]⟩

variable {dates : Dict String String}

theorem agrees_opening {intent : OrderIntent ℚ} {initialCash : ℚ} {state next : Rebuild}
    (h : state.Sound ∧ Agrees initialCash state.book state.replay.account)
    (hfold : (openingRecords intent (some "2024-01-02")).foldlM (Rebuild.step "t0" dates) state =
      .ok next) : next.Sound ∧ Agrees initialCash next.book next.replay.account := by
  refine Fold.invariant (fun state ↦ state.Sound ∧
    Agrees initialCash state.book state.replay.account) ?_ h hfold
  intro before record after hmeets hbefore hstep
  refine ⟨hbefore.1.step hstep, (Rebuild.agrees_step_iff hbefore.1 hbefore.2 hstep).mpr ?_⟩
  intro event fill order hevent hexecution
  have hmem := hmeets.mem
  simp only [openingRecords, List.mem_cons, List.not_mem_nil, or_false] at hmem
  rcases hmem with rfl | rfl | rfl | rfl <;>
    · rw [← Option.some.inj hevent] at hexecution
      cases hexecution

def boughtOnce (dates : Dict String String) (order : Order ℚ) : AccountReplay where
  account := (AccountState.opening 10000).applyBuy (hundredFilled order)
    (settlementDate dates (orderEvent order .fill (some (hundredFilled order))) (hundredFilled order))
  applied := Dict.empty.insert "ex-1" (hundredFilled order)
  duplicates := []

theorem step_boughtOnce (dates : Dict String String) (order : Order ℚ) :
    (AccountReplay.start 10000).step dates (orderEvent order .fill (some (hundredFilled order))) =
      .ok (boughtOnce dates order) := by
  rfl

theorem step_boughtTwice (dates : Dict String String) (first second : Order ℚ) :
    (boughtOnce dates first).step dates (orderEvent second .fill (some (hundredFilled second))) =
      .ok { boughtOnce dates first with duplicates := ["ex-1"] } := by
  have hseen : (boughtOnce dates first).applied.get? "ex-1" = some (hundredFilled first) :=
    Dict.get?_insert_self _ _ _
  have hsame : sameExecution (hundredFilled first) (hundredFilled second) = true := by
    simp [sameExecution, hundredFilled, Arithmetic.near, Fill.fees, Arithmetic.abs,
      Arithmetic.tolerance]
  have hid : (hundredFilled second).executionId = "ex-1" := rfl
  simp only [AccountReplay.step, orderEvent, OrderEventType.isExecution, if_true, hid, hseen, hsame]
  rfl

variable {orderIntentId : String}

theorem foldlM_filledRecords {after : AccountReplay}
    (h : replay.step dates (orderEvent (openedOrder (hundredShares orderIntentId)) .fill (some
      (hundredFilled (openedOrder (hundredShares orderIntentId))))) = .ok after) :
    ((filledRecords orderIntentId).filterMap LedgerRecord.event).foldlM (AccountReplay.step dates)
      replay = .ok after := by
  rw [filledRecords, List.filterMap_append, Fold.append_iff]
  refine ⟨replay, foldlM_step_opening replay _ _, ?_⟩
  simp only [fillRecord, eventRecord, List.filterMap_cons, List.filterMap_nil]
  rw [Fold.singleton, h]

theorem corporateAction_filledRecords {record : LedgerRecord ℚ}
    (h : record ∈ filledRecords orderIntentId) : orNull record.corporateAction = .null := by
  rw [filledRecords, List.mem_append] at h
  rcases h with h | h
  · simp only [openingRecords, List.mem_cons, List.not_mem_nil, or_false] at h
    rcases h with rfl | rfl | rfl | rfl <;> rfl
  · rw [List.mem_singleton.mp h]
    rfl

def oneOrder : CanonicalLedger ℚ := .ofRecords (filledRecords "oi_1")

/-- The chain of two orders whose fills carry one execution identifier. -/
def twoOrders : CanonicalLedger ℚ := .ofRecords (filledRecords "oi_1" ++ filledRecords "oi_2")

def oneOrderDates : Dict String String :=
  (filledRecords "oi_1").foldl CanonicalLedger.datesStep .empty

theorem exists_book_oneOrder : ∃ book, oneOrder.replay "t0" 10000 = .ok (book,
    { (boughtOnce oneOrderDates (openedOrder (hundredShares "oi_1"))).account with
      duplicateExecutions := [] }) := by
  obtain ⟨-, filled, -, -, -, hbook, -⟩ := exists_filled (.start 10000) "oi_1" oneOrderDates rfl
    (step_boughtOnce oneOrderDates _)
  have hactions : ∀ record ∈ filledRecords "oi_1", orNull record.corporateAction = .null :=
    fun record ↦ corporateAction_filledRecords
  exact ⟨filled, CanonicalLedger.replay_ofRecords hactions hbook
    (replayAccount_nil_ok_iff.mpr ⟨_, foldlM_filledRecords (step_boughtOnce oneOrderDates _), rfl⟩)⟩

theorem exists_replay_oneOrder : ∃ book account,
    oneOrder.replay "t0" 10000 = .ok (book, account) ∧ oneOrder.corporateActions = some [] := by
  obtain ⟨book, hreplay⟩ := exists_book_oneOrder
  exact ⟨book, _, hreplay, CanonicalLedger.corporateActions_ofRecords fun record ↦
    corporateAction_filledRecords⟩

/-- The book counts both fills, the account only the first. -/
theorem exists_replay_twoOrders : ∃ book account,
    twoOrders.replay "t0" 10000 = .ok (book, account) ∧ twoOrders.corporateActions = some [] ∧
      ¬ Agrees 10000 book account := by
  let records := filledRecords "oi_1" ++ filledRecords "oi_2"
  let dates := records.foldl CanonicalLedger.datesStep .empty
  let first := openedOrder (hundredShares "oi_1")
  let second := openedOrder (hundredShares "oi_2")
  let bought := boughtOnce dates first
  let again : AccountReplay := { bought with duplicates := ["ex-1"] }
  obtain ⟨opened, filled, hopening, hget, hfill, hbook, hkeeps⟩ :=
    exists_filled (.start 10000) "oi_1" dates rfl (step_boughtOnce dates first)
  have hnew : filled.orders.get? second.orderId = none := by
    rw [hkeeps _ openedOrder_ne.symm]
    rfl
  obtain ⟨opened', filled', hopening', hget', hfill', hbook', -⟩ :=
    exists_filled ⟨filled, bought⟩ "oi_2" dates hnew (step_boughtTwice dates first second)
  have hactions : ∀ record ∈ records, orNull record.corporateAction = .null := by
    intro record hrecord
    rcases List.mem_append.mp hrecord with h | h <;> exact corporateAction_filledRecords h
  refine ⟨filled', { again.account with duplicateExecutions := again.duplicates },
    CanonicalLedger.replay_ofRecords hactions ?_ ?_,
    CanonicalLedger.corporateActions_ofRecords hactions, ?_⟩
  · rw [CanonicalLedger.replayRecords_append]
    exact ⟨filled, hbook, hbook'⟩
  · rw [replayAccount_nil_ok_iff]
    refine ⟨again, ?_, rfl⟩
    rw [List.filterMap_append, Fold.append_iff]
    exact ⟨bought, foldlM_filledRecords (step_boughtOnce dates first),
      foldlM_filledRecords (step_boughtTwice dates first second)⟩
  · intro hagrees
    have hstart : (Rebuild.start 10000).Sound ∧
        Agrees 10000 (Rebuild.start 10000).book (Rebuild.start 10000).replay.account :=
      ⟨Rebuild.sound_start 10000, fun symbol ↦ rfl, (add_zero (10000 : ℚ)).symm, rfl⟩
    have hopened := agrees_opening hstart hopening
    have hattributed : Rebuild.Attributed ⟨opened, .start 10000⟩
        (fillRecord first (hundredFilled first) (some "2024-01-02")) := by
      intro event fill order hevent _ hfilled hheld _
      cases hevent
      cases hfilled
      cases hget.symm.trans hheld
      have hunseen : (AccountReplay.start 10000).applied.get?
          (hundredFilled first).executionId = none := rfl
      refine .inr ⟨?_, rfl, rfl⟩
      norm_num [hundredFilled, sampleFill]
    have hbought := (Rebuild.agrees_step_iff hopened.1 hopened.2 hfill).mpr hattributed
    have hopened' := agrees_opening ⟨hopened.1.step hfill, hbought⟩ hopening'
    have hagain : Agrees 10000 filled' again.account := ⟨hagrees.position, hagrees.cash, hagrees.fees⟩
    have hboth := (Rebuild.agrees_step_iff hopened'.1 hopened'.2 hfill').mp hagain
    have hnone := hboth _ _ _ rfl rfl rfl hget' rfl
    have hseen : bought.applied.get? (hundredFilled second).executionId ≠ none := by
      have hknown : bought.applied.get? "ex-1" = some (hundredFilled first) :=
        Dict.get?_insert_self _ _ _
      intro hmissing
      cases hmissing
    have hzero := hnone.1
    norm_num [hundredFilled, sampleFill] at hzero

end Sample

theorem agrees_iff_attributed_oneOrder : ∃ book account,
    ((∀ state, oneOrder.Passes "t0" 10000 state →
        Agrees 10000 state.book state.replay.account) ↔ oneOrder.AttributedThroughout "t0" 10000) ∧
    (oneOrder.AttributedThroughout "t0" 10000 → Agrees 10000 book account) := by
  obtain ⟨book, account, hreplay, hactions⟩ := exists_replay_oneOrder
  exact ⟨book, account, CanonicalLedger.agrees_iff_attributed hreplay hactions⟩

/-- The book counts both fills of two orders under one execution identifier, the account one. -/
theorem not_agrees_twoOrders : ∃ book account,
    twoOrders.replay "t0" 10000 = .ok (book, account) ∧ twoOrders.corporateActions = some [] ∧
      ¬ Agrees 10000 book account :=
  exists_replay_twoOrders

end QuantAgent.Domain
