import QuantAgent.Domain.Orders

/-!
# What an event can do to an order and to a book

Inversion lemmas for `Order.apply` and `OrderBook.apply`: everything a successful event can do, and
the fields no event touches.  A book with its prices blanked out evolves like the book itself.
-/

namespace QuantAgent.Domain

open Library

variable {N : Type} [Arithmetic N]

namespace Order

structure SameTerms (before after : Order N) : Prop where
  orderId : after.orderId = before.orderId
  symbol : after.symbol = before.symbol
  side : after.side = before.side
  quantity : after.quantity = before.quantity
  tradeDate : after.tradeDate = before.tradeDate
  limitPrice : after.limitPrice = before.limitPrice
  referencePrice : after.referencePrice = before.referencePrice
  parentOrderId : after.parentOrderId = before.parentOrderId
  lineage : after.lineage = before.lineage

omit [Arithmetic N] in
theorem SameTerms.refl (order : Order N) : SameTerms order order :=
  ⟨rfl, rfl, rfl, rfl, rfl, rfl, rfl, rfl, rfl⟩

omit [Arithmetic N] in
theorem SameTerms.trans {first second third : Order N} (h : SameTerms first second)
    (h' : SameTerms second third) : SameTerms first third :=
  ⟨h'.orderId.trans h.orderId, h'.symbol.trans h.symbol, h'.side.trans h.side,
    h'.quantity.trans h.quantity, h'.tradeDate.trans h.tradeDate,
    h'.limitPrice.trans h.limitPrice, h'.referencePrice.trans h.referencePrice,
    h'.parentOrderId.trans h.parentOrderId, h'.lineage.trans h.lineage⟩

variable {order updated : Order N}

omit [Arithmetic N] in
theorem assertTransition_ok_iff {target : OrderStatus} :
    order.assertTransition target = .ok () ↔ target ∈ allowedTransitions order.status := by
  unfold assertTransition
  split <;> simp_all

def afterFill (order : Order N) (fill : Fill N) : Order N :=
  let filled := Arithmetic.add order.filledQuantity fill.quantity
  { order with
    status := if Arithmetic.same filled order.quantity then .filled else .partiallyFilled
    filledQuantity := filled
    fills := order.fills ++ [fill] }

omit [Arithmetic N] in
def afterEvent (order : Order N) (kind : OrderEventType) (reason : Option String) : Order N :=
  { order with status := kind.targetStatus, reason := order.reasonAfter reason }

variable {kind : OrderEventType}

variable {fill : Fill N}

/-- A new execution is booked on a live order that has room for it. -/
theorem applyFill_some (h : order.applyFill kind fill = .ok (some updated)) :
    order.findFill fill.executionId = none ∧ order.isTerminal = false ∧
      Arithmetic.less order.quantity (Arithmetic.add order.filledQuantity fill.quantity) = false ∧
      (order.afterFill fill).status ∈ allowedTransitions order.status ∧
      updated = order.afterFill fill := by
  unfold applyFill at h
  cases hfind : order.findFill fill.executionId with
  | some existing =>
    rw [hfind] at h
    simp only at h
    split at h <;> cases h
  | none =>
    rw [hfind] at h
    simp only at h
    split at h
    · cases h
    · rename_i hlive
      split at h
      · cases h
      · rename_i hroom
        have hstatus : (order.afterFill fill).status =
            if Arithmetic.same (Arithmetic.add order.filledQuantity fill.quantity)
              order.quantity then .filled else .partiallyFilled := rfl
        split at h
        · cases h
        · rename_i hallowed
          refine ⟨rfl, by simpa using hlive, by simpa using hroom, ?_, ?_⟩
          · rw [hstatus]
            exact assertTransition_ok_iff.mp hallowed
          · simpa [afterFill] using h.symm

structure Accepts (order : Order N) (fill : Fill N) : Prop where
  new : order.findFill fill.executionId = none
  live : order.isTerminal = false
  room : Arithmetic.less order.quantity (Arithmetic.add order.filledQuantity fill.quantity) = false
  allowed : (order.afterFill fill).status ∈ allowedTransitions order.status

variable {reason : Option String}

/-- A fill advances an order exactly when the order accepts it. -/
theorem apply_execution_iff (hkind : kind.isExecution = true) :
    order.apply kind (some fill) reason = .ok (some updated) ↔
      order.Accepts fill ∧ updated = order.afterFill fill := by
  simp only [apply, hkind, if_true]
  constructor
  · intro h
    obtain ⟨hnew, hlive, hroom, hallowed, rfl⟩ := applyFill_some h
    exact ⟨⟨hnew, hlive, hroom, hallowed⟩, rfl⟩
  · rintro ⟨⟨hnew, hlive, hroom, hallowed⟩, rfl⟩
    have htransition : order.assertTransition
        (if Arithmetic.same (Arithmetic.add order.filledQuantity fill.quantity) order.quantity then
          .filled else .partiallyFilled) = .ok () := assertTransition_ok_iff.mpr hallowed
    simp only [applyFill, hnew, hlive, hroom, htransition]
    rfl

/-- Everything a successful event can do to an order. -/
theorem apply_some {fill : Option (Fill N)}
    (h : order.apply kind fill reason = .ok (some updated)) :
    (∃ execution, kind.isExecution = true ∧ fill = some execution ∧
      order.findFill execution.executionId = none ∧ order.isTerminal = false ∧
      Arithmetic.less order.quantity
        (Arithmetic.add order.filledQuantity execution.quantity) = false ∧
      (order.afterFill execution).status ∈ allowedTransitions order.status ∧
      updated = order.afterFill execution) ∨
    (kind.isExecution = false ∧ kind.targetStatus ∈ allowedTransitions order.status ∧
      updated = order.afterEvent kind reason) := by
  unfold apply at h
  split at h
  · rename_i hkind
    cases fill with
    | none => cases h
    | some execution =>
      obtain ⟨hfind, hlive, hroom, hallowed, heq⟩ := applyFill_some h
      exact .inl ⟨execution, hkind, rfl, hfind, hlive, hroom, hallowed, heq⟩
  · rename_i hkind
    right
    split at h
    · cases h
    · rename_i hallowed
      split at h
      · cases h
      · refine ⟨by simpa using hkind, assertTransition_ok_iff.mp hallowed, ?_⟩
        simpa [afterEvent] using h.symm

theorem apply_event (hkind : kind.isExecution = false) (htarget : kind.targetStatus ≠ .rejected)
    (hallowed : kind.targetStatus ∈ allowedTransitions order.status) (fill : Option (Fill N))
    (reason : Option String) :
    order.apply kind fill reason = .ok (some (order.afterEvent kind reason)) := by
  simp [apply, hkind, assertTransition, hallowed, htarget, afterEvent]

theorem sameTerms_of_apply {fill : Option (Fill N)}
    (h : order.apply kind fill reason = .ok (some updated)) : SameTerms order updated := by
  rcases apply_some h with ⟨execution, -, -, -, -, -, -, rfl⟩ | ⟨-, -, rfl⟩
  · exact ⟨rfl, rfl, rfl, rfl, rfl, rfl, rfl, rfl, rfl⟩
  · exact ⟨rfl, rfl, rfl, rfl, rfl, rfl, rfl, rfl, rfl⟩

/-- No event leads back to the status an order is created in. -/
theorem apply_created_ne (order updated : Order N) (fill : Option (Fill N))
    (reason : Option String) : order.apply .created fill reason ≠ .ok (some updated) := by
  intro h
  rcases apply_some h with ⟨_, hkind, -⟩ | ⟨-, hallowed, -⟩
  · cases hkind
  · cases hstatus : order.status <;> simp [hstatus, allowedTransitions,
      OrderEventType.targetStatus] at hallowed

omit [Arithmetic N] in
/-- The order without the two prices a replay does not see. -/
def withoutPrices (order : Order N) : Order N :=
  { order with limitPrice := none, referencePrice := none }

omit [Arithmetic N] in
theorem withoutPrices_eq_self_iff (order : Order N) :
    order.withoutPrices = order ↔ order.limitPrice = none ∧ order.referencePrice = none := by
  constructor
  · intro h
    exact ⟨(congrArg limitPrice h).symm, (congrArg referencePrice h).symm⟩
  · rintro ⟨hlimit, hreference⟩
    cases order
    simp_all [withoutPrices]

/-- Blanking the prices commutes with every event. -/
theorem apply_withoutPrices (order : Order N) (kind : OrderEventType) (fill : Option (Fill N))
    (reason : Option String) :
    order.withoutPrices.apply kind fill reason =
      match order.apply kind fill reason with
      | .error error => .error error
      | .ok updated => .ok (updated.map withoutPrices) := by
  have hfind : ∀ id, order.withoutPrices.findFill id = order.findFill id := fun _ ↦ rfl
  have hassert : ∀ target, order.withoutPrices.assertTransition target =
      order.assertTransition target := fun _ ↦ rfl
  unfold apply
  split
  · cases fill with
    | none => rfl
    | some execution =>
      simp only [applyFill, hfind, hassert]
      cases order.findFill execution.executionId with
      | some existing =>
        simp only
        split <;> rfl
      | none =>
        have hterminal : order.withoutPrices.isTerminal = order.isTerminal := rfl
        have hfilled : order.withoutPrices.filledQuantity = order.filledQuantity := rfl
        have hquantity : order.withoutPrices.quantity = order.quantity := rfl
        simp only [hterminal, hfilled, hquantity]
        split
        · rfl
        · split
          · rfl
          · split <;> rfl
  · have hreject : order.withoutPrices.assertRejectable reason = order.assertRejectable reason :=
      rfl
    simp only [hassert, hreject]
    split
    · rfl
    · split <;> rfl

end Order

namespace OrderBook

variable {book : OrderBook N} {parentOrderId reason : Option String}

variable {intent : OrderIntent N}

theorem openOrder_known [Hashing N] {known : Order N} (now : String)
    (h : book.orders.get? (Order.fromIntent intent parentOrderId).orderId = some known) :
    (book.openOrder intent parentOrderId now).1 = book := by
  simp [openOrder, h]

theorem orders_openOrder [Hashing N] (now : String)
    (h : book.orders.get? (Order.fromIntent intent parentOrderId).orderId = none) :
    (book.openOrder intent parentOrderId now).1.orders = book.orders.insert
      (Order.fromIntent intent parentOrderId).orderId (Order.fromIntent intent parentOrderId) := by
  simp [openOrder, h]

variable {orderId : String} {kind : OrderEventType} {fill : Option (Fill N)} {updated : Order N}

/-- Everything a successful event can do to a book. -/
theorem apply_ok {after : OrderBook N} {now : String} {riskDecision : Option (RiskDecision N)}
    (h : book.apply orderId kind fill reason riskDecision now = .ok (after, updated)) :
    ∃ order, book.orders.get? orderId = some order ∧
      ((order.apply kind fill reason = .ok none ∧ after = book ∧ updated = order) ∨
        (order.apply kind fill reason = .ok (some updated) ∧
          after.orders = book.orders.insert orderId updated ∧
          after.events = book.events ++ [⟨kind, orderId, Number.natCast book.events.length, now,
            fill, reason, riskDecision, order.lineage⟩])) := by
  unfold apply at h
  cases hget : book.orders.get? orderId with
  | none => simp [hget] at h
  | some order =>
    rw [hget] at h
    simp only at h
    refine ⟨order, rfl, ?_⟩
    split at h
    · cases h
    · rename_i happly
      simp only [Except.ok.injEq, Prod.mk.injEq] at h
      exact .inl ⟨happly, h.1.symm, h.2.symm⟩
    · rename_i result happly
      simp only [Except.ok.injEq, Prod.mk.injEq] at h
      obtain ⟨rfl, rfl⟩ := h
      exact .inr ⟨happly, rfl, rfl⟩

/-- An event that carries no execution is never absorbed. -/
theorem events_apply {after : OrderBook N} {now : String} {riskDecision : Option (RiskDecision N)}
    (hkind : kind.isExecution = false)
    (h : book.apply orderId kind none reason riskDecision now = .ok (after, updated)) :
    ∃ event, after.events = book.events ++ [event] := by
  obtain ⟨order, -, ⟨habsorbed, -⟩ | ⟨-, -, hevents⟩⟩ := apply_ok h
  · simp only [Order.apply, hkind] at habsorbed
    split at habsorbed
    · rename_i hexecution
      cases hexecution
    · split at habsorbed
      · cases habsorbed
      · split at habsorbed <;> cases habsorbed
  · exact ⟨_, hevents⟩

/-- An event that advances an order is recorded behind it. -/
theorem apply_of_some {order : Order N} (hget : book.orders.get? orderId = some order)
    (hadvance : order.apply kind fill reason = .ok (some updated))
    (riskDecision : Option (RiskDecision N)) (now : String) :
    ∃ after, book.apply orderId kind fill reason riskDecision now = .ok (after, updated) ∧
      after.orders = book.orders.insert orderId updated := by
  simp [apply, hget, hadvance]

omit [Arithmetic N] in
theorem getLast?_historyOf {events : List (OrderEvent N)} {event : OrderEvent N}
    (h : book.events = events ++ [event]) :
    (book.historyOf event.orderId).getLast? = some event := by
  simp [historyOf, h]

end OrderBook

end QuantAgent.Domain
