import QuantAgent.Domain.Mirror

/-!
# Recording in exact arithmetic

Every number of an exact ledger can be converted, so an entry without foreign objects is recorded
exactly when the ledger can write.  An execution then reaches book and ledger exactly when the order
accepts it and the ledger can write.
-/

namespace QuantAgent.Domain

open Library

def Fill.kept (fill : Fill ℚ) : Fill ℚ :=
  { fill with quantity := truncate fill.quantity, lineage := fill.lineage.compact }

@[simp]
theorem Fill.stored_exact (fill : Fill ℚ) : fill.stored = some fill.kept := by
  simp [Fill.stored, Fill.kept]

def OrderEvent.kept (event : OrderEvent ℚ) : OrderEvent ℚ :=
  { event with
    sequence := truncate event.sequence
    fill := event.fill.map Fill.kept
    riskDecision := event.riskDecision.map RiskDecision.stored
    lineage := event.lineage.compact }

@[simp]
theorem OrderEvent.stored_exact (event : OrderEvent ℚ) : event.stored = some event.kept := by
  cases hfill : event.fill <;> simp [OrderEvent.stored, OrderEvent.kept, storedFill, hfill]

@[simp]
theorem storedEvent_exact (event : Option (OrderEvent ℚ)) :
    storedEvent event = some (event.map OrderEvent.kept) := by
  cases event <;> simp [storedEvent]

namespace CanonicalLedger

/-- A record can be written: the ledger has not failed before, and a durable one writes it. -/
structure Writes (ledger : CanonicalLedger ℚ) (write : Write) : Prop where
  writable : ledger.writeFailure = none
  landed : ledger.durable = true → write = .landed

variable [Hashing ℚ]

def exactRecord (ledger : CanonicalLedger ℚ) (recordedAt : String) (entry : Entry ℚ) :
    LedgerRecord ℚ :=
  ledger.recordOf recordedAt entry (entry.event.map OrderEvent.kept)

variable {ledger : CanonicalLedger ℚ} {write : Write}

theorem append_of_writes (recordedAt : String) {entry : Entry ℚ} (hplain : entry.Plain)
    (h : ledger.Writes write) :
    ledger.append recordedAt write entry =
      (ledger.push (ledger.exactRecord recordedAt entry),
        .ok (ledger.exactRecord recordedAt entry)) := by
  rcases ledger.append_cases recordedAt write entry with
    ⟨failure, hfailure, -⟩ | ⟨-, hnone, -⟩ | ⟨kept, -, hkept, hrest⟩
  · rw [h.writable] at hfailure
    cases hfailure
  · rw [storedEvent_exact] at hnone
    cases hnone
  · rw [storedEvent_exact] at hkept
    cases hkept
    rcases hrest with ⟨-, hforeign, -⟩ | ⟨error, hdurable, hfailed, -⟩ | ⟨-, happend⟩
    · exact absurd ((chained_plain_iff _ _ _ _).mpr hplain) hforeign
    · rw [h.landed hdurable] at hfailed
      cases hfailed
    · exact happend

theorem append_of_not_writes (recordedAt : String) (entry : Entry ℚ) (h : ¬ ledger.Writes write) :
    ∃ error, (ledger.append recordedAt write entry).2 = .error error := by
  rcases ledger.append_cases recordedAt write entry with
    ⟨failure, -, happend⟩ | ⟨-, -, happend⟩ | ⟨kept, hwritable, -, hrest⟩
  · exact ⟨_, by rw [happend]⟩
  · exact ⟨_, by rw [happend]⟩
  · rcases hrest with ⟨-, -, happend⟩ | ⟨error, -, -, -, happend⟩ | ⟨hlanded, -⟩
    · exact ⟨_, by rw [happend]⟩
    · exact ⟨_, by rw [happend]⟩
    · exact absurd ⟨hwritable, fun hdurable ↦ (hlanded hdurable).1⟩ h

end CanonicalLedger

namespace Mirror

variable [Hashing ℚ]

variable {mirror : Mirror ℚ} {moment : Moment} {order known : Order ℚ} {event : OrderEvent ℚ}

theorem perform_of_writes {call : MirrorCall ℚ}
    (hadvance : call.advance mirror.book moment.now = some (order, event))
    (hplain : (call.entry event).Plain) (h : mirror.ledger.Writes moment.write) :
    mirror.perform moment call =
      (⟨mirror.book.push order event,
        mirror.ledger.push (mirror.ledger.exactRecord moment.recordedAt (call.entry event))⟩,
        .ok order) := by
  rw [perform_of_advance hadvance, CanonicalLedger.append_of_writes moment.recordedAt hplain h]

omit [Hashing ℚ] in
/-- The book holds a new snapshot of one order, and the ledger can still be written. -/
structure Advances (before after : Mirror ℚ) (orderId : String) (order : Order ℚ) : Prop where
  orders : after.book.orders = before.book.orders.insert orderId order
  writable : after.ledger.writeFailure = none
  durable : after.ledger.durable = before.ledger.durable

omit [Hashing ℚ] in
theorem advances_push (record : LedgerRecord ℚ) (h : mirror.ledger.Writes moment.write) :
    mirror.Advances ⟨mirror.book.push order event, mirror.ledger.push record⟩ event.orderId order :=
  ⟨rfl, h.writable, rfl⟩

variable {orderId : String} {kind : OrderEventType}

theorem advance_event {book : OrderBook ℚ} (now : String) {reason : Option String}
    {riskDecision : Option (RiskDecision ℚ)} (tradeDate : Option String)
    (hknown : book.orders.get? orderId = some known) (hkind : kind.isExecution = false)
    (hallowed : kind.targetStatus ∈ allowedTransitions known.status)
    (hreject : kind.targetStatus = .rejected → known.filledQuantity = 0 ∧ known.fills = [] ∧
      isBlankText (reason.getD "") = false) :
    (MirrorCall.event orderId kind none reason riskDecision tradeDate).advance book now =
      some (known.afterEvent kind reason, ⟨kind, orderId, Number.natCast book.events.length, now,
        none, reason, riskDecision, known.lineage⟩) := by
  have hrejectable : (if kind.targetStatus = .rejected then known.assertRejectable reason
      else .ok ()) = .ok () := by
    split
    · rename_i htarget
      obtain ⟨hfilled, hfills, hreason⟩ := hreject htarget
      simp [Order.assertRejectable, hfilled, hfills, hreason]
    · rfl
  have happly : known.apply kind none reason = .ok (some (known.afterEvent kind reason)) := by
    simp only [Order.apply, hkind, Order.assertTransition_ok_iff.mpr hallowed, hrejectable]
    rfl
  simp only [MirrorCall.advance, hknown, happly]

/-- Such an event is recorded when the ledger can write. -/
theorem perform_event (kind : OrderEventType) (reason : Option String)
    (riskDecision : Option (RiskDecision ℚ)) (tradeDate : Option String)
    (hknown : mirror.book.orders.get? orderId = some known) (hkind : kind.isExecution = false)
    (hallowed : kind.targetStatus ∈ allowedTransitions known.status)
    (hreject : kind.targetStatus = .rejected → known.filledQuantity = 0 ∧ known.fills = [] ∧
      isBlankText (reason.getD "") = false)
    (hdecision : ∀ decision, riskDecision = some decision → decision.threshold.Plain ∧
      decision.measured.Plain) (hwrites : mirror.ledger.Writes moment.write) :
    ∃ after, mirror.perform moment (.event orderId kind none reason riskDecision tradeDate) =
        (after, .ok (known.afterEvent kind reason)) ∧
      mirror.Advances after orderId (known.afterEvent kind reason) := by
  have hadvance : (MirrorCall.event orderId kind none reason riskDecision tradeDate).advance
      mirror.book moment.now = _ := advance_event moment.now tradeDate hknown hkind hallowed hreject
  have hplain : ((MirrorCall.event orderId kind none reason riskDecision tradeDate).entry
      ⟨kind, orderId, Number.natCast mirror.book.events.length, moment.now, none, reason,
        riskDecision, known.lineage⟩).Plain := by
    apply Entry.plain_of_decision
    rintro _ decision ⟨⟩ hsome
    exact hdecision decision hsome
  exact ⟨_, perform_of_writes hadvance hplain hwrites, advances_push _ hwrites⟩

/-- An opening either collides with an order of the book, or is recorded when the ledger can
write. -/
theorem perform_opening (intent : OrderIntent ℚ) (parentOrderId tradeDate : Option String)
    (hwrites : mirror.ledger.Writes moment.write) :
    (∃ known error,
      mirror.book.orders.get? (Order.fromIntent intent parentOrderId).orderId = some known ∧
      mirror.perform moment (.opening intent parentOrderId tradeDate) = (mirror, .error error)) ∨
    mirror.book.orders.get? (Order.fromIntent intent parentOrderId).orderId = none ∧
      ∃ after, mirror.perform moment (.opening intent parentOrderId tradeDate) =
          (after, .ok (Order.fromIntent intent parentOrderId)) ∧
        mirror.Advances after (Order.fromIntent intent parentOrderId).orderId
          (Order.fromIntent intent parentOrderId) := by
  let order := Order.fromIntent intent parentOrderId
  cases hget : mirror.book.orders.get? order.orderId with
  | some known =>
    left
    refine ⟨known, .lineageCollision known.orderId known.status, rfl, ?_⟩
    simp only [perform, mirrorOpen, OrderBook.openOrder, order] at hget ⊢
    simp only [hget, if_true]
  | none =>
    right
    have hadvance : (MirrorCall.opening intent parentOrderId tradeDate).advance mirror.book
        moment.now = some (order, mirror.book.createdEvent moment.now order) := by
      simp only [MirrorCall.advance, order] at hget ⊢
      simp only [hget]
    have hplain : ((MirrorCall.opening intent parentOrderId tradeDate).entry
        (mirror.book.createdEvent moment.now order)).Plain := by
      apply Entry.plain_of_decision
      rintro _ decision ⟨⟩ hsome
      cases hsome
    exact ⟨rfl, _, perform_of_writes hadvance hplain hwrites, advances_push _ hwrites⟩

def execution (orderId : String) (kind : OrderEventType) (fill : Fill ℚ)
    (tradeDate : Option String) : MirrorCall ℚ :=
  .event orderId kind (some fill) none none tradeDate

def executionEvent (mirror : Mirror ℚ) (now : String) (order : Order ℚ) (orderId : String)
    (kind : OrderEventType) (fill : Fill ℚ) : OrderEvent ℚ :=
  ⟨kind, orderId, Number.natCast mirror.book.events.length, now, some fill, none, none,
    order.lineage⟩

omit [Hashing ℚ] in
theorem plain_executionEvent (mirror : Mirror ℚ) (now : String) (order : Order ℚ)
    (orderId : String) (kind : OrderEventType) (fill : Fill ℚ) (tradeDate : Option String) :
    ((execution orderId kind fill tradeDate).entry
      (mirror.executionEvent now order orderId kind fill)).Plain := by
  apply Entry.plain_of_decision
  rintro _ decision ⟨⟩ hdecision
  cases hdecision

variable {fill : Fill ℚ} {tradeDate : Option String}

section

variable (hkind : kind.isExecution = true) (hknown : mirror.book.orders.get? orderId = some known)
include hkind hknown

theorem advance_execution_iff {now : String} {updated : Order ℚ} :
    (execution orderId kind fill tradeDate).advance mirror.book now = some (updated, event) ↔
      known.Accepts fill ∧ updated = known.afterFill fill ∧
        event = mirror.executionEvent now known orderId kind fill := by
  have hiff : known.apply kind (some fill) none = .ok (some updated) ↔
      known.Accepts fill ∧ updated = known.afterFill fill := Order.apply_execution_iff hkind
  rw [← and_assoc, ← hiff]
  simp only [execution, MirrorCall.advance, hknown, executionEvent]
  constructor
  · intro h
    split at h
    · rename_i updated happly
      cases h
      exact ⟨happly, rfl⟩
    · cases h
  · rintro ⟨happly, rfl⟩
    rw [happly]

theorem perform_execution (haccepts : known.Accepts fill)
    (hwrites : mirror.ledger.Writes moment.write) :
    mirror.perform moment (execution orderId kind fill tradeDate) =
      (⟨mirror.book.push (known.afterFill fill)
          (mirror.executionEvent moment.now known orderId kind fill),
        mirror.ledger.push (mirror.ledger.exactRecord moment.recordedAt
          ((execution orderId kind fill tradeDate).entry
            (mirror.executionEvent moment.now known orderId kind fill)))⟩,
        .ok (known.afterFill fill)) :=
  perform_of_writes ((advance_execution_iff hkind hknown).mpr ⟨haccepts, rfl, rfl⟩)
    (mirror.plain_executionEvent moment.now known orderId kind fill tradeDate) hwrites

/-- Any other execution leaves the chain as it is, and is absorbed or raises. -/
theorem perform_execution_of_not (h : ¬ (known.Accepts fill ∧ mirror.ledger.Writes moment.write)) :
    (mirror.perform moment (execution orderId kind fill tradeDate)).1.ledger.records =
      mirror.ledger.records := by
  rcases mirror.perform_cases moment (execution orderId kind fill tradeDate) with
    ⟨-, hsame, -⟩ | ⟨updated, event, hadvance, -, hledger, -⟩
  · rw [hsame]
  · obtain ⟨haccepts, -⟩ := (advance_execution_iff hkind hknown).mp hadvance
    have hfails : ¬ mirror.ledger.Writes moment.write := fun hwrites ↦ h ⟨haccepts, hwrites⟩
    obtain ⟨error, herror⟩ := CanonicalLedger.append_of_not_writes moment.recordedAt
      ((execution orderId kind fill tradeDate).entry event) hfails
    rw [hledger, (CanonicalLedger.append_error herror).1]

/-- An execution of more than the order has left raises, and changes nothing. -/
theorem perform_execution_overfill (hnew : known.findFill fill.executionId = none)
    (hlive : known.isTerminal = false)
    (hover : known.quantity < known.filledQuantity + fill.quantity) :
    mirror.perform moment (execution orderId kind fill tradeDate) =
      (mirror, .error (.order (.overfill known.orderId))) := by
  have happly : known.apply kind (some fill) none = .error (.overfill known.orderId) := by
    simp [Order.apply, hkind, Order.applyFill, hnew, hlive, hover]
  simp only [execution, perform, mirrorEvent, OrderBook.apply, hknown, happly]

end

end Mirror

end QuantAgent.Domain
