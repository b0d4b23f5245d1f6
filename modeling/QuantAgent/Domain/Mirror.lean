import QuantAgent.Domain.HexHashing
import QuantAgent.Domain.LedgerChain
import QuantAgent.Domain.OrderBook
import QuantAgent.Domain.RatText
import QuantAgent.Library.Run

/-!
# The book and its ledger

`mirror_open` and `mirror_event` update an order book and then append what the book recorded to a
canonical ledger.  A call advances the book exactly when `MirrorCall.advance` says so; the append is
made for these calls only, and it is made after the book has moved.
-/

namespace QuantAgent.Domain

open Library

variable {N : Type}

structure Mirror (N : Type) where
  book : OrderBook N
  ledger : CanonicalLedger N

/-- What the surroundings give one call: the two clock stamps, and what becomes of the write. -/
structure Moment where
  now : String
  recordedAt : String
  write : Write

inductive MirrorError where
  | order (error : OrderError)
  | lineageCollision (orderId : String) (existing : OrderStatus)
  | noHistory
  | append (error : AppendError)
  deriving DecidableEq

inductive MirrorCall (N : Type) where
  | opening (intent : OrderIntent N) (parentOrderId tradeDate : Option String)
  | event (orderId : String) (kind : OrderEventType) (fill : Option (Fill N))
      (reason : Option String) (riskDecision : Option (RiskDecision N))
      (tradeDate : Option String)

def MirrorCall.entry (call : MirrorCall N) (event : OrderEvent N) : Entry N :=
  match call with
  | .opening intent _ tradeDate => ⟨some event, tradeDate, some intent, none⟩
  | .event _ _ _ _ _ tradeDate => ⟨some event, tradeDate, none, none⟩

@[simp]
theorem MirrorCall.entry_event (call : MirrorCall N) (event : OrderEvent N) :
    (call.entry event).event = some event := by
  cases call <;> rfl

def OrderBook.push (book : OrderBook N) (order : Order N) (event : OrderEvent N) : OrderBook N where
  orders := book.orders.insert event.orderId order
  events := book.events ++ [event]

def OrderBook.createdEvent [Number N] (book : OrderBook N) (now : String) (order : Order N) :
    OrderEvent N where
  eventType := .created
  orderId := order.orderId
  sequence := Number.natCast book.events.length
  eventTime := now
  fill := none
  reason := none
  riskDecision := none
  lineage := order.lineage

variable [Arithmetic N] [Hashing N]

namespace Mirror

def recordLast (book : OrderBook N) (ledger : CanonicalLedger N) (moment : Moment) (order : Order N)
    (orderId : String) (tradeDate : Option String) (intent : Option (OrderIntent N)) :
    Mirror N × Except MirrorError (Order N) :=
  match (book.historyOf orderId).getLast? with
  | none => (⟨book, ledger⟩, .error .noHistory)
  | some event =>
    match ledger.append moment.recordedAt moment.write ⟨some event, tradeDate, intent, none⟩ with
    | (ledger, .ok _) => (⟨book, ledger⟩, .ok order)
    | (ledger, .error error) => (⟨book, ledger⟩, .error (.append error))

/-- `mirror_open`. -/
def mirrorOpen (mirror : Mirror N) (moment : Moment) (intent : OrderIntent N)
    (parentOrderId tradeDate : Option String) : Mirror N × Except MirrorError (Order N) :=
  match mirror.book.openOrder intent parentOrderId moment.now with
  | (book, order) =>
    if book.events.length = mirror.book.events.length then
      (⟨book, mirror.ledger⟩, .error (.lineageCollision order.orderId order.status))
    else recordLast book mirror.ledger moment order order.orderId tradeDate (some intent)

/-- `mirror_event`. -/
def mirrorEvent (mirror : Mirror N) (moment : Moment) (orderId : String) (kind : OrderEventType)
    (fill : Option (Fill N)) (reason : Option String) (riskDecision : Option (RiskDecision N))
    (tradeDate : Option String) : Mirror N × Except MirrorError (Order N) :=
  match mirror.book.apply orderId kind fill reason riskDecision moment.now with
  | .error error => (mirror, .error (.order error))
  | .ok (book, updated) =>
    if mirror.book.events.length < book.events.length then
      recordLast book mirror.ledger moment updated orderId tradeDate none
    else (⟨book, mirror.ledger⟩, .ok updated)

def perform (mirror : Mirror N) (moment : Moment) :
    MirrorCall N → Mirror N × Except MirrorError (Order N)
  | .opening intent parentOrderId tradeDate =>
    mirror.mirrorOpen moment intent parentOrderId tradeDate
  | .event orderId kind fill reason riskDecision tradeDate =>
    mirror.mirrorEvent moment orderId kind fill reason riskDecision tradeDate

end Mirror

/-- What a call makes the book record: the new snapshot and its event; `none` when the book refuses
the call or absorbs it. -/
def MirrorCall.advance (book : OrderBook N) (now : String) :
    MirrorCall N → Option (Order N × OrderEvent N)
  | .opening intent parentOrderId _ =>
    let order := Order.fromIntent intent parentOrderId
    match book.orders.get? order.orderId with
    | some _ => none
    | none => some (order, book.createdEvent now order)
  | .event orderId kind fill reason riskDecision _ =>
    match book.orders.get? orderId with
    | none => none
    | some order =>
      match order.apply kind fill reason with
      | .ok (some updated) => some (updated, {
          eventType := kind
          orderId
          sequence := Number.natCast book.events.length
          eventTime := now
          fill
          reason
          riskDecision
          lineage := order.lineage })
      | _ => none

/-- Everything a call that advances the book can do. -/
theorem MirrorCall.advance_some {book : OrderBook N} {now : String} {call : MirrorCall N}
    {order : Order N} {event : OrderEvent N} (h : call.advance book now = some (order, event)) :
    (∃ intent parentOrderId tradeDate, call = .opening intent parentOrderId tradeDate ∧
      order = Order.fromIntent intent parentOrderId ∧ book.orders.get? order.orderId = none ∧
      event = book.createdEvent now order) ∨
    ∃ orderId kind fill reason riskDecision tradeDate before,
      call = .event orderId kind fill reason riskDecision tradeDate ∧
      book.orders.get? orderId = some before ∧ before.apply kind fill reason = .ok (some order) ∧
      event = ⟨kind, orderId, Number.natCast book.events.length, now, fill, reason, riskDecision,
        before.lineage⟩ := by
  cases call with
  | opening intent parentOrderId tradeDate =>
    left
    simp only [advance] at h
    split at h
    · cases h
    · rename_i hget
      cases h
      exact ⟨intent, parentOrderId, tradeDate, rfl, rfl, hget, rfl⟩
  | event orderId kind fill reason riskDecision tradeDate =>
    right
    simp only [advance] at h
    split at h
    · cases h
    · rename_i before hget
      split at h
      · rename_i updated happly
        cases h
        exact ⟨orderId, kind, fill, reason, riskDecision, tradeDate, before, rfl, hget, happly, rfl⟩
      · cases h

theorem MirrorCall.advance_opening {book : OrderBook N} {now : String} {intent : OrderIntent N}
    {parentOrderId tradeDate : Option String} {order : Order N} {event : OrderEvent N}
    (h : (opening intent parentOrderId tradeDate).advance book now = some (order, event)) :
    order = Order.fromIntent intent parentOrderId ∧ event = book.createdEvent now order := by
  rcases advance_some h with ⟨_, _, _, hcall, rfl, -, rfl⟩ | ⟨_, _, _, _, _, _, _, hcall, -⟩
  · cases hcall
    exact ⟨rfl, rfl⟩
  · cases hcall

theorem MirrorCall.advance_event {book : OrderBook N} {now orderId : String} {kind : OrderEventType}
    {fill : Option (Fill N)} {reason : Option String} {riskDecision : Option (RiskDecision N)}
    {tradeDate : Option String} {order : Order N} {event : OrderEvent N}
    (h : (MirrorCall.event orderId kind fill reason riskDecision tradeDate).advance book now =
      some (order, event)) :
    ∃ before, book.orders.get? orderId = some before ∧
      before.apply kind fill reason = .ok (some order) ∧
      event = ⟨kind, orderId, Number.natCast book.events.length, now, fill, reason, riskDecision,
        before.lineage⟩ := by
  rcases advance_some h with
    ⟨_, _, _, hcall, -⟩ | ⟨_, _, _, _, _, _, before, hcall, hget, happly, rfl⟩
  · cases hcall
  · cases hcall
    exact ⟨before, hget, happly, rfl⟩

namespace Mirror

variable {book : OrderBook N} {order : Order N} {event : OrderEvent N}

theorem recordLast_push {ledger : CanonicalLedger N} (moment : Moment) (tradeDate : Option String)
    (intent : Option (OrderIntent N)) :
    recordLast (book.push order event) ledger moment order event.orderId tradeDate intent =
      match ledger.append moment.recordedAt moment.write ⟨some event, tradeDate, intent, none⟩ with
      | (ledger, .ok _) => (⟨book.push order event, ledger⟩, .ok order)
      | (ledger, .error error) => (⟨book.push order event, ledger⟩, .error (.append error)) := by
  have hlast : ((book.push order event).historyOf event.orderId).getLast? = some event :=
    OrderBook.getLast?_historyOf rfl
  rw [recordLast, hlast]

variable {mirror : Mirror N} {moment : Moment} {call : MirrorCall N}

theorem perform_of_advance (h : call.advance mirror.book moment.now = some (order, event)) :
    mirror.perform moment call =
      match mirror.ledger.append moment.recordedAt moment.write (call.entry event) with
      | (ledger, .ok _) => (⟨mirror.book.push order event, ledger⟩, .ok order)
      | (ledger, .error error) =>
        (⟨mirror.book.push order event, ledger⟩, .error (.append error)) := by
  rcases MirrorCall.advance_some h with
    ⟨intent, parentOrderId, tradeDate, rfl, rfl, hget, rfl⟩ |
    ⟨orderId, kind, fill, reason, riskDecision, tradeDate, before, rfl, hget, happly, rfl⟩
  · let order := Order.fromIntent intent parentOrderId
    have hopen : mirror.book.openOrder intent parentOrderId moment.now =
        (mirror.book.push order (mirror.book.createdEvent moment.now order), order) := by
      simp only [OrderBook.openOrder, hget]
      rfl
    simp only [perform, mirrorOpen, hopen]
    rw [if_neg (by simp [OrderBook.push])]
    exact recordLast_push moment tradeDate (some intent)
  · have happlied : mirror.book.apply orderId kind fill reason riskDecision moment.now =
        .ok (mirror.book.push order ⟨kind, orderId, Number.natCast mirror.book.events.length,
          moment.now, fill, reason, riskDecision, before.lineage⟩, order) := by
      simp only [OrderBook.apply, hget, happly]
      rfl
    simp only [perform, mirrorEvent, happlied]
    rw [if_pos (by simp [OrderBook.push])]
    exact recordLast_push moment tradeDate none

/-- Any other call leaves everything as it is, and no append is made. -/
theorem perform_of_not_advance (h : call.advance mirror.book moment.now = none) :
    (mirror.perform moment call).1 = mirror ∧
      ∀ error, (mirror.perform moment call).2 ≠ .error (.append error) := by
  cases call with
  | opening intent parentOrderId tradeDate =>
    simp only [MirrorCall.advance] at h
    split at h
    · rename_i known hget
      simp [perform, mirrorOpen, OrderBook.openOrder, hget]
    · cases h
  | event orderId kind fill reason riskDecision tradeDate =>
    simp only [MirrorCall.advance] at h
    split at h
    · rename_i hget
      simp [perform, mirrorEvent, OrderBook.apply, hget]
    · rename_i before hget
      split at h
      · cases h
      · rename_i hnone
        simp only [perform, mirrorEvent, OrderBook.apply, hget]
        cases happly : before.apply kind fill reason with
        | error error => simp
        | ok result =>
          cases result with
          | none => simp
          | some updated => exact absurd happly (hnone updated)

/-- Everything a call can do: nothing at all, or one more event in the book and one append. -/
theorem perform_cases (mirror : Mirror N) (moment : Moment) (call : MirrorCall N) :
    (call.advance mirror.book moment.now = none ∧ (mirror.perform moment call).1 = mirror ∧
      ∀ error, (mirror.perform moment call).2 ≠ .error (.append error)) ∨
    ∃ order event, call.advance mirror.book moment.now = some (order, event) ∧
      (mirror.perform moment call).1.book = mirror.book.push order event ∧
      (mirror.perform moment call).1.ledger =
        (mirror.ledger.append moment.recordedAt moment.write (call.entry event)).1 ∧
      ((∃ record, (mirror.ledger.append moment.recordedAt moment.write (call.entry event)).2 =
            .ok record ∧ (mirror.perform moment call).2 = .ok order) ∨
        ∃ error, (mirror.ledger.append moment.recordedAt moment.write (call.entry event)).2 =
            .error error ∧ (mirror.perform moment call).2 = .error (.append error)) := by
  cases hadvance : call.advance mirror.book moment.now with
  | none => exact .inl ⟨rfl, perform_of_not_advance hadvance⟩
  | some advanced =>
    obtain ⟨order, event⟩ := advanced
    refine .inr ⟨order, event, rfl, ?_⟩
    rw [perform_of_advance hadvance]
    cases happend : mirror.ledger.append moment.recordedAt moment.write (call.entry event) with
    | mk ledger result => cases result <;> simp

/-- The state after a call, whether it raised or not. -/
def step (mirror : Mirror N) (input : Moment × MirrorCall N) : Mirror N :=
  (mirror.perform input.1 input.2).1

omit [Arithmetic N] [Hashing N] in
/-- A new book and a new ledger. -/
def fresh (durable : Bool) : Mirror N := ⟨⟨.empty, []⟩, .fresh durable⟩

omit [Arithmetic N] [Hashing N] in
def Agree (mirror : Mirror N) : Prop := mirror.book.events = mirror.ledger.events

omit [Arithmetic N] [Hashing N] in
theorem agree_fresh (durable : Bool) : (fresh durable : Mirror N).Agree := rfl

/-- After the call the two hold the same events, and when it raised neither has changed. -/
def Consistent (mirror : Mirror N) (input : Moment × MirrorCall N) : Prop :=
  (mirror.step input).Agree ∧
    ∀ error, (mirror.perform input.1 input.2).2 = .error error →
      (mirror.step input).book = mirror.book ∧
        (mirror.step input).ledger.records = mirror.ledger.records

/-- When the book records an event for the call, the ledger can record it, too: it is not latched,
the record keeps the event as it is, and a durable ledger can serialise it and its write lands. -/
def Recordable (mirror : Mirror N) (input : Moment × MirrorCall N) : Prop :=
  ∀ order event, input.2.advance mirror.book input.1.now = some (order, event) →
    mirror.ledger.writeFailure = none ∧ (input.2.entry event).Storable ∧
      (mirror.ledger.durable = true → input.1.write = .landed ∧ (input.2.entry event).Plain)

variable {input : Moment × MirrorCall N}

theorem consistent_of_recordable (h : mirror.Agree) (hrecord : mirror.Recordable input) :
    mirror.Consistent input := by
  rcases mirror.perform_cases input.1 input.2 with
    ⟨-, hsame, -⟩ | ⟨order, event, hadvance, hbook, hledger, hresult⟩
  · refine ⟨?_, fun _ _ ↦ ?_⟩
    · rw [step, hsame]
      exact h
    · rw [step, hsame]
      exact ⟨rfl, rfl⟩
  · obtain ⟨hwritable, hstorable, hwritten⟩ := hrecord order event hadvance
    have happend := CanonicalLedger.append_storable input.1.recordedAt hwritable hstorable hwritten
    rw [happend] at hledger hresult
    refine ⟨?_, fun error herror ↦ ?_⟩
    · rw [Agree] at h
      rw [Agree, step, hbook, hledger]
      simp [CanonicalLedger.push, CanonicalLedger.events, OrderBook.push, h,
        CanonicalLedger.recordOf, Entry.record]
    · rcases hresult with ⟨_, -, hok⟩ | ⟨_, hfailed, -⟩
      · rw [hok] at herror
        cases herror
      · cases hfailed

theorem recordable_of_consistent (h : mirror.Agree) (hconsistent : mirror.Consistent input) :
    mirror.Recordable input := by
  intro order event hadvance
  rcases mirror.perform_cases input.1 input.2 with
    ⟨hnone, -, -⟩ | ⟨order', event', hadvance', hbook, hledger, -⟩
  · rw [hnone] at hadvance
    cases hadvance
  · obtain ⟨rfl, rfl⟩ := Prod.mk.inj (Option.some.inj (hadvance.symm.trans hadvance'))
    have hagree := hconsistent.1
    rw [Agree, step, hbook, hledger] at hagree
    -- the book has grown by the event, so the append must have recorded it
    have hgrown : ∀ ledger : CanonicalLedger N, ledger.records = mirror.ledger.records →
        (mirror.book.push order event).events ≠ ledger.events := by
      intro ledger hrecords heq
      have hlength := congrArg List.length heq
      rw [Agree] at h
      simp only [OrderBook.push, h, CanonicalLedger.events, hrecords, List.length_append,
        List.length_singleton] at hlength
      omega
    rcases mirror.ledger.append_cases input.1.recordedAt input.1.write (input.2.entry event) with
      ⟨failure, -, happend⟩ | ⟨-, -, happend⟩ | ⟨kept, hwritable, hkept, hrest⟩
    · rw [happend] at hagree
      exact absurd hagree (hgrown _ rfl)
    · rw [happend] at hagree
      exact absurd hagree (hgrown _ rfl)
    · rcases hrest with ⟨-, -, happend⟩ | ⟨error, -, -, -, happend⟩ | ⟨hwritten, happend⟩
      · rw [happend] at hagree
        exact absurd hagree (hgrown _ rfl)
      · rw [happend] at hagree
        exact absurd hagree (hgrown _ rfl)
      · rw [happend] at hagree
        rw [Agree] at h
        have hsame : kept = (input.2.entry event).event := by
          cases kept <;> simp_all [CanonicalLedger.push, CanonicalLedger.events, OrderBook.push,
            CanonicalLedger.recordOf, Entry.record]
        rw [hsame] at hkept
        exact ⟨hwritable, (storedEvent_eq_iff _).mp hkept, fun hfile ↦
          ⟨(hwritten hfile).1, (chained_plain_iff _ _ _ _).mp (hwritten hfile).2⟩⟩

/-- Book and ledger agree after every call of a run exactly when the ledger could record whatever
the book did. -/
theorem consistent_iff_recordable (durable : Bool) (inputs : List (Moment × MirrorCall N)) :
    Run.Always step Consistent (fresh durable : Mirror N) inputs ↔
      Run.Always step Recordable (fresh durable : Mirror N) inputs := by
  have hiff : ∀ (mirror : Mirror N) input, mirror.Agree →
      (mirror.Consistent input ↔ mirror.Recordable input) :=
    fun _ _ h ↦ ⟨recordable_of_consistent h, consistent_of_recordable h⟩
  have hstep : ∀ (mirror : Mirror N) input, mirror.Agree → mirror.Consistent input →
      (mirror.step input).Agree := fun _ _ _ hconsistent ↦ hconsistent.1
  exact Run.always_congr hiff hstep (agree_fresh durable)

def buyIntent (limitPrice : Option ℚ) : OrderIntent ℚ where
  orderIntentId := "oi_1"
  symbol := "600000.SH"
  side := .buy
  quantity := 100
  tradeDate := "2026-01-05"
  limitPrice
  referencePrice := none
  lineage := .empty

/-- The moment of a call whose write ends like this. -/
def momentOf (write : Write) : Moment where
  now := "2026-01-05T01:30:00+00:00"
  recordedAt := "2026-01-05T01:30:00+00:00"
  write

omit [Hashing N] in
theorem storable_created {now : String} (h : order.lineage.NoEmptyLink) :
    (book.createdEvent now order).Storable where
  sequence := Number.toInt_natCast _
  fill _ hfill := by cases hfill
  riskDecision _ hdecision := by cases hdecision
  lineage := h

/-- The call that opens the intent, with a write that ends like this. -/
def buyInput (write : Write) (limitPrice : Option ℚ) : Moment × MirrorCall ℚ :=
  (momentOf write, .opening (buyIntent limitPrice) none (some "2026-01-05"))

theorem noEmptyLink_buy (limitPrice : Option ℚ) :
    (Order.fromIntent (buyIntent limitPrice) none).lineage.NoEmptyLink := by
  have hid : some (orderIdOf (N := ℚ) (buyIntent limitPrice).orderIntentId none) ≠ some "" :=
    fun h ↦ Hashing.contentId_ne_empty _ _ (Option.some.inj h)
  exact (Lineage.noEmptyLink_empty.derive hid).derive (by simp)

theorem recordable_buy (limitPrice : Option ℚ) :
    Recordable (fresh true) (buyInput .landed limitPrice) := by
  intro order event hadvance
  obtain ⟨rfl, rfl⟩ := MirrorCall.advance_opening hadvance
  refine ⟨rfl, ?_, fun _ ↦ ⟨rfl, Entry.plain_of_decision ?_⟩⟩
  · rintro _ ⟨⟩
    exact storable_created (noEmptyLink_buy limitPrice)
  · rintro _ decision ⟨⟩ hdecision
    cases hdecision

/-- A disk that is full leaves an order in the book that the ledger has never seen. -/
theorem not_consistent_fullDisk :
    ¬ Run.Always step Consistent (fresh true)
      [buyInput (.failed "No space left on device") none] := by
  intro hall
  have hrecordable := recordable_of_consistent (agree_fresh true) hall.1
  obtain ⟨-, -, hdurable⟩ := hrecordable _ _ rfl
  cases (hdurable rfl).1

end Mirror

end QuantAgent.Domain
