import QuantAgent.Backtest.Engine
import QuantAgent.Domain.AccountReplay
import QuantAgent.Domain.MirrorReplay
import QuantAgent.Library.Fold

/-!
# What a run records

Every event that a run records advances the book by one event and the ledger by one record.  An
order of a session is opened, approved, submitted and accepted before it is filled or rejected; a
refused intent is opened and rejected.
-/

namespace QuantAgent.Backtest

open Library Domain

variable [Hashing ℚ]

def Grows (mirror : Mirror ℚ) (call : MirrorCall ℚ) (after : Mirror ℚ) (order : Domain.Order ℚ)
    (event : OrderEvent ℚ) : Prop :=
  ∃ (moment : Moment) (kept : Option (OrderEvent ℚ)),
    call.advance mirror.book moment.now = some (order, event) ∧
      storedEvent (some event) = some kept ∧
      after = ⟨mirror.book.push order event, mirror.ledger.push
        (mirror.ledger.recordOf moment.recordedAt (call.entry event) kept)⟩

variable {mirror after : Mirror ℚ} {call : MirrorCall ℚ} {order updated : Domain.Order ℚ}
  {event : OrderEvent ℚ}

theorem Grows.orders (h : Grows mirror call after order event) :
    after.book.orders = mirror.book.orders.insert event.orderId order := by
  obtain ⟨moment, kept, -, -, rfl⟩ := h
  rfl

theorem grows_of_append {moment : Moment} {ledger : CanonicalLedger ℚ} {record : LedgerRecord ℚ}
    (hadvance : call.advance mirror.book moment.now = some (order, event))
    (happend : mirror.ledger.append moment.recordedAt moment.write (call.entry event) = (ledger,
      .ok record)) :
    Grows mirror call ⟨mirror.book.push order event, ledger⟩ order event := by
  have hok : (mirror.ledger.append moment.recordedAt moment.write (call.entry event)).2 =
      .ok record := by rw [happend]
  obtain ⟨kept, hkept, hrecord, hpush⟩ := CanonicalLedger.append_ok hok
  rw [MirrorCall.entry_event] at hkept
  refine ⟨moment, kept, hadvance, hkept, ?_⟩
  rw [happend] at hpush
  rw [hrecord] at hpush
  exact congrArg (Mirror.mk _) hpush

variable {world : World} {orderId session symbol signalDate : String} {kind : OrderEventType}
  {fill : Option (Fill ℚ)} {reason : Option String} {riskDecision : Option (RiskDecision ℚ)}

theorem record_ok (hget : mirror.book.orders.get? orderId = some order)
    (happly : order.apply kind fill reason = .ok (some updated))
    (h : record world mirror orderId kind fill reason riskDecision session = .ok after) :
    ∃ event : OrderEvent ℚ, event.orderId = orderId ∧ event.lineage = order.lineage ∧ event.fill = fill ∧
      event.eventType = kind ∧ event.riskDecision = riskDecision ∧
      Grows mirror (.event orderId kind fill reason riskDecision (some session)) after updated
        event := by
  let moment := world.moment mirror.book.events.length
  let event : OrderEvent ℚ := ⟨kind, orderId, Number.natCast mirror.book.events.length,
    moment.now, fill, reason, riskDecision, order.lineage⟩
  have hadvance : (MirrorCall.event orderId kind fill reason riskDecision (some session)).advance
      mirror.book moment.now = some (updated, event) := by
    simp only [MirrorCall.advance, hget, happly, event]
  have hbook : mirror.book.apply orderId kind fill reason riskDecision moment.now =
      .ok (mirror.book.push updated event, updated) := by
    simp only [OrderBook.apply, hget, happly]
    rfl
  have hlast : ((mirror.book.push updated event).historyOf orderId).getLast? = some event :=
    @OrderBook.getLast?_historyOf ℚ (mirror.book.push updated event) mirror.book.events event rfl
  refine ⟨event, rfl, rfl, rfl, rfl, rfl, ?_⟩
  simp only [record] at h
  rw [hbook] at h
  simp only [Mirror.recordLast, hlast] at h
  cases happend : mirror.ledger.append moment.recordedAt moment.write
      ⟨some event, some session, none, none⟩ with
  | mk ledger result =>
    cases result with
    | error error =>
      simp only [moment] at happend
      simp only [happend] at h
      cases h
    | ok recorded =>
      simp only [moment] at happend
      simp only [happend] at h
      cases h
      exact grows_of_append hadvance happend

variable {lineage : Lineage} {side : Side} {quantity : ℤ}

theorem openIntent_ok {referencePrice : ℚ}
    (h : openIntent lineage world mirror symbol side quantity signalDate session referencePrice =
      .ok (after, order)) :
    ∃ (intent : OrderIntent ℚ) (event : OrderEvent ℚ), intentFor lineage symbol side quantity signalDate session referencePrice =
        .ok intent ∧ order = Order.fromIntent intent none ∧
      mirror.book.orders.get? order.orderId = none ∧ event.orderId = order.orderId ∧
      event.lineage = order.lineage ∧ event.fill = none ∧ event.eventType = .created ∧
      event.riskDecision = none ∧
      Grows mirror (.opening intent none (some session)) after order event := by
  unfold openIntent at h
  cases hintent : intentFor lineage symbol side quantity signalDate session referencePrice with
  | error error =>
    rw [hintent] at h
    cases h
  | ok intent =>
    rw [hintent] at h
    simp only at h
    let moment := world.moment mirror.book.events.length
    cases hget : mirror.book.orders.get? (Order.fromIntent intent none).orderId with
    | some known =>
      have hopen : mirror.mirrorOpen moment intent none (some session) =
          (mirror, .error (.lineageCollision known.orderId known.status)) := by
        simp [Mirror.mirrorOpen, OrderBook.openOrder, hget]
      rw [hopen] at h
      cases h
    | none =>
      have hadvance : (MirrorCall.opening intent none (some session)).advance mirror.book
          moment.now = some (Order.fromIntent intent none,
            mirror.book.createdEvent moment.now (Order.fromIntent intent none)) := by
        simp only [MirrorCall.advance, hget]
      have hperform := Mirror.perform_of_advance hadvance
      have hopen : mirror.perform moment (.opening intent none (some session)) =
          mirror.mirrorOpen moment intent none (some session) := rfl
      rw [← hopen, hperform] at h
      cases happend : mirror.ledger.append moment.recordedAt moment.write
          ((MirrorCall.opening intent none (some session)).entry
            (mirror.book.createdEvent moment.now (Order.fromIntent intent none))) with
      | mk ledger result =>
        cases result with
        | error error =>
          rw [happend] at h
          cases h
        | ok recorded =>
          rw [happend] at h
          cases h
          exact ⟨intent, _, rfl, rfl, hget, rfl, rfl, rfl, rfl, rfl,
            grows_of_append hadvance happend⟩

omit [Hashing ℚ] in
def acceptedOrder (order : Domain.Order ℚ) : Domain.Order ℚ :=
  ((order.afterEvent .riskApproved none).afterEvent .submitted none).afterEvent .accepted none

def approval (order : Domain.Order ℚ) (decidedAt : String) : RiskDecision ℚ :=
  RiskDecision.create true "fast_engine_pretrade" (.str "tradability+lot+band") (.str "passed")
    "passed upstream constraints" order.lineage "risk_engine" decidedAt

structure Worked (intent : OrderIntent ℚ) (session : String) (mirror after : Mirror ℚ)
    (order : Domain.Order ℚ) : Prop where
  order_eq : order = Order.fromIntent intent none
  new : mirror.book.orders.get? order.orderId = none
  steps : ∃ (opened approved submitted : Mirror ℚ) (decidedAt : String)
      (created approves submits accepts : OrderEvent ℚ),
    Grows mirror (.opening intent none (some session)) opened order created ∧
    Grows opened (.event order.orderId .riskApproved none none (some (approval order decidedAt))
      (some session)) approved (order.afterEvent .riskApproved none) approves ∧
    Grows approved (.event order.orderId .submitted none none none (some session)) submitted
      ((order.afterEvent .riskApproved none).afterEvent .submitted none) submits ∧
    Grows submitted (.event order.orderId .accepted none none none (some session)) after
      (acceptedOrder order) accepts

theorem Grows.get?_self (h : Grows mirror call after order event) :
    after.book.orders.get? event.orderId = some order := by
  rw [h.orders]
  exact Dict.get?_insert_self _ _ _

variable {price : ℚ}

theorem openCanonicalOrder_ok
    (h : openCanonicalOrder lineage world mirror symbol side quantity session price = .ok (after,
      order)) :
    ∃ intent, intentFor lineage symbol side quantity session session price = .ok intent ∧
      Worked intent session mirror after order := by
  unfold openCanonicalOrder at h
  obtain ⟨⟨opened, order'⟩, hopened, h⟩ := Fold.bind_iff.mp h
  simp only at h
  obtain ⟨approved, happroved, h⟩ := Fold.bind_iff.mp h
  obtain ⟨submitted, hsubmitted, h⟩ := Fold.bind_iff.mp h
  obtain ⟨accepted, haccepted, h⟩ := Fold.bind_iff.mp h
  obtain ⟨rfl, rfl⟩ := Prod.mk.inj (Except.ok.inj h)
  obtain ⟨intent, created, hintent, horder, hnew, hid, -, -, -, -, hcreates⟩ := openIntent_ok hopened
  have hpending : order'.status = .pendingRisk := by
    rw [horder]
    rfl
  have happly : order'.apply .riskApproved none none =
      .ok (some (order'.afterEvent .riskApproved none)) := by
    refine Order.apply_event rfl (by decide) ?_ none none
    rw [hpending]
    decide
  have hget := hcreates.get?_self
  rw [hid] at hget
  obtain ⟨approves, hid', -, -, -, -, happroves⟩ := record_ok hget happly happroved
  have hget' := happroves.get?_self
  rw [hid'] at hget'
  have happly' : (order'.afterEvent .riskApproved none).apply .submitted none none =
      .ok (some ((order'.afterEvent .riskApproved none).afterEvent .submitted none)) := by
    have hallowed : OrderStatus.submitted ∈ allowedTransitions .approved := by decide
    exact Order.apply_event rfl (by decide) hallowed none none
  obtain ⟨submits, hid'', -, -, -, -, hsubmits⟩ := record_ok hget' happly' hsubmitted
  have hget'' := hsubmits.get?_self
  rw [hid''] at hget''
  have happly'' : ((order'.afterEvent .riskApproved none).afterEvent .submitted none).apply
      .accepted none none = .ok (some (acceptedOrder order')) := by
    have hallowed : OrderStatus.accepted ∈ allowedTransitions .submitted := by decide
    exact Order.apply_event rfl (by decide) hallowed none none
  obtain ⟨accepts, -, -, -, -, -, haccepts⟩ := record_ok hget'' happly'' haccepted
  exact ⟨intent, hintent, horder, hnew, opened, approved, submitted, _, created, approves, submits,
    accepts, hcreates, happroves, hsubmits, haccepts⟩

/-- A recorded event without a fill, or with the first one of its order, advances the order. -/
theorem exists_apply_of_record (hget : mirror.book.orders.get? orderId = some order)
    (hunfilled : order.fills = [])
    (h : record world mirror orderId kind fill reason riskDecision session = .ok after) :
    ∃ updated, order.apply kind fill reason = .ok (some updated) := by
  cases happly : order.apply kind fill reason with
  | error error =>
    simp only [record, OrderBook.apply, hget, happly] at h
    cases h
  | ok result =>
    cases result with
    | some updated => exact ⟨updated, rfl⟩
    | none =>
      unfold Order.apply at happly
      split at happly
      · cases fill with
        | none => cases happly
        | some execution =>
          have hnone : order.findFill execution.executionId = none := by
            rw [Order.findFill, hunfilled, List.find?_nil]
          simp only [Order.applyFill, hnone] at happly
          split at happly
          · cases happly
          · split at happly
            · cases happly
            · split at happly <;> cases happly
      · split at happly
        · cases happly
        · split at happly <;> cases happly

def refusal (order : Domain.Order ℚ) (reason decidedAt : String) : RiskDecision ℚ :=
  RiskDecision.create false reason (.str "a-share tradability") (.str reason) reason order.lineage
    "risk_engine" decidedAt

theorem recordRejectedIntent_ok {reason : String}
    (h : recordRejectedIntent lineage world mirror symbol side quantity session price reason = .ok
      after) :
    ∃ (intent : OrderIntent ℚ) (opened : Mirror ℚ) (created : OrderEvent ℚ) (decidedAt : String)
      (updated : Domain.Order ℚ) (rejects : OrderEvent ℚ),
      intentFor lineage symbol side (if quantity ≤ 0 then 1 else quantity)
        (session ++ "-rej-" ++ reason) session price = .ok intent ∧
      Grows mirror (.opening intent none (some session)) opened (Order.fromIntent intent none)
        created ∧
      opened.book.orders.get? (Order.fromIntent intent none).orderId =
        some (Order.fromIntent intent none) ∧
      Grows opened (.event (Order.fromIntent intent none).orderId .riskRejected none (some reason)
        (some (refusal (Order.fromIntent intent none) reason decidedAt)) (some session)) after
        updated rejects := by
  obtain ⟨⟨opened, order⟩, hopens, hrejects⟩ := Fold.bind_iff.mp h
  obtain ⟨intent, created, hintent, rfl, -, hid, -, -, -, -, hcreates⟩ := openIntent_ok hopens
  have hget := hcreates.get?_self
  rw [hid] at hget
  obtain ⟨updated, happly⟩ := exists_apply_of_record hget rfl hrejects
  obtain ⟨rejects, -, -, -, -, -, hgrows⟩ := record_ok hget happly hrejects
  exact ⟨intent, opened, created, _, updated, rejects, hintent, hcreates, hget, hgrows⟩

structure InMemory (mirror : Mirror ℚ) : Prop where
  durable : mirror.ledger.durable = false
  writable : mirror.ledger.writeFailure = none

omit [Hashing ℚ] in
theorem inMemory_fresh : InMemory (Mirror.fresh false) := ⟨rfl, rfl⟩

omit [Hashing ℚ] in
/-- Of exact numbers something is always kept. -/
theorem exists_stored (event : OrderEvent ℚ) : ∃ kept, storedEvent (some event) = some kept := by
  have hfill : ∃ kept, storedFill event.fill = some kept := by
    cases event.fill with
    | none => exact ⟨none, rfl⟩
    | some fill => exact ⟨_, rfl⟩
  obtain ⟨kept, hkept⟩ := hfill
  simp [storedEvent, OrderEvent.stored, hkept]

theorem exists_append {ledger : CanonicalLedger ℚ} (hdurable : ledger.durable = false)
    (hwritable : ledger.writeFailure = none) (recordedAt : String) (write : Write) {entry : Entry ℚ}
    (hevent : entry.event = some event) :
    ∃ record, ledger.append recordedAt write entry = (ledger.push record, .ok record) := by
  rcases ledger.append_cases recordedAt write entry with
    ⟨failure, hfailure, -⟩ | ⟨-, hnone, -⟩ | ⟨kept, -, -, hrest⟩
  · rw [hwritable] at hfailure
    cases hfailure
  · obtain ⟨kept, hkept⟩ := exists_stored event
    rw [hevent, hkept] at hnone
    cases hnone
  · rcases hrest with ⟨hfile, -⟩ | ⟨error, hfile, -⟩ | ⟨-, happend⟩
    · rw [hdurable] at hfile
      cases hfile
    · rw [hdurable] at hfile
      cases hfile
    · exact ⟨_, happend⟩

theorem exists_record (h : InMemory mirror) (world : World)
    (hget : mirror.book.orders.get? orderId = some order)
    (happly : order.apply kind fill reason = .ok (some updated))
    (riskDecision : Option (RiskDecision ℚ)) (session : String) :
    ∃ after, record world mirror orderId kind fill reason riskDecision session = .ok after ∧
      InMemory after ∧ after.book.orders = mirror.book.orders.insert orderId updated := by
  let moment := world.moment mirror.book.events.length
  let event : OrderEvent ℚ := ⟨kind, orderId, Number.natCast mirror.book.events.length,
    moment.now, fill, reason, riskDecision, order.lineage⟩
  have hbook : mirror.book.apply orderId kind fill reason riskDecision moment.now =
      .ok (mirror.book.push updated event, updated) := by
    simp only [OrderBook.apply, hget, happly]
    rfl
  have hlast : ((mirror.book.push updated event).historyOf orderId).getLast? = some event :=
    @OrderBook.getLast?_historyOf ℚ (mirror.book.push updated event) mirror.book.events event rfl
  obtain ⟨recorded, happend⟩ := exists_append h.durable h.writable moment.recordedAt moment.write
    (show (⟨some event, some session, none, none⟩ : Entry ℚ).event = some event from rfl)
  refine ⟨⟨mirror.book.push updated event, mirror.ledger.push recorded⟩, ?_, ⟨h.durable, h.writable⟩,
    rfl⟩
  simp only [record]
  rw [hbook]
  simp only [Mirror.recordLast, hlast]
  simp only [moment] at happend
  simp only [happend]

variable {intent : OrderIntent ℚ}

theorem exists_openIntent (h : InMemory mirror) (world : World)
    (hintent : intentFor lineage symbol side quantity signalDate session price = .ok intent)
    (hnew : mirror.book.orders.get? (Order.fromIntent intent none).orderId = none) :
    ∃ after, openIntent lineage world mirror symbol side quantity signalDate session price =
        .ok (after, Order.fromIntent intent none) ∧ InMemory after ∧
      after.book.orders = mirror.book.orders.insert (Order.fromIntent intent none).orderId
        (Order.fromIntent intent none) := by
  let moment := world.moment mirror.book.events.length
  let created := mirror.book.createdEvent moment.now (Order.fromIntent intent none)
  have hadvance : (MirrorCall.opening intent none (some session)).advance mirror.book moment.now =
      some (Order.fromIntent intent none, created) := by
    simp only [MirrorCall.advance, hnew, created]
  have hperform := Mirror.perform_of_advance hadvance
  have hopen : mirror.perform moment (.opening intent none (some session)) =
      mirror.mirrorOpen moment intent none (some session) := rfl
  obtain ⟨recorded, happend⟩ := exists_append h.durable h.writable moment.recordedAt moment.write
    ((MirrorCall.opening intent none (some session)).entry_event created)
  rw [happend, hopen] at hperform
  refine ⟨⟨mirror.book.push (Order.fromIntent intent none) created, mirror.ledger.push recorded⟩,
    ?_, ⟨h.durable, h.writable⟩, rfl⟩
  simp only [openIntent, hintent]
  simp only [moment] at hperform
  rw [hperform]

theorem exists_openCanonicalOrder (h : InMemory mirror) (world : World)
    (hintent : intentFor lineage symbol side quantity session session price = .ok intent)
    (hnew : mirror.book.orders.get? (Order.fromIntent intent none).orderId = none) :
    ∃ after, openCanonicalOrder lineage world mirror symbol side quantity session price =
        .ok (after, Order.fromIntent intent none) ∧ InMemory after ∧
      after.book.orders.get? (Order.fromIntent intent none).orderId =
        some (acceptedOrder (Order.fromIntent intent none)) ∧
      ∀ orderId, orderId ≠ (Order.fromIntent intent none).orderId →
        after.book.orders.get? orderId = mirror.book.orders.get? orderId := by
  let order := Order.fromIntent intent none
  obtain ⟨opened, hopened, hmemory, horders⟩ := exists_openIntent h world hintent hnew
  have hget : opened.book.orders.get? order.orderId = some order := by
    rw [horders]
    exact Dict.get?_insert_self _ _ _
  have happly : order.apply .riskApproved none none =
      .ok (some (order.afterEvent .riskApproved none)) := by
    have hallowed : OrderStatus.approved ∈ allowedTransitions .pendingRisk := by decide
    exact Order.apply_event rfl (by decide) hallowed none none
  obtain ⟨approved, happroved, hmemory', horders'⟩ := exists_record hmemory world hget happly
    (some (approval order (world.decidedAt opened.book.events.length))) session
  have hget' : approved.book.orders.get? order.orderId =
      some (order.afterEvent .riskApproved none) := by
    rw [horders']
    exact Dict.get?_insert_self _ _ _
  have happly' : (order.afterEvent .riskApproved none).apply .submitted none none =
      .ok (some ((order.afterEvent .riskApproved none).afterEvent .submitted none)) := by
    have hallowed : OrderStatus.submitted ∈ allowedTransitions .approved := by decide
    exact Order.apply_event rfl (by decide) hallowed none none
  obtain ⟨submitted, hsubmitted, hmemory'', horders''⟩ := exists_record hmemory' world hget' happly'
    none session
  have hget'' : submitted.book.orders.get? order.orderId =
      some ((order.afterEvent .riskApproved none).afterEvent .submitted none) := by
    rw [horders'']
    exact Dict.get?_insert_self _ _ _
  have happly'' : ((order.afterEvent .riskApproved none).afterEvent .submitted none).apply
      .accepted none none = .ok (some (acceptedOrder order)) := by
    have hallowed : OrderStatus.accepted ∈ allowedTransitions .submitted := by decide
    exact Order.apply_event rfl (by decide) hallowed none none
  obtain ⟨accepted, haccepted, hlast, hfinal⟩ := exists_record hmemory'' world hget''
    happly'' none session
  refine ⟨accepted, ?_, hlast, ?_, ?_⟩
  · unfold openCanonicalOrder
    refine Fold.bind_iff.mpr ⟨_, hopened, ?_⟩
    refine Fold.bind_iff.mpr ⟨approved, happroved, ?_⟩
    refine Fold.bind_iff.mpr ⟨submitted, hsubmitted, ?_⟩
    exact Fold.bind_iff.mpr ⟨accepted, haccepted, rfl⟩
  · rw [hfinal]
    exact Dict.get?_insert_self _ _ _
  · intro orderId hother
    rw [hfinal, Dict.get?_insert_of_ne _ hother, horders'', Dict.get?_insert_of_ne _ hother,
      horders', Dict.get?_insert_of_ne _ hother, horders, Dict.get?_insert_of_ne _ hother]

omit [Hashing ℚ] in
/-- An accepted order takes its first fill, up to its quantity. -/
theorem apply_accepted_fill [Hashing ℚ] (order : Domain.Order ℚ) (hnone : order.fills = [])
    (hzero : order.filledQuantity = 0) {fill : Fill ℚ} (hroom : fill.quantity ≤ order.quantity)
    (kind : OrderEventType) (hkind : kind.isExecution = true) :
    (acceptedOrder order).apply kind (some fill) none =
      .ok (some ((acceptedOrder order).afterFill fill)) := by
  refine (Order.apply_execution_iff hkind).mpr ⟨⟨?_, rfl, ?_, ?_⟩, rfl⟩
  · have hfills : (acceptedOrder order).fills = [] := hnone
    rw [Order.findFill, hfills, List.find?_nil]
  · have hfilled : (acceptedOrder order).filledQuantity = 0 := hzero
    have hquantity : (acceptedOrder order).quantity = order.quantity := rfl
    rw [hfilled, hquantity]
    simpa using hroom
  · have hallowed : OrderStatus.filled ∈ allowedTransitions .accepted := by decide
    have hallowed' : OrderStatus.partiallyFilled ∈ allowedTransitions .accepted := by decide
    unfold Order.afterFill
    simp only
    split
    · exact hallowed
    · exact hallowed'

omit [Hashing ℚ] in
theorem exists_intentFor [Hashing ℚ] (lineage : Lineage) (symbol : String) (side : Side)
    (hquantity : 0 < quantity) (signalDate session : String) (price : ℚ) :
    ∃ intent, intentFor lineage symbol side quantity signalDate session price = .ok intent ∧
      intent.quantity = quantity := by
  have hless : Arithmetic.less (Number.zero : ℚ) (quantity : ℚ) = true :=
    decide_eq_true (Int.cast_pos.mpr hquantity)
  cases hintent : intentFor lineage symbol side quantity signalDate session price with
  | error error =>
    simp only [intentFor, OrderIntent.create, hless, if_true] at hintent
    cases hintent
  | ok intent =>
    simp only [intentFor, OrderIntent.create, hless, if_true] at hintent
    refine ⟨intent, rfl, ?_⟩
    rw [← Except.ok.inj hintent]
    simp only [rat_toInt, truncate_intCast]

theorem orderId_ne_of_session {session' : String} {quantity' : ℤ} {price' : ℚ}
    {intent' : OrderIntent ℚ} (hsessions : session ≠ session')
    (h : intentFor lineage symbol side quantity session session price = .ok intent)
    (h' : intentFor lineage symbol side quantity' session' session' price' = .ok intent') :
    (Order.fromIntent intent none).orderId ≠ (Order.fromIntent intent' none).orderId := by
  intro hid
  have hintents := Hashing.contentId_injective (N := ℚ) hid
  simp only [shown, shownMembers, Json.obj.injEq, List.cons.injEq, Prod.mk.injEq, Json.str.injEq,
    true_and, and_true] at hintents
  unfold intentFor OrderIntent.create at h h'
  split at h
  · split at h'
    · cases h
      cases h'
      have hparts := Hashing.contentId_injective (N := ℚ) hintents
      simp only [shown, shownMembers, shown_optionalStr, Json.obj.injEq, List.cons.injEq,
        Prod.mk.injEq, Json.str.injEq, true_and, and_true] at hparts
      exact hsessions hparts.2.2.2
    · cases h'
  · cases h

namespace EngineState

variable {config : BacktestConfig} {world : World} {state next : EngineState}
  {order : Domain.Order ℚ} {fillDate symbol : String} {release : Option String} {price : ℚ}
  {fill : FillModelResult}

/-- Everything a purchase can do behind its order. -/
theorem buy_ok (h : state.buy config world order fillDate release symbol price fill = .ok next) :
    ∃ shares mirror, boughtShares config state.cash fill.filledQuantity fill.fillPrice = .ok shares ∧
      ((shares ≤ 0 ∧
          closeCanonicalOrder world state.mirror order "insufficient_cash" fillDate = .ok mirror ∧
          next = { state.reject fillDate symbol "insufficient_cash" false with mirror }) ∨
        (0 < shares ∧
          recordCanonicalFill world state.mirror order
            (buyFill config order symbol shares fill.fillPrice price fillDate) fillDate =
              .ok mirror ∧
          next = { state.executeBuy config symbol shares fill.fillPrice
              (buyFill config order symbol shares fill.fillPrice price fillDate) fillDate with
            releaseDates := Function.update state.releaseDates symbol release
            mirror })) := by
  unfold buy at h
  obtain ⟨shares, hshares, h⟩ := Fold.bind_iff.mp h
  split at h
  · rename_i hnone
    obtain ⟨mirror, hmirror, hnext⟩ := Fold.bind_iff.mp h
    exact ⟨shares, mirror, hshares, .inl ⟨hnone, hmirror, (Except.ok.inj hnext).symm⟩⟩
  · rename_i hsome
    obtain ⟨mirror, hmirror, hnext⟩ := Fold.bind_iff.mp h
    exact ⟨shares, mirror, hshares, .inr ⟨not_le.mp hsome, hmirror, (Except.ok.inj hnext).symm⟩⟩

/-- Everything a sale can do behind its order. -/
theorem sell_ok (h : state.sell config world order fillDate symbol price fill = .ok next) :
    ∃ mirror, (soldShares (state.positions symbol) fill.filledQuantity fill.fillPrice ≤ 0 ∧
        closeCanonicalOrder world state.mirror order "no_sellable_inventory" fillDate =
          .ok mirror ∧
        next = { state.withPosition symbol ((state.positions symbol).sell fill.filledQuantity) with
          mirror }) ∨
      (0 < soldShares (state.positions symbol) fill.filledQuantity fill.fillPrice ∧
        recordCanonicalFill world state.mirror order
          (sellFill config order symbol
            (soldShares (state.positions symbol) fill.filledQuantity fill.fillPrice)
            fill.fillPrice price fillDate) fillDate = .ok mirror ∧
        next = { (state.withPosition symbol
              ((state.positions symbol).sell fill.filledQuantity)).executeSell config
            (soldShares (state.positions symbol) fill.filledQuantity fill.fillPrice) fill.fillPrice
            (sellFill config order symbol
              (soldShares (state.positions symbol) fill.filledQuantity fill.fillPrice)
              fill.fillPrice price fillDate) fillDate with
          mirror }) := by
  unfold sell at h
  simp only at h
  split at h
  · rename_i hnone
    obtain ⟨mirror, hmirror, hnext⟩ := Fold.bind_iff.mp h
    exact ⟨mirror, .inl ⟨hnone, hmirror, (Except.ok.inj hnext).symm⟩⟩
  · rename_i hsome
    obtain ⟨mirror, hmirror, hnext⟩ := Fold.bind_iff.mp h
    exact ⟨mirror, .inr ⟨not_le.mp hsome, hmirror, (Except.ok.inj hnext).symm⟩⟩

variable {quantity shares : ℤ}

theorem carryOut_refuse {side : Side} {reason : String} {oneWordBoard : Bool}
    (h : state.carryOut config world fillDate release symbol (.refuse side quantity price reason
      oneWordBoard) = .ok next) :
    ∃ mirror, recordRejectedIntent config.lineage world state.mirror symbol side quantity fillDate
        price reason = .ok mirror ∧
      next = { state.reject fillDate symbol reason oneWordBoard with mirror } := by
  obtain ⟨mirror, hmirror, hnext⟩ := Fold.bind_iff.mp h
  exact ⟨mirror, hmirror, (Except.ok.inj hnext).symm⟩

theorem carryOut_trade {side : Side}
    (h : state.carryOut config world fillDate release symbol (.trade side quantity price fill) =
      .ok next) :
    ∃ mirror order, openCanonicalOrder config.lineage world state.mirror symbol side quantity
        fillDate price = .ok (mirror, order) ∧
      match side with
      | .buy => EngineState.buy config world { state with mirror } order fillDate release symbol
          price fill = .ok next
      | .sell => EngineState.sell config world { state with mirror } order fillDate symbol price
          fill = .ok next := by
  obtain ⟨⟨mirror, order⟩, hopened, hnext⟩ := Fold.bind_iff.mp h
  refine ⟨mirror, order, hopened, ?_⟩
  cases side <;> exact hnext

/-- In memory, a purchase that is paid for, is no larger than its order and is new to the book is
carried out, and touches no other order. -/
theorem exists_carryOut_newBuy (h : InMemory state.mirror) (world : World) {intent : OrderIntent ℚ}
    (hintent : intentFor config.lineage symbol .buy quantity fillDate fillDate price = .ok intent)
    (hsize : intent.quantity = quantity)
    (hnew : state.mirror.book.orders.get? (Order.fromIntent intent none).orderId = none)
    (hshares : boughtShares config state.cash fill.filledQuantity fill.fillPrice = .ok shares)
    (hpos : 0 < shares) (hroom : shares ≤ quantity) (release : Option String) :
    ∃ next, state.carryOut config world fillDate release symbol (.trade .buy quantity price fill) =
        .ok next ∧ InMemory next.mirror ∧
      ∀ orderId, orderId ≠ (Order.fromIntent intent none).orderId →
        next.mirror.book.orders.get? orderId = state.mirror.book.orders.get? orderId := by
  let order := Order.fromIntent intent none
  obtain ⟨mirror, hopened, hmemory, hget, hothers⟩ := exists_openCanonicalOrder h world hintent hnew
  let executed := buyFill config order symbol shares fill.fillPrice price fillDate
  have hlarge : executed.quantity ≤ order.quantity := by
    have horder : order.quantity = intent.quantity := rfl
    rw [horder, hsize]
    exact Int.cast_le.mpr hroom
  have happly := apply_accepted_fill order rfl rfl hlarge
    (if order.quantity ≤ executed.quantity then .fill else .partialFill)
    (by split <;> rfl)
  obtain ⟨filled, hfilled, hkept, horders⟩ := exists_record hmemory world hget happly none fillDate
  let next : EngineState := {
    EngineState.executeBuy { state with mirror } config symbol shares fill.fillPrice executed
      fillDate with
    releaseDates := Function.update state.releaseDates symbol release
    mirror := filled }
  have hbuy : EngineState.buy config world { state with mirror } order fillDate release symbol price
      fill = .ok next := by
    refine Fold.bind_iff.mpr ⟨shares, hshares, ?_⟩
    rw [if_neg hpos.not_ge]
    exact Fold.bind_iff.mpr ⟨filled, hfilled, rfl⟩
  refine ⟨next, Fold.bind_iff.mpr ⟨(mirror, order), hopened, hbuy⟩, hkept, ?_⟩
  intro orderId hother
  rw [← hothers orderId hother]
  show filled.book.orders.get? orderId = _
  rw [horders]
  exact Dict.get?_insert_of_ne _ hother _

/-- In memory and on an empty book, a purchase that is paid for and no larger than its order is
carried out. -/
theorem exists_carryOut_buy (h : InMemory state.mirror)
    (hnew : ∀ orderId, state.mirror.book.orders.get? orderId = none) (world : World)
    (hquantity : 0 < quantity)
    (hshares : boughtShares config state.cash fill.filledQuantity fill.fillPrice = .ok shares)
    (hpos : 0 < shares) (hroom : shares ≤ quantity) (fillDate symbol : String)
    (release : Option String) (price : ℚ) :
    ∃ next, state.carryOut config world fillDate release symbol (.trade .buy quantity price fill) =
      .ok next := by
  obtain ⟨intent, hintent, hsize⟩ := exists_intentFor config.lineage symbol .buy hquantity fillDate
    fillDate price
  obtain ⟨next, hnext, -⟩ := exists_carryOut_newBuy h world hintent hsize (hnew _) hshares hpos hroom
    release
  exact ⟨next, hnext⟩

end EngineState

end QuantAgent.Backtest
