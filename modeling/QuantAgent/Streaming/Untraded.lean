import QuantAgent.Backtest.Chain
import QuantAgent.Domain.ExactLedger
import QuantAgent.Streaming.Matching

/-!
# Streams before their first execution

As long as no execution was recorded, the ledger of a stream replays to the account it started with.
Orders that are opened and answered keep it so.
-/

namespace QuantAgent.Streaming

open Library Domain MarketRules

variable [Hashing ℚ]

namespace OrderLifecycle

variable [StreamTexts] {lifecycle other : OrderLifecycle} {notice notice' : Notice}
  {terms terms' : OrderTerms} {intent intent' : OrderIntent ℚ}

theorem exists_intentOf (lifecycle : OrderLifecycle) (notice : Notice) (terms : OrderTerms)
    (hquantity : 0 < truncate terms.quantity) :
    ∃ intent, lifecycle.intentOf notice terms = .ok intent := by
  have hless : Arithmetic.less (Number.zero : ℚ) (truncate terms.quantity : ℚ) = true :=
    decide_eq_true (Int.cast_pos.mpr hquantity)
  simp only [intentOf, OrderIntent.create, hless, if_true]
  exact ⟨_, rfl⟩

theorem intentOf_ok (h : lifecycle.intentOf notice terms = .ok intent) :
    intent.symbol = notice.symbol ∧ intent.side = terms.side ∧
      intent.quantity = truncate terms.quantity ∧
      Number.toInt intent.quantity = intent.quantity ∧ intent.limitPrice = terms.limitPrice := by
  simp only [intentOf, OrderIntent.create] at h
  split at h
  · cases h
    simp only [rat_toInt, truncate_intCast, and_self]
  · cases h

theorem noEmptyLink_intentOf (hlineage : lifecycle.lineage.NoEmptyLink)
    (h : lifecycle.intentOf notice terms = .ok intent) :
    (Order.fromIntent intent none).lineage.NoEmptyLink := by
  have hid : ∀ label parts, some (Hashing.contentId (N := ℚ) label parts) ≠ some "" :=
    fun label parts hempty ↦ Hashing.contentId_ne_empty label parts (Option.some.inj hempty)
  simp only [intentOf, OrderIntent.create] at h
  split at h
  · cases h
    exact (((hlineage.derive (hid _ _)).derive (hid _ _)).derive (hid _ _)).derive (by simp)
  · cases h

/-- Within a session, orders with two client ids are two. -/
theorem orderId_ne (hsession : notice.session = notice'.session)
    (hids : terms.clientOrderId ≠ terms'.clientOrderId)
    (h : lifecycle.intentOf notice terms = .ok intent)
    (h' : other.intentOf notice' terms' = .ok intent') :
    (Order.fromIntent intent none).orderId ≠ (Order.fromIntent intent' none).orderId := by
  intro hid
  have hintents := Hashing.contentId_injective (N := ℚ) hid
  simp only [shown, shownMembers, Json.obj.injEq, List.cons.injEq, Prod.mk.injEq, Json.str.injEq,
    true_and, and_true] at hintents
  simp only [intentOf, OrderIntent.create] at h h'
  split at h
  · split at h'
    · cases h
      cases h'
      have hparts := Hashing.contentId_injective (N := ℚ) hintents
      simp only [shown, shownMembers, shown_optionalStr, Json.obj.injEq, List.cons.injEq,
        Prod.mk.injEq, true_and, and_true] at hparts
      -- the two intents name the same signal, and a signal is dated with the client id
      have hsignals := Hashing.contentId_injective (N := ℚ)
        (show Hashing.contentId (N := ℚ) "sig" _ = Hashing.contentId "sig" _ by
          simpa [Signal.create, optionalStr] using hparts.2.2.2.1)
      simp only [shown, shownMembers, Json.obj.injEq, List.cons.injEq, Prod.mk.injEq,
        Json.str.injEq, true_and, and_true] at hsignals
      have hdates := hsignals.2.2.2
      rw [hsession, String.append_right_inj] at hdates
      exact hids hdates
    · cases h'
  · cases h

end OrderLifecycle

/-- The chain of a life cycle verifies, can be written in memory, and books nothing. -/
structure Untraded (lifecycle : OrderLifecycle) : Prop where
  chained : Backtest.Chained lifecycle.mirror
  unbooked : bookings lifecycle.mirror.ledger.records = []
  writable : lifecycle.mirror.ledger.writeFailure = none
  memory : lifecycle.mirror.ledger.durable = false

theorem untraded_fresh (lineage : Lineage) (initialCash : ℚ) :
    Untraded (.fresh false lineage initialCash) :=
  ⟨Backtest.chained_fresh false, rfl, rfl, rfl⟩

namespace Untraded

variable {lifecycle : OrderLifecycle} {orderId : String} {order : Order ℚ}

section

variable (h : Untraded lifecycle)
include h

theorem account :
    lifecycle.account = .ok (.opening lifecycle.initialCash) := by
  obtain ⟨book, hbook, -⟩ := h.chained.replay ""
  have hbooked : (AccountState.opening lifecycle.initialCash).bookAll
      (bookings lifecycle.mirror.ledger.records) = .ok (.opening lifecycle.initialCash) := by
    rw [h.unbooked]
    rfl
  have hreplay := CanonicalLedger.replay_of_settled h.chained.linked h.chained.settled hbook hbooked
  simp only [OrderLifecycle.account, hreplay]

theorem writes (moment : Moment) :
    lifecycle.mirror.ledger.Writes moment.write :=
  ⟨h.writable, fun hdurable ↦ absurd (h.memory.symm.trans hdurable) (by decide)⟩

theorem mirrored (clock : ℕ → Moment) (session : String) (kind : OrderEventType)
    (reason : Option String) (hget : lifecycle.mirror.book.orders.get? orderId = some order)
    (hclean : order.lineage.NoEmptyLink) (hkind : kind.isExecution = false)
    (hallowed : kind.targetStatus ∈ allowedTransitions order.status)
    (hreject : kind.targetStatus ≠ .rejected) :
    ∃ mirror, lifecycle.mirrored clock orderId kind none reason session =
        ({ lifecycle with mirror }, .ok ()) ∧
      Untraded { lifecycle with mirror } ∧
      mirror.book.orders =
        lifecycle.mirror.book.orders.insert orderId (order.afterEvent kind reason) := by
  let moment := clock lifecycle.mirror.book.events.length
  let call : MirrorCall ℚ := .event orderId kind none reason none (some session)
  let event : OrderEvent ℚ := ⟨kind, orderId, Number.natCast lifecycle.mirror.book.events.length,
    moment.now, none, reason, none, order.lineage⟩
  have hadvance : call.advance lifecycle.mirror.book moment.now =
      some (order.afterEvent kind reason, event) :=
    Mirror.advance_event moment.now (some session) hget hkind hallowed
      fun hrejected ↦ absurd hrejected hreject
  have hplain : (call.entry event).Plain := by
    apply Entry.plain_of_decision
    rintro _ decision ⟨⟩ hdecision
    cases hdecision
  have hperform := Mirror.perform_of_writes hadvance hplain (h.writes moment)
  have hgrows : Backtest.Grows lifecycle.mirror call
      ⟨lifecycle.mirror.book.push (order.afterEvent kind reason) event, lifecycle.mirror.ledger.push
        (lifecycle.mirror.ledger.exactRecord moment.recordedAt (call.entry event))⟩
      (order.afterEvent kind reason) event :=
    ⟨moment, some event.kept, hadvance, storedEvent_exact _, by
      rw [CanonicalLedger.exactRecord, MirrorCall.entry_event]
      rfl⟩
  obtain ⟨hchained, hbookings, horders⟩ := h.chained.event hgrows hget hclean hkind nofun
  refine ⟨_, ?_, ⟨hchained, hbookings.trans h.unbooked, h.writable, h.memory⟩, horders⟩
  have hmirror : lifecycle.mirror.mirrorEvent moment orderId kind none reason none (some session) =
      lifecycle.mirror.perform moment call := rfl
  simp only [OrderLifecycle.mirrored]
  rw [hmirror, hperform]

theorem opened (moment : Moment) (session : String) {intent : OrderIntent ℚ}
    (hnew : lifecycle.mirror.book.orders.get? (Order.fromIntent intent none).orderId = none)
    (hclean : (Order.fromIntent intent none).lineage.NoEmptyLink)
    (hquantity : Number.toInt intent.quantity = intent.quantity) :
    ∃ mirror, lifecycle.mirror.mirrorOpen moment intent none (some session) =
        (mirror, .ok (Order.fromIntent intent none)) ∧
      Untraded { lifecycle with mirror } ∧
      mirror.book.orders = lifecycle.mirror.book.orders.insert
        (Order.fromIntent intent none).orderId (Order.fromIntent intent none) := by
  let call : MirrorCall ℚ := .opening intent none (some session)
  let event := lifecycle.mirror.book.createdEvent moment.now (Order.fromIntent intent none)
  have hadvance : call.advance lifecycle.mirror.book moment.now =
      some (Order.fromIntent intent none, event) := by
    simp only [call, MirrorCall.advance, hnew, event]
  have hplain : (call.entry event).Plain := by
    apply Entry.plain_of_decision
    rintro _ decision ⟨⟩ hdecision
    cases hdecision
  have hperform := Mirror.perform_of_writes hadvance hplain (h.writes moment)
  have hgrows : Backtest.Grows lifecycle.mirror call
      ⟨lifecycle.mirror.book.push (Order.fromIntent intent none) event,
        lifecycle.mirror.ledger.push
          (lifecycle.mirror.ledger.exactRecord moment.recordedAt (call.entry event))⟩
      (Order.fromIntent intent none) event :=
    ⟨moment, some event.kept, hadvance, storedEvent_exact _, by
      rw [CanonicalLedger.exactRecord, MirrorCall.entry_event]
      rfl⟩
  obtain ⟨hchained, hbookings, horders⟩ := h.chained.opened hgrows hclean hquantity
  exact ⟨_, hperform, ⟨hchained, hbookings.trans h.unbooked, h.writable, h.memory⟩, horders⟩

theorem submitted (clock : ℕ → Moment) (session : String)
    (hget : lifecycle.mirror.book.orders.get? orderId = some order)
    (hclean : order.lineage.NoEmptyLink) (hcreated : order.status = .pendingRisk) :
    ∃ mirror, lifecycle.mirroredAll clock orderId session
          [(.riskApproved, none), (.submitted, none)] = ({ lifecycle with mirror }, .ok ()) ∧
      Untraded { lifecycle with mirror } ∧
      mirror.book.orders = lifecycle.mirror.book.orders.insert orderId
        ((order.afterEvent .riskApproved none).afterEvent .submitted none) := by
  obtain ⟨approving, happroving, happroved, horders⟩ := h.mirrored clock session
    .riskApproved none hget hclean rfl (by rw [hcreated]; decide) (by decide)
  have hget' : approving.book.orders.get? orderId = some (order.afterEvent .riskApproved none) := by
    rw [horders, Dict.get?_insert_self]
  obtain ⟨mirror, hsubmitting, hsubmitted, horders'⟩ := happroved.mirrored clock session
    .submitted none hget' hclean rfl
    (show OrderStatus.submitted ∈ allowedTransitions .approved by decide) (by decide)
  refine ⟨mirror, ?_, hsubmitted, ?_⟩
  · simp only [OrderLifecycle.mirroredAll, happroving, hsubmitting]
  · rw [horders', horders, Dict.insert_insert]

end

variable [StreamTexts] {notice : Notice} {terms : OrderTerms} {intent : OrderIntent ℚ}

theorem onOrder (h : Untraded lifecycle) (clock : ℕ → Moment)
    (hintent : lifecycle.intentOf notice terms = .ok intent)
    (hnew : lifecycle.mirror.book.orders.get? (Order.fromIntent intent none).orderId = none)
    (hclean : (Order.fromIntent intent none).lineage.NoEmptyLink)
    (hquantity : Number.toInt intent.quantity = intent.quantity) :
    ∃ after, lifecycle.onOrder clock notice terms = (after, .ok ()) ∧ Untraded after ∧
      after.mirror.book.orders = lifecycle.mirror.book.orders.insert
        (Order.fromIntent intent none).orderId
        (((Order.fromIntent intent none).afterEvent .riskApproved none).afterEvent .submitted none) ∧
      after.lineage = lifecycle.lineage ∧ after.initialCash = lifecycle.initialCash ∧
      after.canonicalIds = lifecycle.canonicalIds.insert terms.clientOrderId
        (Order.fromIntent intent none).orderId := by
  obtain ⟨opening, hopening, hopened, horders⟩ := h.opened
    (clock lifecycle.mirror.book.events.length) notice.session hnew hclean hquantity
  let routed : OrderLifecycle := { lifecycle with
    mirror := opening
    canonicalIds := lifecycle.canonicalIds.insert terms.clientOrderId
      (Order.fromIntent intent none).orderId
    sessions := lifecycle.sessions.insert terms.clientOrderId notice.session }
  have hrouted : Untraded routed :=
    ⟨hopened.chained, hopened.unbooked, hopened.writable, hopened.memory⟩
  have hknown : routed.mirror.book.orders.get? (Order.fromIntent intent none).orderId =
      some (Order.fromIntent intent none) := by
    rw [show routed.mirror.book.orders = _ from horders, Dict.get?_insert_self]
  obtain ⟨mirror, hsubmitting, hsubmitted, horders'⟩ := hrouted.submitted clock
    notice.session hknown hclean rfl
  refine ⟨{ routed with mirror }, ?_, hsubmitted, ?_, rfl, rfl, rfl⟩
  · simp only [OrderLifecycle.onOrder, hintent, hopening]
    exact hsubmitting
  · rw [horders', show routed.mirror.book.orders = _ from horders, Dict.insert_insert]

omit [StreamTexts] in
theorem onCallback (h : Untraded lifecycle) (clock : ℕ → Moment) {clientOrderId canonicalId : String}
    (hroute : lifecycle.canonicalIds.get? clientOrderId = some canonicalId)
    (hget : lifecycle.mirror.book.orders.get? canonicalId = some order)
    (hclean : order.lineage.NoEmptyLink) (hsubmitted : order.status = .submitted) :
    ∃ mirror, lifecycle.onCallback clock clientOrderId .accepted none =
        ({ lifecycle with mirror }, .ok ()) ∧
      Untraded { lifecycle with mirror } ∧
      mirror.book.orders = lifecycle.mirror.book.orders.insert canonicalId
        (order.afterEvent .accepted none) := by
  obtain ⟨mirror, hmirrored, hafter⟩ := h.mirrored clock
    ((lifecycle.sessions.get? clientOrderId).getD "") .accepted none hget hclean rfl
    (by rw [hsubmitted]; decide) (by decide)
  refine ⟨mirror, ?_, hafter⟩
  simp only [OrderLifecycle.onCallback, OrderLifecycle.resolve, hroute]
  exact hmirrored

end Untraded

/-- The bus once an event went through it and nothing else waited. -/
def EventBus.passed [TextDigest] (bus : EventBus) (event : MarketEvent) : EventBus where
  heap := []
  emitted := bus.emitted + 1
  digest := TextDigest.hexdigest (bus.digest ++ event.eventId)
  last := some event
  seen := event.eventId :: bus.seen
  allowDuplicates := bus.allowDuplicates
  draining := true
  frontier := some ⟨event.times.eventTime⟩

def EventBus.Reaches (bus : EventBus) (event : MarketEvent) : Prop :=
  ∀ frontier ∈ bus.frontier, event.times.eventTime.less frontier.decisionTime = false

namespace Stream

section Publishing

variable [StreamTexts]

def holding (stream : Stream) (notice : Notice) : Stream where
  config := stream.config
  lifecycle := stream.lifecycle
  bus := { stream.bus with
    heap := stream.bus.heap ++ [notice.event]
    seen := notice.event.eventId :: stream.bus.seen }
  notices := stream.notices ++ [notice]
  executions := stream.executions

omit [Hashing ℚ] in
theorem publish_of_allowed (stream : Stream) {notice : Notice}
    (hallowed : stream.bus.refusal notice.event = none) :
    stream.publish notice = (stream.holding notice, .ok ()) := by
  simp only [publish, EventBus.publish, hallowed, holding]

end Publishing

variable [StreamTexts] [Platform] [TextDigest] {notice : Notice} {terms : OrderTerms}
  {intent : OrderIntent ℚ}

omit [TextDigest] in
/-- A buy order within the limits, or without any, meets no objection. -/
theorem orderRefusal_of_buy (stream : Stream) (limits : Option PriceLimits)
    (hside : terms.side = .buy)
    (hband : band notice terms.board terms.previousClose terms.isSt = .ok limits)
    (hquantity : 0 < roundToLot terms.quantity terms.board .buy terms.isFullLiquidation)
    (hlimit : limitRefusal limits terms.limitPrice = none) :
    stream.orderRefusal notice terms = .ok none := by
  simp only [orderRefusal, hband, hside, Except.bind, bind]
  rw [if_neg (not_le.mpr hquantity), hlimit]

omit [TextDigest] in
/-- An order that trades and can be paid for is filled. -/
theorem tryFill_of_funded (stream : Stream) (notice : Notice) (bar : BarTerms) (order : Order ℚ)
    (limits : Option PriceLimits) {clientOrderId : String}
    (hband : band notice bar.board bar.previousClose bar.isSt = .ok limits)
    (hreached : misses limits order bar = false) (hsize : 0 < tradeSize stream.config order bar)
    (hfunds : stream.fundingShortfall order (tradeSize stream.config order bar)
      (priceOf stream.config limits order bar (tradeSize stream.config order bar))
      (tradingCosts (tradeSize stream.config order bar *
        priceOf stream.config limits order bar (tradeSize stream.config order bar)) order.side
        notice.session stream.config.commissionRate) notice.session = .ok none)
    (hid : stream.clientOrderId order = .ok clientOrderId) :
    stream.tryFill notice bar order =
      { stream with executions := stream.executions + 1 }.publish (fillNotice notice order
        clientOrderId (stream.executions + 1) (tradeSize stream.config order bar)
        (priceOf stream.config limits order bar (tradeSize stream.config order bar))
        (tradingCosts (tradeSize stream.config order bar *
          priceOf stream.config limits order bar (tradeSize stream.config order bar)) order.side
          notice.session stream.config.commissionRate)) := by
  have hid' : ({ stream with executions := stream.executions + 1 } : Stream).clientOrderId order =
      .ok clientOrderId := hid
  have htraded : ¬ (misses limits order bar = true ∨ tradeSize stream.config order bar ≤ 0) := by
    rw [hreached]
    simpa using hsize
  simp only [tryFill, hband, if_neg htraded, hfunds, hid']

theorem turn_holding (clock : ℕ → Moment) {stream : Stream} (hempty : stream.bus.heap = []) (hreaches : stream.bus.Reaches notice.event)
    (hfresh : ∀ earlier ∈ stream.notices,
      StreamTexts.eventId earlier ≠ StreamTexts.eventId notice) :
    (stream.holding notice).turn clock = react clock { stream with
      bus := stream.bus.passed notice.event
      notices := stream.notices ++ [notice] } notice := by
  have hpass : ({ (stream.holding notice).bus with draining := false } : EventBus).pass none =
      (stream.bus.passed notice.event, .ok (some notice.event)) := by
    simp only [EventBus.pass, holding, hempty, List.nil_append, takeLeast, Option.any_none,
      EventBus.emit]
    cases hfrontier : stream.bus.frontier with
    | none => simp [EventBus.passed]
    | some frontier =>
      have hnot := hreaches frontier hfrontier
      simp [DecisionFrontier.advancedTo, hnot, EventBus.passed]
  have hfind : (stream.notices ++ [notice]).find?
      (fun earlier ↦ StreamTexts.eventId earlier = notice.event.eventId) = some notice := by
    have hearlier : stream.notices.find?
        (fun earlier ↦ StreamTexts.eventId earlier = notice.event.eventId) = none :=
      List.find?_eq_none.mpr fun earlier hearlier hsame ↦
        hfresh earlier hearlier (of_decide_eq_true hsame)
    rw [List.find?_append, hearlier]
    simp [Notice.event]
  unfold turn
  rw [hpass]
  simp only [holding]
  rw [hfind]

def acceptance (notice : Notice) (terms : OrderTerms) : Notice where
  times := .immediate notice.times.eventTime
  symbol := notice.symbol
  sequence := notice.sequence
  payload := .venueCallback terms.clientOrderId .accepted none

/-- Nothing stands against an order: the bus lets it and its acceptance through, and the venue has
no objection. -/
structure Placeable (bus : EventBus) (notices : List Notice) (notice : Notice)
    (terms : OrderTerms) : Prop where
  payload : notice.payload = .order terms
  empty : bus.heap = []
  allowed : ({ bus with draining := false } : EventBus).refusal notice.event = none
  reaches : bus.Reaches notice.event
  fresh : ∀ earlier ∈ notices, StreamTexts.eventId earlier ≠ StreamTexts.eventId notice
  taken : ∀ stream : Stream, stream.orderRefusal notice terms = .ok none
  answered : (bus.passed notice.event).refusal (acceptance notice terms).event = none
  answerFresh : ∀ earlier ∈ notices ++ [notice],
    StreamTexts.eventId earlier ≠ StreamTexts.eventId (acceptance notice terms)

/-- An order that nothing stands against is accepted within two turns. -/
theorem placed (stream : Stream) (clock : ℕ → Moment) (h : Untraded stream.lifecycle)
    (hplaceable : Placeable stream.bus stream.notices notice terms)
    (hintent : stream.lifecycle.intentOf notice terms = .ok intent)
    (hlineage : stream.lifecycle.lineage.NoEmptyLink)
    (hnew : stream.lifecycle.mirror.book.orders.get? (Order.fromIntent intent none).orderId = none) :
    ∃ lifecycle : OrderLifecycle,
      [.publish notice, .turn, .turn].foldl (step clock) stream =
        { config := stream.config
          lifecycle
          bus := (stream.bus.passed notice.event).passed (acceptance notice terms).event
          notices := stream.notices ++ [notice] ++ [acceptance notice terms]
          executions := stream.executions } ∧
      Untraded lifecycle ∧ lifecycle.lineage = stream.lifecycle.lineage ∧
      lifecycle.initialCash = stream.lifecycle.initialCash ∧
      lifecycle.canonicalIds = stream.lifecycle.canonicalIds.insert terms.clientOrderId
        (Order.fromIntent intent none).orderId ∧
      lifecycle.mirror.book.orders = stream.lifecycle.mirror.book.orders.insert
        (Order.fromIntent intent none).orderId
        (Backtest.acceptedOrder (Order.fromIntent intent none)) := by
  have hclean := OrderLifecycle.noEmptyLink_intentOf hlineage hintent
  have hwhole := (OrderLifecycle.intentOf_ok hintent).2.2.2.1
  obtain ⟨opened, honOrder, hopened, horders, hlineages, hcash, hids⟩ :=
    h.onOrder clock hintent hnew hclean hwhole
  let counted : OrderLifecycle := { opened with handled := opened.handled + 1 }
  have hcounted : Untraded counted :=
    ⟨hopened.chained, hopened.unbooked, hopened.writable, hopened.memory⟩
  let sent := ((Order.fromIntent intent none).afterEvent .riskApproved none).afterEvent .submitted none
  have hrouted : counted.canonicalIds.get? terms.clientOrderId =
      some (Order.fromIntent intent none).orderId := by
    rw [show counted.canonicalIds = _ from hids, Dict.get?_insert_self]
  have hsent : counted.mirror.book.orders.get? (Order.fromIntent intent none).orderId =
      some sent := by
    rw [show counted.mirror.book.orders = _ from horders, Dict.get?_insert_self]
  obtain ⟨mirror, honCallback, haccepted, horders'⟩ :=
    hcounted.onCallback clock hrouted hsent hclean rfl
  let between : Stream := { stream with
    lifecycle := counted
    bus := stream.bus.passed notice.event
    notices := stream.notices ++ [notice] }
  -- the first turn: the order is opened, and its acceptance waits on the bus
  have hfirst : (stream.holding notice).turn clock =
      (between.holding (acceptance notice terms), .ok ()) := by
    rw [turn_holding clock hplaceable.empty hplaceable.reaches hplaceable.fresh]
    simp only [react, OrderLifecycle.handle, OrderLifecycle.route, hplaceable.payload, honOrder,
      answer, acknowledge, hplaceable.taken]
    exact between.publish_of_allowed hplaceable.answered
  -- the second one: the acceptance is recorded, and the venue says nothing to it
  have hsecond : (between.holding (acceptance notice terms)).turn clock = ({ between with
      lifecycle := { counted with mirror, handled := counted.handled + 1 }
      bus := between.bus.passed (acceptance notice terms).event
      notices := between.notices ++ [acceptance notice terms] }, .ok ()) := by
    have hreaches : between.bus.Reaches (acceptance notice terms).event := by
      rintro _ ⟨⟩
      simp [DateTime.less, acceptance, Notice.event, EventTime.immediate]
    rw [turn_holding clock rfl hreaches hplaceable.answerFresh]
    simp only [react, OrderLifecycle.handle, OrderLifecycle.route, acceptance, answer]
    rw [show between.lifecycle = counted from rfl, honCallback]
  have hpublished : stream.step clock (.publish notice) =
      { stream.holding notice with
        bus := { (stream.holding notice).bus with draining := false } } := by
    have hpublish := publish_of_allowed
      { stream with bus := { stream.bus with draining := false } } hplaceable.allowed
    simp only [step, hpublish]
    rfl
  refine ⟨{ counted with mirror, handled := counted.handled + 1 }, ?_,
    ⟨haccepted.chained, haccepted.unbooked, haccepted.writable, haccepted.memory⟩, hlineages, hcash,
    hids, ?_⟩
  · calc [.publish notice, .turn, .turn].foldl (step clock) stream
        = (((stream.step clock (.publish notice)).step clock .turn).step clock .turn) := rfl
      _ = (((stream.holding notice).step clock .turn).step clock .turn) := by
          rw [hpublished]
          rfl
      _ = ((between.holding (acceptance notice terms)).turn clock).1 := by
          simp only [step, hfirst]
      _ = _ := by
          rw [hsecond]
  · rw [horders', show counted.mirror.book.orders = _ from horders, Dict.insert_insert]
    rfl

end Stream

end QuantAgent.Streaming
