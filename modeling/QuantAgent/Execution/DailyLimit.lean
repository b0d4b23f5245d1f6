import QuantAgent.Execution.Routing
import QuantAgent.Services.Attribution

/-!
# The daily limit on the orders of a symbol

The count of the day is seeded from the book when the session changes and moves after the venue has
answered.  It stays ahead of the book as long as every venue answers; an order that was submitted
and whose venue raised is in the book and not in the count.
-/

namespace QuantAgent.Execution

open Library
open Domain (CanonicalLedger Hashing Mirror MirrorCall MirrorError Moment OrderBook OrderEvent
  OrderEventType OrderIntent RiskDecision)
open Paper.Broker (submittedOrder)
open Services (IntentClaim VenueAnswer Verdict)

/-! ## Records that succeed and records that fail -/

section Records

variable [Hashing ℚ]

variable {moment : Moment}

variable {mirror : Mirror ℚ}

/-- An event other than an execution that is recorded moves the order, and the ledger could and can
be written. -/
theorem of_event_ok {orderId : String} {kind : OrderEventType} (hkind : kind.isExecution = false)
    {reason : Option String} {riskDecision : Option (RiskDecision ℚ)} {tradeDate : Option String}
    {updated : Domain.Order ℚ}
    (h : (mirror.perform moment (.event orderId kind none reason riskDecision tradeDate)).2 = .ok
      updated) :
    ∃ event, (MirrorCall.event orderId kind none reason riskDecision tradeDate).advance mirror.book
          moment.now = some (updated, event) ∧
      mirror.ledger.writeFailure = none ∧
      (mirror.perform moment
        (.event orderId kind none reason riskDecision tradeDate)).1.ledger.writeFailure = none := by
  rcases mirror.perform_cases moment (.event orderId kind none reason riskDecision tradeDate) with
    ⟨hnone, -, -⟩ | ⟨order, event, hadvance, -, hledger, hresult⟩
  · exfalso
    simp only [MirrorCall.advance] at hnone
    simp only [Mirror.perform, Mirror.mirrorEvent, OrderBook.apply] at h
    cases hget : mirror.book.orders.get? orderId with
    | none => simp [hget] at h
    | some known =>
      simp only [hget] at hnone h
      cases happly : known.apply kind none reason with
      | error error => simp [happly] at h
      | ok result =>
        cases result with
        | some later => simp [happly] at hnone
        | none =>
          simp only [Domain.Order.apply, hkind, Bool.false_eq_true, if_false] at happly
          split at happly
          · cases happly
          · split at happly
            · cases happly
            · cases happly
  · rcases hresult with ⟨record, hok, hdone⟩ | ⟨error, -, hraised⟩
    · rw [hdone] at h
      cases h
      obtain ⟨kept, -, -, hpush⟩ := CanonicalLedger.append_ok hok
      let entry := (MirrorCall.event orderId kind none reason riskDecision tradeDate).entry event
      have hafter : (mirror.ledger.append moment.recordedAt moment.write entry).1.writeFailure =
          mirror.ledger.writeFailure := by
        rw [hpush]
        rfl
      have hwritable : mirror.ledger.writeFailure = none := by
        rcases mirror.ledger.append_cases moment.recordedAt moment.write entry with
          ⟨failure, -, happend⟩ | ⟨hnone, -⟩ | ⟨_, hnone, -⟩
        · rw [happend] at hok
          cases hok
        · exact hnone
        · exact hnone
      refine ⟨event, hadvance, hwritable, ?_⟩
      rw [hledger, hafter]
      exact hwritable
    · rw [hraised] at h
      cases h

variable {call : MirrorCall ℚ}

variable {order : Domain.Order ℚ}

/-- A call whose event could have been written and was not leaves a ledger that failed. -/
theorem latched_of_error {event : OrderEvent ℚ}
    (hadvance : call.advance mirror.book moment.now = some (order, event))
    (hplain : (call.entry event).Plain) {error : MirrorError}
    (h : (mirror.perform moment call).2 = .error error) :
    (mirror.perform moment call).1.ledger.writeFailure ≠ none := by
  rcases mirror.perform_cases moment call with
    ⟨hnone, -, -⟩ | ⟨order', event', hadvance', -, hledger, hresult⟩
  · rw [hnone] at hadvance
    cases hadvance
  · obtain ⟨rfl, rfl⟩ := Prod.mk.inj (Option.some.inj (hadvance.symm.trans hadvance'))
    rw [hledger]
    rcases hresult with ⟨record, -, hdone⟩ | ⟨error', hfailed, -⟩
    · rw [hdone] at h
      cases h
    · rcases mirror.ledger.append_cases moment.recordedAt moment.write (call.entry event) with
        ⟨failure, hfailure, happend⟩ | ⟨-, hnone, -⟩ | ⟨kept, -, -, hrest⟩
      · rw [happend]
        simp [hfailure]
      · rw [Domain.storedEvent_exact] at hnone
        cases hnone
      · rcases hrest with ⟨-, hforeign, -⟩ | ⟨error, -, -, -, happend⟩ | ⟨-, happend⟩
        · exact absurd ((Domain.chained_plain_iff _ _ _ _).mpr hplain) hforeign
        · rw [happend]
          simp
        · rw [happend] at hfailed
          cases hfailed

variable {W : Type}

theorem OrderManager.perform_of_record_error {oms : OrderManager W} {error : RoutingError}
    (h : (oms.record moment call).2 = .error error) :
    ∃ raised, error = .mirror raised ∧ (oms.mirror.perform moment call).2 = .error raised := by
  unfold OrderManager.record at h
  split at h
  · cases h
  · rename_i raised hperform
    exact ⟨raised, (Except.error.inj h).symm, by rw [hperform]⟩

theorem OrderManager.perform_of_record_ok {oms : OrderManager W}
    (h : (oms.record moment call).2 = .ok order) :
    (oms.mirror.perform moment call).2 = .ok order := by
  unfold OrderManager.record at h
  split at h
  · rename_i hperform
    rw [hperform]
    exact congrArg Except.ok (Except.ok.inj h)
  · cases h

end Records

/-! ## The count of the day -/

namespace OrderManager

variable {W : Type}

def countedSession (oms : OrderManager W) : Option String :=
  if oms.config.production then oms.riskSession else oms.countSession

structure SameDay (before after : OrderManager W) : Prop where
  config : after.config = before.config
  countsToday : after.countsToday = before.countsToday
  countSession : after.countSession = before.countSession
  riskSession : after.riskSession = before.riskSession

theorem SameDay.refl (oms : OrderManager W) : SameDay oms oms := ⟨rfl, rfl, rfl, rfl⟩

variable {before after : OrderManager W}

theorem SameDay.countedSession (h : SameDay before after) :
    after.countedSession = before.countedSession := by
  rw [OrderManager.countedSession, OrderManager.countedSession, h.config, h.countSession,
    h.riskSession]

theorem SameDay.ordersToday (h : SameDay before after) (symbol : String) :
    after.ordersToday symbol = before.ordersToday symbol := by
  rw [OrderManager.ordersToday, OrderManager.ordersToday, h.countsToday]

variable [Hashing ℚ]

/-- The limit holds on the book, and the count of the day is ahead of it: up to one order that is
still owed, as long as the ledger can be written. -/
structure DayKept (oms : OrderManager W) (owed : Option String) : Prop where
  wellKept : WellKept oms.mirror.book
  shown : Shown oms.mirror
  bounded : ∀ symbol session,
    (dayCount oms.mirror.book symbol session : ℤ) ≤ max 0 oms.config.maxOrdersPerSymbolPerDay
  counted : oms.mirror.ledger.writeFailure = none → ∀ session, oms.countedSession = some session →
    ∀ symbol, (dayCount oms.mirror.book symbol session : ℤ) ≤
      oms.ordersToday symbol + if owed = some symbol then 1 else 0

namespace DayKept

variable {oms : OrderManager W} {owed : Option String}

variable {after : OrderManager W}

theorem of_quiet (h : oms.DayKept owed) (hday : SameDay oms after) {more : List (OrderEvent ℚ)}
    (hmirror : Continues oms.mirror after.mirror more)
    (hquiet : ∀ event ∈ more, event.eventType ≠ .submitted) : after.DayKept owed where
  wellKept := hmirror.book.wellKept h.wellKept
  shown := hmirror.shown h.shown
  bounded symbol session := by
    rw [hmirror.book.dayCount_of_quiet h.wellKept hquiet, hday.config]
    exact h.bounded symbol session
  counted hwritable session hsession symbol := by
    rw [hmirror.book.dayCount_of_quiet h.wellKept hquiet, hday.ordersToday]
    rw [hday.countedSession] at hsession
    exact h.counted (hmirror.writable hwritable) session hsession symbol

/-- What leaves book, ledger and count alone keeps it. -/
theorem of_same (h : oms.DayKept owed) (hday : SameDay oms after)
    (hmirror : after.mirror = oms.mirror) : after.DayKept owed := by
  have hcontinues : Continues oms.mirror after.mirror [] := by
    rw [hmirror]
    exact .refl oms.mirror
  exact h.of_quiet hday hcontinues (by simp)

theorem of_latched (h : oms.DayKept owed) (hlatched : oms.mirror.ledger.writeFailure ≠ none)
    (owed' : Option String) : oms.DayKept owed' :=
  ⟨h.wellKept, h.shown, h.bounded, fun hwritable ↦ absurd hwritable hlatched⟩

theorem counted_of_owed {symbol : String} (h : oms.DayKept (some symbol)) :
    (oms.counted symbol).DayKept none where
  wellKept := h.wellKept
  shown := h.shown
  bounded := h.bounded
  counted hwritable session hsession other := by
    have hbefore := h.counted hwritable session hsession other
    have hcount : (oms.counted symbol).ordersToday other =
        oms.ordersToday other + if other = symbol then 1 else 0 :=
      get?_countOne oms.countsToday symbol other
    have hmirror : (oms.counted symbol).mirror = oms.mirror := rfl
    rw [hcount, hmirror]
    by_cases hsame : other = symbol
    · rw [hsame] at hbefore ⊢
      simpa using hbefore
    · have hother : some symbol ≠ some other := fun heq ↦ hsame (Option.some.inj heq).symm
      rw [if_neg hother] at hbefore
      rw [if_neg hsame]
      simpa using hbefore

theorem seeded (h : oms.DayKept none) (session : String) :
    (oms.seeded session).DayKept none ∧ (oms.seeded session).countedSession = some session := by
  have hsession : (oms.seeded session).countedSession = some session := by
    unfold OrderManager.countedSession OrderManager.seeded
    simp only
    split <;> rfl
  refine ⟨⟨h.wellKept, h.shown, h.bounded, fun hwritable other hother symbol ↦ ?_⟩, hsession⟩
  rw [hsession] at hother
  cases hother
  have hmirror : (oms.seeded session).mirror = oms.mirror := rfl
  simp only [reduceCtorEq, if_false, add_zero, hmirror]
  by_cases hcurrent : oms.countedSession = some session
  · have hcounts : (oms.seeded session).ordersToday symbol = oms.ordersToday symbol := by
      unfold OrderManager.countedSession at hcurrent
      unfold OrderManager.seeded OrderManager.ordersToday
      simp only [if_pos hcurrent]
    rw [hcounts]
    simpa using h.counted hwritable session hcurrent symbol
  · have hcounts : (oms.seeded session).ordersToday symbol =
        dayCount oms.mirror.book symbol session := by
      unfold OrderManager.countedSession at hcurrent
      unfold OrderManager.seeded OrderManager.ordersToday
      simp only [if_neg hcurrent]
      exact get?_seededCounts oms.mirror.book symbol session
    rw [hcounts]

theorem pretradeDecision [PyText] (h : oms.DayKept none) (order : WireOrder) (session : String)
    (round : Round W) :
    (oms.pretradeDecision order session round).1.DayKept none ∧
      ((oms.pretradeDecision order session round).2.approved = true →
        oms.mirror.ledger.writeFailure = none →
        (dayCount oms.mirror.book order.symbol session : ℤ) <
          oms.config.maxOrdersPerSymbolPerDay) := by
  obtain ⟨hseeded, hsession⟩ := h.seeded session
  have hroom : ¬ oms.config.maxOrdersPerSymbolPerDay ≤
        (oms.seeded session).ordersToday order.symbol →
      oms.mirror.ledger.writeFailure = none →
      (dayCount oms.mirror.book order.symbol session : ℤ) <
        oms.config.maxOrdersPerSymbolPerDay := by
    intro hbelow hwritable
    have hcount := hseeded.counted hwritable session hsession order.symbol
    simp only [reduceCtorEq, if_false, add_zero] at hcount
    exact lt_of_le_of_lt hcount (not_le.mp hbelow)
  unfold OrderManager.pretradeDecision
  cases hrefusal : admissibilityRefusal (round.positions oms.venue) order round.decidedAt with
  | some refusal =>
    refine ⟨h, fun happroved ↦ ?_⟩
    rw [not_approved_of_admissibilityRefusal hrefusal] at happroved
    cases happroved
  | none =>
    have hlimit : (oms.seeded session).config.maxOrdersPerSymbolPerDay =
        oms.config.maxOrdersPerSymbolPerDay := rfl
    simp only [hlimit]
    split
    · exact ⟨hseeded, fun happroved ↦ by cases happroved⟩
    · rename_i hbelow
      split <;> exact ⟨hseeded, fun _ ↦ hroom hbelow⟩

theorem record (h : oms.DayKept owed) (moment : Moment) {call : MirrorCall ℚ}
    (hparent : Parentless call)
    (hquiet : ∀ orderId fill reason riskDecision tradeDate,
      call ≠ .event orderId .submitted fill reason riskDecision tradeDate) :
    (oms.record moment call).1.DayKept owed := by
  obtain ⟨more, hcontinues, hevents⟩ := continues_perform oms.mirror moment hparent
  rw [record_fst]
  refine h.of_quiet ⟨rfl, rfl, rfl, rfl⟩ hcontinues fun event hevent hkind ↦ ?_
  obtain ⟨order, hadvance⟩ := hevents event hevent
  rcases MirrorCall.advance_some hadvance with
    ⟨_, _, _, -, -, -, rfl⟩ | ⟨orderId, kind, fill, reason, riskDecision, tradeDate, _, hcall, -, -, rfl⟩
  · cases hkind
  · have hsent : kind = .submitted := hkind
    rw [hsent] at hcall
    exact hquiet _ _ _ _ _ hcall

end DayKept

end OrderManager

/-! ## The venue -/

section Venue

variable {W : Type} [Hashing ℚ]

def Reported (before after : Mirror ℚ) : Prop :=
  ∃ reports : List (Moment × MirrorCall ℚ),
    (∀ report ∈ reports, ∃ orderId kind fill reason riskDecision tradeDate,
      report.2 = .event orderId kind fill reason riskDecision tradeDate ∧ kind ≠ .submitted) ∧
    after = Run.run Mirror.step before reports

/-- The venue of a round does not submit orders on its own: all it writes to the record of account
are reports. -/
def Round.Reports (round : Round W) : Prop :=
  ∀ venue mirror order canonicalId known, mirror.book.orders.get? canonicalId = some known →
    known.status = .submitted → Reported mirror (round.send venue mirror order canonicalId).2.1

def Round.Answers (round : Round W) : Prop :=
  ∀ venue mirror order canonicalId,
    (round.send venue mirror order canonicalId).2.2 ≠ .raised ∧
      ∀ reason, (round.send venue mirror order canonicalId).2.2 = .refused reason →
        Domain.isBlankText reason = false

theorem continues_of_reported {before after : Mirror ℚ} (h : Reported before after) :
    ∃ more, Continues before after more ∧ ∀ event ∈ more, event.eventType ≠ .submitted := by
  obtain ⟨reports, hreports, rfl⟩ := h
  induction reports generalizing before with
  | nil => exact ⟨[], .refl before, by simp⟩
  | cons report reports ih =>
    obtain ⟨orderId, kind, fill, reason, riskDecision, tradeDate, hcall, hkind⟩ :=
      hreports report List.mem_cons_self
    have hparent : Parentless report.2 := by
      intro intent parentOrderId opened hopening
      rw [hcall] at hopening
      cases hopening
    obtain ⟨first, hfirst, hevents⟩ := continues_perform before report.1 hparent
    obtain ⟨rest, hrest, hquiet⟩ := @ih (before.step report) fun later hlater ↦
      hreports later (List.mem_cons_of_mem _ hlater)
    refine ⟨first ++ rest, hfirst.trans hrest, fun event hevent ↦ ?_⟩
    rcases List.mem_append.mp hevent with hnow | hlater
    · obtain ⟨order, hadvance⟩ := hevents event hnow
      rcases MirrorCall.advance_some hadvance with
        ⟨_, _, _, hopening, -⟩ | ⟨_, _, _, _, _, _, _, hsame, -, -, rfl⟩
      · rw [hcall] at hopening
        cases hopening
      · rw [hcall] at hsame
        cases hsame
        exact hkind
    · exact hquiet event hlater

end Venue

namespace OrderManager

variable {W : Type} [Hashing ℚ]

/-- What a result leaves behind: the count of the day keeps the order that it owes, and owes nothing
when the call raised. -/
def Settles {α : Type} (owed : Option String)
    (result : OrderManager W × Except RoutingError α) : Prop :=
  result.1.DayKept owed ∧ ∀ error, result.2 = .error error → result.1.DayKept none

variable {oms after : OrderManager W} {owed tradeDate : Option String} {orderId reason : String}
  {known canonical : Domain.Order ℚ}

section

variable (h : oms.DayKept owed) (moment : Moment)
include h

/-- A rejection that the order allows is recorded, or the ledger has failed. -/
theorem settles_rejection (hknown : oms.mirror.book.orders.get? orderId = some known)
    (hstatus : known.status = .submitted) (hreason : Domain.isBlankText reason = false)
    (tradeDate : Option String) :
    Settles owed (oms.record moment
      (.event orderId .rejected none (some reason) none tradeDate)) := by
  obtain ⟨hfilled, hfills⟩ := h.wellKept.untraded _ known hknown (by rw [hstatus]; decide)
  have hallowed : OrderEventType.rejected.targetStatus ∈ Domain.allowedTransitions known.status := by
    rw [hstatus]
    decide
  have hreasonable := hreason
  have hadvance : (MirrorCall.event orderId .rejected none (some reason) none tradeDate).advance
      oms.mirror.book moment.now = _ :=
    Mirror.advance_event moment.now tradeDate hknown rfl hallowed
      fun _ ↦ ⟨hfilled, hfills, hreasonable⟩
  have hkept := h.record moment (parentless_event : Parentless (.event orderId .rejected none (some reason) none tradeDate))
    (by simp)
  refine ⟨hkept, fun error herror ↦ ?_⟩
  apply hkept.of_latched
  rw [record_fst]
  obtain ⟨raised, -, hraised⟩ := perform_of_record_error herror
  refine latched_of_error hadvance ?_ hraised
  apply Domain.Entry.plain_of_decision
  rintro _ decision ⟨⟩ hsome
  cases hsome

/-- An order the venue refused is terminated, or its ledger has failed. -/
theorem settles_recordVenueRefusal
    (hknown : oms.mirror.book.orders.get? canonical.orderId = some known)
    (hreason : Domain.isBlankText reason = false) :
    Settles owed (oms.recordVenueRefusal moment canonical reason) := by
  unfold recordVenueRefusal
  rw [hknown]
  simp only
  split
  · rename_i hsubmitted
    have hsettles := settles_rejection h moment hknown hsubmitted hreason (some canonical.tradeDate)
    split
    · rename_i after order hrecord
      rw [hrecord] at hsettles
      exact ⟨hsettles.1, fun _ hraised ↦ by cases hraised⟩
    · rename_i after error hrecord
      rw [hrecord] at hsettles
      exact ⟨hsettles.1, fun _ _ ↦ hsettles.2 error rfl⟩
  · exact ⟨h, fun _ hraised ↦ by cases hraised⟩

/-- The state of a venue without a record of account is recorded or dropped, or the ledger has
failed. -/
theorem settles_recordCanonicalState (canonical : Domain.Order ℚ) (status : OrderStatus) :
    Settles owed (oms.recordCanonicalState moment canonical status) := by
  have hkept := h.record moment
    (parentless_event : Parentless (.event canonical.orderId (stateEvent status) none none none none)) (by
      intro _ _ _ _ _ hsent
      obtain ⟨-, hkind, -⟩ := MirrorCall.event.inj hsent
      cases status <;> cases hkind)
  unfold recordCanonicalState
  split
  · rename_i after error hrecord
    rw [hrecord] at hkept
    refine ⟨hkept, fun _ _ ↦ hkept.of_latched ?_ none⟩
    obtain ⟨raised, hmirror, hraised⟩ := perform_of_record_error (congrArg Prod.snd hrecord)
    obtain rfl := RoutingError.mirror.inj hmirror
    have hledger := congrArg (fun result ↦ result.1.mirror) hrecord
    simp only [record_fst] at hledger
    rw [← hledger]
    rcases oms.mirror.perform_cases moment
        (.event canonical.orderId (stateEvent status) none none none none) with
      ⟨-, -, hno⟩ | ⟨order, event, hadvance, -⟩
    · exact absurd hraised (hno error)
    · apply latched_of_error hadvance ?_ hraised
      obtain ⟨_, -, -, rfl⟩ := MirrorCall.advance_event hadvance
      apply Domain.Entry.plain_of_decision
      rintro _ decision ⟨⟩ hsome
      cases hsome
  · rename_i after result hnot hrecord
    have hafter : after = (oms.record moment
        (.event canonical.orderId (stateEvent status) none none none none)).1 := by
      rw [hrecord]
    rw [← hafter] at hkept
    exact ⟨hkept, fun _ hraised ↦ by cases hraised⟩

end

/-- What a step leaves behind settles, whatever it does to the answer. -/
theorem Settles.of_same {α β : Type} {result : OrderManager W × Except RoutingError α}
    (h : Settles owed result) {answer : β} (hday : SameDay result.1 after)
    (hmirror : after.mirror = result.1.mirror) : Settles owed (after, (.ok answer : Except _ β)) :=
  ⟨h.1.of_same hday hmirror, fun _ hraised ↦ by cases hraised⟩

variable {round : Round W}

theorem settles_route (h : oms.DayKept owed) (order : WireOrder) (hreports : round.Reports)
    (hanswers : round.Answers) (hknown : oms.mirror.book.orders.get? canonical.orderId = some known)
    (hstatus : known.status = .submitted) : Settles owed (oms.route order canonical round) := by
  obtain ⟨hraise, hreason⟩ := hanswers oms.venue oms.mirror order canonical.orderId
  obtain ⟨more, hcontinues, hquiet⟩ := continues_of_reported
    (hreports oms.venue oms.mirror order canonical.orderId known hknown hstatus)
  unfold route
  cases hsend : round.send oms.venue oms.mirror order canonical.orderId with
  | mk venue rest =>
    obtain ⟨mirror, answer⟩ := rest
    rw [hsend] at hraise hreason hcontinues
    have hkept : ({ oms with venue, mirror } : OrderManager W).DayKept owed :=
      h.of_quiet ⟨rfl, rfl, rfl, rfl⟩ hcontinues hquiet
    cases answer with
    | raised => exact absurd rfl hraise
    | refused reason =>
      obtain ⟨later, hlater, -⟩ := hcontinues.book.terms _ known hknown
      have hsettles := settles_recordVenueRefusal hkept round.reported hlater (hreason reason rfl)
      simp only
      split
      · rename_i after error hrecord
        rw [hrecord] at hsettles
        exact ⟨hsettles.1, fun _ _ ↦ hsettles.2 error rfl⟩
      · rename_i after hrecord
        rw [hrecord] at hsettles
        exact hsettles.of_same ⟨rfl, rfl, rfl, rfl⟩ rfl
    | settled brokerOrderId status filledQuantity avgPrice lastMessage =>
      simp only
      have hupdated : ∀ state : OrderState ℚ,
          (({ oms with venue, mirror } : OrderManager W).update state).DayKept owed :=
        fun state ↦ hkept.of_same ⟨rfl, rfl, rfl, rfl⟩ rfl
      split
      · exact ⟨hupdated _, fun _ hraised ↦ by cases hraised⟩
      · have hsettles := settles_recordCanonicalState (hupdated {
          clientOrderId := order.clientOrderId, brokerOrderId := some brokerOrderId, status,
          filledQuantity, avgPrice, lastMessage }) round.reported canonical status
        split
        · rename_i after error hrecord
          rw [hrecord] at hsettles
          exact ⟨hsettles.1, fun _ _ ↦ hsettles.2 error rfl⟩
        · rename_i after hrecord
          rw [hrecord] at hsettles
          exact hsettles.of_same (.refl _) rfl

variable {moment : Moment}

/-- The submission of an order with room in the day leaves the order owed. -/
theorem dayKept_submitted (h : oms.DayKept none) (tradeDate : Option String)
    (hknown : oms.mirror.book.orders.get? orderId = some known)
    (hroom : (dayCount oms.mirror.book known.symbol known.tradeDate : ℤ) <
      oms.config.maxOrdersPerSymbolPerDay) :
    (oms.record moment (.event orderId .submitted none none none tradeDate)).1.DayKept
      (some known.symbol) := by
  obtain ⟨more, hcontinues, hevents⟩ := continues_perform oms.mirror moment
    (parentless_event : Parentless (.event orderId .submitted none none none tradeDate))
  rw [record_fst]
  have hcount : ∀ symbol session,
      dayCount (oms.mirror.perform moment
        (.event orderId .submitted none none none tradeDate)).1.book symbol session ≤
      dayCount oms.mirror.book symbol session +
        if symbol = known.symbol ∧ session = known.tradeDate then 1 else 0 := by
    intro symbol session
    rcases oms.mirror.perform_cases moment (.event orderId .submitted none none none tradeDate) with
      ⟨-, hsame, -⟩ | ⟨order, event, hadvance, -⟩
    · rw [hsame]
      exact Nat.le_add_right _ _
    · have hone := (continues_of_advance (parentless_event : Parentless (.event orderId .submitted none none none tradeDate)) hadvance).book
      have hid : event.orderId = orderId := by
        obtain ⟨_, -, -, rfl⟩ := MirrorCall.advance_event hadvance
        rfl
      rw [← hid] at hknown
      exact hone.dayCount_of_event h.wellKept hknown symbol session
  refine ⟨hcontinues.book.wellKept h.wellKept, hcontinues.shown h.shown, fun symbol session ↦ ?_,
    fun hwritable session hsession symbol ↦ ?_⟩
  · have hmore := hcount symbol session
    have hbound := h.bounded symbol session
    simp only
    by_cases hsame : symbol = known.symbol ∧ session = known.tradeDate
    · rw [if_pos hsame] at hmore
      rw [← hsame.1, ← hsame.2] at hroom
      omega
    · rw [if_neg hsame] at hmore
      omega
  · have hmore := hcount symbol session
    have hcounted := h.counted (hcontinues.writable hwritable) session hsession symbol
    have hday : ({ oms with mirror := (oms.mirror.perform moment
        (.event orderId .submitted none none none tradeDate)).1 } : OrderManager W).ordersToday
          symbol = oms.ordersToday symbol := rfl
    simp only [reduceCtorEq, if_false, add_zero] at hcounted
    rw [hday]
    simp only [Option.some.injEq]
    by_cases hsame : symbol = known.symbol ∧ session = known.tradeDate
    · rw [if_pos hsame] at hmore
      rw [if_pos hsame.1.symm]
      omega
    · rw [if_neg hsame] at hmore
      split <;> omega

/-- A submission with room in the day leaves the order owed; when it raises, nothing is. -/
theorem settles_submission (h : oms.DayKept none) (moment : Moment) (tradeDate : Option String)
    (hknown : oms.mirror.book.orders.get? orderId = some known)
    (hroom : (dayCount oms.mirror.book known.symbol known.tradeDate : ℤ) <
      oms.config.maxOrdersPerSymbolPerDay) :
    Settles (some known.symbol)
      (oms.record moment (.event orderId .submitted none none none tradeDate)) := by
  have hsubmitted :
      (oms.record moment (.event orderId .submitted none none none tradeDate)).1.DayKept
        (some known.symbol) := dayKept_submitted h tradeDate hknown hroom
  refine ⟨hsubmitted, fun error herror ↦ ?_⟩
  obtain ⟨raised, -, hraised⟩ := perform_of_record_error herror
  rcases oms.mirror.perform_cases moment (.event orderId .submitted none none none tradeDate) with
    ⟨-, hsame, -⟩ | ⟨order, event, hadvance, -⟩
  · rw [record_fst, hsame]
    exact h
  · apply hsubmitted.of_latched
    rw [record_fst]
    apply latched_of_error hadvance ?_ hraised
    obtain ⟨_, -, -, rfl⟩ := MirrorCall.advance_event hadvance
    apply Domain.Entry.plain_of_decision
    rintro _ decision ⟨⟩ hsome
    cases hsome

theorem of_submission_ok {submitted : Domain.Order ℚ}
    (hrecord : oms.record moment (.event orderId .submitted none none none tradeDate) = (after, .ok
      submitted)) :
    after.mirror.book.orders.get? orderId = some submitted ∧ submitted.status = .submitted := by
  obtain ⟨event, hadvance, -⟩ := of_event_ok rfl (perform_of_record_ok (congrArg Prod.snd hrecord))
  have hmirror : after.mirror = (oms.mirror.perform moment
      (.event orderId .submitted none none none tradeDate)).1 := by
    have hfirst := congrArg (fun result ↦ result.1.mirror) hrecord
    simp only [record_fst] at hfirst
    exact hfirst.symm
  rcases oms.mirror.perform_cases moment (.event orderId .submitted none none none tradeDate) with
    ⟨hnone, -⟩ | ⟨order, event', hadvance', hbook, -⟩
  · rw [hnone] at hadvance
    cases hadvance
  · obtain ⟨rfl, rfl⟩ := Prod.mk.inj (Option.some.inj (hadvance.symm.trans hadvance'))
    rw [hmirror, hbook]
    obtain ⟨before, -, happly, rfl⟩ := MirrorCall.advance_event hadvance
    refine ⟨Dict.get?_insert_self _ _ _, ?_⟩
    rcases Domain.Order.apply_some happly with ⟨_, hkind, -⟩ | ⟨-, -, rfl⟩
    · cases hkind
    · rfl

theorem terms_of_record {call : MirrorCall ℚ} (hparent : Parentless call)
    {result : Except RoutingError (Domain.Order ℚ)}
    (hrecord : oms.record moment call = (after, result))
    (hknown : oms.mirror.book.orders.get? orderId = some known) :
    ∃ later, after.mirror.book.orders.get? orderId = some later ∧ known.SameTerms later := by
  obtain ⟨more, hcontinues, -⟩ := continues_perform oms.mirror moment hparent
  have hafter : after.mirror = (oms.mirror.perform moment call).1 := by
    have hfirst := congrArg (fun result ↦ result.1.mirror) hrecord
    simp only [record_fst] at hfirst
    exact hfirst.symm
  rw [hafter]
  exact hcontinues.book.terms orderId known hknown

theorem of_opening_ok {intent : OrderIntent ℚ}
    (hrecord : oms.record moment (.opening intent none tradeDate) = (after, .ok canonical)) :
    canonical = Domain.Order.fromIntent intent none ∧
      after.mirror.book.orders.get? canonical.orderId = some canonical := by
  have hdone := perform_of_record_ok (congrArg Prod.snd hrecord)
  have hmirror : after.mirror = (oms.mirror.perform moment (.opening intent none tradeDate)).1 := by
    have hfirst := congrArg (fun result ↦ result.1.mirror) hrecord
    simp only [record_fst] at hfirst
    exact hfirst.symm
  rcases oms.mirror.perform_cases moment (.opening intent none tradeDate) with
    ⟨hnone, -⟩ | ⟨order, event, hadvance, hbook, -, hresult⟩
  · exfalso
    simp only [MirrorCall.advance] at hnone
    split at hnone
    · rename_i known hknown
      simp [Mirror.perform, Mirror.mirrorOpen, OrderBook.openOrder, hknown] at hdone
    · cases hnone
  · obtain ⟨rfl, rfl⟩ := MirrorCall.advance_opening hadvance
    have hcanonical : canonical = Domain.Order.fromIntent intent none := by
      rcases hresult with ⟨record, -, hok⟩ | ⟨error, -, hraised⟩
      · rw [hok] at hdone
        exact (Except.ok.inj hdone).symm
      · rw [hraised] at hdone
        cases hdone
    refine ⟨hcanonical, ?_⟩
    rw [hmirror, hbook, hcanonical]
    exact Dict.get?_insert_self _ _ _

variable [OrderTexts] [Sha1]

section

variable (h : oms.DayKept none) (key session : String) (order : WireOrder)
include h

theorem dayKept_submitApproved (verdict : Verdict) (hreports : round.Reports)
    (hanswers : round.Answers) (hknown : oms.mirror.book.orders.get? canonical.orderId = some known)
    (hsymbol : known.symbol = order.symbol) (hsession : known.tradeDate = session)
    (hroom : oms.mirror.ledger.writeFailure = none → (dayCount oms.mirror.book order.symbol session
      : ℤ) < oms.config.maxOrdersPerSymbolPerDay) :
    (oms.submitApproved key session order canonical verdict round).1.DayKept none := by
  let approval : MirrorCall ℚ := .event canonical.orderId .riskApproved none none
    (some (decisionFor verdict canonical)) (some session)
  have happroval : (oms.record round.decided approval).1.DayKept none :=
    h.record round.decided parentless_event (by simp [approval])
  unfold submitApproved
  split
  · rename_i approved error hrecord
    rw [hrecord] at happroval
    exact happroval
  · rename_i approved moved hrecord
    rw [hrecord] at happroval
    obtain ⟨later, hlater, hterms⟩ := terms_of_record parentless_event hrecord hknown
    obtain ⟨event, hadvance, hbefore, hafter⟩ :=
      of_event_ok rfl (perform_of_record_ok (congrArg Prod.snd hrecord))
    have hmirror : approved.mirror = (oms.mirror.perform round.decided approval).1 := by
      have hfirst := congrArg (fun result ↦ result.1.mirror) hrecord
      simp only [record_fst] at hfirst
      exact hfirst.symm
    have hconfig : approved.config = oms.config := by
      have hfirst := congrArg (fun result ↦ result.1.config) hrecord
      simp only [record_fst] at hfirst
      exact hfirst.symm
    have hquiet : ∀ symbol session, dayCount approved.mirror.book symbol session =
        dayCount oms.mirror.book symbol session := by
      intro symbol session
      have hone := (continues_of_advance parentless_event hadvance).book
      rw [hmirror]
      apply hone.dayCount_of_quiet h.wellKept
      intro recorded hrecorded
      rw [List.mem_singleton.mp hrecorded]
      obtain ⟨_, -, -, rfl⟩ := MirrorCall.advance_event hadvance
      simp
    have hroom' : (dayCount approved.mirror.book later.symbol later.tradeDate : ℤ) <
        approved.config.maxOrdersPerSymbolPerDay := by
      rw [hquiet, hconfig, hterms.symbol, hterms.tradeDate, hsymbol, hsession]
      exact hroom hbefore
    have hsettles := settles_submission happroval round.submitted (some session) hlater hroom'
    rw [hterms.symbol, hsymbol] at hsettles
    simp only
    split
    · rename_i sent error hsend
      rw [hsend] at hsettles
      exact hsettles.2 error rfl
    · rename_i sent submitted hsend
      rw [hsend] at hsettles
      obtain ⟨hsent, hstatus⟩ := of_submission_ok hsend
      have hself := hsettles.1.wellKept.keyed _ submitted hsent
      rw [← hself] at hsent
      have hrouted := settles_route hsettles.1 order hreports hanswers hsent hstatus
      split
      · rename_i routed error hroute
        rw [hroute] at hrouted
        exact hrouted.2 error rfl
      · rename_i routed state refusal hroute
        rw [hroute] at hrouted
        have hresolved : ∀ claim, (routed.resolve key claim).DayKept (some order.symbol) :=
          fun claim ↦ hrouted.1.of_same ⟨rfl, rfl, rfl, rfl⟩ rfl
        exact (hresolved _).counted_of_owed

theorem dayKept_refuse (canonical : Domain.Order ℚ) (verdict : Verdict) (round : Round W) :
    (oms.refuse key session order canonical verdict round).1.DayKept none := by
  have hrefusal := h.record round.decided (parentless_event : Parentless (.event canonical.orderId
    .riskRejected none (some verdict.reason) (some (decisionFor verdict canonical)) (some session)))
    (by simp)
  unfold refuse
  split
  · rename_i refused error hrecord
    rw [hrecord] at hrefusal
    exact hrefusal
  · rename_i refused moved hrecord
    rw [hrecord] at hrefusal
    exact hrefusal.of_same ⟨rfl, rfl, rfl, rfl⟩ rfl

end

variable [PyText]

theorem dayKept_submitClaimed (h : oms.DayKept none) (key session : String) (order : WireOrder)
    (hreports : round.Reports) (hanswers : round.Answers) :
    (oms.submitClaimed key session order round).1.DayKept none := by
  unfold submitClaimed
  cases hmade : pendingIntent oms.lineage order session with
  | error error => exact h
  | ok intent =>
    obtain ⟨hsymbol, -, -, hsession⟩ := pendingIntent_ok hmade
    have hparent : Parentless (.opening intent none (some session)) := by
      intro _ _ _ hopening
      cases hopening
      rfl
    have hopening := h.record round.opened hparent (by simp)
    simp only
    split
    · rename_i opened error hrecord
      rw [hrecord] at hopening
      exact hopening
    · rename_i opened canonical hrecord
      rw [hrecord] at hopening
      obtain ⟨hcanonical, hopened⟩ := of_opening_ok hrecord
      have hmirror := (opened.of_pretradeDecision order session round).2.2.1
      have hconfig := (opened.of_pretradeDecision order session round).2.1
      obtain ⟨hdecided, hroom⟩ := hopening.pretradeDecision order session round
      cases hdecision : opened.pretradeDecision order session round with
      | mk decided verdict =>
        rw [hdecision] at hdecided hroom hmirror hconfig
        simp only at hmirror hconfig hroom
        simp only
        split
        · rename_i happroved
          rw [← hmirror] at hopened
          refine dayKept_submitApproved hdecided key session order verdict hreports hanswers
            hopened (hcanonical ▸ hsymbol) (hcanonical ▸ hsession) fun hwritable ↦ ?_
          rw [hmirror] at hwritable ⊢
          rw [hconfig]
          exact hroom happroved hwritable
        · exact dayKept_refuse hdecided key session order canonical verdict round

theorem dayKept_submitOne (h : oms.DayKept none) (asked : WireOrder) (hreports : round.Reports)
    (hanswers : round.Answers) :
    (oms.submitOne asked round).1.DayKept none := by
  let order := asked.stamped round.clock
  unfold submitOne
  cases hrun : oms.lineage.get .runId with
  | none => exact h
  | some runId =>
    simp only
    split
    · exact h
    · cases hsession : exchangeSession order.timestamp with
      | none =>
        exact h
      | some session =>
        simp only
        have hclaimed : (oms.claimIntent (intentKey runId order session) order).DayKept none :=
          h.of_same ⟨rfl, rfl, rfl, rfl⟩ rfl
        have hone := dayKept_submitClaimed hclaimed (intentKey runId order session) session
          order hreports hanswers
        split
        · split <;> exact h
        · split
          · rename_i after state heq
            rw [heq] at hone
            exact hone
          · rename_i after error heq
            rw [heq] at hone
            exact hone

theorem dayKept_submitOrders (h : oms.DayKept none) {orders : List (WireOrder × Round W)}
    (hreports : ∀ order ∈ orders, order.2.Reports) (hanswers : ∀ order ∈ orders, order.2.Answers) :
    (oms.submitOrders orders).1.DayKept none := by
  induction orders generalizing oms with
  | nil => exact h
  | cons order orders ih =>
    have hone := dayKept_submitOne h order.1 (hreports order List.mem_cons_self)
      (hanswers order List.mem_cons_self)
    have hrest := ih hone (fun later hlater ↦ hreports later (List.mem_cons_of_mem _ hlater))
      fun later hlater ↦ hanswers later (List.mem_cons_of_mem _ hlater)
    unfold submitOrders
    split
    · rename_i after error heq
      rw [heq] at hone
      exact hone
    · rename_i after answer heq
      rw [heq] at hrest
      split
      · rename_i last error heq'
        rw [heq'] at hrest
        exact hrest
      · rename_i last states heq'
        rw [heq'] at hrest
        exact hrest

/-! ## Histories -/

/-- `reconcile` with the orders a rebalancing asks for: a symbol whose orders of the day are used up
is left out. -/
def reconcile (oms : OrderManager W) (orders : List (WireOrder × Round W)) :
    OrderManager W × Except RoutingError (List (OrderState ℚ)) :=
  oms.submitOrders (orders.filter fun order ↦
    decide (oms.ordersToday order.1.symbol < oms.config.maxOrdersPerSymbolPerDay))

omit [OrderTexts] [Sha1] [PyText] in
/-- A new process on the same ledger, with the claims and the venue it finds. -/
def restarted (oms : OrderManager W) (mirror : Mirror ℚ) (claims : Dict String IntentClaim)
    (venue : W) : OrderManager W where
  config := oms.config
  lineage := oms.lineage
  mirror
  claims
  wire := .empty
  countsToday := .empty
  countSession := none
  riskSession := none
  venue

end OrderManager

inductive DeskCall (W : Type) where
  | submitOrders (orders : List (WireOrder × Round W))
  | reconcile (orders : List (WireOrder × Round W))
  /-- A restart that rebuilds the book from the ledger. -/
  | restart (now : String) (claims : Dict String IntentClaim) (venue : W)
  /-- A restart on the book and the ledger of a venue that goes on. -/
  | rejoin (claims : Dict String IntentClaim) (venue : W)

def DeskCall.orders {W : Type} : DeskCall W → List (WireOrder × Round W)
  | .submitOrders orders => orders
  | .reconcile orders => orders
  | _ => []

/-- No round writes more than reports to the record of account. -/
def DeskCall.Reports {W : Type} [Hashing ℚ] (call : DeskCall W) : Prop :=
  ∀ order ∈ call.orders, order.2.Reports

def DeskCall.Answers {W : Type} (call : DeskCall W) : Prop := ∀ order ∈ call.orders, order.2.Answers

namespace OrderManager

variable {W : Type} [Hashing ℚ] [OrderTexts] [Sha1] [PyText]

/-- The state after a call; a ledger that does not replay starts no process. -/
def deskStep (oms : OrderManager W) : DeskCall W → OrderManager W
  | .submitOrders orders => (oms.submitOrders orders).1
  | .reconcile orders => (oms.reconcile orders).1
  | .restart now claims venue =>
    match oms.mirror.ledger.replayBook now with
    | .error _ => oms
    | .ok book =>
      oms.restarted ⟨book, { oms.mirror.ledger with writeFailure := none }⟩ claims venue
  | .rejoin claims venue => oms.restarted oms.mirror claims venue

omit [OrderTexts] [Sha1] [PyText] in
/-- The limit holds for every symbol and every session, on the book and on what a replay makes of
the ledger. -/
def WithinDailyLimit (oms : OrderManager W) : Prop :=
  ∀ symbol session,
    (dayCount oms.mirror.book symbol session : ℤ) ≤ max 0 oms.config.maxOrdersPerSymbolPerDay ∧
      ∀ now book, oms.mirror.ledger.replayBook now = .ok book →
        (dayCount book symbol session : ℤ) ≤ max 0 oms.config.maxOrdersPerSymbolPerDay

omit [OrderTexts] [Sha1] [PyText] in
theorem replayRecords_of_replayBook {ledger : CanonicalLedger ℚ} {now : String}
    {book : OrderBook ℚ} (h : ledger.replayBook now = .ok book) :
    CanonicalLedger.replayRecords now .empty ledger.records = .ok book := by
  unfold CanonicalLedger.replayBook at h
  split at h
  · cases h
  · exact h

variable {oms : OrderManager W}

omit [OrderTexts] [Sha1] [PyText] in
theorem DayKept.withinDailyLimit (h : oms.DayKept none) :
    oms.WithinDailyLimit := by
  intro symbol session
  refine ⟨h.bounded symbol session, fun now book hreplay ↦ ?_⟩
  have hshown := (h.shown now book (replayRecords_of_replayBook hreplay)).dayCount_le h.wellKept
    symbol session
  exact le_trans (by exact_mod_cast hshown) (h.bounded symbol session)

theorem dayKept_deskStep (h : oms.DayKept none) {call : DeskCall W} (hreports : call.Reports)
    (hanswers : call.Answers) : (oms.deskStep call).DayKept none := by
  cases call with
  | submitOrders orders => exact dayKept_submitOrders h hreports hanswers
  | reconcile orders =>
    exact dayKept_submitOrders h (fun order horder ↦ hreports order (List.mem_of_mem_filter horder))
      fun order horder ↦ hanswers order (List.mem_of_mem_filter horder)
  | restart now claims venue =>
    simp only [deskStep]
    split
    · exact h
    · rename_i book hreplay
      have hrecords := replayRecords_of_replayBook hreplay
      have hshown := h.shown now book hrecords
      refine ⟨hshown.wellKept, shown_of_replay h.shown hrecords rfl, fun symbol session ↦ ?_,
        fun _ session hsession ↦ ?_⟩
      · exact (h.withinDailyLimit symbol session).2 now book hreplay
      · unfold countedSession restarted at hsession
        simp at hsession
  | rejoin claims venue =>
    refine ⟨h.wellKept, h.shown, h.bounded, fun _ session hsession ↦ ?_⟩
    unfold countedSession deskStep restarted at hsession
    simp at hsession

def fresh (config : OrderManagerConfig) (lineage : Domain.Lineage) (durable : Bool)
    (claims : Dict String IntentClaim) (venue : W) : OrderManager W where
  config
  lineage
  mirror := .fresh durable
  claims
  wire := .empty
  countsToday := .empty
  countSession := none
  riskSession := none
  venue

omit [OrderTexts] [Sha1] [PyText] in
theorem dayKept_fresh (config : OrderManagerConfig) (lineage : Domain.Lineage) (durable : Bool)
    (claims : Dict String IntentClaim) (venue : W) :
    (fresh config lineage durable claims venue).DayKept none where
  wellKept := wellKept_empty
  shown now replayed hreplay := by
    cases hreplay
    exact {
      wellKept := wellKept_empty
      terms := fun _ _ hget ↦ by cases hget
      submitted := fun _ hevent ↦ by cases hevent }
  bounded symbol session := le_max_left _ _
  counted _ session hsession := by
    unfold countedSession fresh at hsession
    simp at hsession

/-- As long as every venue answers, no history exceeds the limit. -/
theorem withinDailyLimit_of_answers (config : OrderManagerConfig) (lineage : Domain.Lineage)
    (durable : Bool) (claims : Dict String IntentClaim) (venue : W) {calls : List (DeskCall W)}
    (hreports : ∀ call ∈ calls, call.Reports) (hanswers : ∀ call ∈ calls, call.Answers) :
    Run.Throughout deskStep WithinDailyLimit (fresh config lineage durable claims venue) calls := by
  have hboth : ∀ {start : OrderManager W}, start.DayKept none →
      Run.Throughout deskStep WithinDailyLimit start calls := by
    induction calls with
    | nil => exact fun h ↦ h.withinDailyLimit
    | cons call calls ih =>
      intro start h
      have hnext := dayKept_deskStep h (hreports call List.mem_cons_self)
        (hanswers call List.mem_cons_self)
      exact ⟨h.withinDailyLimit, ih (fun later hlater ↦ hreports later (List.mem_cons_of_mem _ hlater))
        (fun later hlater ↦ hanswers later (List.mem_cons_of_mem _ hlater)) hnext⟩
  exact hboth (dayKept_fresh config lineage durable claims venue)

end OrderManager

/-! ## A venue that raises -/

def dayOrder (quantity : ℤ) : WireOrder where
  clientOrderId := "c-1"
  symbol := "600000.SH"
  side := .buy
  quantity
  orderType := .market
  price := none
  riskCheckResult := "not_checked"
  signalId := "entry"
  strategyVersion := ""
  timestamp := "2026-01-05T10:00:00+00:00"

def dayRound (answer : VenueAnswer) : Round Unit where
  positions _ := some []
  certified := basicApproval (dayOrder 100) "2026-01-05T02:00:00+00:00"
  send venue mirror _ _ := (venue, mirror, answer)
  opened := Mirror.momentOf .landed
  decided := Mirror.momentOf .landed
  submitted := Mirror.momentOf .landed
  reported := Mirror.momentOf .landed
  decidedAt := "2026-01-05T02:00:00+00:00"
  clock := "2026-01-05T02:00:00+00:00"

def oneADay : OrderManager Unit :=
  .fresh ⟨1, false, false⟩ managerLineage false .empty ()

/-- Two orders, and the venue of the first one is not heard of again. -/
def lostAnswers : List (DeskCall Unit) := [
  .submitOrders [(dayOrder 100, dayRound .raised)],
  .submitOrders [(dayOrder 200, dayRound .raised)]]

theorem reports_dayRound [Hashing ℚ] (answer : VenueAnswer) : (dayRound answer).Reports :=
  fun _ mirror _ _ _ _ _ ↦ ⟨[], by simp, rfl⟩

/-- The canonical orders of two quantities are two. -/
theorem orderId_ne [Hashing ℚ] {first second : ℤ} (hne : first ≠ second)
    {intent intent' : OrderIntent ℚ}
    (h : pendingIntent managerLineage (dayOrder first) "2026-01-05" = .ok intent)
    (h' : pendingIntent managerLineage (dayOrder second) "2026-01-05" = .ok intent') :
    (submittedOrder intent).orderId ≠ (submittedOrder intent').orderId := by
  intro hid
  have hshown := Hashing.contentId_injective hid
  simp only [Domain.shown, Domain.shownMembers, Json.obj.injEq, List.cons.injEq, Prod.mk.injEq,
    Json.str.injEq, true_and, and_true] at hshown
  obtain ⟨-, -, hquantity, -⟩ := terms_of_orderIntentId h h' hshown
  rw [(pendingIntent_ok h).2.2.1, (pendingIntent_ok h').2.2.1] at hquantity
  exact hne (by exact_mod_cast hquantity)

theorem OrderManager.seeded_again {W : Type} {oms : OrderManager W} {session : String}
    (hproduction : oms.config.production = false) (hsession : oms.countSession = some session) :
    (oms.seeded session).countsToday = oms.countsToday := by
  simp [OrderManager.seeded, hproduction, hsession]

section Lost

variable [Hashing ℚ]

/-- An order manager that takes one order of a symbol a day and has counted none in the session. -/
structure Uncounted (oms : OrderManager Unit) : Prop where
  config : oms.config = ⟨1, false, false⟩
  lineage : oms.lineage = managerLineage
  writable : oms.mirror.ledger.writeFailure = none
  durable : oms.mirror.ledger.durable = false
  wellKept : WellKept oms.mirror.book
  room : ∀ order round intent, ((oms.opening order round managerRun "2026-01-05" intent).seeded
    "2026-01-05").countsToday = .empty

variable {quantity : ℤ} {intent : OrderIntent ℚ}

variable {oms : OrderManager Unit}

/-- It submits an order that is new to it, the venue raises, and nothing is counted. -/
theorem submitOne_lost (h : Uncounted oms)
    (hadmissible : admissibilityRefusal (some []) (dayOrder quantity) (dayRound .raised).decidedAt
      = none)
    (hunclaimed : oms.claims.get? (intentKey managerRun (dayOrder quantity) "2026-01-05") = none)
    (hmade : pendingIntent managerLineage (dayOrder quantity) "2026-01-05" = .ok intent)
    (hunopened : oms.mirror.book.orders.get? (Domain.Order.fromIntent intent none).orderId = none) :
    ∃ mirror, Submits oms.mirror mirror intent ∧
      (oms.submitOne (dayOrder quantity) (dayRound .raised)).1 =
        { oms.decidedOn (dayOrder quantity) (dayRound .raised) managerRun "2026-01-05" intent with
          mirror } := by
  let round := dayRound .raised
  have hstamped : (dayOrder quantity).stamped round.clock = dayOrder quantity := rfl
  have hconsiders : oms.Considers ((dayOrder quantity).stamped round.clock) round managerRun
      "2026-01-05" intent := by
    refine ⟨by rw [h.lineage]; rfl, by decide, ?_, hunclaimed, by rw [h.lineage]; exact hmade,
      hunopened, fun moment _ ↦ ⟨h.writable, fun hdurable ↦ ?_⟩⟩
    · change exchangeSession "2026-01-05T10:00:00+00:00" = some "2026-01-05"
      decide
    · rw [h.durable] at hdurable
      cases hdurable
  have hverdict : oms.verdictOn ((dayOrder quantity).stamped round.clock) round managerRun
      "2026-01-05" intent = basicApproval (dayOrder quantity) round.decidedAt := by
    rw [hstamped]
    have hconfig : (oms.opening (dayOrder quantity) round managerRun "2026-01-05" intent).config =
        ⟨1, false, false⟩ := by
      rw [OrderManager.opening, OrderManager.record_fst]
      exact h.config
    refine OrderManager.approved_of_room (by rw [hconfig]) hadmissible ?_
    rw [OrderManager.ordersToday, h.room, hconfig]
    exact zero_lt_one
  obtain ⟨mirror, hsubmits, hone⟩ := OrderManager.submitOne_approved hconsiders
    (by rw [hverdict]; rfl)
    (by rw [hverdict]; exact ⟨trivial, by simp [basicApproval, Json.Plain, Json.PlainMembers]⟩)
  have hroute : ∀ (desk : OrderManager Unit) (order : WireOrder) (canonical : Domain.Order ℚ),
      desk.route order canonical (dayRound .raised) = (desk, .error .venue) := fun _ _ _ ↦ rfl
  refine ⟨mirror, hsubmits, ?_⟩
  rw [hone, hroute, hstamped]
  simp only [OrderManager.answerRouted, round]

theorem uncounted_oneADay : Uncounted oneADay where
  config := rfl
  lineage := rfl
  writable := rfl
  durable := rfl
  wellKept := wellKept_empty
  room order round intent := by
    rw [OrderManager.opening, OrderManager.record_fst]
    exact seededCounts_fresh ..

theorem Uncounted.after_lost (h : Uncounted oms)
    (hadmissible : admissibilityRefusal (some []) (dayOrder quantity) (dayRound .raised).decidedAt
      = none) {mirror : Mirror ℚ} (hsubmits : Submits oms.mirror mirror intent) :
    Uncounted { oms.decidedOn (dayOrder quantity) (dayRound .raised) managerRun "2026-01-05" intent
      with mirror } := by
  have hroom := h.room (dayOrder quantity) (dayRound .raised) intent
  have hdecided : oms.decidedOn (dayOrder quantity) (dayRound .raised) managerRun "2026-01-05"
      intent = (oms.opening (dayOrder quantity) (dayRound .raised) managerRun "2026-01-05"
        intent).seeded "2026-01-05" := OrderManager.decided_of_admissible "2026-01-05" hadmissible
  obtain ⟨more, hcontinues⟩ := hsubmits.continues
  rw [hdecided]
  refine ⟨?_, ?_, hsubmits.writable, hsubmits.durable.trans h.durable,
    hcontinues.book.wellKept h.wellKept, fun order round intent' ↦ ?_⟩
  · change (oms.opening _ _ _ _ _).config = _
    rw [OrderManager.opening, OrderManager.record_fst]
    exact h.config
  · change (oms.opening _ _ _ _ _).lineage = _
    rw [OrderManager.opening, OrderManager.record_fst]
    exact h.lineage
  · rw [OrderManager.opening, OrderManager.record_fst]
    have hconfig : (oms.opening (dayOrder quantity) (dayRound .raised) managerRun "2026-01-05"
        intent).config.production = false := by
      rw [OrderManager.opening, OrderManager.record_fst]
      exact congrArg OrderManagerConfig.production h.config
    refine (OrderManager.seeded_again ?_ ?_).trans hroom
    · exact hconfig
    · rfl

theorem OrderManager.submitOrders_one [OrderTexts] [Sha1] [PyText] {W : Type} (oms : OrderManager W)
    (order : WireOrder) (round : Round W) :
    (oms.submitOrders [(order, round)]).1 = (oms.submitOne order round).1 := by
  unfold OrderManager.submitOrders
  split
  · rename_i after error heq
    rw [heq]
  · rename_i after answer heq
    rw [heq]
    rfl

/-- A submitted order counts for its symbol and its session. -/
theorem sentFor_submitted {book : OrderBook ℚ} (h : WellKept book)
    (hmade : pendingIntent managerLineage (dayOrder quantity) "2026-01-05" = .ok intent)
    (hknown : book.orders.get? (submittedOrder intent).orderId = some (submittedOrder intent)) :
    SentFor book "600000.SH" "2026-01-05" (submittedOrder intent).orderId := by
  obtain ⟨hsymbol, -, -, hsession⟩ := pendingIntent_ok hmade
  exact ⟨⟨_, hknown, hsymbol, hsession⟩, h.submitted _ _ hknown rfl⟩

theorem two_lost :
    (Run.run OrderManager.deskStep oneADay lostAnswers).config = ⟨1, false, false⟩ ∧
      1 < dayCount (Run.run OrderManager.deskStep oneADay lostAnswers).mirror.book
        "600000.SH" "2026-01-05" := by
  obtain ⟨first, hfirst⟩ := Services.PaperOrderService.exists_canonicalIntent
    (show 0 < (dayOrder 100).quantity by decide) "2026-01-05"
  obtain ⟨second, hsecond⟩ := Services.PaperOrderService.exists_canonicalIntent
    (show 0 < (dayOrder 200).quantity by decide) "2026-01-05"
  have hadmissible : admissibilityRefusal (some []) (dayOrder 100)
      (dayRound .raised).decidedAt = none := by decide
  have hadmissible' : admissibilityRefusal (some []) (dayOrder 200)
      (dayRound .raised).decidedAt = none := by decide
  have hne := orderId_ne (show (200 : ℤ) ≠ 100 by decide) hsecond hfirst
  obtain ⟨mirror, hsubmits, hone⟩ := submitOne_lost uncounted_oneADay hadmissible rfl hfirst rfl
  let lost : OrderManager Unit :=
    { oneADay.decidedOn (dayOrder 100) (dayRound .raised) managerRun "2026-01-05" first with mirror }
  have hlost := uncounted_oneADay.after_lost hadmissible hsubmits
  have hunclaimed : lost.claims.get? (intentKey managerRun (dayOrder 200) "2026-01-05") = none := by
    have hclaims : lost.claims = Dict.empty.insert _ _ :=
      (oneADay.of_decidedOn (dayOrder 100) (dayRound .raised) managerRun "2026-01-05" first).2.2
    rw [hclaims, Dict.get?_insert_of_ne]
    · rfl
    · intro hkey
      have hterms := @terms_of_orderIntentKey _ (dayOrder 200) (dayOrder 100) _ _ hkey
      exact absurd hterms.2.2.1 (by decide)
  have hunopened : lost.mirror.book.orders.get? (Domain.Order.fromIntent second none).orderId =
      none := by
    have horders := hsubmits.orders
    rw [horders]
    exact Dict.get?_insert_of_ne _ hne _
  obtain ⟨mirror', hsubmits', htwo⟩ :=
    submitOne_lost hlost hadmissible' hunclaimed hsecond hunopened
  let lost' : OrderManager Unit :=
    { lost.decidedOn (dayOrder 200) (dayRound .raised) managerRun "2026-01-05" second with
      mirror := mirror' }
  have hlost' := hlost.after_lost hadmissible' hsubmits'
  have hrun : Run.run OrderManager.deskStep oneADay lostAnswers = lost' := by
    have hfirst' : oneADay.deskStep (.submitOrders [(dayOrder 100, dayRound .raised)]) = lost :=
      (OrderManager.submitOrders_one _ _ _).trans hone
    have hsecond' : lost.deskStep (.submitOrders [(dayOrder 200, dayRound .raised)]) = lost' :=
      (OrderManager.submitOrders_one _ _ _).trans htwo
    rw [lostAnswers, Run.run_cons, hfirst', Run.run_cons, hsecond', Run.run_nil]
  have hkept := hlost'.wellKept
  have hknown : mirror'.book.orders.get? (submittedOrder first).orderId =
      some (submittedOrder first) := by
    rw [hsubmits'.orders, Dict.get?_insert_of_ne _ (Ne.symm hne)]
    exact hsubmits.known
  have hboth : [(submittedOrder first).orderId, (submittedOrder second).orderId] ⊆
      (sentOrders mirror'.book "600000.SH" "2026-01-05").map Domain.Order.orderId := by
    intro orderId hmem
    rw [hkept.mem_sentIds]
    rcases List.mem_pair.mp hmem with rfl | rfl
    · exact sentFor_submitted hkept hfirst hknown
    · exact sentFor_submitted hkept hsecond hsubmits'.known
  have hnodup : [(submittedOrder first).orderId, (submittedOrder second).orderId].Nodup := by
    simpa using Ne.symm hne
  have hlength := (List.subperm_of_subset hnodup hboth).length_le
  rw [List.length_map] at hlength
  rw [hrun]
  exact ⟨hlost'.config, hlength⟩

end Lost

/-- Two orders of a symbol are submitted where one a day is allowed: the venue raised before the
first one was counted. -/
theorem not_withinDailyLimit_lostAnswers :
    (∀ call ∈ lostAnswers, call.Reports) ∧
      ¬ Run.Throughout OrderManager.deskStep OrderManager.WithinDailyLimit oneADay lostAnswers := by
  refine ⟨fun call hcall order horder ↦ ?_, fun hthroughout ↦ ?_⟩
  · have hround : order.2 = dayRound .raised := by
      rcases List.mem_pair.mp hcall with rfl | rfl
      · rw [List.mem_singleton.mp horder]
      · rw [List.mem_singleton.mp horder]
    rw [hround]
    exact reports_dayRound _
  · have hlast := (hthroughout.last "600000.SH" "2026-01-05").1
    obtain ⟨hconfig, htwo⟩ := two_lost
    rw [hconfig] at hlast
    have hlimit : max (0 : ℤ) 1 = 1 := by decide
    rw [hlimit] at hlast
    omega

/-- A venue that answers, at one order. -/
theorem withinDailyLimit_answered :
    Run.Throughout OrderManager.deskStep OrderManager.WithinDailyLimit oneADay
      [.submitOrders [(dayOrder 100, dayRound (.settled "b-1" .filled 100 10 "filled"))]] := by
  refine OrderManager.withinDailyLimit_of_answers _ _ _ _ _ (fun call hcall order horder ↦ ?_)
    fun call hcall order horder ↦ ?_
  · rw [List.mem_singleton.mp hcall] at horder
    rw [List.mem_singleton.mp horder]
    exact reports_dayRound _
  · rw [List.mem_singleton.mp hcall] at horder
    rw [List.mem_singleton.mp horder]
    exact fun _ _ _ _ ↦ ⟨by simp [dayRound], fun reason hreason ↦ by cases hreason⟩

end QuantAgent.Execution
