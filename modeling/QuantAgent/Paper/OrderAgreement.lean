import QuantAgent.MarketRules.Reference
import QuantAgent.Paper.Mirroring

/-!
# Paper orders and canonical orders along a run

Every order the broker has opened canonically stays paired with its canonical order through any
sequence of calls whose sizes go together.  They do not always: the canonical order is opened for
the shares that were asked for, and the paper order is rounded to a lot afterwards.
-/

namespace QuantAgent.Paper

open Library Domain MarketRules Library.Run

inductive Call where
  | submit (answers : Answers) (order : Order) (market : Market)
  | cancel (answers : Answers) (orderId : String) (tradeDate : Option String)
  | close

namespace Broker

/-! ## Agreement -/

/-- The canonical order of every known order has its filled quantity and its state. -/
def OrdersAgree (broker : Broker) : Prop :=
  ∀ orderId order canonicalId, broker.orders.get? orderId = some order →
    broker.canonicalIds.get? orderId = some canonicalId →
    ∃ canonical, broker.mirror.book.orders.get? canonicalId = some canonical ∧
      canonical.filledQuantity = order.filledQuantity ∧
      canonical.status = order.state.toCanonical ∧
      (order.state.isTerminal = true ↔ canonical.isTerminal = true)

structure Tracked (broker : Broker) : Prop where
  writable : broker.mirror.ledger.writeFailure = none
  named : ∀ orderId order, broker.orders.get? orderId = some order → order.orderId = orderId
  distinct : ∀ orderId other canonicalId, broker.canonicalIds.get? orderId = some canonicalId →
    broker.canonicalIds.get? other = some canonicalId → orderId = other
  opened : ∀ orderId canonicalId, broker.canonicalIds.get? orderId = some canonicalId →
    ∃ canonical, broker.mirror.book.orders.get? canonicalId = some canonical ∧
      (∀ fill ∈ canonical.fills, fill.executionId ∈ broker.fillIds) ∧
      ∀ order, broker.orders.get? orderId = some order →
        Matched order canonical ∧ Asked order canonical

variable {broker : Broker}

theorem Tracked.ordersAgree (h : Tracked broker) : OrdersAgree broker := by
  intro orderId order canonicalId horder hid
  obtain ⟨canonical, hknown, -, hpaired⟩ := h.opened orderId canonicalId hid
  obtain ⟨hmatched, -⟩ := hpaired order horder
  refine ⟨canonical, hknown, hmatched.filled, hmatched.status, ?_⟩
  rw [OrderState.isTerminal, Domain.Order.isTerminal, hmatched.status]

theorem tracked_opening (portfolio : Portfolio) (config : BrokerConfig) (lineage : Lineage)
    (durable : Bool) : Tracked (.opening portfolio config lineage durable) where
  writable := rfl
  named _ _ h := by cases h
  distinct _ _ _ h := by cases h
  opened _ _ h := by cases h

variable {order : Order}

variable {canonicalId : String}

theorem Tracked.standing (h : Tracked broker)
    (horder : broker.orders.get? order.orderId = some order)
    (hid : broker.canonicalIds.get? order.orderId = some canonicalId) :
    ∃ canonical, Standing broker order canonicalId canonical ∧ Asked order canonical := by
  obtain ⟨canonical, hknown, hexecutions, hpaired⟩ := h.opened _ _ hid
  obtain ⟨hmatched, hasked⟩ := hpaired order horder
  exact ⟨canonical, ⟨hid, hknown, hmatched, hexecutions, h.writable⟩, hasked⟩

/-- A call that concerns one order keeps the invariant when it leaves the others alone and pairs
this one. -/
theorem Tracked.of_one {after : Broker} (h : Tracked broker) (order : Order)
    (horders : after.orders.get? order.orderId = some order)
    (hother : ∀ orderId, orderId ≠ order.orderId → after.orders.get? orderId = broker.orders.get?
      orderId ∧ after.canonicalIds.get? orderId = broker.canonicalIds.get? orderId)
    (hfillIds : broker.fillIds ⊆ after.fillIds)
    (hwritable : after.mirror.ledger.writeFailure = none)
    (hbook : ∀ orderId canonicalId, orderId ≠ order.orderId → broker.canonicalIds.get? orderId =
      some canonicalId → after.canonicalIds.get? order.orderId ≠ some canonicalId ∧
      after.mirror.book.orders.get? canonicalId = broker.mirror.book.orders.get? canonicalId)
    (hown : ∀ canonicalId, after.canonicalIds.get? order.orderId = some canonicalId → ∃ canonical,
      Standing after order canonicalId canonical ∧ Asked order canonical) :
    Tracked after where
  writable := hwritable
  named orderId held hheld := by
    by_cases hsame : orderId = order.orderId
    · subst hsame
      rw [horders] at hheld
      rw [← Option.some.inj hheld]
    · rw [(hother orderId hsame).1] at hheld
      exact h.named orderId held hheld
  distinct := by
    have hclash : ∀ orderId canonicalId, orderId ≠ order.orderId →
        after.canonicalIds.get? orderId = some canonicalId →
        after.canonicalIds.get? order.orderId ≠ some canonicalId := by
      intro orderId canonicalId hne hid
      rw [(hother orderId hne).2] at hid
      exact (hbook orderId canonicalId hne hid).1
    intro orderId other canonicalId hid hid'
    by_cases hsame : orderId = order.orderId
    · by_cases hsame' : other = order.orderId
      · rw [hsame, hsame']
      · rw [hsame] at hid
        exact absurd hid (hclash other canonicalId hsame' hid')
    · by_cases hsame' : other = order.orderId
      · rw [hsame'] at hid'
        exact absurd hid' (hclash orderId canonicalId hsame hid)
      · rw [(hother orderId hsame).2] at hid
        rw [(hother other hsame').2] at hid'
        exact h.distinct orderId other canonicalId hid hid'
  opened orderId canonicalId hid := by
    by_cases hsame : orderId = order.orderId
    · subst hsame
      obtain ⟨canonical, hstanding, hasked⟩ := hown canonicalId hid
      refine ⟨canonical, hstanding.known, hstanding.executions, fun held hheld ↦ ?_⟩
      rw [horders] at hheld
      rw [← Option.some.inj hheld]
      exact ⟨hstanding.matched, hasked⟩
    · rw [(hother orderId hsame).2] at hid
      obtain ⟨canonical, hknown, hexecutions, hpaired⟩ := h.opened orderId canonicalId hid
      refine ⟨canonical, ?_, fun fill hfill ↦ hfillIds (hexecutions fill hfill), fun held hheld ↦ ?_⟩
      · rw [(hbook orderId canonicalId hsame hid).2, hknown]
      · rw [(hother orderId hsame).1] at hheld
        exact hpaired held hheld

/-- The outcome of a call for one order that was open already, once the broker holds it. -/
theorem Tracked.of_steps {α : Type} (h : Tracked broker)
    (hid : broker.canonicalIds.get? order.orderId = some canonicalId)
    {outcome : Broker × Order × Except VenueError α} (hsteps : Steps canonicalId broker outcome) :
    Tracked (outcome.1.hold outcome.2.1) := by
  obtain ⟨⟨canonical, hstanding, hasked⟩, hmoves⟩ := hsteps
  have hmapped := hstanding.mapped
  rw [hmoves.canonicalIds] at hmapped
  refine h.of_one outcome.2.1 (Dict.get?_insert_self _ _ _) (fun orderId hne ↦ ⟨?_, ?_⟩)
    hmoves.fillIds hstanding.writable (fun orderId other hne hother ↦ ⟨fun hsame ↦ ?_, ?_⟩) (fun other hother ↦ ?_)
  · rw [hold, Dict.get?_insert_of_ne _ hne, hmoves.orders]
  · rw [hold, hmoves.canonicalIds]
  · simp only [hold, hmoves.canonicalIds] at hsame
    exact hne (h.distinct _ _ _ hother hsame)
  · refine hmoves.others other (fun heq ↦ ?_)
    rw [heq] at hother
    exact hne (h.distinct _ _ _ hother hmapped)
  · have hsame : other = canonicalId := by
      simp only [hold, hmoves.canonicalIds, hmapped] at hother
      exact (Option.some.inj hother).symm
    subst hsame
    exact ⟨canonical, ⟨hstanding.mapped, hstanding.known, hstanding.matched, hstanding.executions,
      hstanding.writable⟩, hasked⟩

section Steps

variable [Hashing ℚ]

/-! ## Opening -/

variable {broker : Broker} {session : String}

theorem applyAndAppend_eq {moment : Moment} {canonicalId : String} {kind : OrderEventType}
    {riskDecision : Option (RiskDecision ℚ)} {after : Mirror ℚ} {updated : Domain.Order ℚ}
    (hkind : kind.isExecution = false)
    (hperform : broker.mirror.perform moment (.event canonicalId kind none none riskDecision (some
      session)) = (after, .ok updated)) :
    broker.applyAndAppend moment canonicalId kind riskDecision session =
      ({ broker with mirror := after }, .ok ()) := by
  simp only [Mirror.perform, Mirror.mirrorEvent] at hperform
  unfold applyAndAppend
  cases happly : broker.mirror.book.apply canonicalId kind none none riskDecision moment.now with
  | error error =>
    rw [happly] at hperform
    simp at hperform
  | ok result =>
    obtain ⟨book, changed⟩ := result
    obtain ⟨event, hevents⟩ := OrderBook.events_apply hkind happly
    rw [happly] at hperform
    simp only [hevents, List.length_append, List.length_singleton, Nat.lt_succ_self,
      if_true] at hperform
    simp only [hperform]

variable {order : Order} {intent : OrderIntent ℚ}

theorem quantity_intentOf (h : broker.intentOf order session = .ok intent) :
    intent.quantity = truncate order.quantity := by
  simp only [intentOf, OrderIntent.create] at h
  split at h
  · cases h
    simp
  · cases h

def submittedOrder (intent : OrderIntent ℚ) : Domain.Order ℚ :=
  ((Domain.Order.fromIntent intent none).afterEvent .riskApproved none).afterEvent .submitted none

theorem intentOf_error {error : OrderError} (h : broker.intentOf order session = .error error) :
    truncate order.quantity ≤ 0 := by
  simp only [intentOf, OrderIntent.create] at h
  split at h
  · cases h
  · rename_i hpositive
    simpa using hpositive

variable {answers : Answers}

/-- What opening an order can do: raise and leave everything as it is, for want of a whole share or
because the canonical order exists; or submit a new canonical order for its whole shares. -/
theorem canonicalOpen_cases (order : Order) (tradeDate : Option String)
    (hwritable : broker.mirror.ledger.writeFailure = none) (hlands : Lands broker answers) :
    (∃ error, broker.canonicalOpen answers order tradeDate = (broker, .error error) ∧
      (truncate order.quantity ≤ 0 ∨ broker.mirror.book.orders ≠ .empty)) ∨
    ∃ intent mirror, intent.quantity = (truncate order.quantity : ℚ) ∧
      broker.mirror.book.orders.get? (submittedOrder intent).orderId = none ∧
      broker.canonicalOpen answers order tradeDate =
        ({ broker with
          mirror
          canonicalIds :=
            broker.canonicalIds.insert order.orderId (submittedOrder intent).orderId }, .ok ()) ∧
      mirror.book.orders.get? (submittedOrder intent).orderId = some (submittedOrder intent) ∧
      (∀ other, other ≠ (submittedOrder intent).orderId →
        mirror.book.orders.get? other = broker.mirror.book.orders.get? other) ∧
      mirror.ledger.writeFailure = none ∧
      mirror.ledger.durable = broker.mirror.ledger.durable := by
  have hwrites : ∀ {mirror : Mirror ℚ}, mirror.ledger.writeFailure = none →
      mirror.ledger.durable = broker.mirror.ledger.durable → ∀ index,
      mirror.ledger.Writes (answers.moments index).write :=
    fun hnone hsame index ↦ ⟨hnone, fun hdurable ↦ hlands (hsame ▸ hdurable) index⟩
  let session := sessionOr tradeDate answers.wallClock
  cases hintent : broker.intentOf order session with
  | error error =>
    refine .inl ⟨.intent error, ?_, .inl (intentOf_error hintent)⟩
    simp only [canonicalOpen, session] at hintent ⊢
    rw [hintent]
  | ok intent =>
    let opened := Domain.Order.fromIntent intent none
    let approved := opened.afterEvent .riskApproved none
    let decision := decisionOf opened.lineage answers.decidedAt
    rcases Mirror.perform_opening intent none (some session) (hwrites hwritable rfl 0) with
      ⟨known, error, hget, hcollision⟩ | ⟨hfresh, mirror, hopen, hopened⟩
    · left
      refine ⟨.mirror error, ?_, .inr fun hempty ↦ by rw [hempty] at hget; cases hget⟩
      simp only [canonicalOpen, session] at hintent hcollision ⊢
      simp only [hintent, record, hcollision]
    · right
      have hknown : mirror.book.orders.get? opened.orderId = some opened := by
        rw [hopened.orders, Dict.get?_insert_self]
      have hdecision : ∀ given, some decision = some given →
          given.threshold.Plain ∧ given.measured.Plain := by
        rintro _ ⟨⟩
        exact ⟨trivial, trivial⟩
      obtain ⟨mirror', happrove, happroved⟩ := Mirror.perform_event .riskApproved none
        (some decision) (some session) hknown rfl
        (show OrderStatus.approved ∈ allowedTransitions .pendingRisk by decide) (fun htarget ↦ by cases htarget)
        hdecision (hwrites hopened.writable hopened.durable 1)
      have hknown' : mirror'.book.orders.get? opened.orderId = some approved := by
        rw [happroved.orders, Dict.get?_insert_self]
      obtain ⟨mirror'', hsubmit, hsubmitted⟩ := Mirror.perform_event .submitted none none
        (some session) hknown' rfl
        (show OrderStatus.submitted ∈ allowedTransitions .approved by decide) (fun htarget ↦ by cases htarget) (fun _ hnone ↦ by cases hnone)
        (hwrites happroved.writable (happroved.durable.trans hopened.durable) 2)
      refine ⟨intent, mirror'', quantity_intentOf hintent, hfresh, ?_, ?_, fun other hother ↦ ?_,
        hsubmitted.writable,
        hsubmitted.durable.trans (happroved.durable.trans hopened.durable)⟩
      · have happly : ({ broker with
            mirror
            canonicalIds := broker.canonicalIds.insert order.orderId opened.orderId } :
            Broker).applyAndAppend (answers.moments 1) opened.orderId .riskApproved
            (some decision) session = _ := applyAndAppend_eq rfl happrove
        have happly' : ({ broker with
            mirror := mirror'
            canonicalIds := broker.canonicalIds.insert order.orderId opened.orderId } :
            Broker).applyAndAppend (answers.moments 2) opened.orderId .submitted none session =
            _ := applyAndAppend_eq rfl hsubmit
        simp only [canonicalOpen, session, decision, opened] at hintent hopen happly happly' ⊢
        simp only [hintent, record, hopen, happly, happly']
        rfl
      · rw [show (submittedOrder intent).orderId = opened.orderId from rfl, hsubmitted.orders,
          Dict.get?_insert_self]
        rfl
      · have hne : other ≠ opened.orderId := hother
        rw [hsubmitted.orders, Dict.get?_insert_of_ne _ hne, happroved.orders,
          Dict.get?_insert_of_ne _ hne, hopened.orders, Dict.get?_insert_of_ne _ hne]

theorem standing_submitted
    (hmapped : broker.canonicalIds.get? order.orderId = some (submittedOrder intent).orderId)
    (hknown : broker.mirror.book.orders.get? (submittedOrder intent).orderId = some (submittedOrder
      intent)) (hwritable : broker.mirror.ledger.writeFailure = none) (hstate : order.state = .new)
    (hfilled : order.filledQuantity = 0) :
    Standing broker order (submittedOrder intent).orderId (submittedOrder intent) where
  mapped := hmapped
  known := hknown
  matched :=
    { filled := by rw [hfilled]; exact Nat.cast_zero
      status := by rw [hstate]; rfl
      idle := fun _ ↦ ⟨Nat.cast_zero, rfl⟩
      settled := by rw [hstate]; decide }
  executions fill hfill := by cases hfill
  writable := hwritable

variable [Platform]

omit [Hashing ℚ] in
/-- Validation does not look at the record of account. -/
theorem validate_opened (broker : Broker) (mirror : Mirror ℚ) (canonicalIds : Dict String String)
    (answers : Answers) (order : Order) (market : Market) :
    ({ broker with mirror, canonicalIds }.validate answers order market).2 =
      (broker.validate answers order market).2 := by
  unfold validate
  cases answers.blocked with
  | some reason => rfl
  | none =>
  cases market.invalidReason with
  | some invalid => rfl
  | none =>
  cases market.phase with
  | error error => rfl
  | ok phase =>
  simp only
  split
  · rfl
  cases market.limits with
  | error error => rfl
  | ok limits =>
  let checked : Broker := { broker with portfolio := broker.portfolio.withPosition order.symbol }
  have hrefusal : ({ checked with mirror, canonicalIds } : Broker).instrumentRefusal order market
      limits = checked.instrumentRefusal order market limits := rfl
  simp only [checked] at hrefusal
  simp only [hrefusal]
  cases ({ broker with portfolio := broker.portfolio.withPosition order.symbol } :
      Broker).instrumentRefusal order market limits with
  | some reason => rfl
  | none =>
    simp only
    split <;> rfl

/-! ## Calls -/

/-- What a call must bring along: writes that land; an order that is new, or the one the broker
holds; sizes that go together. -/
def Fits (broker : Broker) : Call → Prop
  | .submit answers order market =>
    Lands broker answers ∧
    (match broker.canonicalIds.get? order.orderId with
      | none => order.state = .new ∧ order.filledQuantity = 0
      | some _ => broker.orders.get? order.orderId = some order) ∧
    SizesMeet broker answers order market
  | .cancel answers _ _ => Lands broker answers
  | .close => True

/-- The broker after a call, whether it raised or not. -/
def step (broker : Broker) : Call → Broker
  | .submit answers order market => (broker.submit answers order market).1
  | .cancel answers orderId tradeDate => (broker.cancel answers orderId tradeDate).1
  | .close => broker.closeSession

omit [Hashing ℚ] [Platform] in
theorem Tracked.hold (h : Tracked broker) (hid : broker.canonicalIds.get? order.orderId = none) :
    Tracked (broker.hold order) := by
  refine h.of_one order (Dict.get?_insert_self _ _ _) (fun orderId hne ↦ ⟨?_, rfl⟩) (fun _ hmem ↦ hmem)
    h.writable (fun orderId canonicalId _ _ ↦ ⟨?_, rfl⟩) (fun canonicalId hsome ↦ ?_)
  · rw [Broker.hold, Dict.get?_insert_of_ne _ hne]
  · simp only [Broker.hold, hid]
    exact Option.some_ne_none _ ∘ Eq.symm
  · simp only [Broker.hold, hid] at hsome
    cases hsome

variable {market : Market} {mirror : Mirror ℚ}

theorem Tracked.open_work (h : Tracked broker) (hlands : Lands broker answers)
    (hstate : order.state = .new) (hfilled : order.filledQuantity = 0)
    (hmeets : SizesMeet broker answers order market)
    (hquantity : intent.quantity = (truncate order.quantity : ℚ))
    (hfresh : broker.mirror.book.orders.get? (submittedOrder intent).orderId = none)
    (hknown : mirror.book.orders.get? (submittedOrder intent).orderId = some (submittedOrder
      intent))
    (hothers : ∀ other, other ≠ (submittedOrder intent).orderId → mirror.book.orders.get? other =
      broker.mirror.book.orders.get? other) (hwritable : mirror.ledger.writeFailure = none)
    (hdurable : mirror.ledger.durable = broker.mirror.ledger.durable) :
    let opened : Broker := { broker with
      mirror
      canonicalIds := broker.canonicalIds.insert order.orderId (submittedOrder intent).orderId }
    Tracked ((opened.work answers order market).1.hold (opened.work answers order market).2.1) := by
  intro opened
  let canonicalId := (submittedOrder intent).orderId
  have hunused : ∀ orderId, broker.canonicalIds.get? orderId ≠ some canonicalId := by
    intro orderId hsome
    obtain ⟨canonical, hget, -⟩ := h.opened orderId canonicalId hsome
    rw [hfresh] at hget
    cases hget
  have hstanding : Standing opened order canonicalId (submittedOrder intent) :=
    standing_submitted (Dict.get?_insert_self _ _ _) hknown hwritable hstate hfilled
  have hsizes : SizesMeet opened answers order market := by
    intro hnew hpasses hpositive limits htrades
    rw [validate_opened] at hpasses
    exact hmeets hnew hpasses hpositive limits
      ⟨htrades.reached, htrades.positive, htrades.banded, htrades.new, htrades.accepted⟩
  have hlands' : Lands opened answers := fun hfile ↦ hlands (hdurable ▸ hfile)
  obtain ⟨⟨canonical, hpaired, hasked⟩, hmoves⟩ := hstanding.work (fun _ ↦ hquantity) hsizes hlands'
  generalize opened.work answers order market = outcome at *
  obtain ⟨after, order', result⟩ := outcome
  have hids := hmoves.canonicalIds
  have hsame : order'.orderId = order.orderId := by
    by_contra hne
    have hmapped := hpaired.mapped
    rw [hids, Dict.get?_insert_of_ne _ hne] at hmapped
    exact hunused _ hmapped
  refine h.of_one order' (Dict.get?_insert_self _ _ _) (fun orderId hne ↦ ⟨?_, ?_⟩) hmoves.fillIds
    hpaired.writable (fun orderId other hne hother ↦ ⟨fun hclash ↦ ?_, ?_⟩) (fun other hother ↦ ?_)
  · rw [Broker.hold, Dict.get?_insert_of_ne _ hne, hmoves.orders]
  · rw [hsame] at hne
    rw [Broker.hold, hids, Dict.get?_insert_of_ne _ hne]
  · have hmapped := hpaired.mapped
    simp only [Broker.hold] at hclash hmapped
    rw [hmapped] at hclash
    exact hunused orderId (hclash ▸ hother)
  · have hne' : other ≠ canonicalId := fun heq ↦ hunused orderId (heq ▸ hother)
    exact (hmoves.others other hne').trans (hothers other hne')
  · have hmapped := hpaired.mapped
    simp only [Broker.hold] at hother hmapped
    rw [hmapped] at hother
    cases hother
    exact ⟨canonical, ⟨hpaired.mapped, hpaired.known, hpaired.matched, hpaired.executions,
      hpaired.writable⟩, hasked⟩

theorem step_submit (broker : Broker) (answers : Answers) (order : Order) (market : Market) :
    broker.step (.submit answers order market) = (broker.submit answers order market).1 := rfl

section

variable (h : Tracked broker)
include h

theorem Tracked.submit (hfits : Fits broker (.submit answers order market)) :
    Tracked (broker.submit answers order market).1 := by
  obtain ⟨hlands, hheld, hmeets⟩ := hfits
  simp only [Broker.submit, process]
  cases hid : broker.canonicalIds.get? order.orderId with
  | some canonicalId =>
    rw [hid] at hheld
    obtain ⟨canonical, hstanding, hasked⟩ := h.standing hheld hid
    cases answers.observation with
    | some message =>
      have hstay : Steps canonicalId broker
          (broker, order, (.error (.surroundings message) : Except VenueError Unit)) :=
        ⟨⟨canonical, hstanding, hasked⟩, .refl broker canonicalId⟩
      exact h.of_steps hid hstay
    | none => exact h.of_steps hid (hstanding.work hasked hmeets hlands)
  | none =>
    rw [hid] at hheld
    cases answers.observation with
    | some message => exact h.hold hid
    | none =>
      rcases canonicalOpen_cases order (some market.tradeDate) h.writable hlands with
        ⟨error, hopen, -⟩ | ⟨intent, mirror, hquantity, hfresh, hopen, hknown, hothers, hwritable,
          hdurable⟩
      · simp only [hopen]
        exact h.hold hid
      · simp only [hopen]
        exact h.open_work hlands hheld.1 hheld.2 hmeets hquantity hfresh hknown hothers
          hwritable hdurable

omit [Hashing ℚ] [Platform] in
/-- The two transitions of a cancellation, with the canonical record moved as well. -/
theorem Tracked.of_cancelled (hwritable : mirror.ledger.writeFailure = none)
    (hbook : ∀ other, broker.canonicalIds.get? order.orderId ≠ some other → mirror.book.orders.get?
      other = broker.mirror.book.orders.get? other)
    (hown : ∀ canonicalId, broker.canonicalIds.get? order.orderId = some canonicalId → ∃ canonical,
      Standing { broker with mirror } { order with state := .cancelled } canonicalId canonical) :
    Tracked { ((broker.hold { order with state := .cancelRequested }).hold
      { order with state := .cancelled }) with mirror } := by
  refine h.of_one { order with state := .cancelled } (Dict.get?_insert_self _ _ _)
    (fun other hne ↦ ⟨?_, rfl⟩) (fun _ hmem ↦ hmem) hwritable
    (fun other canonicalId hne hother ↦ ⟨fun hsame ↦ hne (h.distinct _ _ _ hother hsame), ?_⟩)
    (fun canonicalId hid ↦ ?_)
  · simp only [Broker.hold]
    rw [Dict.get?_insert_of_ne _ hne, Dict.get?_insert_of_ne _ hne]
  · exact hbook canonicalId fun hsame ↦ hne (h.distinct _ _ _ hother hsame)
  · obtain ⟨canonical, hstanding⟩ := hown canonicalId hid
    exact ⟨canonical, ⟨hid, hstanding.known, hstanding.matched, hstanding.executions, hwritable⟩,
      by rintro ⟨⟩⟩

omit [Platform] in
theorem Tracked.cancel (hlands : Lands broker answers) (orderId : String)
    (tradeDate : Option String) :
    Tracked (broker.cancel answers orderId tradeDate).1 := by
  unfold Broker.cancel
  cases hget : broker.orders.get? orderId with
  | none => exact h
  | some order =>
    obtain rfl := h.named orderId order hget
    simp only
    split
    · exact h
    by_cases hallows : order.state.allows .cancelRequested = true
    swap
    · rw [Order.transition_of_not_allows hallows]
      exact h
    let requested : Order := { order with state := .cancelRequested }
    let cancelled : Order := { order with state := .cancelled }
    have hrequest : order.transition .cancelRequested = .ok requested :=
      Order.transition_of_allows hallows
    have hcancel : requested.transition .cancelled = .ok cancelled :=
      Order.transition_of_allows (show OrderState.cancelRequested.allows .cancelled = true by decide)
    rw [hrequest]
    cases hid : broker.canonicalIds.get? order.orderId with
    | none =>
      have hfirst : (broker.hold requested).canonicalEvent (answers.moments 0) requested
          .cancelRequested none tradeDate = (broker.hold requested, .ok ()) := by
        simp only [canonicalEvent, Broker.hold, requested, hid]
      have hsecond : ((broker.hold requested).hold cancelled).canonicalEvent
          (answers.moments 1) cancelled .cancelled (some "operator_cancel") tradeDate =
          ((broker.hold requested).hold cancelled, .ok ()) := by
        simp only [canonicalEvent, Broker.hold, cancelled, hid]
      simp only [hfirst, hcancel, hsecond]
      exact h.of_cancelled h.writable (fun _ _ ↦ rfl) fun canonicalId hsome ↦ by
        rw [hid] at hsome
        cases hsome
    | some canonicalId =>
      obtain ⟨canonical, hstanding, -⟩ := h.standing hget hid
      let pending := canonical.afterEvent .cancelRequested none
      have hallowed : OrderEventType.cancelRequested.targetStatus ∈
          allowedTransitions canonical.status := by
        rw [hstanding.matched.status]
        exact OrderState.allows_iff.mp hallows
      have hallowed' : OrderEventType.cancelled.targetStatus ∈
          allowedTransitions pending.status :=
        show OrderStatus.cancelled ∈ allowedTransitions .cancelRequested by decide
      obtain ⟨mirror, hfirst, hadvances⟩ := canonicalEvent_ok (broker.hold requested)
        requested none tradeDate hid hstanding.known rfl hallowed
        (fun htarget ↦ by cases htarget) (hstanding.writes hlands 0)
      have hknown : mirror.book.orders.get? canonicalId = some pending := by
        rw [hadvances.orders, Dict.get?_insert_self]
      obtain ⟨mirror', hsecond, hadvances'⟩ := canonicalEvent_ok
        (({ broker.hold requested with mirror } : Broker).hold cancelled) cancelled
        (some "operator_cancel") tradeDate hid hknown rfl hallowed'
        (fun htarget ↦ by cases htarget)
        ⟨hadvances.writable, fun hdurable ↦ hlands (hadvances.durable ▸ hdurable) 1⟩
      simp only [hfirst, hcancel, hsecond]
      refine h.of_cancelled hadvances'.writable (fun other hother ↦ ?_) fun other hother ↦ ?_
      · have hne : other ≠ canonicalId := fun heq ↦ hother (heq ▸ hid)
        rw [hadvances'.orders, Dict.get?_insert_of_ne _ hne]
        simp only [Broker.hold, hadvances.orders, Dict.get?_insert_of_ne _ hne]
      · rw [hid] at hother
        cases hother
        refine ⟨pending.afterEvent .cancelled (some "operator_cancel"), hid, ?_, ?_,
          hstanding.executions, hadvances'.writable⟩
        · rw [hadvances'.orders, Dict.get?_insert_self]
        · exact
            { filled := hstanding.matched.filled
              status := rfl
              idle := fun hidle ↦ by rcases hidle with hidle | hidle <;> cases hidle
              settled := by rintro ⟨⟩ }

theorem Tracked.step (call : Call) (hfits : Fits broker call) :
    Tracked (broker.step call) := by
  cases call with
  | submit answers order market => exact h.submit hfits
  | cancel answers orderId tradeDate => exact h.cancel hfits orderId tradeDate
  | close => exact ⟨h.writable, h.named, h.distinct, h.opened⟩

end

/-- Paper and canonical orders agree in every state of a run whose calls fit. -/
theorem ordersAgree_of_fits (portfolio : Portfolio) (config : BrokerConfig) (lineage : Lineage)
    (durable : Bool) {calls : List Call}
    (h : Run.Always step Fits (opening portfolio config lineage durable) calls) :
    Run.Throughout step OrdersAgree (opening portfolio config lineage durable) calls :=
  (Run.throughout_of_step (fun _ call htracked ↦ htracked.step call)
    (tracked_opening portfolio config lineage durable) h).imp fun _ ↦ Tracked.ordersAgree

end Steps

/-! ## A sample -/

def sampleMarket : Market where
  symbol := "600000.SH"
  tradeDate := "2026-01-05"
  lastPrice := 10
  previousClose := 10
  sessionVolume := 1000000
  board := .shMain
  clock := "10:00"
  isSuspended := false
  isSt := false
  sessionsSinceListing := none
  high := none
  low := none

def sampleConfig : BrokerConfig where
  participationCap := 1 / 10
  commissionRate := 1 / 4000
  slippageBps := 0
  impactCoefficient := 0
  allowStBuy := false

def sampleOrder (quantity : ℚ) (h : 0 < quantity) : Order where
  symbol := "600000.SH"
  side := .buy
  quantity
  orderType := .limit
  limitPrice := some 10
  board := .shMain
  orderId := "o-1"
  strategyId := none
  state := .new
  filledQuantity := 0
  filledNotional := 0
  feesPaid := 0
  rejectReason := none
  isFullLiquidation := false
  quantity_pos := h
  limit_required _ := Option.some_ne_none 10
  limit_pos price hprice := by
    cases hprice
    norm_num

def sampleAnswers : Answers where
  moments _ := Mirror.momentOf .landed
  wallClock := "2026-01-05T02:00:00+00:00"
  decidedAt := "2026-01-05T02:00:00+00:00"
  fillId := "f-1"
  observation := none
  blocked := none
  riskRefusal := none
  portfolioCheck := none

def sampleLimits : PriceLimits := ⟨some 11, some 9, some (1 / 10), "ORDINARY", 10⟩

theorem limits_sample : sampleMarket.limits = .ok sampleLimits := by
  have hratio : ordinaryLimitRatio .shMain "2026-01-05" = some (1 / 10) := rfl
  have hup : roundTick (10 * (1 + 1 / 10)) = 11 := by
    have hnear : roundHalfEven ((10 * (1 + 1 / 10) + 1 / 1000000000000) * 100) = 1100 :=
      roundHalfEven_of_near (by norm_num [abs_lt])
    rw [roundTick, roundCents, hnear]
    norm_num
  have hdown : roundTick (10 * (1 - 1 / 10)) = 9 := by
    have hnear : roundHalfEven ((10 * (1 - 1 / 10) + 1 / 1000000000000) * 100) = 900 :=
      roundHalfEven_of_near (by norm_num [abs_lt])
    rw [roundTick, roundCents, hnear]
    norm_num
  change priceLimits .shMain 10 "2026-01-05" none false = .ok sampleLimits
  simp only [priceLimits, Option.any_none, Bool.false_and, Bool.false_eq_true, if_false, hratio, hup,
    hdown]
  rfl

theorem hundred_pos : (0 : ℚ) < 100 := by norm_num

theorem oddLot_pos : (0 : ℚ) < 150 := by norm_num

/-- One lot and an odd lot above it are both rounded to the lot. -/
theorem sized_sample :
    (sampleOrder 100 hundred_pos).sizedQuantity = 100 ∧
      (sampleOrder 150 oddLot_pos).sizedQuantity = 100 := by
  have hlot : wholeShares 100 = 100 := wholeShares_intCast 100
  have hodd : wholeShares 150 = 150 := wholeShares_intCast 150
  constructor
  · change roundToLot 100 .shMain .buy false = 100
    norm_num [roundToLot, lotRules, hlot]
  · change roundToLot 150 .shMain .buy false = 100
    norm_num [roundToLot, lotRules, hodd]

section

variable (hconfig : broker.config = sampleConfig) (hside : order.side = .buy)
  (hlimit : order.limitPrice = some 10)
include hconfig hside hlimit

theorem passes_sample (hsized : 0 < order.sizedQuantity) :
    (broker.validate sampleAnswers order sampleMarket).2.2 = .ok none := by
  have hphase : sampleMarket.phase = .ok .continuousAm := by rfl
  have hvalid : sampleMarket.invalidReason = none := by rfl
  have hup : sampleMarket.atLimitUp sampleLimits = false := by
    norm_num [Market.atLimitUp, sampleMarket, sampleLimits]
  have hdown : sampleMarket.atLimitDown sampleLimits = false := by
    norm_num [Market.atLimitDown, sampleMarket, sampleLimits]
  have hinstrument : ∀ checked : Broker, checked.config = sampleConfig →
      checked.instrumentRefusal order sampleMarket sampleLimits = none := by
    intro checked hchecked
    simp only [instrumentRefusal, hup, hdown, hside, hchecked, tradability]
    rfl
  have hbook : ∀ (checked : Broker) (sized : Order), sized.side = .buy → sized.limitPrice = some 10 →
      checked.bookRefusal sampleAnswers sized sampleLimits = none := by
    intro checked sized hbuy hprice
    have hbuying : ¬ Side.buy = Side.sell := by decide
    norm_num [bookRefusal, hbuy, hprice, sampleLimits, sampleAnswers, PriceLimits.unlimited, hbuying]
  have hblocked : sampleAnswers.blocked = none := rfl
  have hfree := hinstrument
    { broker with portfolio := broker.portfolio.withPosition order.symbol } hconfig
  have hopen : (!SessionPhase.continuousAm.tradable) = false := rfl
  simp only [validate, hblocked, hphase, hvalid, limits_sample, hopen, hfree, Bool.false_eq_true,
    if_false]
  rw [dif_pos (show 0 < roundToLot order.quantity order.board order.side order.isFullLiquidation
    from hsized)]
  exact congrArg Except.ok (hbook _ _ hside hlimit)

/-- What a lot costs: the minimum commission and the transfer fee come on top. -/
theorem cashDelta_sample :
    (broker.fillOf sampleAnswers order sampleMarket sampleLimits 100).cashDelta =
      -(1000 + (5 + 0 + 1 / 100)) := by
  have hround : roundHalfEven 1000 = 1000 := roundHalfEven_intCast 1000
  have hprice : executionPrice 10 .buy 100 1000000 0 0 sampleLimits (some 10) = 10 := by
    norm_num [executionPrice, sampleLimits, PriceLimits.unlimited, roundCents, hround]
  have hcosts : tradingCosts 1000 .buy "2026-01-05" (1 / 4000) = ⟨5, 0, 1 / 100⟩ := by
    have hbuying : ¬ Side.buy = Side.sell := by decide
    norm_num [tradingCosts, hbuying]
  let fill := broker.fillOf sampleAnswers order sampleMarket sampleLimits 100
  have hpriced : fill.price = 10 := by
    simp only [fill, fillOf, hconfig, hside, hlimit]
    exact hprice
  have hnotional : fill.notional = 1000 := by
    change ((100 : ℤ) : ℚ) * fill.price = 1000
    rw [hpriced]
    norm_num
  have hfees : fill.fees = 5 + 0 + 1 / 100 := by
    have hcharged : fill.fees =
        (tradingCosts fill.notional .buy "2026-01-05" (1 / 4000)).commission
          + (tradingCosts fill.notional .buy "2026-01-05" (1 / 4000)).stampDuty
          + (tradingCosts fill.notional .buy "2026-01-05" (1 / 4000)).transferFee := by
      simp only [fill, fillOf, hconfig, hside]
      rfl
    rw [hcharged, hnotional, hcosts]
  have hbuy : fill.side = .buy := hside
  change fill.cashDelta = _
  rw [Fill.cashDelta, hbuy, hnotional, hfees]

end

variable {quantity : ℚ}

/-- An order of the sample that is rounded to a lot is filled with a lot. -/
theorem trades_sample (hconfig : broker.config = sampleConfig) (hnew : broker.fillIds = [])
    (hcash : 2000 ≤ broker.portfolio.cash) (h : 0 < quantity)
    (hlot : (sampleOrder quantity h).sizedQuantity = 100)
    (hsized : 0 < (sampleOrder quantity h).sizedQuantity) :
    Trades broker sampleAnswers ((sampleOrder quantity h).sized hsized) sampleMarket sampleLimits ∧
      broker.tradeSize ((sampleOrder quantity h).sized hsized) sampleMarket = 100 := by
  let order := (sampleOrder quantity h).sized hsized
  have hquantity : order.quantity = 100 := by
    simp only [order, Order.sized, hlot]
    norm_num
  have hwhole : wholeShares 100 = 100 := wholeShares_intCast 100
  have hsize : broker.tradeSize order sampleMarket = 100 := by
    simp only [tradeSize, Order.remaining, hquantity, hconfig]
    change roundToLot (min (max 0 (100 - 0)) (1000000 * (1 / 10))) .shMain .buy false = 100
    norm_num [roundToLot, lotRules, hwhole]
  have hafford : broker.portfolio.canAfford
      (broker.fillOf sampleAnswers order sampleMarket sampleLimits 100) = true := by
    rw [Portfolio.canAfford, Bool.or_eq_true, cashDelta_sample hconfig rfl rfl]
    refine .inr (decide_eq_true ?_)
    linarith
  refine ⟨⟨?_, ?_, limits_sample, ?_, ?_⟩, hsize⟩
  · change decide ((10 : ℚ) < 10) = false
    norm_num
  · rw [hsize]
    norm_num
  · rw [hnew]
    exact List.not_mem_nil
  · rw [hsize]
    exact hafford

def sampleBroker : Broker :=
  opening (.opening "paper" 1000000) sampleConfig .empty false

def sampleCall (quantity : ℚ) (h : 0 < quantity) : Call :=
  .submit sampleAnswers (sampleOrder quantity h) sampleMarket

theorem tracked_sample : Tracked sampleBroker := tracked_opening _ _ _ _

theorem lands_sample (broker : Broker) : Lands broker sampleAnswers := fun _ _ ↦ rfl

theorem fits_lot : Fits sampleBroker (sampleCall 100 hundred_pos) := by
  refine ⟨lands_sample _, ⟨rfl, rfl⟩, fun _ _ hpositive limits htrades ↦ .inl ?_⟩
  rw [sized_sample.1]
  exact truncate_natCast 100

theorem ordersAgree_of_fits_lot :
    Run.Always step Fits sampleBroker [sampleCall 100 hundred_pos] ∧
      Run.Throughout step OrdersAgree sampleBroker [sampleCall 100 hundred_pos] :=
  ⟨⟨fits_lot, trivial⟩, ordersAgree_of_fits _ _ _ _ ⟨fits_lot, trivial⟩⟩

/-- What the sample broker does with an order that is rounded to a lot. -/
theorem submit_sample (h : 0 < quantity) (hlot : (sampleOrder quantity h).sizedQuantity = 100)
    (hasked : 100 ≤ truncate quantity) :
    ∃ canonicalId canonical, ∃ order : Order,
      (sampleBroker.submit sampleAnswers (sampleOrder quantity h) sampleMarket).1.orders.get? "o-1" =
        some order ∧
      (sampleBroker.submit sampleAnswers (sampleOrder quantity h) sampleMarket).1.canonicalIds.get?
        "o-1" = some canonicalId ∧
      (sampleBroker.submit sampleAnswers (sampleOrder quantity h)
        sampleMarket).1.mirror.book.orders.get? canonicalId = some canonical ∧
      order.state = .filled ∧
      (canonical.status = if 100 = truncate quantity then .filled else .partiallyFilled) ∧
      (sampleBroker.submit sampleAnswers (sampleOrder quantity h) sampleMarket).1.portfolio.cash =
        1000000 - (1000 + (5 + 0 + 1 / 100)) ∧
      (sampleBroker.submit sampleAnswers (sampleOrder quantity h) sampleMarket).1.fillIds =
        ["f-1"] := by
  let order := sampleOrder quantity h
  rcases canonicalOpen_cases order (some sampleMarket.tradeDate) tracked_sample.writable
    (lands_sample _) with ⟨error, -, hreason⟩ | ⟨intent, mirror, hquantity, hfresh, hopen, hknown, -,
      hwritable, hdurable⟩
  · rcases hreason with hfew | hempty
    · have hfew : truncate quantity ≤ 0 := hfew
      omega
    · exact absurd rfl hempty
  let opened : Broker := { sampleBroker with
    mirror
    canonicalIds := sampleBroker.canonicalIds.insert order.orderId (submittedOrder intent).orderId }
  have hstanding : Standing opened order (submittedOrder intent).orderId (submittedOrder intent) :=
    standing_submitted (Dict.get?_insert_self _ _ _) hknown hwritable rfl rfl
  have hpositive : 0 < order.sizedQuantity := by
    rw [hlot]
    norm_num
  have hconfig : opened.config = sampleConfig := rfl
  obtain ⟨portfolio, mirror', hsized, hwork, hportfolio, haccepted, hmoves⟩ :=
    hstanding.accept rfl (passes_sample hconfig rfl rfl hpositive) (lands_sample _)
  have hcash : 2000 ≤ opened.portfolio.cash := by
    change (2000 : ℚ) ≤ 1000000
    norm_num
  obtain ⟨htrades, hsize⟩ := trades_sample hconfig rfl hcash h hlot hsized
  have hcanonical : ((submittedOrder intent).afterEvent .accepted none).quantity =
      (truncate quantity : ℚ) := hquantity
  obtain ⟨after, order', result, updated, hattempt, hmoney, hfillIds, hids, hname, hstate, -, hbook,
      hstatus⟩ := haccepted.attemptFill_booked rfl hcanonical rfl
    ((Standing.trades_accepted hportfolio).mpr htrades) hsize (by omega) (lands_sample _)
  have hobserved : sampleAnswers.observation = none := rfl
  have hheld : sampleBroker.canonicalIds.get? order.orderId = none := rfl
  have hsubmit : (sampleBroker.submit sampleAnswers order sampleMarket).1 = after.hold order' := by
    simp only [Broker.submit, process, hobserved, hheld, hopen]
    rw [show opened.work sampleAnswers order sampleMarket = _ from hwork, hattempt]
  rw [hsubmit]
  have hid : order'.orderId = "o-1" := hname
  have hcashAfter : after.portfolio.cash = 1000000 - (1000 + (5 + 0 + 1 / 100)) := by
    have hcashBefore : portfolio.cash = 1000000 := by
      rcases hportfolio with rfl | rfl
      · rfl
      · exact (Portfolio.cash_withPosition _ _).1
    have hbooked : after.portfolio.cash = portfolio.cash + _ := congrArg Portfolio.cash hmoney
    rw [hbooked, hcashBefore, cashDelta_sample rfl rfl rfl]
    ring
  refine ⟨(submittedOrder intent).orderId, updated, order', ?_, ?_, hbook, ?_, hstatus, hcashAfter,
    hfillIds⟩
  · rw [← hid]
    exact Dict.get?_insert_self _ _ _
  · rw [Broker.hold, hids]
    exact Dict.get?_insert_self _ _ _
  · exact hstate.trans (if_pos hlot.le)

/-- An order for a hundred and fifty shares is filled on paper with the first hundred, and partially
filled on the record of account. -/
theorem not_ordersAgree_oddLot :
    ¬ Run.Throughout step OrdersAgree sampleBroker [sampleCall 150 oddLot_pos] := by
  intro hall
  have hasked : truncate 150 = 150 := truncate_natCast 150
  have hagree := hall.last
  rw [run_cons, run_nil, sampleCall, step_submit] at hagree
  obtain ⟨canonicalId, canonical, order, horder, hid, hknown, hstate, hstatus, -⟩ :=
    submit_sample oddLot_pos sized_sample.2 (by rw [hasked]; norm_num)
  obtain ⟨canonical', hknown', -, hstatus', -⟩ := hagree "o-1" order canonicalId horder hid
  rw [show canonical' = canonical from Option.some.inj (hknown'.symm.trans hknown), hstatus, hstate,
    hasked] at hstatus'
  exact absurd hstatus' (by decide)

end Broker

end QuantAgent.Paper
