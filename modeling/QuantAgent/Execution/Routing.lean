import QuantAgent.Execution.DayCount
import QuantAgent.Execution.PaperAdapter

/-!
# The way of an approved order to its venue

An order that is approved is opened, decided and submitted on the record of account before the venue
sees it, and the venue meets it there as submitted for the quantity that was asked for.
-/

namespace QuantAgent.Execution

open Library
open Domain (Hashing Mirror MirrorCall MirrorError Moment OrderIntent OrderEventType RiskDecision)
open Paper.Broker (submittedOrder)
open Services (IntentClaim VenueAnswer Verdict)

section Submitted

variable [Hashing ℚ]

structure Submits (before after : Mirror ℚ) (intent : OrderIntent ℚ) : Prop where
  orders : after.book.orders =
    before.book.orders.insert (submittedOrder intent).orderId (submittedOrder intent)
  continues : ∃ more, Continues before after more
  writable : after.ledger.writeFailure = none
  durable : after.ledger.durable = before.ledger.durable

variable {after mirror : Mirror ℚ}

theorem Submits.known {before : Mirror ℚ} {intent : OrderIntent ℚ}
    (h : Submits before after intent) :
    after.book.orders.get? (submittedOrder intent).orderId = some (submittedOrder intent) := by
  rw [h.orders]
  exact Dict.get?_insert_self _ _ _

theorem exists_continues {moment : Moment} {call : MirrorCall ℚ} (hparent : Parentless call)
    {result : Except MirrorError (Domain.Order ℚ)}
    (h : mirror.perform moment call = (after, result)) : ∃ more, Continues mirror after more := by
  obtain ⟨more, hcontinues, -⟩ := continues_perform mirror moment hparent
  rw [h] at hcontinues
  exact ⟨more, hcontinues⟩

/-- Three records of an order that is new to the book. -/
theorem exists_submitted {intent : OrderIntent ℚ} {opened decided submitted : Moment}
    (session : String)
    (hnew : mirror.book.orders.get? (Domain.Order.fromIntent intent none).orderId = none)
    (hwrites : ∀ moment ∈ [opened, decided, submitted], mirror.ledger.Writes moment.write) :
    ∃ first : Mirror ℚ,
      mirror.perform opened (.opening intent none (some session)) =
        (first, .ok (Domain.Order.fromIntent intent none)) ∧
      ∀ decision : RiskDecision ℚ, decision.threshold.Plain ∧ decision.measured.Plain →
        ∃ second third : Mirror ℚ,
          first.perform decided (.event (Domain.Order.fromIntent intent none).orderId .riskApproved
              none none (some decision) (some session)) =
            (second, .ok ((Domain.Order.fromIntent intent none).afterEvent .riskApproved none)) ∧
          second.perform submitted (.event (Domain.Order.fromIntent intent none).orderId .submitted
              none none none (some session)) = (third, .ok (submittedOrder intent)) ∧
          Submits mirror third intent := by
  let order := Domain.Order.fromIntent intent none
  have hopens := hwrites opened (by simp)
  have hdecides := hwrites decided (by simp)
  have hsubmits := hwrites submitted (by simp)
  rcases Mirror.perform_opening intent none (some session) hopens with
    ⟨known, error, hknown, -⟩ | ⟨-, first, hopen, hopened⟩
  · rw [hknown] at hnew
    cases hnew
  refine ⟨first, hopen, fun decision hplain ↦ ?_⟩
  have hknown : first.book.orders.get? order.orderId = some order := by
    rw [hopened.orders, Dict.get?_insert_self]
  have hdecision : ∀ given, some decision = some given →
      given.threshold.Plain ∧ given.measured.Plain := by
    intro given hgiven
    cases hgiven
    exact hplain
  obtain ⟨second, happrove, happroved⟩ := Mirror.perform_event .riskApproved none (some decision)
    (some session) hknown rfl
    (show Domain.OrderStatus.approved ∈ Domain.allowedTransitions .pendingRisk by decide)
    (fun htarget ↦ by cases htarget) hdecision
    ⟨hopened.writable, fun hdurable ↦ hdecides.landed (hopened.durable ▸ hdurable)⟩
  have hknown' : second.book.orders.get? order.orderId =
      some (order.afterEvent .riskApproved none) := by
    rw [happroved.orders, Dict.get?_insert_self]
  have hdurable := happroved.durable.trans hopened.durable
  obtain ⟨third, hsubmit, hsubmitted⟩ := Mirror.perform_event .submitted none none (some session)
    hknown' rfl
    (show Domain.OrderStatus.submitted ∈ Domain.allowedTransitions .approved by decide)
    (fun htarget ↦ by cases htarget) (fun _ hnone ↦ by cases hnone)
    ⟨happroved.writable, fun hsame ↦ hsubmits.landed (hdurable ▸ hsame)⟩
  refine ⟨second, third, happrove, hsubmit, ?_, ?_, hsubmitted.writable,
    hsubmitted.durable.trans hdurable⟩
  · have hsame : (submittedOrder intent).orderId = order.orderId := rfl
    rw [hsame, hsubmitted.orders, happroved.orders, hopened.orders, Dict.insert_insert,
      Dict.insert_insert]
    rfl
  · obtain ⟨opening, hfirst⟩ := exists_continues (by
      intro _ _ _ hcall
      cases hcall
      rfl) hopen
    obtain ⟨approval, hsecond⟩ := exists_continues parentless_event happrove
    obtain ⟨submission, hthird⟩ := exists_continues parentless_event hsubmit
    exact ⟨_, (hfirst.trans hsecond).trans hthird⟩

end Submitted

namespace OrderManager

variable {W : Type} [Hashing ℚ] [OrderTexts] [Sha1] [PyText]

/-- The order manager comes to decide on an order: it is identified, its intent was not claimed
before, and it is new to the record of account, which can be written. -/
structure Considers (oms : OrderManager W) (order : WireOrder) (round : Round W)
    (runId session : String) (intent : OrderIntent ℚ) : Prop where
  run : oms.lineage.get .runId = some runId
  named : runId ≠ ""
  dated : exchangeSession order.timestamp = some session
  unclaimed : oms.claims.get? (intentKey runId order session) = none
  made : pendingIntent oms.lineage order session = .ok intent
  unopened : oms.mirror.book.orders.get? (Domain.Order.fromIntent intent none).orderId = none
  writes : ∀ moment ∈ [round.opened, round.decided, round.submitted],
    oms.mirror.ledger.Writes moment.write

def opening (oms : OrderManager W) (order : WireOrder) (round : Round W) (runId session : String)
    (intent : OrderIntent ℚ) : OrderManager W :=
  ((oms.claimIntent (intentKey runId order session) order).record round.opened
    (.opening intent none (some session))).1

def verdictOn (oms : OrderManager W) (order : WireOrder) (round : Round W) (runId session : String)
    (intent : OrderIntent ℚ) : Verdict :=
  ((oms.opening order round runId session intent).pretradeDecision order session round).2

def decidedOn (oms : OrderManager W) (order : WireOrder) (round : Round W)
    (runId session : String) (intent : OrderIntent ℚ) : OrderManager W :=
  ((oms.opening order round runId session intent).pretradeDecision order session round).1

omit [Hashing ℚ] [OrderTexts] [Sha1] in
/-- The decision moves the counts of the day and nothing else. -/
theorem of_pretradeDecision (oms : OrderManager W) (order : WireOrder) (session : String)
    (round : Round W) :
    (oms.pretradeDecision order session round).1.venue = oms.venue ∧
      (oms.pretradeDecision order session round).1.config = oms.config ∧
      (oms.pretradeDecision order session round).1.mirror = oms.mirror ∧
      (oms.pretradeDecision order session round).1.claims = oms.claims := by
  unfold pretradeDecision
  split
  · exact ⟨rfl, rfl, rfl, rfl⟩
  · simp only
    split
    · exact ⟨rfl, rfl, rfl, rfl⟩
    · split <;> exact ⟨rfl, rfl, rfl, rfl⟩

theorem of_decidedOn (oms : OrderManager W) (order : WireOrder) (round : Round W)
    (runId session : String) (intent : OrderIntent ℚ) :
    (oms.decidedOn order round runId session intent).venue = oms.venue ∧
      (oms.decidedOn order round runId session intent).config = oms.config ∧
      (oms.decidedOn order round runId session intent).claims =
        (oms.claimIntent (intentKey runId order session) order).claims := by
  obtain ⟨hvenue, hconfig, -, hclaims⟩ :=
    (oms.opening order round runId session intent).of_pretradeDecision order session round
  unfold decidedOn
  rw [hvenue, hconfig, hclaims]
  unfold opening
  rw [record_fst]
  exact ⟨rfl, rfl, rfl⟩

variable {oms : OrderManager W} {order : WireOrder} {session : String} {round : Round W}

section

omit [Hashing ℚ] [OrderTexts] [Sha1]

/-- Outside production an order is approved when no fixed rule refuses it and the day has room. -/
theorem of_approved (hproduction : oms.config.production = false)
    (h : (oms.pretradeDecision order session round).2.approved = true) :
    (oms.pretradeDecision order session round).2 = basicApproval order round.decidedAt ∧
      admissibilityRefusal (round.positions oms.venue) order round.decidedAt = none := by
  unfold pretradeDecision at h ⊢
  cases hrefusal : admissibilityRefusal (round.positions oms.venue) order round.decidedAt with
  | some refusal =>
    rw [hrefusal] at h
    simp only at h
    rw [not_approved_of_admissibilityRefusal hrefusal] at h
    cases h
  | none =>
    rw [hrefusal] at h
    have hsame : (oms.seeded session).config.production = false := hproduction
    simp only [hsame, Bool.false_eq_true, if_false] at h ⊢
    split at h
    · cases h
    · rename_i hroom
      rw [if_neg hroom]
      exact ⟨rfl, trivial⟩

/-- An order that no fixed rule refuses is decided on the counts of its session. -/
theorem decided_of_admissible (session : String)
    (h : admissibilityRefusal (round.positions oms.venue) order round.decidedAt = none) :
    (oms.pretradeDecision order session round).1 = oms.seeded session := by
  unfold pretradeDecision
  rw [h]
  simp only
  split
  · rfl
  · split <;> rfl

theorem approved_of_room (hproduction : oms.config.production = false)
    (h : admissibilityRefusal (round.positions oms.venue) order round.decidedAt = none)
    (hroom : (oms.seeded session).ordersToday order.symbol < oms.config.maxOrdersPerSymbolPerDay) :
    (oms.pretradeDecision order session round).2 = basicApproval order round.decidedAt := by
  have hsame : (oms.seeded session).config = oms.config := rfl
  unfold pretradeDecision
  rw [h]
  simp only [hsame, hproduction, Bool.false_eq_true, if_false]
  rw [if_neg (not_le.mpr hroom)]

end

def answerRouted (key : String) (order : WireOrder) (canonicalId : String) :
    OrderManager W × Except RoutingError (OrderState ℚ × Option String) →
      OrderManager W × Except RoutingError (Option (OrderState ℚ))
  | (oms, .error error) => (oms, .error error)
  | (oms, .ok (state, refusal)) =>
    ((oms.resolve key {
        clientOrderId := order.clientOrderId
        fingerprint := requestFingerprint order
        orderId := some canonicalId
        riskApproved := some true
        riskReason := none
        venueRefused := refusal }).counted order.symbol, .ok (some state))

theorem submitOne_approved {asked : WireOrder} {runId : String} {intent : OrderIntent ℚ}
    (h : oms.Considers (asked.stamped round.clock) round runId session intent)
    (happroved : (oms.verdictOn (asked.stamped round.clock) round runId session intent).approved =
      true)
    (hplain : (oms.verdictOn (asked.stamped round.clock) round runId session
      intent).threshold.Plain ∧ (oms.verdictOn (asked.stamped round.clock) round runId session
      intent).measured.Plain) :
    ∃ mirror : Mirror ℚ, Submits oms.mirror mirror intent ∧
      oms.submitOne asked round =
        answerRouted (intentKey runId (asked.stamped round.clock) session)
          (asked.stamped round.clock) (submittedOrder intent).orderId
          (({ oms.decidedOn (asked.stamped round.clock) round runId session intent with
            mirror } : OrderManager W).route (asked.stamped round.clock) (submittedOrder intent)
            round) := by
  let order := asked.stamped round.clock
  let key := intentKey runId order session
  let claimed := oms.claimIntent key order
  obtain ⟨first, hopen, hsubmit⟩ := exists_submitted session h.unopened h.writes
  have hrecord : claimed.record round.opened (.opening intent none (some session)) =
      ({ claimed with mirror := first }, .ok (Domain.Order.fromIntent intent none)) := by
    have hsame : claimed.mirror = oms.mirror := rfl
    rw [record, hsame, hopen]
  have hopening := congrArg Prod.fst hrecord
  have hverdict := congrArg (fun oms : OrderManager W ↦ (oms.pretradeDecision order session
    round).2) hopening
  let decidedOms : OrderManager W :=
    (({ claimed with mirror := first } : OrderManager W).pretradeDecision order session round).1
  have hdecided : oms.decidedOn order round runId session intent = decidedOms :=
    congrArg (fun oms : OrderManager W ↦ (oms.pretradeDecision order session round).1) hopening
  obtain ⟨-, -, hmirror, -⟩ :=
    ({ claimed with mirror := first } : OrderManager W).of_pretradeDecision order session round
  obtain ⟨second, third, happrove, hsent, hsubmits⟩ := hsubmit
    (decisionFor (oms.verdictOn order round runId session intent)
      (Domain.Order.fromIntent intent none)) hplain
  refine ⟨third, hsubmits, ?_⟩
  rw [hdecided]
  have happrovedRecord : decidedOms.record round.decided
      (.event (Domain.Order.fromIntent intent none).orderId .riskApproved none none
        (some (decisionFor (oms.verdictOn order round runId session intent)
          (Domain.Order.fromIntent intent none))) (some session)) =
      ({ decidedOms with mirror := second },
        .ok ((Domain.Order.fromIntent intent none).afterEvent .riskApproved none)) := by
    have hsame := hmirror
    rw [record, hsame, happrove]
  have hsentRecord : ({ decidedOms with mirror := second } : OrderManager W).record round.submitted
      (.event (Domain.Order.fromIntent intent none).orderId .submitted none none none
        (some session)) = ({ decidedOms with mirror := third }, .ok (submittedOrder intent)) := by
    rw [record, hsent]
  have hdecision : ({ claimed with mirror := first } : OrderManager W).pretradeDecision order
      session round = (decidedOms, oms.verdictOn order round runId session intent) :=
    Prod.ext rfl hverdict.symm
  have hclaimed : claimed.submitClaimed key session order round =
      decidedOms.submitApproved key session order (Domain.Order.fromIntent intent none)
        (oms.verdictOn order round runId session intent) round := by
    have hmade : pendingIntent claimed.lineage order session = .ok intent := h.made
    rw [submitClaimed, hmade]
    simp only [hrecord, hdecision, order, happroved, if_true]
  have hone : oms.submitOne asked round =
      ((claimed.submitClaimed key session order round).1,
        (claimed.submitClaimed key session order round).2.map some) := by
    unfold submitOne
    simp only [h.run, if_neg h.named, h.dated, h.unclaimed]
    cases claimed.submitClaimed key session order round with
    | mk after result =>
      cases result with
      | error error => rfl
      | ok state => rfl
  rw [hone, hclaimed, submitApproved, happrovedRecord]
  simp only [hsentRecord]
  cases hroute : ({ decidedOms with mirror := third } : OrderManager W).route order
      (submittedOrder intent) round with
  | mk after result =>
    cases result with
    | error error => rfl
    | ok answer => rfl

end OrderManager

end QuantAgent.Execution
