import QuantAgent.Domain.ExactLedger
import QuantAgent.Paper.Broker

/-!
# One order and its canonical counterpart

How the steps of a submission move one paper order and its canonical order.  `Standing` is what
holds of the two between the steps; every step keeps it when the ledger can write, and `Moves` says
what the step leaves alone.
-/

namespace QuantAgent.Paper

open Library Domain MarketRules

/-! ## Reasons -/

theorem isBlankText_append (first second : String) :
    isBlankText (first ++ second) = (isBlankText first && isBlankText second) := by
  simp [isBlankText, String.toList_append]

/-- A text that starts with something visible is not blank. -/
theorem not_blank_append {first : String} (h : isBlankText first = false) (second : String) :
    isBlankText (first ++ second) = false := by
  rw [isBlankText_append, h, Bool.false_and]

theorem not_blank_intercalate (separator : String) {texts : List String} (hne : texts ≠ [])
    (h : ∀ text ∈ texts, isBlankText text = false) :
    isBlankText (separator.intercalate texts) = false := by
  cases texts with
  | nil => exact absurd rfl hne
  | cons text rest =>
    have hfirst := h text List.mem_cons_self
    cases rest with
    | nil => rwa [String.intercalate_singleton]
    | cons second rest =>
      rw [String.intercalate_cons_cons]
      exact not_blank_append (not_blank_append hfirst _) _

theorem not_blank_message {portfolio after : Portfolio} [Platform] {fill : Fill}
    {error : PortfolioError} (h : portfolio.applyFill fill = (after, .error error)) :
    isBlankText error.message = false := by
  have hbuy : isBlankText "buy of " = false := by decide
  have hsell : isBlankText "sell of " = false := by decide
  unfold Portfolio.applyFill at h
  cases hside : fill.side with
  | buy =>
    simp only [hside] at h
    split at h
    · cases h
    · obtain rfl := Except.error.inj (Prod.mk.inj h).2
      exact not_blank_append (not_blank_append (not_blank_append (not_blank_append
        (not_blank_append (not_blank_append (not_blank_append (not_blank_append hbuy _) _) _) _)
        _) _) _) _
  | sell =>
    simp only [hside] at h
    split at h
    · obtain rfl := Except.error.inj (Prod.mk.inj h).2
      exact not_blank_append (not_blank_append (not_blank_append (not_blank_append
        (not_blank_append hsell _) _) _) _) _
    · cases h

namespace Broker

/-- Every reason a verdict can give is visible. -/
theorem not_blank_reason (isSuspended atLimitUp atLimitDown acquiredToday : Bool) :
    ∀ reason ∈ (tradability isSuspended atLimitUp atLimitDown false acquiredToday).reasons,
      isBlankText reason = false := by
  have hsuspended : isBlankText "security is suspended" = false := by decide
  have hup : isBlankText "locked at limit up: no offers to lift" = false := by decide
  have hdown : isBlankText "locked at limit down: no bids to hit" = false := by decide
  have htoday : isBlankText "T+1: shares bought today settle tomorrow" = false := by decide
  cases isSuspended <;> cases atLimitUp <;> cases atLimitDown <;> cases acquiredToday <;>
    simp [tradability, hsuspended, hup, hdown, htoday]

theorem not_blank_verdict {isSuspended atLimitUp atLimitDown acquiredToday : Bool}
    (h : (tradability isSuspended atLimitUp atLimitDown false acquiredToday).canBuy = false ∨
      (tradability isSuspended atLimitUp atLimitDown false acquiredToday).canSell = false) :
    isBlankText ("; ".intercalate
      (tradability isSuspended atLimitUp atLimitDown false acquiredToday).reasons) = false :=
  not_blank_intercalate "; " (reasons_ne_nil_of_refused rfl h)
    (not_blank_reason isSuspended atLimitUp atLimitDown acquiredToday)

variable {broker : Broker} {order : Order} {limits : PriceLimits} {reason : String}

theorem not_blank_instrumentRefusal {market : Market}
    (h : broker.instrumentRefusal order market limits = some reason) :
    isBlankText reason = false := by
  unfold instrumentRefusal at h
  simp only at h
  split at h
  · rename_i hrefused
    cases h
    refine not_blank_verdict (.inl ?_)
    simp only [Bool.and_eq_true, Bool.not_eq_true'] at hrefused
    exact hrefused.2
  · split at h
    · rename_i hrefused
      cases h
      refine not_blank_verdict (.inr ?_)
      simp only [Bool.and_eq_true, Bool.not_eq_true'] at hrefused
      exact hrefused.2
    · split at h
      · cases h
        decide
      · cases h

theorem exists_bookRefusal [Platform] {answers : Answers}
    (h : broker.bookRefusal answers order limits = some reason) :
    ∃ start ∈ ["limit ", "sell of ", "portfolio risk rejected: "], ∃ rest, reason = start ++ rest := by
  unfold bookRefusal at h
  simp only at h
  split at h
  · obtain ⟨price, -, hprice⟩ := Option.bind_eq_some_iff.mp h
    obtain ⟨limit, -, hlimits⟩ := Option.bind_eq_some_iff.mp hprice
    split at hlimits <;> cases hlimits
    exact ⟨"limit ", by simp, _, by rw [String.append_assoc, String.append_assoc]⟩
  split at h
  · obtain ⟨price, -, hprice⟩ := Option.bind_eq_some_iff.mp h
    obtain ⟨limit, -, hlimits⟩ := Option.bind_eq_some_iff.mp hprice
    split at hlimits <;> cases hlimits
    exact ⟨"limit ", by simp, _, by rw [String.append_assoc, String.append_assoc]⟩
  split at h
  · cases h
    exact ⟨"sell of ", by simp, _, by rw [String.append_assoc, String.append_assoc]⟩
  · obtain ⟨failed, -, rfl⟩ := Option.map_eq_some_iff.mp h
    exact ⟨_, by simp, _, rfl⟩

theorem not_blank_bookRefusal [Platform] {answers : Answers}
    (h : broker.bookRefusal answers order limits = some reason) : isBlankText reason = false := by
  obtain ⟨start, hstart, rest, rfl⟩ := exists_bookRefusal h
  have hvisible : ∀ start ∈ ["limit ", "sell of ", "portfolio risk rejected: "],
      isBlankText start = false := by decide
  exact not_blank_append (hvisible start hstart) rest

end Broker

/-! ## Sizes -/

namespace Order

def sizedQuantity (order : Order) : ℤ :=
  roundToLot order.quantity order.board order.side order.isFullLiquidation

def sized (order : Order) (h : 0 < order.sizedQuantity) : Order :=
  { order with
    quantity := order.sizedQuantity
    quantity_pos := Int.cast_pos.mpr h }

structure SameProgress (before after : Order) : Prop where
  orderId : after.orderId = before.orderId
  state : after.state = before.state
  filledQuantity : after.filledQuantity = before.filledQuantity

theorem SameProgress.refl (order : Order) : SameProgress order order := ⟨rfl, rfl, rfl⟩

theorem sameProgress_sized (order : Order) (h : 0 < order.sizedQuantity) :
    SameProgress order (order.sized h) := ⟨rfl, rfl, rfl⟩

end Order

namespace Broker

/-! ## Validation -/

/-- Everything validation can do: raise and leave the order alone, give a reason, or round the
order and let it pass. -/
theorem validate_cases [Platform] (broker : Broker) (answers : Answers) (order : Order)
    (market : Market) :
    ∃ portfolio order' result,
      broker.validate answers order market = ({ broker with portfolio }, order', result) ∧
      (portfolio = broker.portfolio ∨ portfolio = broker.portfolio.withPosition order.symbol) ∧
      ((∃ error, result = .error error ∧ order' = order) ∨
        (∃ reason, result = .ok (some reason) ∧ isBlankText reason = false ∧
          order.SameProgress order') ∨
        result = .ok none ∧ ∃ h, order' = order.sized h) := by
  have hkill : isBlankText "kill switch active: " = false := by decide
  have hdata : isBlankText "market_data_invalid: " = false := by decide
  have hphase : isBlankText "outside a tradable session phase (" = false := by decide
  have hlot : isBlankText "quantity " = false := by decide
  unfold validate
  split
  · exact ⟨_, _, _, rfl, .inl rfl, .inr (.inl ⟨_, rfl, not_blank_append hkill _, .refl order⟩)⟩
  split
  · exact ⟨_, _, _, rfl, .inl rfl, .inr (.inl ⟨_, rfl, not_blank_append hdata _, .refl order⟩)⟩
  split
  · exact ⟨_, _, _, rfl, .inl rfl, .inl ⟨_, rfl, rfl⟩⟩
  split
  · refine ⟨_, _, _, rfl, .inl rfl, .inr (.inl ⟨_, rfl, ?_, .refl order⟩)⟩
    exact not_blank_append (not_blank_append hphase _) _
  simp only
  split
  · exact ⟨_, _, _, rfl, .inr rfl, .inl ⟨_, rfl, rfl⟩⟩
  rename_i limits _
  split
  · rename_i hrefusal
    exact ⟨_, _, _, rfl, .inr rfl,
      .inr (.inl ⟨_, rfl, not_blank_instrumentRefusal hrefusal, .refl order⟩)⟩
  split
  · rename_i hsized
    let checked : Broker := { broker with portfolio := broker.portfolio.withPosition order.symbol }
    cases hrefusal : checked.bookRefusal answers (order.sized hsized) limits with
    | none =>
      refine ⟨_, order.sized hsized, .ok none, ?_, .inr rfl, .inr (.inr ⟨rfl, hsized, rfl⟩)⟩
      rw [← hrefusal]
      rfl
    | some reason =>
      refine ⟨_, order.sized hsized, .ok (some reason), ?_, .inr rfl,
        .inr (.inl ⟨_, rfl, not_blank_bookRefusal hrefusal, order.sameProgress_sized hsized⟩)⟩
      rw [← hrefusal]
      rfl
  · refine ⟨_, _, _, rfl, .inr rfl, .inr (.inl ⟨_, rfl, ?_, .refl order⟩)⟩
    exact not_blank_append (not_blank_append (not_blank_append (not_blank_append (not_blank_append
      (not_blank_append (not_blank_append (not_blank_append hlot _) _) _) _) _) _) _) _

/-! ## Executions -/

section Executions

variable [Hashing ℚ] [Platform]

omit [Hashing ℚ] [Platform] in
def moved (broker : Broker) (fill : Fill) : Broker :=
  { broker with
    portfolio := broker.portfolio.booked fill
    fillIds := broker.fillIds ++ [fill.fillId]
    fills := broker.fills ++ [fill] }

omit [Hashing ℚ] [Platform] in
def executionKind (canonical : Domain.Order ℚ) (economic : Domain.Fill ℚ) : OrderEventType :=
  if canonical.quantity ≤ canonical.filledQuantity + economic.quantity then .fill else .partialFill

omit [Hashing ℚ] [Platform] in
theorem isExecution_executionKind (canonical : Domain.Order ℚ) (economic : Domain.Fill ℚ) :
    (executionKind canonical economic).isExecution = true := by
  unfold executionKind
  split <;> rfl

variable {canonical : Domain.Order ℚ}

variable {canonicalId : String}

omit [Platform] in
theorem canonicalFill_eq {broker : Broker} (moment : Moment) {order : Order} (fill : Fill)
    (tradeDate : Option String) (wallClock : String)
    (hmapped : broker.canonicalIds.get? order.orderId = some canonicalId)
    (hknown : broker.mirror.book.orders.get? canonicalId = some canonical) :
    broker.canonicalFill moment order fill tradeDate wallClock =
      let session := sessionOr tradeDate wallClock
      let economic := economicFill canonical canonicalId order fill session
      match broker.mirror.perform moment (Mirror.execution canonicalId
        (executionKind canonical economic) economic (some session)) with
      | (mirror, .ok _) => ({ broker with mirror }, .ok ())
      | (mirror, .error error) => ({ broker with mirror }, .error (.mirror error)) := by
  simp only [canonicalFill, hmapped, hknown, record, Mirror.execution, executionKind]
  generalize broker.mirror.perform moment _ = outcome
  obtain ⟨mirror, result⟩ := outcome
  cases result with
  | error error => rfl
  | ok updated => rfl

section Fill

variable {broker : Broker} {order : Order} {canonicalId : String} {canonical : Domain.Order ℚ}

variable {moment : Moment} {fill : Fill} {tradeDate : Option String} {wallClock : String}

section

variable (hmapped : broker.canonicalIds.get? order.orderId = some canonicalId)
  (hknown : broker.mirror.book.orders.get? canonicalId = some canonical)
include hmapped hknown

omit [Platform] in
theorem canonicalFill_booked
    (haccepts : canonical.Accepts (economicFill canonical canonicalId order fill (sessionOr
      tradeDate wallClock))) (hwrites : broker.mirror.ledger.Writes moment.write) :
    ∃ mirror, broker.canonicalFill moment order fill tradeDate wallClock =
        ({ broker with mirror }, .ok ()) ∧
      broker.mirror.Advances mirror canonicalId (canonical.afterFill
        (economicFill canonical canonicalId order fill (sessionOr tradeDate wallClock))) := by
  have hkind := isExecution_executionKind canonical
    (economicFill canonical canonicalId order fill (sessionOr tradeDate wallClock))
  rw [canonicalFill_eq moment fill tradeDate wallClock hmapped hknown]
  simp only [Mirror.perform_execution hkind hknown haccepts hwrites]
  exact ⟨_, rfl, Mirror.advances_push _ hwrites⟩

omit [Platform] in
theorem canonicalFill_overfill (hnew : canonical.findFill fill.fillId = none)
    (hlive : canonical.isTerminal = false)
    (hover : canonical.quantity < canonical.filledQuantity + truncate fill.quantity) :
    broker.canonicalFill moment order fill tradeDate wallClock =
      (broker, .error (.mirror (.order (.overfill canonical.orderId)))) := by
  have hkind := isExecution_executionKind canonical
    (economicFill canonical canonicalId order fill (sessionOr tradeDate wallClock))
  have hperform (session : Option String) : broker.mirror.perform moment
      (Mirror.execution canonicalId (executionKind canonical (economicFill canonical canonicalId
        order fill (sessionOr tradeDate wallClock))) (economicFill canonical canonicalId order fill
        (sessionOr tradeDate wallClock)) session) = _ :=
    Mirror.perform_execution_overfill hkind hknown hnew hlive hover
  rw [canonicalFill_eq moment fill tradeDate wallClock hmapped hknown]
  simp only [hperform]

end

end Fill

variable {broker : Broker} {moment : Moment} {wallClock : String} {portfolioCheck : Option String}
  {order : Order} {fill : Fill} {tradeDate : Option String}

theorem applyExecutionReport_known (h : fill.fillId ∈ broker.fillIds) :
    broker.applyExecutionReport moment wallClock portfolioCheck order fill tradeDate =
      (broker, order, .ok false) := if_pos h

/-- A fill the portfolio refuses leaves at most a flat position. -/
theorem applyExecutionReport_refused (h : fill.fillId ∉ broker.fillIds)
    (hrefused : broker.portfolio.accepts fill = false) :
    ∃ error, broker.applyExecutionReport moment wallClock portfolioCheck order fill tradeDate =
        ({ broker with portfolio := broker.portfolio.withPosition fill.symbol }, order,
          .error (.portfolio error)) ∧ isBlankText error.message = false := by
  obtain ⟨error, herror⟩ := Portfolio.applyFill_of_not_accepts hrefused
  refine ⟨error, ?_, not_blank_message herror⟩
  rw [applyExecutionReport, if_neg h, herror]

omit [Platform] in
theorem canonicalEvent_ok (broker : Broker) {moment : Moment} (order : Order)
    {kind : OrderEventType} (reason tradeDate : Option String)
    (hmapped : broker.canonicalIds.get? order.orderId = some canonicalId)
    (hknown : broker.mirror.book.orders.get? canonicalId = some canonical)
    (hkind : kind.isExecution = false)
    (hallowed : kind.targetStatus ∈ allowedTransitions canonical.status)
    (hreject : kind.targetStatus = .rejected → canonical.filledQuantity = 0 ∧ canonical.fills = []
      ∧ isBlankText (reason.getD "") = false) (hwrites : broker.mirror.ledger.Writes moment.write) :
    ∃ mirror, broker.canonicalEvent moment order kind reason tradeDate =
        ({ broker with mirror }, .ok ()) ∧
      broker.mirror.Advances mirror canonicalId (canonical.afterEvent kind reason) := by
  have hdecision : ∀ decision : RiskDecision ℚ, none = some decision →
      decision.threshold.Plain ∧ decision.measured.Plain := fun _ hnone ↦ by cases hnone
  obtain ⟨mirror, hperform, hadvances⟩ := Mirror.perform_event kind reason none
    (sessionOrNone tradeDate) hknown hkind hallowed hreject hdecision hwrites
  refine ⟨mirror, ?_, hadvances⟩
  simp only [canonicalEvent, hmapped, record, hperform]

def filledBy (order : Order) (fill : Fill) : Order :=
  { order with
    filledQuantity := order.filledQuantity + fill.quantity
    filledNotional := order.filledNotional + fill.notional
    feesPaid := order.feesPaid + fill.fees }

/-- The state the order moves to when a fill is booked. -/
def stateAfter (order : Order) (fill : Fill) : OrderState :=
  if (filledBy order fill).remaining ≤ 1 / 1000000000 then .filled else .partiallyFilled

theorem applyExecutionReport_accepted (h : fill.fillId ∉ broker.fillIds)
    (haccepts : broker.portfolio.accepts fill = true) :
    broker.applyExecutionReport moment wallClock portfolioCheck order fill tradeDate =
      match (broker.moved fill).canonicalFill moment order fill tradeDate wallClock with
      | (after, .error error) => (after, order, .error error)
      | (after, .ok ()) =>
        match (filledBy order fill).transition (stateAfter order fill) with
        | .error error => (after, filledBy order fill, .error (.state error))
        | .ok order' =>
          match portfolioCheck with
          | some message => (after, order', .error (.surroundings message))
          | none => (after, order', .ok true) := by
  rw [applyExecutionReport, if_neg h, Portfolio.applyFill_of_accepts haccepts]
  rfl

end Executions

/-! ## Standing -/

/-- The canonical order shows the paper order between two steps. -/
structure Matched (order : Order) (canonical : Domain.Order ℚ) : Prop where
  filled : canonical.filledQuantity = order.filledQuantity
  status : canonical.status = order.state.toCanonical
  idle : order.state = .new ∨ order.state = .accepted →
    canonical.filledQuantity = 0 ∧ canonical.fills = []
  settled : order.state ≠ .cancelRequested

variable {canonical : Domain.Order ℚ}

variable {order : Order}

theorem Matched.of_sameProgress {order' : Order} (h : Matched order canonical)
    (hsame : order.SameProgress order') :
    Matched order' canonical where
  filled := by rw [h.filled, hsame.filledQuantity]
  status := by rw [h.status, hsame.state]
  idle hstate := h.idle (by rwa [hsame.state] at hstate)
  settled := by rw [hsame.state]; exact h.settled

/-- The broker knows the canonical order of a paper order, the two match, and every execution of the
canonical order is one of the broker's. -/
structure Standing (broker : Broker) (order : Order) (canonicalId : String)
    (canonical : Domain.Order ℚ) : Prop where
  mapped : broker.canonicalIds.get? order.orderId = some canonicalId
  known : broker.mirror.book.orders.get? canonicalId = some canonical
  matched : Matched order canonical
  executions : ∀ fill ∈ canonical.fills, fill.executionId ∈ broker.fillIds
  writable : broker.mirror.ledger.writeFailure = none

/-- What a step for one canonical order leaves alone. -/
structure Moves (before after : Broker) (canonicalId : String) : Prop where
  orders : after.orders = before.orders
  canonicalIds : after.canonicalIds = before.canonicalIds
  fillIds : before.fillIds ⊆ after.fillIds
  durable : after.mirror.ledger.durable = before.mirror.ledger.durable
  others : ∀ other, other ≠ canonicalId →
    after.mirror.book.orders.get? other = before.mirror.book.orders.get? other

theorem Moves.refl (broker : Broker) (canonicalId : String) : Moves broker broker canonicalId :=
  ⟨rfl, rfl, fun _ h ↦ h, rfl, fun _ _ ↦ rfl⟩

variable {first second after : Broker} {canonicalId : String}

theorem Moves.trans {third : Broker} (h : Moves first second canonicalId)
    (h' : Moves second third canonicalId) :
    Moves first third canonicalId where
  orders := h'.orders.trans h.orders
  canonicalIds := h'.canonicalIds.trans h.canonicalIds
  fillIds := fun _ hmem ↦ h'.fillIds (h.fillIds hmem)
  durable := h'.durable.trans h.durable
  others other hother := (h'.others other hother).trans (h.others other hother)

def Lands (broker : Broker) (answers : Answers) : Prop :=
  broker.mirror.ledger.durable = true → ∀ index, (answers.moments index).write = .landed

theorem Lands.of_moves {before : Broker} {answers : Answers} (h : Lands before answers)
    (hmoves : Moves before after canonicalId) : Lands after answers := by
  intro hdurable
  rw [hmoves.durable] at hdurable
  exact h hdurable

/-- As long as the order is new, the canonical one is for its whole shares. -/
def Asked (order : Order) (canonical : Domain.Order ℚ) : Prop :=
  order.state = .new → canonical.quantity = truncate order.quantity

/-- The outcome of a call: the two orders match again, and nothing else has moved. -/
def Steps {α : Type} (canonicalId : String) (broker : Broker)
    (outcome : Broker × Order × Except VenueError α) : Prop :=
  (∃ canonical, Standing outcome.1 outcome.2.1 canonicalId canonical ∧
    Asked outcome.2.1 canonical) ∧ Moves broker outcome.1 canonicalId

variable {α : Type}

theorem Steps.of_standing {broker : Broker} (h : Standing after order canonicalId canonical)
    (hstate : order.state ≠ .new) (hmoves : Moves broker after canonicalId)
    (result : Except VenueError α) :
    Steps canonicalId broker (after, order, result) :=
  ⟨⟨canonical, h, fun hnew ↦ absurd hnew hstate⟩, hmoves⟩

theorem Steps.of_moves {outcome : Broker × Order × Except VenueError α}
    (h : Steps canonicalId second outcome) (hmoves : Moves first second canonicalId) :
    Steps canonicalId first outcome :=
  ⟨h.1, hmoves.trans h.2⟩

namespace Standing

variable {broker : Broker} {order : Order} {canonicalId : String} {canonical : Domain.Order ℚ}

theorem writes (h : Standing broker order canonicalId canonical) {answers : Answers}
    (hlands : Lands broker answers) (index : ℕ) :
    broker.mirror.ledger.Writes (answers.moments index).write :=
  ⟨h.writable, fun hdurable ↦ hlands hdurable index⟩

/-- The portfolio, and what the order has not to do with its progress, may change. -/
theorem of_sameProgress (h : Standing broker order canonicalId canonical) (portfolio : Portfolio)
    {order' : Order} (hsame : order.SameProgress order') :
    Standing { broker with portfolio } order' canonicalId canonical where
  mapped := by rw [hsame.orderId]; exact h.mapped
  known := h.known
  matched := h.matched.of_sameProgress hsame
  executions := h.executions
  writable := h.writable

variable [Hashing ℚ]

variable {moment : Moment}

/-- A canonical event that fits the state the paper order has moved to. -/
theorem canonicalEvent (h : Standing broker order canonicalId canonical) {kind : OrderEventType}
    (reason tradeDate : Option String) (order' : Order) (hkind : kind.isExecution = false)
    (hallowed : kind.targetStatus ∈ allowedTransitions canonical.status)
    (hreject : kind.targetStatus = .rejected → canonical.filledQuantity = 0 ∧ canonical.fills = []
      ∧ isBlankText (reason.getD "") = false) (hwrites : broker.mirror.ledger.Writes moment.write)
    (hid : order'.orderId = order.orderId)
    (hmatched : Matched order' (canonical.afterEvent kind reason)) :
    ∃ mirror, broker.canonicalEvent moment order' kind reason tradeDate =
        ({ broker with mirror }, .ok ()) ∧
      Standing { broker with mirror } order' canonicalId (canonical.afterEvent kind reason) ∧
      Moves broker { broker with mirror } canonicalId := by
  obtain ⟨mirror, hevent, hadvances⟩ := canonicalEvent_ok broker order' reason tradeDate
    (hid ▸ h.mapped) h.known
    hkind hallowed hreject hwrites
  refine ⟨mirror, hevent, ⟨?_, ?_, hmatched, h.executions, hadvances.writable⟩,
    ⟨rfl, rfl, fun _ hmem ↦ hmem, hadvances.durable, fun other hother ↦ ?_⟩⟩
  · rw [hid]
    exact h.mapped
  · simp only [hadvances.orders, Dict.get?_insert_self]
  · simp only [hadvances.orders, Dict.get?_insert_of_ne _ hother]

theorem reject (h : Standing broker order canonicalId canonical) {reason : String}
    (tradeDate : Option String) (hreason : isBlankText reason = false)
    (hwrites : broker.mirror.ledger.Writes moment.write) :
    Steps canonicalId broker (broker.reject moment order reason tradeDate) := by
  let noted : Order := { order with rejectReason := some reason }
  have hnoted : Standing broker noted canonicalId canonical :=
    h.of_sameProgress broker.portfolio ⟨rfl, rfl, rfl⟩
  by_cases hallows : noted.state.allows .rejected = true
  · have hstate : order.state = .new ∨ order.state = .accepted := by
      revert hallows
      cases order.state <;> decide
    obtain ⟨hfilled, hfills⟩ := h.matched.idle hstate
    let rejected : Order := { noted with state := .rejected }
    have hallowed : OrderEventType.rejected.targetStatus ∈ allowedTransitions canonical.status := by
      rw [h.matched.status]
      exact OrderState.allows_iff.mp hallows
    have hmatched : Matched rejected
        (canonical.afterEvent OrderEventType.rejected (some reason)) :=
      { filled := h.matched.filled
        status := rfl
        idle := fun hidle ↦ by rcases hidle with hidle | hidle <;> cases hidle
        settled := by rintro ⟨⟩ }
    obtain ⟨mirror, hevent, hstanding, hmoves⟩ := hnoted.canonicalEvent (some reason) tradeDate
      rejected rfl hallowed (fun _ ↦ ⟨hfilled, hfills, hreason⟩) hwrites rfl hmatched
    have houtcome : broker.reject moment order reason tradeDate =
        ({ broker with mirror }, rejected, .ok ()) := by
      have htransition := Order.transition_of_allows hallows
      simp only [Broker.reject, htransition, hevent, rejected, noted]
    rw [houtcome]
    exact .of_standing hstanding (by rintro ⟨⟩) hmoves _
  · have hstate : order.state ≠ .new := by
      rintro heq
      exact hallows (by simp only [noted, heq]; decide)
    have htransition := Order.transition_of_not_allows hallows
    have houtcome : broker.reject moment order reason tradeDate =
        (broker, noted, .error (.state ⟨order.orderId, order.state, .rejected⟩)) := by
      simp only [Broker.reject, htransition, noted]
    rw [houtcome]
    exact .of_standing hnoted hstate (.refl broker canonicalId) _

omit [Hashing ℚ] in
/-- A fill of whole shares leaves no remainder below one share. -/
theorem stateAfter_eq {sized traded : ℤ} (hquantity : order.quantity = sized)
    (hfilled : order.filledQuantity = 0) {fill : Fill} (hfill : fill.quantity = traded) :
    stateAfter order fill = if sized ≤ traded then .filled else .partiallyFilled := by
  have hremaining : (filledBy order fill).remaining = max 0 ((sized : ℚ) - traded) := by
    simp only [Order.remaining, filledBy, hquantity, hfilled, hfill, zero_add]
  have hiff : max 0 ((sized : ℚ) - traded) ≤ 1 / 1000000000 ↔ sized ≤ traded := by
    constructor
    · intro h
      by_contra hlt
      have hone : (1 : ℚ) ≤ (sized : ℚ) - traded := by
        have hcast : ((traded + 1 : ℤ) : ℚ) ≤ sized := by exact_mod_cast not_le.mp hlt
        push_cast at hcast
        linarith
      have hbound := (le_max_right 0 ((sized : ℚ) - traded)).trans h
      linarith
    · intro h
      have hcast : (sized : ℚ) ≤ traded := by exact_mod_cast h
      exact max_le (by norm_num) (by linarith)
  simp only [stateAfter, hremaining, hiff]

end Standing

/-- One attempt books a fill: the price is reached, there is something to trade, the fill is new and
the portfolio takes it. -/
structure Trades [Platform] (broker : Broker) (answers : Answers) (order : Order) (market : Market)
    (limits : PriceLimits) : Prop where
  reached : misses order market = false
  positive : 0 < broker.tradeSize order market
  banded : market.limits = .ok limits
  new : answers.fillId ∉ broker.fillIds
  accepted : broker.portfolio.accepts
    (broker.fillOf answers order market limits (broker.tradeSize order market)) = true

/-- What was asked for canonically, what the order was rounded to and what one attempt trades go
together: both sides call the attempt final, or both call it partial, or it is more than was asked
for. -/
def Meets (asked sized traded : ℤ) : Prop :=
  asked = sized ∨ (traded < asked ∧ traded < sized) ∨ asked < traded

/-- When a submission of a new order books a fill, its sizes go together. -/
def SizesMeet [Platform] (broker : Broker) (answers : Answers) (order : Order) (market : Market) :
    Prop :=
  order.state = .new → (broker.validate answers order market).2.2 = .ok none →
    ∀ (h : 0 < order.sizedQuantity) (limits : PriceLimits),
      Trades broker answers (order.sized h) market limits →
        Meets (truncate order.quantity) order.sizedQuantity
          (broker.tradeSize (order.sized h) market)

namespace Standing

variable {broker : Broker} {order : Order} {canonicalId : String} {canonical : Domain.Order ℚ}
  [Hashing ℚ] [Platform]

omit [Hashing ℚ] [Platform] in
theorem of_accepted (h : Standing broker order canonicalId canonical)
    (hstate : order.state = .accepted) :
    order.filledQuantity = 0 ∧ canonical.filledQuantity = 0 ∧
      (∀ executionId, canonical.findFill executionId = none) ∧ canonical.isTerminal = false := by
  have hidle := h.matched.idle (.inr hstate)
  refine ⟨by rw [← h.matched.filled, hidle.1], hidle.1, fun executionId ↦ ?_, ?_⟩
  · simp [Domain.Order.findFill, hidle.2]
  · rw [Domain.Order.isTerminal, h.matched.status, hstate]
    decide

variable {asked traded sized : ℤ}

omit [Hashing ℚ] [Platform] in
theorem status_afterFill (h : Standing broker order canonicalId canonical)
    (hstate : order.state = .accepted) (hasked : canonical.quantity = asked)
    {economic : Domain.Fill ℚ} (hquantity : economic.quantity = traded) :
    (canonical.afterFill economic).status =
      if traded = asked then .filled else .partiallyFilled := by
  obtain ⟨-, hfilled, -⟩ := h.of_accepted hstate
  simp only [Domain.Order.afterFill, hasked, hfilled, hquantity, rat_add, zero_add, rat_same,
    Int.cast_inj, decide_eq_true_eq]

variable {moment : Moment} {fill : Fill}

section

variable (h : Standing broker order canonicalId canonical) (wallClock : String)
  (portfolioCheck tradeDate : Option String) (hstate : order.state = .accepted)
  (hasked : canonical.quantity = asked) (hsized : order.quantity = sized)
  (htraded : fill.quantity = traded)
include h hstate hasked hsized htraded

/-- The first fill of an accepted order, of no more than was asked for: the paper order and the
canonical order each decide for themselves whether it is the last. -/
theorem report_booked (hover : ¬ asked < traded) (hnew : fill.fillId ∉ broker.fillIds)
    (haccepts : broker.portfolio.accepts fill = true)
    (hwrites : broker.mirror.ledger.Writes moment.write) :
    ∃ mirror result,
      broker.applyExecutionReport moment wallClock portfolioCheck order fill tradeDate =
        ({ broker.moved fill with mirror },
          { filledBy order fill with state := stateAfter order fill }, result) ∧
      (∀ error, result ≠ .error (.portfolio error)) ∧
      broker.mirror.Advances mirror canonicalId (canonical.afterFill
        (economicFill canonical canonicalId order fill (sessionOr tradeDate wallClock))) := by
  let economic := economicFill canonical canonicalId order fill (sessionOr tradeDate wallClock)
  obtain ⟨hfilled, hcanonical, hfind, hlive⟩ := h.of_accepted hstate
  have hquantity : economic.quantity = traded := by
    simp only [economic, economicFill, htraded, truncate_intCast]
  have haccept : canonical.Accepts economic :=
    { new := hfind fill.fillId
      live := hlive
      room := by
        simp only [rat_less, rat_add, hasked, hcanonical, hquantity, zero_add, Int.cast_lt,
          decide_eq_false_iff_not]
        exact hover
      allowed := by
        rw [h.status_afterFill hstate hasked hquantity, h.matched.status, hstate]
        split <;> decide }
  have hbooked : ∃ mirror, (broker.moved fill).canonicalFill moment order fill tradeDate wallClock =
        ({ broker.moved fill with mirror }, .ok ()) ∧
      broker.mirror.Advances mirror canonicalId (canonical.afterFill economic) :=
    canonicalFill_booked h.mapped h.known haccept hwrites
  obtain ⟨mirror, hfill, hadvances⟩ := hbooked
  have hallows : (filledBy order fill).state.allows (stateAfter order fill) = true := by
    rw [stateAfter_eq hsized hfilled htraded, show (filledBy order fill).state = _ from hstate]
    split <;> decide
  rw [applyExecutionReport_accepted hnew haccepts, hfill]
  simp only [Order.transition_of_allows hallows]
  cases portfolioCheck with
  | none => exact ⟨mirror, _, rfl, by rintro _ ⟨⟩, hadvances⟩
  | some message => exact ⟨mirror, _, rfl, by rintro _ ⟨⟩, hadvances⟩

/-- An accepted order and a fill of whole shares that the portfolio takes. -/
theorem booked (hle : traded ≤ sized) (hmeets : Meets asked sized traded)
    (hnew : fill.fillId ∉ broker.fillIds) (haccepts : broker.portfolio.accepts fill = true)
    (hwrites : broker.mirror.ledger.Writes moment.write) :
    Steps canonicalId broker
        (broker.applyExecutionReport moment wallClock portfolioCheck order fill tradeDate) ∧
      ∀ error, (broker.applyExecutionReport moment wallClock portfolioCheck order fill
        tradeDate).2.2 ≠ .error (.portfolio error) := by
  have hne : order.state ≠ .new := by rw [hstate]; decide
  obtain ⟨hfilled, hcanonical, hfind, hlive⟩ := h.of_accepted hstate
  have hmoves : Moves broker (broker.moved fill) canonicalId :=
    ⟨rfl, rfl, fun _ hmem ↦ List.mem_append_left _ hmem, rfl, fun _ _ ↦ rfl⟩
  by_cases hover : asked < traded
  · have hmore : canonical.quantity < canonical.filledQuantity + truncate fill.quantity := by
      rw [hasked, hcanonical, htraded, truncate_intCast, zero_add]
      exact_mod_cast hover
    have hraised : (broker.moved fill).canonicalFill moment order fill tradeDate wallClock =
        (broker.moved fill, .error (.mirror (.order (.overfill canonical.orderId)))) :=
      canonicalFill_overfill h.mapped h.known (hfind _) hlive hmore
    rw [applyExecutionReport_accepted hnew haccepts, hraised]
    have hstanding : Standing (broker.moved fill) order canonicalId canonical :=
      ⟨h.mapped, h.known, h.matched, fun other hother ↦ hmoves.fillIds (h.executions other hother),
        h.writable⟩
    exact ⟨.of_standing hstanding hne hmoves _, by rintro _ ⟨⟩⟩
  · let economic := economicFill canonical canonicalId order fill (sessionOr tradeDate wallClock)
    obtain ⟨mirror, result, hreport, hno, hadvances⟩ := h.report_booked wallClock portfolioCheck
      tradeDate hstate hasked hsized htraded hover hnew haccepts hwrites
    have hquantity : economic.quantity = traded := by
      simp only [economic, economicFill, htraded, truncate_intCast]
    have hstateAfter := stateAfter_eq hsized hfilled htraded
    have hfinal : stateAfter order fill ≠ .new ∧ stateAfter order fill ≠ .accepted ∧
        stateAfter order fill ≠ .cancelRequested := by
      rw [hstateAfter]
      split <;> decide
    have hmatched : Matched { filledBy order fill with state := stateAfter order fill }
        (canonical.afterFill economic) :=
      { filled := by
          simp only [Domain.Order.afterFill, rat_add, hquantity, filledBy, h.matched.filled, htraded]
        status := by
          have hsame : traded = asked ↔ sized ≤ traded := by
            unfold Meets at hmeets
            omega
          rw [h.status_afterFill hstate hasked hquantity, hstateAfter]
          simp only [hsame]
          split <;> rfl
        idle := fun hidle ↦ by
          rcases hidle with hstate | hstate
          · exact absurd hstate hfinal.1
          · exact absurd hstate hfinal.2.1
        settled := hfinal.2.2 }
    have hstanding : Standing { broker.moved fill with mirror }
        { filledBy order fill with state := stateAfter order fill } canonicalId
        (canonical.afterFill economic) :=
      { mapped := h.mapped
        known := by simp only [hadvances.orders, economic, Dict.get?_insert_self]
        matched := hmatched
        executions := fun other hother ↦ by
          rcases List.mem_append.mp hother with hother | hother
          · exact hmoves.fillIds (h.executions other hother)
          · rw [List.mem_singleton.mp hother]
            exact List.mem_append_right _ List.mem_cons_self
        writable := hadvances.writable }
    have hmoved : Moves broker { broker.moved fill with mirror } canonicalId :=
      { orders := rfl
        canonicalIds := rfl
        fillIds := hmoves.fillIds
        durable := hadvances.durable
        others := fun other hother ↦ by
          simp only [hadvances.orders, Dict.get?_insert_of_ne _ hother] }
    rw [hreport]
    exact ⟨.of_standing hstanding hfinal.1 hmoved result, hno⟩

end

variable {answers : Answers} {market : Market}

theorem attemptFill (h : Standing broker order canonicalId canonical)
    (hstate : order.state = .accepted) (hasked : canonical.quantity = asked)
    (hsized : order.quantity = sized)
    (hmeets : ∀ limits, Trades broker answers order market limits → Meets asked sized
      (broker.tradeSize order market)) (hlands : Lands broker answers) :
    Steps canonicalId broker (broker.attemptFill answers order market) := by
  have hne : order.state ≠ .new := by rw [hstate]; decide
  have hstay : ∀ result : Except VenueError Unit, Steps canonicalId broker (broker, order, result) :=
    .of_standing h hne (.refl broker canonicalId)
  unfold Broker.attemptFill
  split
  · exact hstay _
  rename_i hmisses
  simp only
  split
  · exact hstay _
  rename_i hpositive
  split
  · exact hstay _
  rename_i limits hlimits
  let fill := broker.fillOf answers order market limits (broker.tradeSize order market)
  by_cases hknown : fill.fillId ∈ broker.fillIds
  · have hreport : broker.applyExecutionReport (answers.moments 4) answers.wallClock
        answers.portfolioCheck order fill (some market.tradeDate) = _ :=
      applyExecutionReport_known hknown
    rw [hreport]
    exact hstay _
  by_cases haccepts : broker.portfolio.accepts fill = true
  · have hle : broker.tradeSize order market ≤ sized := by
      have hpos : (0 : ℚ) < sized := by
        rw [← hsized]
        exact order.quantity_pos
      have hfilled : order.filledQuantity = 0 := by
        rw [← h.matched.filled, (h.matched.idle (.inr hstate)).1]
      have hremaining : order.remaining = sized := by
        rw [Order.remaining, hfilled, hsized, sub_zero, max_eq_right hpos.le]
      refine roundToLot_le (by exact_mod_cast hpos.le) ?_ _ _ _
      rw [hremaining]
      exact min_le_left _ _
    have hmeet := hmeets limits ⟨Bool.eq_false_iff.mpr hmisses, not_le.mp hpositive, hlimits, hknown,
      haccepts⟩
    obtain ⟨hsteps, hno⟩ := h.booked answers.wallClock answers.portfolioCheck
      (some market.tradeDate) hstate hasked hsized rfl hle hmeet hknown haccepts (h.writes hlands 4)
    split
    · rename_i heq
      rw [heq] at hno
      exact absurd rfl (hno _)
    · rename_i heq
      rwa [heq] at hsteps
    · rename_i heq
      rw [heq] at hsteps
      exact hsteps
  · obtain ⟨error, hreport, hvisible⟩ : ∃ error, broker.applyExecutionReport (answers.moments 4)
        answers.wallClock answers.portfolioCheck order fill (some market.tradeDate) = _ ∧ _ :=
      applyExecutionReport_refused hknown (by simpa using haccepts)
    rw [hreport]
    have hrefusal := h.of_sameProgress (broker.portfolio.withPosition fill.symbol) (.refl order)
    have hmoves : Moves broker
        { broker with portfolio := broker.portfolio.withPosition fill.symbol } canonicalId :=
      ⟨rfl, rfl, fun _ hmem ↦ hmem, rfl, fun _ _ ↦ rfl⟩
    exact (hrefusal.reject (some market.tradeDate) hvisible (h.writes hlands 5)).of_moves hmoves

variable {limits : PriceLimits}

theorem attemptFill_booked (h : Standing broker order canonicalId canonical)
    (hstate : order.state = .accepted) (hasked : canonical.quantity = asked)
    (hsized : order.quantity = sized) (htrades : Trades broker answers order market limits)
    (htraded : broker.tradeSize order market = traded) (hover : ¬ asked < traded)
    (hlands : Lands broker answers) :
    ∃ after order' result updated, broker.attemptFill answers order market =
        (after, order', result) ∧
      after.portfolio = broker.portfolio.booked (broker.fillOf answers order market limits traded) ∧
      after.fillIds = broker.fillIds ++ [answers.fillId] ∧
      after.canonicalIds = broker.canonicalIds ∧ order'.orderId = order.orderId ∧
      (order'.state = if sized ≤ traded then .filled else .partiallyFilled) ∧
      order'.filledQuantity = order.filledQuantity + traded ∧
      after.mirror.book.orders.get? canonicalId = some updated ∧
      updated.status = if traded = asked then .filled else .partiallyFilled := by
  obtain ⟨hreached, hpositive, hbanded, hnew, haccepts⟩ := htrades
  rw [htraded] at hpositive haccepts
  obtain ⟨mirror, result, hreport, hno, hadvances⟩ := h.report_booked answers.wallClock
    answers.portfolioCheck (some market.tradeDate) hstate hasked hsized rfl hover hnew haccepts
    (h.writes hlands 4)
  let fill := broker.fillOf answers order market limits traded
  let economic := economicFill canonical canonicalId order fill
    (sessionOr (some market.tradeDate) answers.wallClock)
  have hquantity : economic.quantity = traded := truncate_intCast traded ▸ rfl
  have hattempt : ∃ result : Except VenueError Unit, broker.attemptFill answers order market =
      ({ broker.moved fill with mirror },
        { filledBy order fill with state := stateAfter order fill }, result) := by
    unfold Broker.attemptFill
    rw [if_neg (by rw [hreached]; decide)]
    simp only [htraded, if_neg (not_le.mpr hpositive), hbanded]
    rw [hreport]
    cases result with
    | ok booked => exact ⟨_, rfl⟩
    | error error =>
      cases error with
      | portfolio error => exact absurd rfl (hno error)
      | _ => exact ⟨_, rfl⟩
  obtain ⟨result, hattempt⟩ := hattempt
  refine ⟨_, _, _, canonical.afterFill economic, hattempt, rfl, rfl, rfl, rfl,
    stateAfter_eq hsized (h.of_accepted hstate).1 rfl, rfl, ?_,
    h.status_afterFill hstate hasked hquantity⟩
  simp only [hadvances.orders, economic, fill, Dict.get?_insert_self]

/-- A new order that validation lets pass is rounded, accepted and tried once. -/
theorem accept (h : Standing broker order canonicalId canonical) (hstate : order.state = .new)
    (hpasses : (broker.validate answers order market).2.2 = .ok none)
    (hlands : Lands broker answers) :
    ∃ portfolio mirror, ∃ hpositive : 0 < order.sizedQuantity,
      broker.work answers order market =
        ({ broker with portfolio, mirror } : Broker).attemptFill answers
          { order.sized hpositive with state := .accepted } market ∧
      (portfolio = broker.portfolio ∨ portfolio = broker.portfolio.withPosition order.symbol) ∧
      Standing { broker with portfolio, mirror } { order.sized hpositive with state := .accepted }
        canonicalId (canonical.afterEvent .accepted none) ∧
      Moves broker { broker with portfolio, mirror } canonicalId := by
  obtain ⟨portfolio, order', result, hvalidate, hportfolio, hcases⟩ :=
    broker.validate_cases answers order market
  rw [hvalidate] at hpasses
  obtain ⟨error, rfl, -⟩ | ⟨reason, rfl, -⟩ | ⟨rfl, hpositive, rfl⟩ := hcases
  · cases hpasses
  · cases hpasses
  let accepted : Order := { order.sized hpositive with state := .accepted }
  have hsized := h.of_sameProgress portfolio (order.sameProgress_sized hpositive)
  have hallows : (order.sized hpositive).state.allows .accepted = true := by
    rw [show (order.sized hpositive).state = _ from hstate]
    decide
  have hallowed : OrderEventType.accepted.targetStatus ∈ allowedTransitions canonical.status := by
    rw [h.matched.status, hstate]
    decide
  have hmatched : Matched accepted (canonical.afterEvent OrderEventType.accepted none) :=
    { filled := h.matched.filled
      status := rfl
      idle := fun _ ↦ h.matched.idle (.inl hstate)
      settled := by rintro ⟨⟩ }
  obtain ⟨mirror, hevent, hstanding, hmoved⟩ := hsized.canonicalEvent none
    (some market.tradeDate) accepted rfl hallowed (fun htarget ↦ by cases htarget)
    (h.writes hlands 3) rfl hmatched
  refine ⟨portfolio, mirror, hpositive, ?_, hportfolio, hstanding,
    ⟨rfl, rfl, fun _ hmem ↦ hmem, hmoved.durable, hmoved.others⟩⟩
  rw [Broker.work, hvalidate]
  simp only [Order.transition_of_allows hallows]
  simp only [accepted] at hevent
  simp only [hevent]

omit [Hashing ℚ] in
/-- Whether an attempt books a fill does not depend on the record of account. -/
theorem trades_accepted {portfolio : Portfolio} {mirror : Mirror ℚ}
    {hpositive : 0 < order.sizedQuantity}
    (hportfolio : portfolio = broker.portfolio ∨ portfolio = broker.portfolio.withPosition
      order.symbol) :
    Trades { broker with portfolio, mirror } answers
        { order.sized hpositive with state := .accepted } market limits ↔
      Trades broker answers (order.sized hpositive) market limits := by
  have haccepts : ∀ fill, portfolio.accepts fill = broker.portfolio.accepts fill := by
    rcases hportfolio with rfl | rfl
    · exact fun _ ↦ rfl
    · exact Portfolio.accepts_withPosition _ order.symbol
  constructor
  · rintro ⟨hreached, hlot, hbanded, hnew, haccepted⟩
    exact ⟨hreached, hlot, hbanded, hnew, (haccepts _).symm.trans haccepted⟩
  · rintro ⟨hreached, hlot, hbanded, hnew, haccepted⟩
    exact ⟨hreached, hlot, hbanded, hnew, (haccepts _).trans haccepted⟩

/-- Validation, acceptance and one attempt, for an order that is open canonically. -/
theorem work (h : Standing broker order canonicalId canonical) (hasked : Asked order canonical)
    (hmeets : SizesMeet broker answers order market) (hlands : Lands broker answers) :
    Steps canonicalId broker (broker.work answers order market) := by
  by_cases haccepted : order.state = .new ∧ (broker.validate answers order market).2.2 = .ok none
  · obtain ⟨hstate, hpasses⟩ := haccepted
    obtain ⟨portfolio, mirror, hpositive, hwork, hportfolio, hstanding, hmoves⟩ :=
      h.accept hstate hpasses hlands
    rw [hwork]
    refine (hstanding.attemptFill rfl (hasked hstate) rfl (fun limits htrades ↦ ?_)
      (hlands.of_moves hmoves)).of_moves hmoves
    exact hmeets hstate hpasses hpositive limits ((trades_accepted hportfolio).mp htrades)
  obtain ⟨portfolio, order', result, hvalidate, hportfolio, hcases⟩ :=
    broker.validate_cases answers order market
  have hmoves : Moves broker { broker with portfolio } canonicalId :=
    ⟨rfl, rfl, fun _ hmem ↦ hmem, rfl, fun _ _ ↦ rfl⟩
  rw [hvalidate] at haccepted
  rw [Broker.work, hvalidate]
  obtain ⟨error, rfl, rfl⟩ | ⟨reason, rfl, hvisible, hsame⟩ | ⟨rfl, hpositive, rfl⟩ := hcases
  · exact ⟨⟨canonical, h.of_sameProgress portfolio (.refl order'), hasked⟩, hmoves⟩
  · exact ((h.of_sameProgress portfolio hsame).reject (some market.tradeDate) hvisible
      (h.writes hlands 3)).of_moves hmoves
  · have hstate : order.state ≠ .new := fun hnew ↦ haccepted ⟨hnew, rfl⟩
    have hallows : ¬ (order.sized hpositive).state.allows .accepted = true := by
      intro hallows
      refine hstate ?_
      revert hallows
      rw [show (order.sized hpositive).state = order.state from rfl]
      cases order.state <;> decide
    simp only [Order.transition_of_not_allows hallows]
    exact .of_standing (h.of_sameProgress portfolio (order.sameProgress_sized hpositive)) hstate
      hmoves _

end Standing

end Broker

end QuantAgent.Paper
