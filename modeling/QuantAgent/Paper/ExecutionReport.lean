import QuantAgent.Paper.OrderAgreement

/-!
# One execution report

`apply_execution_report` moves the portfolio, the fill list, the canonical book, the ledger and the
order one after the other.  It is all-or-nothing exactly when nothing can go wrong behind the first
of these steps.
-/

namespace QuantAgent.Paper

open Library Domain MarketRules

/-- The canonical form of a fill says the same as the fill. -/
structure Describes (economic : Domain.Fill ℚ) (fill : Fill) : Prop where
  executionId : economic.executionId = fill.fillId
  symbol : economic.symbol = fill.symbol
  side : economic.side = fill.side
  quantity : economic.quantity = fill.quantity
  price : economic.price = fill.price
  commission : economic.commission = fill.commission
  stampDuty : economic.stampDuty = fill.stampDuty
  transferFee : economic.transferFee = fill.transferFee

/-- Everything a report may touch is as it was. -/
structure Unchanged (before after : Broker) (order order' : Order) : Prop where
  cash : after.portfolio.cash = before.portfolio.cash
  positions : after.portfolio.positions = before.portfolio.positions
  realisedPnl : after.portfolio.realisedPnl = before.portfolio.realisedPnl
  fills : after.fills = before.fills
  fillIds : after.fillIds = before.fillIds
  filledQuantity : order'.filledQuantity = order.filledQuantity
  filledNotional : order'.filledNotional = order.filledNotional
  feesPaid : order'.feesPaid = order.feesPaid
  state : order'.state = order.state
  book : after.mirror.book = before.mirror.book
  ledger : after.mirror.ledger = before.mirror.ledger

theorem Unchanged.refl (broker : Broker) (order : Order) : Unchanged broker broker order order :=
  ⟨rfl, rfl, rfl, rfl, rfl, rfl, rfl, rfl, rfl, rfl, rfl⟩

/-- Portfolio, order, book and ledger all show the fill once. -/
structure Reflected (before after : Broker) (order order' : Order) (fill : Fill) : Prop where
  portfolio : after.portfolio = before.portfolio.booked fill
  fills : after.fills = before.fills ++ [fill]
  fillIds : after.fillIds = before.fillIds ++ [fill.fillId]
  filledQuantity : order'.filledQuantity = order.filledQuantity + fill.quantity
  filledNotional : order'.filledNotional = order.filledNotional + fill.notional
  feesPaid : order'.feesPaid = order.feesPaid + fill.fees
  state : order'.state = Broker.stateAfter order fill
  book : ∃ canonicalId known updated economic,
    before.canonicalIds.get? order.orderId = some canonicalId ∧
    before.mirror.book.orders.get? canonicalId = some known ∧
    after.mirror.book.orders = before.mirror.book.orders.insert canonicalId updated ∧
    updated.filledQuantity = known.filledQuantity + fill.quantity ∧
    updated.fills = known.fills ++ [economic] ∧ Describes economic fill
  ledger : ∃ record event economic,
    after.mirror.ledger.records = before.mirror.ledger.records ++ [record] ∧
    record.event = some event ∧ event.fill = some economic ∧ Describes economic fill

section Report

variable [Hashing ℚ] [Platform]

/-- What a report is given besides the broker, the order and the fill. -/
structure ReportContext where
  moment : Moment
  wallClock : String
  portfolioCheck : Option String
  tradeDate : Option String

omit [Hashing ℚ] [Platform] in
def ReportContext.economic (context : ReportContext) (known : Domain.Order ℚ)
    (canonicalId : String) (order : Order) (fill : Fill) : Domain.Fill ℚ :=
  Broker.economicFill known canonicalId order fill (sessionOr context.tradeDate context.wallClock)

def Broker.report (broker : Broker) (context : ReportContext) (order : Order) (fill : Fill) :
    Broker × Order × Except VenueError Bool :=
  broker.applyExecutionReport context.moment context.wallClock context.portfolioCheck order fill
    context.tradeDate

/-- Raised or repeated, nothing has changed; booked, everything shows the fill once and a second
report of it changes nothing. -/
def AllOrNothing (broker : Broker) (context : ReportContext) (order : Order) (fill : Fill) : Prop :=
  match broker.report context order fill with
  | (after, order', .ok true) =>
    Reflected broker after order order' fill ∧
      ∀ context' again, again.fillId = fill.fillId →
        after.report context' order' again = (after, order', .ok false)
  | (after, order', _) => Unchanged broker after order order'

omit [Platform] in
/-- Nothing can go wrong: the fill is known; or the portfolio refuses it and knows the symbol; or
portfolio, canonical order, ledger, paper order and portfolio limits all accept it, and it is for a
whole number of shares. -/
def Bookable (broker : Broker) (context : ReportContext) (order : Order) (fill : Fill) : Prop :=
  fill.fillId ∈ broker.fillIds ∨
  (broker.portfolio.accepts fill = false ∧ fill.symbol ∈ broker.portfolio.positions.keys) ∨
  (broker.portfolio.accepts fill = true ∧ (truncate fill.quantity : ℚ) = fill.quantity ∧
    (∃ canonicalId known, broker.canonicalIds.get? order.orderId = some canonicalId ∧
      broker.mirror.book.orders.get? canonicalId = some known ∧
      known.Accepts (context.economic known canonicalId order fill)) ∧
    broker.mirror.ledger.Writes context.moment.write ∧
    order.state.allows (Broker.stateAfter order fill) = true ∧ context.portfolioCheck = none)

variable {broker : Broker} {context : ReportContext} {order : Order} {fill : Fill}

variable {canonicalId : String}

omit [Platform] [Hashing ℚ] in
/-- The fill that is recorded describes the given one when it is for whole shares. -/
theorem describes_economicFill {canonical : Domain.Order ℚ} {session : String}
    (hwhole : (truncate fill.quantity : ℚ) = fill.quantity) :
    Describes (Broker.economicFill canonical canonicalId order fill session) fill :=
  ⟨rfl, rfl, rfl, hwhole, rfl, rfl, rfl, rfl⟩

omit [Platform] [Hashing ℚ] in
theorem Describes.kept {economic : Domain.Fill ℚ} (h : Describes economic fill)
    (hwhole : (truncate fill.quantity : ℚ) = fill.quantity) : Describes economic.kept fill where
  executionId := h.executionId
  symbol := h.symbol
  side := h.side
  quantity := by
    change ((truncate economic.quantity : ℤ) : ℚ) = fill.quantity
    rw [h.quantity, hwhole]
  price := h.price
  commission := h.commission
  stampDuty := h.stampDuty
  transferFee := h.transferFee

def ReportContext.recorded (context : ReportContext) (mirror : Mirror ℚ) (known : Domain.Order ℚ)
    (canonicalId : String) (order : Order) (fill : Fill) : Mirror ℚ :=
  let economic := context.economic known canonicalId order fill
  let event := mirror.executionEvent context.moment.now known canonicalId
    (Broker.executionKind known economic) economic
  ⟨mirror.book.push (known.afterFill economic) event,
    mirror.ledger.push (mirror.ledger.exactRecord context.moment.recordedAt
      ⟨some event, some (sessionOr context.tradeDate context.wallClock), none, none⟩)⟩

variable {known : Domain.Order ℚ}

section

variable (hnew : fill.fillId ∉ broker.fillIds) (haccepts : broker.portfolio.accepts fill = true)
include hnew haccepts

theorem report_accepted (hmapped : broker.canonicalIds.get? order.orderId = some canonicalId)
    (hknown : broker.mirror.book.orders.get? canonicalId = some known)
    (hcanonical : known.Accepts (context.economic known canonicalId order fill))
    (hwrites : broker.mirror.ledger.Writes context.moment.write) :
    broker.report context order fill =
      let after := { broker.moved fill with
        mirror := context.recorded broker.mirror known canonicalId order fill }
      match (Broker.filledBy order fill).transition (Broker.stateAfter order fill) with
      | .error error => (after, Broker.filledBy order fill, .error (.state error))
      | .ok order' =>
        match context.portfolioCheck with
        | some message => (after, order', .error (.surroundings message))
        | none => (after, order', .ok true) := by
  have hkind := Broker.isExecution_executionKind known
    (context.economic known canonicalId order fill)
  have hperform : (broker.moved fill).mirror.perform context.moment
      (Mirror.execution canonicalId (Broker.executionKind known
        (context.economic known canonicalId order fill))
        (context.economic known canonicalId order fill)
        (some (sessionOr context.tradeDate context.wallClock))) = _ :=
    Mirror.perform_execution hkind hknown hcanonical hwrites
  have hcanonicalFill : (broker.moved fill).canonicalFill context.moment order fill
      context.tradeDate context.wallClock = _ :=
    Broker.canonicalFill_eq context.moment fill context.tradeDate context.wallClock hmapped hknown
  simp only [ReportContext.economic] at hperform
  simp only [hperform] at hcanonicalFill
  rw [Broker.report, Broker.applyExecutionReport_accepted hnew haccepts, hcanonicalFill]
  rfl

/-- Behind an accepted fill only the canonical record moves the broker. -/
theorem broker_report :
    (broker.report context order fill).1 =
      ((broker.moved fill).canonicalFill context.moment order fill context.tradeDate
        context.wallClock).1 := by
  rw [Broker.report, Broker.applyExecutionReport_accepted hnew haccepts]
  cases (broker.moved fill).canonicalFill context.moment order fill context.tradeDate
      context.wallClock with
  | mk after result =>
    cases result with
    | error error => rfl
    | ok _ =>
      simp only
      split
      · rfl
      · split <;> rfl

/-- A fill that the portfolio accepts is among the fills afterwards, whatever else happens. -/
theorem fillIds_report :
    (broker.report context order fill).1.fillIds = broker.fillIds ++ [fill.fillId] := by
  rw [broker_report hnew haccepts]
  unfold Broker.canonicalFill Broker.record
  split
  · rfl
  · simp only
    split
    · rfl
    · cases (broker.moved fill).mirror.perform context.moment _ with
      | mk mirror result => cases result <;> rfl

/-- A fill that the canonical order does not accept or the ledger cannot write leaves no record. -/
theorem records_report (hmapped : broker.canonicalIds.get? order.orderId = some canonicalId)
    (hknown : broker.mirror.book.orders.get? canonicalId = some known)
    (h : ¬ (known.Accepts (context.economic known canonicalId order fill) ∧
      broker.mirror.ledger.Writes context.moment.write)) :
    (broker.report context order fill).1.mirror.ledger.records = broker.mirror.ledger.records := by
  have hkind := Broker.isExecution_executionKind known
    (context.economic known canonicalId order fill)
  have hrecords : ((broker.moved fill).mirror.perform context.moment
      (Mirror.execution canonicalId (Broker.executionKind known
        (context.economic known canonicalId order fill))
        (context.economic known canonicalId order fill)
        (some (sessionOr context.tradeDate context.wallClock)))).1.ledger.records =
      broker.mirror.ledger.records := Mirror.perform_execution_of_not hkind hknown h
  have hcanonicalFill : (broker.moved fill).canonicalFill context.moment order fill
      context.tradeDate context.wallClock = _ :=
    Broker.canonicalFill_eq context.moment fill context.tradeDate context.wallClock hmapped hknown
  rw [broker_report hnew haccepts, hcanonicalFill, ← hrecords]
  simp only [ReportContext.economic]
  split <;> rename_i heq <;> rw [heq]

end

omit [Platform] in
theorem reflected_of_bookable (hwhole : (truncate fill.quantity : ℚ) = fill.quantity)
    (hmapped : broker.canonicalIds.get? order.orderId = some canonicalId)
    (hknown : broker.mirror.book.orders.get? canonicalId = some known) :
    Reflected broker { broker.moved fill with
        mirror := context.recorded broker.mirror known canonicalId order fill }
      order { Broker.filledBy order fill with state := Broker.stateAfter order fill } fill where
  portfolio := rfl
  fills := rfl
  fillIds := rfl
  filledQuantity := rfl
  filledNotional := rfl
  feesPaid := rfl
  state := rfl
  book := by
    refine ⟨canonicalId, known, _, context.economic known canonicalId order fill, hmapped, hknown,
      rfl, ?_, rfl, describes_economicFill hwhole⟩
    change known.filledQuantity + (truncate fill.quantity : ℚ) = _
    rw [hwhole]
  ledger := ⟨_, _, _, rfl, rfl, rfl, (describes_economicFill hwhole).kept hwhole⟩

theorem allOrNothing_of_bookable (h : Bookable broker context order fill) :
    AllOrNothing broker context order fill := by
  by_cases hnew : fill.fillId ∈ broker.fillIds
  · have hreport : broker.report context order fill = (broker, order, .ok false) :=
      Broker.applyExecutionReport_known hnew
    rw [AllOrNothing, hreport]
    exact .refl broker order
  rcases h with hknown | ⟨hrefused, hsymbol⟩ | ⟨haccepts, hwhole, ⟨canonicalId, known, hmapped,
    hknown, hcanonical⟩, hwrites, hallows, hcheck⟩
  · exact absurd hknown hnew
  · obtain ⟨error, hreport, -⟩ : ∃ error, broker.report context order fill = _ ∧ _ :=
      Broker.applyExecutionReport_refused hnew hrefused
    obtain ⟨hcash, hrealised, -⟩ := broker.portfolio.cash_withPosition fill.symbol
    rw [AllOrNothing, hreport]
    exact ⟨hcash, (Portfolio.positions_withPosition_iff _ _).mpr hsymbol, hrealised, rfl, rfl, rfl,
      rfl, rfl, rfl, rfl, rfl⟩
  · have hreport := report_accepted hnew haccepts hmapped hknown hcanonical hwrites
    have htransition : (Broker.filledBy order fill).transition (Broker.stateAfter order fill) = _ :=
      Order.transition_of_allows hallows
    simp only [htransition, hcheck] at hreport
    rw [AllOrNothing, hreport]
    refine ⟨reflected_of_bookable hwhole hmapped hknown, fun context' again hagain ↦ ?_⟩
    refine Broker.applyExecutionReport_known ?_
    rw [hagain]
    exact List.mem_append_right _ List.mem_cons_self

/-- Once the portfolio has taken the fill, only full success is left. -/
theorem reflected_of_allOrNothing (hnew : fill.fillId ∉ broker.fillIds)
    (haccepts : broker.portfolio.accepts fill = true) (h : AllOrNothing broker context order fill) :
    (broker.report context order fill).2.2 = .ok true ∧
      Reflected broker (broker.report context order fill).1 order
        (broker.report context order fill).2.1 fill := by
  have hmoved : ∀ after order', after.fillIds = broker.fillIds ++ [fill.fillId] →
      ¬ Unchanged broker after order order' := by
    intro after order' hfillIds hunchanged
    have hsame := hunchanged.fillIds
    rw [hfillIds] at hsame
    exact absurd (congrArg List.length hsame) (by simp)
  have hfillIds : (broker.report context order fill).1.fillIds = _ := fillIds_report hnew haccepts
  rw [AllOrNothing] at h
  generalize broker.report context order fill = outcome at *
  obtain ⟨after, order', result⟩ := outcome
  cases result with
  | error error => exact absurd h (hmoved after order' hfillIds)
  | ok booked =>
    cases booked with
    | false => exact absurd h (hmoved after order' hfillIds)
    | true => exact ⟨rfl, h.1⟩

theorem bookable_of_allOrNothing (h : AllOrNothing broker context order fill) :
    Bookable broker context order fill := by
  by_cases hnew : fill.fillId ∈ broker.fillIds
  · exact .inl hnew
  right
  by_cases haccepts : broker.portfolio.accepts fill = true
  swap
  · left
    have hrefused : broker.portfolio.accepts fill = false := by simpa using haccepts
    obtain ⟨error, hreport, -⟩ : ∃ error, broker.report context order fill = _ ∧ _ :=
      Broker.applyExecutionReport_refused hnew hrefused
    rw [AllOrNothing, hreport] at h
    exact ⟨hrefused, (Portfolio.positions_withPosition_iff _ _).mp h.positions⟩
  right
  obtain ⟨hresult, hreflected⟩ := reflected_of_allOrNothing hnew haccepts h
  obtain ⟨canonicalId, known, updated, economic, hmapped, hknown, horders, -, hfills, hdescribes⟩ :=
    hreflected.book
  obtain ⟨record, -, -, hrecords, -⟩ := hreflected.ledger
  have hboth : known.Accepts (context.economic known canonicalId order fill) ∧
      broker.mirror.ledger.Writes context.moment.write := by
    by_contra hnot
    have hsame := records_report hnew haccepts hmapped hknown hnot
    rw [hrecords] at hsame
    exact absurd (congrArg List.length hsame) (by simp)
  obtain ⟨hcanonical, hwrites⟩ := hboth
  have hreport := report_accepted hnew haccepts hmapped hknown hcanonical hwrites
  have hupdated : known.afterFill (context.economic known canonicalId order fill) = updated := by
    have hbook : (broker.report context order fill).1.mirror.book.orders =
        broker.mirror.book.orders.insert canonicalId
          (known.afterFill (context.economic known canonicalId order fill)) := by
      rw [hreport]
      simp only
      split
      · rfl
      · split <;> rfl
    rw [hbook] at horders
    have hget := congrArg (fun orders ↦ orders.get? canonicalId) horders
    simpa using hget
  have hsame : context.economic known canonicalId order fill = economic := by
    rw [← hupdated] at hfills
    simpa [Domain.Order.afterFill] using hfills
  have hwhole : (truncate fill.quantity : ℚ) = fill.quantity := by
    have hquantity := hdescribes.quantity
    rwa [← hsame] at hquantity
  refine ⟨haccepts, hwhole, ⟨canonicalId, known, hmapped, hknown, hcanonical⟩, hwrites, ?_⟩
  rw [hreport] at hresult
  by_cases hallows : order.state.allows (Broker.stateAfter order fill) = true
  swap
  · have htransition : (Broker.filledBy order fill).transition (Broker.stateAfter order fill) = _ :=
      Order.transition_of_not_allows hallows
    simp only [htransition] at hresult
    cases hresult
  have htransition : (Broker.filledBy order fill).transition (Broker.stateAfter order fill) = _ :=
    Order.transition_of_allows hallows
  cases hcheck : context.portfolioCheck with
  | none => exact ⟨hallows, rfl⟩
  | some message =>
    simp only [htransition, hcheck] at hresult
    cases hresult

/-- A report is all-or-nothing exactly when nothing can go wrong behind the portfolio. -/
theorem allOrNothing_iff_bookable (broker : Broker) (context : ReportContext) (order : Order)
    (fill : Fill) : AllOrNothing broker context order fill ↔ Bookable broker context order fill :=
  ⟨bookable_of_allOrNothing, allOrNothing_of_bookable⟩

end Report

/-- A second execution for the order of the sample, reported when the order is filled. -/
def lateFill : Fill where
  orderId := "o-1"
  symbol := "600000.SH"
  side := .buy
  quantity := 100
  price := 10
  notional := 1000
  commission := 5
  stampDuty := 0
  transferFee := 1 / 100
  marketTime := none
  fillId := "f-2"
  isPartial := false

def lateContext : ReportContext where
  moment := Mirror.momentOf .landed
  wallClock := "2026-01-05T02:00:00+00:00"
  portfolioCheck := none
  tradeDate := some "2026-01-05"

/-- The late execution is paid for and then refused by the canonical order. -/
theorem not_allOrNothing_lateFill :
    ∃ order, (Broker.sampleBroker.submit Broker.sampleAnswers
        (Broker.sampleOrder 100 Broker.hundred_pos) Broker.sampleMarket).1.orders.get? "o-1" =
        some order ∧
      ¬ AllOrNothing (Broker.sampleBroker.submit Broker.sampleAnswers
        (Broker.sampleOrder 100 Broker.hundred_pos) Broker.sampleMarket).1 lateContext order lateFill := by
  have hasked := truncate_natCast 100
  obtain ⟨canonicalId, canonical, order, horder, hid, hknown, hstate, -, hcash, hfillIds⟩ :=
    Broker.submit_sample Broker.hundred_pos Broker.sized_sample.1 hasked.ge
  refine ⟨order, horder, ?_⟩
  generalize (Broker.sampleBroker.submit Broker.sampleAnswers
    (Broker.sampleOrder 100 Broker.hundred_pos) Broker.sampleMarket).1 = after at hcash hfillIds ⊢
  intro hall
  rcases bookable_of_allOrNothing hall with hbooked | ⟨hrefused, -⟩ | ⟨-, -, -, -, hallows, -⟩
  · rw [hfillIds] at hbooked
    exact absurd hbooked (by decide)
  · have hpaid : lateFill.cashDelta = -(1000 + (5 + 0 + 1 / 100)) := rfl
    have hcan : after.portfolio.canAfford lateFill = true := by
      rw [Portfolio.canAfford, Bool.or_eq_true, hcash, hpaid]
      refine .inr (decide_eq_true ?_)
      norm_num
    have hcannot : after.portfolio.canAfford lateFill = false := hrefused
    rw [hcan] at hcannot
    cases hcannot
  · rw [hstate] at hallows
    unfold Broker.stateAfter at hallows
    split at hallows <;> exact absurd hallows (by decide)

end QuantAgent.Paper
