import QuantAgent.Domain.MirrorReplay
import QuantAgent.Paper.Broker

/-!
# What a call of the broker admits

An order is admitted when the venue accepts it, on paper or on the record of account, and when it is
filled.  A submission that a kill switch is in the way of admits nothing, whatever else is answered,
and any submission leaves the other orders as they are.
-/

namespace QuantAgent.Paper

open Library Domain MarketRules

/-- The venue accepted the order and has not ended it otherwise. -/
def OrderState.admitted : OrderState → Bool
  | .accepted => true
  | .partiallyFilled => true
  | .filled => true
  | _ => false

def acknowledgedOn (ledger : CanonicalLedger ℚ) : List String :=
  ledger.events.filterMap fun event ↦
    if event.eventType = .accepted then some event.orderId else none

namespace Broker

/-- No order of the sides in question was accepted or filled between two states of the broker; the
order that was submitted, if one was, may have come with its state. -/
structure NothingAdmitted (concerned : Side → Bool) (given : Option Order) (before after : Broker) :
    Prop where
  orders : ∀ id held, after.orders.get? id = some held → concerned held.side = true →
    held.state.admitted = true →
    (∃ earlier, before.orders.get? id = some earlier ∧ earlier.side = held.side ∧
        earlier.state = held.state) ∨
      ∃ order, given = some order ∧ order.orderId = id ∧ order.state = held.state
  fills : ∀ fill ∈ after.fills, concerned fill.side = true → fill ∈ before.fills
  acknowledged : (∀ order, given = some order → concerned order.side = true) →
    acknowledgedOn after.mirror.ledger = acknowledgedOn before.mirror.ledger

structure Quiet (before after : Broker) : Prop where
  orders : after.orders = before.orders
  fills : after.fills = before.fills
  acknowledged : acknowledgedOn after.mirror.ledger = acknowledgedOn before.mirror.ledger

theorem Quiet.refl (broker : Broker) : Quiet broker broker := ⟨rfl, rfl, rfl⟩

theorem Quiet.trans {first second third : Broker} (h : Quiet first second)
    (h' : Quiet second third) : Quiet first third :=
  ⟨h'.orders.trans h.orders, h'.fills.trans h.fills, h'.acknowledged.trans h.acknowledged⟩

theorem Quiet.nothingAdmitted {before after : Broker} (h : Quiet before after)
    (concerned : Side → Bool) : NothingAdmitted concerned none before after where
  orders id held hheld _ _ := .inl ⟨held, by rw [← h.orders]; exact hheld, rfl, rfl⟩
  fills fill hfill _ := by rw [← h.fills]; exact hfill
  acknowledged _ := h.acknowledged

section Canonical

variable [Hashing ℚ]

theorem acknowledgedOn_perform (mirror : Mirror ℚ) (moment : Moment) {call : MirrorCall ℚ}
    (h : ∀ orderId fill reason decision tradeDate,
      call ≠ .event orderId .accepted fill reason decision tradeDate) :
    acknowledgedOn (mirror.perform moment call).1.ledger = acknowledgedOn mirror.ledger := by
  rcases mirror.appended_cases moment call with
    ⟨hsame, -⟩ | ⟨order, event, kept, record, hadvance, hstored, hevent, -, hrecords, -⟩
  · rw [acknowledgedOn, acknowledgedOn, CanonicalLedger.events, CanonicalLedger.events, hsame]
  · have hother : kept.eventType ≠ .accepted := by
      intro haccepted
      rw [(OrderEvent.stored_terms hstored).1] at haccepted
      rcases MirrorCall.advance_some hadvance with
        ⟨_, _, _, -, -, -, rfl⟩ | ⟨_, _, _, _, _, _, before, hcall, -, -, rfl⟩
      · cases haccepted
      · cases haccepted
        exact h _ _ _ _ _ hcall
    rw [acknowledgedOn, acknowledgedOn, CanonicalLedger.events, CanonicalLedger.events, hrecords]
    simp only [List.filterMap_append, List.filterMap_cons, List.filterMap_nil, hevent, if_neg hother,
      List.append_nil]

variable (broker : Broker) (moment : Moment)

theorem record_fst (call : MirrorCall ℚ) :
    (broker.record moment call).1 = { broker with mirror := (broker.mirror.perform moment call).1 } := by
  unfold record
  cases broker.mirror.perform moment call with
  | mk mirror result => cases result <;> rfl

theorem quiet_record {call : MirrorCall ℚ}
    (h : ∀ orderId fill reason decision tradeDate, call ≠ .event orderId .accepted fill reason
      decision tradeDate) :
    Quiet broker (broker.record moment call).1 := by
  rw [record_fst]
  exact ⟨rfl, rfl, acknowledgedOn_perform broker.mirror moment h⟩

theorem canonicalEvent_fst (order : Order) (kind : OrderEventType)
    (reason tradeDate : Option String) :
    (broker.canonicalEvent moment order kind reason tradeDate).1 = broker ∨
      ∃ canonicalId, (broker.canonicalEvent moment order kind reason tradeDate).1 =
        (broker.record moment
          (.event canonicalId kind none reason none (sessionOrNone tradeDate))).1 := by
  unfold canonicalEvent
  split
  · exact .inl rfl
  · rename_i canonicalId _
    refine .inr ⟨canonicalId, ?_⟩
    cases broker.record moment
        (.event canonicalId kind none reason none (sessionOrNone tradeDate)) with
    | mk after result => cases result <;> rfl

variable {kind : OrderEventType}

theorem quiet_canonicalEvent (order : Order) (h : kind ≠ .accepted)
    (reason tradeDate : Option String) :
    Quiet broker (broker.canonicalEvent moment order kind reason tradeDate).1 := by
  rcases broker.canonicalEvent_fst moment order kind reason tradeDate with hsame | ⟨_, hrecord⟩
  · rw [hsame]
    exact .refl broker
  · rw [hrecord]
    refine broker.quiet_record moment fun _ _ _ _ _ hcall ↦ ?_
    cases hcall
    exact h rfl

theorem applyAndAppend_fst (canonicalId : String) (hkind : kind.isExecution = false)
    (riskDecision : Option (Domain.RiskDecision ℚ)) (session : String) :
    (broker.applyAndAppend moment canonicalId kind riskDecision session).1 =
      { broker with
        mirror := (broker.mirror.perform moment
          (.event canonicalId kind none none riskDecision (some session))).1 } := by
  simp only [Mirror.perform, Mirror.mirrorEvent]
  unfold applyAndAppend
  cases happly : broker.mirror.book.apply canonicalId kind none none riskDecision moment.now with
  | error error => rfl
  | ok result =>
    obtain ⟨book, changed⟩ := result
    obtain ⟨event, hevents⟩ := OrderBook.events_apply hkind happly
    have hlonger : broker.mirror.book.events.length < book.events.length := by
      rw [hevents, List.length_append]
      exact Nat.lt_succ_self _
    simp only [if_pos hlonger]
    cases Mirror.recordLast book broker.mirror.ledger moment changed canonicalId (some session)
        none with
    | mk mirror outcome => cases outcome <;> rfl

theorem quiet_applyAndAppend (canonicalId : String) (hkind : kind.isExecution = false)
    (h : kind ≠ .accepted) (riskDecision : Option (Domain.RiskDecision ℚ)) (session : String) :
    Quiet broker (broker.applyAndAppend moment canonicalId kind riskDecision session).1 := by
  rw [applyAndAppend_fst broker moment canonicalId hkind]
  refine ⟨rfl, rfl, acknowledgedOn_perform broker.mirror moment fun _ _ _ _ _ hcall ↦ ?_⟩
  cases hcall
  exact h rfl

/-- Opening an order canonically acknowledges nothing, wherever it stops. -/
theorem quiet_canonicalOpen (answers : Answers) (order : Order) (tradeDate : Option String) :
    Quiet broker (broker.canonicalOpen answers order tradeDate).1 := by
  unfold canonicalOpen
  simp only
  split
  · exact .refl broker
  · rename_i intent _
    let session := sessionOr tradeDate answers.wallClock
    have hopened : Quiet broker (broker.record (answers.moments 0)
        (.opening intent none (some session))).1 :=
      broker.quiet_record (answers.moments 0) (by simp only [ne_eq, reduceCtorEq, not_false_eq_true,
        implies_true])
    split
    · rename_i opened _ hrecord
      rw [hrecord] at hopened
      exact hopened
    · rename_i opened canonical hrecord
      rw [hrecord] at hopened
      let mapped : Broker := { opened with
        canonicalIds := opened.canonicalIds.insert order.orderId canonical.orderId }
      have hmapped : Quiet broker mapped := ⟨hopened.orders, hopened.fills, hopened.acknowledged⟩
      let decision := decisionOf canonical.lineage answers.decidedAt
      have happroved : Quiet mapped (mapped.applyAndAppend (answers.moments 1) canonical.orderId
          .riskApproved (some decision) session).1 :=
        mapped.quiet_applyAndAppend _ _ rfl (by decide) _ _
      split
      · rename_i approved _ happly
        rw [happly] at happroved
        exact hmapped.trans happroved
      · rename_i approved happly
        rw [happly] at happroved
        have hsubmitted : Quiet approved (approved.applyAndAppend (answers.moments 2)
            canonical.orderId .submitted none session).1 :=
          approved.quiet_applyAndAppend _ _ rfl (by decide) _ _
        exact (hmapped.trans happroved).trans hsubmitted

omit [Hashing ℚ] in
structure SameOrder (before after : Order) : Prop where
  orderId : after.orderId = before.orderId
  side : after.side = before.side

section

omit [Hashing ℚ]

theorem SameOrder.refl (order : Order) : SameOrder order order := ⟨rfl, rfl⟩

theorem SameOrder.trans {first second third : Order} (h : SameOrder first second)
    (h' : SameOrder second third) : SameOrder first third :=
  ⟨h'.orderId.trans h.orderId, h'.side.trans h.side⟩

end

variable {order : Order}

omit [Hashing ℚ] in
theorem sameOrder_of_transition {after : Order} {target : OrderState}
    (h : order.transition target = .ok after) : SameOrder order after := by
  obtain ⟨-, rfl⟩ := Order.transition_ok_iff.mp h
  exact ⟨rfl, rfl⟩

/-- A refusal ends the order, or leaves its state as it is. -/
theorem quiet_reject (order : Order) (reason : String) (tradeDate : Option String) :
    Quiet broker (broker.reject moment order reason tradeDate).1 ∧
      SameOrder order (broker.reject moment order reason tradeDate).2.1 ∧
      ((broker.reject moment order reason tradeDate).2.1.state = order.state ∨
        (broker.reject moment order reason tradeDate).2.1.state = .rejected) := by
  unfold reject
  simp only
  split
  · exact ⟨.refl broker, ⟨rfl, rfl⟩, .inl rfl⟩
  · rename_i rejected htransition
    have hsame := sameOrder_of_transition htransition
    obtain ⟨-, hstate⟩ := Order.transition_ok_iff.mp htransition
    have hquiet := broker.quiet_canonicalEvent moment rejected (show OrderEventType.rejected ≠ .accepted
      by decide) (some reason) tradeDate
    refine ⟨hquiet, ⟨hsame.orderId, hsame.side⟩, .inr ?_⟩
    change rejected.state = .rejected
    rw [hstate]

section Blocked

variable [Platform]

variable {answers : Answers} {reason : String}

variable (broker : Broker)

section

variable (h : answers.blocked = some reason) (order : Order) (market : Market)
include h

omit [Hashing ℚ] in
/-- The kill switch is the first thing validation looks at. -/
theorem validate_blocked :
    broker.validate answers order market =
      (broker, order, .ok (some ("kill switch active: " ++ reason))) := by
  unfold validate
  rw [h]

theorem quiet_work_blocked :
    Quiet broker (broker.work answers order market).1 ∧
      SameOrder order (broker.work answers order market).2.1 ∧
      ((broker.work answers order market).2.1.state = order.state ∨
        (broker.work answers order market).2.1.state = .rejected) := by
  unfold work
  rw [broker.validate_blocked h]
  exact broker.quiet_reject _ _ _ _

theorem quiet_process_blocked :
    Quiet broker (broker.process answers order market).1 ∧
      SameOrder order (broker.process answers order market).2.1 ∧
      ((broker.process answers order market).2.1.state = order.state ∨
        (broker.process answers order market).2.1.state = .rejected) := by
  unfold process
  split
  · exact ⟨.refl broker, .refl order, .inl rfl⟩
  · split
    · exact broker.quiet_work_blocked h order market
    · have hopened := broker.quiet_canonicalOpen answers order (some market.tradeDate)
      split
      · rename_i opened _ hopen
        rw [hopen] at hopened
        exact ⟨hopened, .refl order, .inl rfl⟩
      · rename_i opened hopen
        rw [hopen] at hopened
        obtain ⟨hquiet, hsame, hstate⟩ := opened.quiet_work_blocked h order market
        exact ⟨hopened.trans hquiet, hsame, hstate⟩

theorem nothingAdmitted_blocked (concerned : Side → Bool) :
    NothingAdmitted concerned (some order) broker (broker.submit answers order market).1 := by
  obtain ⟨hquiet, hsame, hstate⟩ := broker.quiet_process_blocked h order market
  have hsubmit : (broker.submit answers order market).1 =
      (broker.process answers order market).1.hold (broker.process answers order market).2.1 := rfl
  rw [hsubmit]
  refine ⟨fun id held hheld _ hadmitted ↦ ?_, fun fill hfill _ ↦ ?_, fun _ ↦ hquiet.acknowledged⟩
  · simp only [hold, Dict.get?_insert, hquiet.orders] at hheld
    split at hheld
    · rename_i hid
      cases hheld
      right
      refine ⟨order, rfl, hsame.orderId.symm.trans hid.symm, ?_⟩
      rcases hstate with hkept | hrejected
      · exact hkept.symm
      · rw [hrejected] at hadmitted
        cases hadmitted
    · exact .inl ⟨held, hheld, rfl, rfl⟩
  · rw [← hquiet.fills]
    exact hfill

end

end Blocked

/-- A call that concerns one order: the broker holds the others as they are, and every new fill is on
the side of the order. -/
structure Concerns (order : Order) (before after : Broker) : Prop where
  orders : after.orders = before.orders
  fills : ∀ fill ∈ after.fills, fill ∈ before.fills ∨ fill.side = order.side

variable {before after first second third : Broker}

section

omit [Hashing ℚ]

theorem Quiet.concerns (h : Quiet before after) (order : Order) :
    Concerns order before after :=
  ⟨h.orders, fun fill hfill ↦ .inl (by rw [← h.fills]; exact hfill)⟩

theorem Concerns.refl (order : Order) (broker : Broker) : Concerns order broker broker :=
  (Quiet.refl broker).concerns order

theorem Concerns.trans {order' : Order} (h : Concerns order first second)
    (hside : order'.side = order.side) (h' : Concerns order' second third) :
    Concerns order first third where
  orders := h'.orders.trans h.orders
  fills fill hfill := by
    rcases h'.fills fill hfill with hbefore | hnew
    · exact h.fills fill hbefore
    · exact .inr (hnew.trans hside)

end

theorem concerns_record (order : Order) (broker : Broker) (moment : Moment)
    (call : MirrorCall ℚ) : Concerns order broker (broker.record moment call).1 := by
  rw [record_fst]
  exact ⟨rfl, fun _ hfill ↦ .inl hfill⟩

theorem concerns_canonicalEvent (order : Order) (kind : OrderEventType)
    (reason tradeDate : Option String) :
    Concerns order broker (broker.canonicalEvent moment order kind reason tradeDate).1 := by
  rcases broker.canonicalEvent_fst moment order kind reason tradeDate with hsame | ⟨_, hrecord⟩
  · rw [hsame]
    exact .refl order broker
  · rw [hrecord]
    exact concerns_record order broker moment _

theorem concerns_canonicalFill (order : Order) (fill : Fill) (tradeDate : Option String)
    (wallClock : String) :
    Concerns order broker (broker.canonicalFill moment order fill tradeDate wallClock).1 := by
  unfold canonicalFill
  split
  · exact .refl order broker
  · simp only
    split
    · exact .refl order broker
    · rename_i canonicalId _ _ canonical _
      let session := sessionOr tradeDate wallClock
      let economic := economicFill canonical canonicalId order fill session
      let kind : OrderEventType :=
        if canonical.quantity ≤ canonical.filledQuantity + economic.quantity then .fill
        else .partialFill
      have hrecorded := concerns_record order broker moment
        (.event canonicalId kind (some economic) none none (some session))
      split
      · rename_i hrecord
        rw [hrecord] at hrecorded
        exact hrecorded
      · rename_i hrecord
        rw [hrecord] at hrecorded
        exact hrecorded

section Submission

variable [Platform]

variable (broker : Broker)

theorem concerns_applyExecutionReport (moment : Moment) (wallClock : String)
    (portfolioCheck : Option String) (order : Order) {fill : Fill} (hside : fill.side = order.side)
    (tradeDate : Option String) :
    Concerns order broker (broker.applyExecutionReport moment wallClock portfolioCheck order fill
        tradeDate).1 ∧
      SameOrder order (broker.applyExecutionReport moment wallClock portfolioCheck order fill
        tradeDate).2.1 := by
  unfold applyExecutionReport
  split
  · exact ⟨.refl order broker, .refl order⟩
  · split
    · exact ⟨⟨rfl, fun _ hfill ↦ .inl hfill⟩, .refl order⟩
    · rename_i portfolio _
      let moved : Broker := { broker with
        portfolio
        fillIds := broker.fillIds ++ [fill.fillId]
        fills := broker.fills ++ [fill] }
      have hmoved : Concerns order broker moved := by
        refine ⟨rfl, fun other hother ↦ ?_⟩
        rcases List.mem_append.mp hother with hbefore | hnew
        · exact .inl hbefore
        · rw [List.mem_singleton.mp hnew]
          exact .inr hside
      have hbooked := hmoved.trans rfl
        (moved.concerns_canonicalFill moment order fill tradeDate wallClock)
      simp only
      split
      · rename_i after _ hfill
        rw [hfill] at hbooked
        exact ⟨hbooked, .refl order⟩
      · rename_i after hfill
        rw [hfill] at hbooked
        refine ⟨?_, ?_⟩
        · split
          · exact hbooked
          · split <;> exact hbooked
        · split
          · exact ⟨rfl, rfl⟩
          · rename_i filled htransition
            obtain ⟨hid, hkept⟩ := sameOrder_of_transition htransition
            split <;> exact ⟨hid, hkept⟩

section

variable (answers : Answers) (order : Order) (market : Market)

theorem concerns_attemptFill :
    Concerns order broker (broker.attemptFill answers order market).1 ∧
      SameOrder order (broker.attemptFill answers order market).2.1 := by
  unfold attemptFill
  split
  · exact ⟨.refl order broker, .refl order⟩
  · simp only
    split
    · exact ⟨.refl order broker, .refl order⟩
    · split
      · exact ⟨.refl order broker, .refl order⟩
      · rename_i limits _
        let fill := broker.fillOf answers order market limits (broker.tradeSize order market)
        have hreport := broker.concerns_applyExecutionReport (answers.moments 4) answers.wallClock
          answers.portfolioCheck order (show fill.side = order.side from rfl) (some market.tradeDate)
        split
        · rename_i after refused error hresult
          rw [hresult] at hreport
          obtain ⟨hconcerns, hsame⟩ := hreport
          obtain ⟨hquiet, hrejected, -⟩ := after.quiet_reject (answers.moments 5) refused error.message
            (some market.tradeDate)
          exact ⟨hconcerns.trans hsame.side (hquiet.concerns refused), hsame.trans hrejected⟩
        · rename_i hresult
          rw [hresult] at hreport
          exact hreport
        · rename_i hresult
          rw [hresult] at hreport
          exact hreport

omit [Hashing ℚ] in
/-- Validation may ask for a position and round the order. -/
theorem concerns_validate :
    Concerns order broker (broker.validate answers order market).1 ∧
      SameOrder order (broker.validate answers order market).2.1 := by
  have hstay : Concerns order broker broker ∧ SameOrder order order :=
    ⟨⟨rfl, fun _ hfill ↦ .inl hfill⟩, ⟨rfl, rfl⟩⟩
  have hasked : Concerns order broker
      { broker with portfolio := broker.portfolio.withPosition order.symbol } :=
    ⟨rfl, fun _ hfill ↦ .inl hfill⟩
  unfold validate
  split
  · exact hstay
  split
  · exact hstay
  split
  · exact hstay
  split
  · exact hstay
  simp only
  split
  · exact ⟨hasked, hstay.2⟩
  split
  · exact ⟨hasked, hstay.2⟩
  split
  · exact ⟨hasked, ⟨rfl, rfl⟩⟩
  · exact ⟨hasked, hstay.2⟩

theorem concerns_work :
    Concerns order broker (broker.work answers order market).1 ∧
      SameOrder order (broker.work answers order market).2.1 := by
  have hvalidated := broker.concerns_validate answers order market
  unfold work
  split
  · rename_i hresult
    rw [hresult] at hvalidated
    exact hvalidated
  · rename_i checked sized reason hresult
    rw [hresult] at hvalidated
    obtain ⟨hconcerns, hsame⟩ := hvalidated
    obtain ⟨hquiet, hrejected, -⟩ := checked.quiet_reject (answers.moments 3) sized reason
      (some market.tradeDate)
    exact ⟨hconcerns.trans hsame.side (hquiet.concerns sized), hsame.trans hrejected⟩
  · rename_i checked sized hresult
    rw [hresult] at hvalidated
    obtain ⟨hconcerns, hsame⟩ := hvalidated
    split
    · exact ⟨hconcerns, hsame⟩
    · rename_i accepted htransition
      have hsame' := hsame.trans (sameOrder_of_transition htransition)
      have hevent := hconcerns.trans hsame'.side (checked.concerns_canonicalEvent (answers.moments 3)
        accepted .accepted none (some market.tradeDate))
      split
      · rename_i hrecord
        rw [hrecord] at hevent
        exact ⟨hevent, hsame'⟩
      · rename_i recorded hrecord
        rw [hrecord] at hevent
        obtain ⟨hattempt, hkept⟩ := recorded.concerns_attemptFill answers accepted market
        exact ⟨hevent.trans hsame'.side hattempt, hsame'.trans hkept⟩

theorem concerns_process :
    Concerns order broker (broker.process answers order market).1 ∧
      SameOrder order (broker.process answers order market).2.1 := by
  unfold process
  split
  · exact ⟨.refl order broker, .refl order⟩
  · split
    · exact broker.concerns_work answers order market
    · have hopened := (broker.quiet_canonicalOpen answers order (some market.tradeDate)).concerns order
      split
      · rename_i hopen
        rw [hopen] at hopened
        exact ⟨hopened, .refl order⟩
      · rename_i opened hopen
        rw [hopen] at hopened
        obtain ⟨hwork, hsame⟩ := opened.concerns_work answers order market
        exact ⟨hopened.trans rfl hwork, hsame⟩

end

theorem nothingAdmitted_of_side (answers : Answers) {order : Order} (market : Market)
    {concerned : Side → Bool} (h : concerned order.side = false) :
    NothingAdmitted concerned (some order) broker (broker.submit answers order market).1 := by
  obtain ⟨hconcerns, hsame⟩ := broker.concerns_process answers order market
  have hsubmit : (broker.submit answers order market).1 =
      (broker.process answers order market).1.hold (broker.process answers order market).2.1 := rfl
  rw [hsubmit]
  refine ⟨fun id held hheld hside _ ↦ ?_, fun fill hfill hside ↦ ?_, fun hall ↦ ?_⟩
  · simp only [hold, Dict.get?_insert, hconcerns.orders] at hheld
    split at hheld
    · cases hheld
      rw [hsame.side, h] at hside
      cases hside
    · exact .inl ⟨held, hheld, rfl, rfl⟩
  · rcases hconcerns.fills fill hfill with hbefore | hnew
    · exact hbefore
    · rw [hnew, h] at hside
      cases hside
  · rw [hall order rfl] at h
    cases h

end Submission

section

omit [Hashing ℚ]

theorem nothingAdmitted_hold (hstate : order.state.admitted = false)
    (h : Quiet (before.hold order) after) (concerned : Side → Bool) :
    NothingAdmitted concerned none before after := by
  refine ⟨fun id held hheld _ hadmitted ↦ .inl ⟨held, ?_, rfl, rfl⟩, fun fill hfill _ ↦ ?_,
    fun _ ↦ h.acknowledged⟩
  · rw [h.orders] at hheld
    simp only [hold, Dict.get?_insert] at hheld
    split at hheld
    · cases hheld
      rw [hstate] at hadmitted
      cases hadmitted
    · exact hheld
  · rw [h.fills] at hfill
    exact hfill

theorem NothingAdmitted.trans {concerned : Side → Bool}
    (h : NothingAdmitted concerned none first second)
    (h' : NothingAdmitted concerned none second third) :
    NothingAdmitted concerned none first third := by
  refine ⟨fun id held hheld hside hadmitted ↦ ?_, fun fill hfill hside ↦ ?_, fun _ ↦ ?_⟩
  · rcases h'.orders id held hheld hside hadmitted with
      ⟨between, hbetween, hsame, hstate⟩ | ⟨_, hnone, -⟩
    · rw [← hsame] at hside ⊢
      rw [← hstate] at hadmitted ⊢
      exact h.orders id between hbetween hside hadmitted
    · cases hnone
  · exact h.fills fill (h'.fills fill hfill hside) hside
  · have hnone : ∀ order, (none : Option Order) = some order → concerned order.side = true :=
      fun order hgiven ↦ absurd hgiven.symm (Option.some_ne_none order)
    exact (h'.acknowledged hnone).trans (h.acknowledged hnone)

end

theorem nothingAdmitted_cancel (answers : Answers) (orderId : String) (tradeDate : Option String)
    (concerned : Side → Bool) :
    NothingAdmitted concerned none broker (broker.cancel answers orderId tradeDate).1 := by
  have hkind : OrderEventType.cancelRequested ≠ .accepted := by decide
  have hkind' : OrderEventType.cancelled ≠ .accepted := by decide
  unfold cancel
  split
  · exact (Quiet.refl broker).nothingAdmitted concerned
  · split
    · exact (Quiet.refl broker).nothingAdmitted concerned
    · split
      · exact (Quiet.refl broker).nothingAdmitted concerned
      · rename_i requested hrequested
        have hended : requested.state.admitted = false := by
          obtain ⟨-, rfl⟩ := Order.transition_ok_iff.mp hrequested
          rfl
        have hevent := (broker.hold requested).quiet_canonicalEvent (answers.moments 0) requested hkind
          none tradeDate
        split
        · rename_i hrecord
          rw [hrecord] at hevent
          exact nothingAdmitted_hold hended hevent concerned
        · rename_i recorded hrecord
          rw [hrecord] at hevent
          split
          · exact nothingAdmitted_hold hended hevent concerned
          · rename_i cancelled hcancelled
            have hover : cancelled.state.admitted = false := by
              obtain ⟨-, rfl⟩ := Order.transition_ok_iff.mp hcancelled
              rfl
            have hfirst := nothingAdmitted_hold hended hevent concerned
            have hsecond := nothingAdmitted_hold hover ((recorded.hold cancelled).quiet_canonicalEvent
              (answers.moments 1) cancelled hkind' (some "operator_cancel") tradeDate) concerned
            exact hfirst.trans hsecond

omit [Hashing ℚ] in
theorem nothingAdmitted_closeSession (concerned : Side → Bool) :
    NothingAdmitted concerned none broker broker.closeSession :=
  (show Quiet broker broker.closeSession from ⟨rfl, rfl, rfl⟩).nothingAdmitted concerned

end Canonical

end Broker

end QuantAgent.Paper
