import QuantAgent.MarketRules.LimitPrices
import QuantAgent.Paper.Admission

/-!
# The prices of paper fills

Whatever a submission does besides, each fill it adds is priced by the rulebook from the snapshot and
the terms of the order that was submitted.
-/

namespace QuantAgent.Paper

open Library Domain MarketRules

theorem Market.previousClose_pos [Platform] {market : Market} (h : market.invalidReason = none) :
    0 < market.previousClose := by
  by_contra hclose
  have hproblem : priceProblem "previous_close" market.previousClose ≠ [] := by
    simp [priceProblem, not_lt.mp hclose]
  simp only [invalidReason] at h
  rw [if_neg (by simp [hproblem])] at h
  cases h

namespace Broker

/-- The broker keeps its knobs, and every fill it adds is of some kind. -/
structure Books (of_ : Fill → Prop) (before after : Broker) : Prop where
  config : after.config = before.config
  fills : ∀ fill ∈ after.fills, fill ∈ before.fills ∨ of_ fill

variable {of_ : Fill → Prop}

variable (broker : Broker) (moment : Moment) (order : Order)

theorem Books.refl : Books of_ broker broker := ⟨rfl, fun _ hfill ↦ .inl hfill⟩

theorem Books.trans {first second third : Broker} (h : Books of_ first second)
    (h' : Books of_ second third) : Books of_ first third where
  config := h'.config.trans h.config
  fills fill hfill := by
    rcases h'.fills fill hfill with hbefore | hnew
    · exact h.fills fill hbefore
    · exact .inr hnew

variable [Hashing ℚ]

theorem books_record (call : MirrorCall ℚ) :
    Books of_ broker (broker.record moment call).1 := by
  rw [record_fst]
  exact ⟨rfl, fun _ hfill ↦ .inl hfill⟩

theorem books_canonicalEvent (kind : OrderEventType) (reason tradeDate : Option String) :
    Books of_ broker (broker.canonicalEvent moment order kind reason tradeDate).1 := by
  rcases broker.canonicalEvent_fst moment order kind reason tradeDate with hsame | ⟨_, hrecord⟩
  · rw [hsame]
    exact .refl broker
  · rw [hrecord]
    exact broker.books_record moment _

theorem books_canonicalOpen (answers : Answers) (order : Order) (tradeDate : Option String) :
    Books of_ broker (broker.canonicalOpen answers order tradeDate).1 := by
  unfold canonicalOpen
  simp only
  split
  · exact .refl broker
  · rename_i intent _
    have hopened : Books of_ broker (broker.record (answers.moments 0)
        (.opening intent none (some (sessionOr tradeDate answers.wallClock)))).1 :=
      broker.books_record _ _
    split
    · rename_i hrecord
      rw [hrecord] at hopened
      exact hopened
    · rename_i opened canonical hrecord
      rw [hrecord] at hopened
      have happended : ∀ (current : Broker) (moment : Moment) (kind : OrderEventType)
          (decision : Option (Domain.RiskDecision ℚ)), kind.isExecution = false →
          Books of_ current (current.applyAndAppend moment canonical.orderId kind decision
            (sessionOr tradeDate answers.wallClock)).1 := by
        intro current moment kind decision hkind
        rw [applyAndAppend_fst current moment canonical.orderId hkind]
        exact ⟨rfl, fun _ hfill ↦ .inl hfill⟩
      let mapped : Broker := { opened with
        canonicalIds := opened.canonicalIds.insert order.orderId canonical.orderId }
      have hmapped : Books of_ broker mapped := ⟨hopened.config, hopened.fills⟩
      have happroved := happended mapped (answers.moments 1) .riskApproved
        (some (decisionOf canonical.lineage answers.decidedAt)) rfl
      split
      · rename_i happly
        rw [happly] at happroved
        exact hmapped.trans happroved
      · rename_i approved happly
        rw [happly] at happroved
        exact (hmapped.trans happroved).trans
          (happended approved (answers.moments 2) .submitted none rfl)

theorem books_reject (reason : String) (tradeDate : Option String) :
    Books of_ broker (broker.reject moment order reason tradeDate).1 := by
  unfold reject
  simp only
  split
  · exact .refl broker
  · exact broker.books_canonicalEvent moment _ _ _ _

theorem books_canonicalFill (fill : Fill) (tradeDate : Option String) (wallClock : String) :
    Books of_ broker (broker.canonicalFill moment order fill tradeDate wallClock).1 := by
  unfold canonicalFill
  split
  · exact .refl broker
  · simp only
    split
    · exact .refl broker
    · rename_i canonicalId _ _ canonical _
      let economic := economicFill canonical canonicalId order fill (sessionOr tradeDate wallClock)
      let kind : OrderEventType :=
        if canonical.quantity ≤ canonical.filledQuantity + economic.quantity then .fill
        else .partialFill
      have hrecorded : Books of_ broker (broker.record moment (.event canonicalId kind
          (some economic) none none (some (sessionOr tradeDate wallClock)))).1 :=
        broker.books_record moment _
      split
      · rename_i hrecord
        rw [hrecord] at hrecorded
        exact hrecorded
      · rename_i hrecord
        rw [hrecord] at hrecorded
        exact hrecorded

section Pricing

variable [Platform]

variable (broker : Broker) (answers : Answers) (order : Order) (market : Market)

theorem books_applyExecutionReport (moment : Moment) (wallClock : String)
    (portfolioCheck : Option String) (order : Order) {fill : Fill} (hfill : of_ fill)
    (tradeDate : Option String) :
    Books of_ broker
      (broker.applyExecutionReport moment wallClock portfolioCheck order fill tradeDate).1 := by
  unfold applyExecutionReport
  split
  · exact .refl broker
  · split
    · exact ⟨rfl, fun _ hmem ↦ .inl hmem⟩
    · rename_i portfolio _
      let moved : Broker := { broker with
        portfolio
        fillIds := broker.fillIds ++ [fill.fillId]
        fills := broker.fills ++ [fill] }
      have hmoved : Books of_ broker moved := by
        refine ⟨rfl, fun other hother ↦ ?_⟩
        rcases List.mem_append.mp hother with hbefore | hnew
        · exact .inl hbefore
        · rw [List.mem_singleton.mp hnew]
          exact .inr hfill
      have hbooked := hmoved.trans (moved.books_canonicalFill moment order fill tradeDate wallClock)
      simp only
      split
      · rename_i hcanonical
        rw [hcanonical] at hbooked
        exact hbooked
      · rename_i hcanonical
        rw [hcanonical] at hbooked
        split
        · exact hbooked
        · split <;> exact hbooked

omit [Hashing ℚ] in
/-- A fill of an order at a snapshot has the price that the rulebook gives. -/
structure PricedFor (config : BrokerConfig) (order : Order) (market : Market) (fill : Fill) :
    Prop where
  valid : market.invalidReason = none
  orderId : fill.orderId = order.orderId
  side : fill.side = order.side
  price : ∃ limits, market.limits = .ok limits ∧
    fill.price = executionPrice market.lastPrice order.side fill.quantity market.sessionVolume
      config.slippageBps config.impactCoefficient limits order.limitPrice

omit [Hashing ℚ] [Platform] in
structure SameTerms (before after : Order) : Prop where
  orderId : after.orderId = before.orderId
  side : after.side = before.side
  limitPrice : after.limitPrice = before.limitPrice

theorem books_attemptFill (hvalid : market.invalidReason = none) :
    Books (PricedFor broker.config order market) broker
      (broker.attemptFill answers order market).1 := by
  unfold attemptFill
  split
  · exact .refl broker
  · simp only
    split
    · exact .refl broker
    · split
      · exact .refl broker
      · rename_i limits hlimits
        have hpriced : PricedFor broker.config order market
            (broker.fillOf answers order market limits (broker.tradeSize order market)) :=
          ⟨hvalid, rfl, rfl, limits, hlimits, rfl⟩
        have hreport := broker.books_applyExecutionReport (answers.moments 4) answers.wallClock
          answers.portfolioCheck order hpriced (some market.tradeDate)
        split
        · rename_i after refused error hresult
          rw [hresult] at hreport
          exact hreport.trans (after.books_reject (answers.moments 5) refused error.message _)
        · rename_i hresult
          rw [hresult] at hreport
          exact hreport
        · rename_i hresult
          rw [hresult] at hreport
          exact hreport

omit [Hashing ℚ] in
/-- Validation rounds the order at most, and lets it pass only at a valid snapshot. -/
theorem validate_terms :
    Books (PricedFor broker.config order market) broker
        (broker.validate answers order market).1 ∧
      SameTerms order (broker.validate answers order market).2.1 ∧
      ((broker.validate answers order market).2.2 = .ok none → market.invalidReason = none) := by
  have hasked : Books (PricedFor broker.config order market) broker
      { broker with portfolio := broker.portfolio.withPosition order.symbol } :=
    ⟨rfl, fun _ hfill ↦ .inl hfill⟩
  unfold validate
  split
  · exact ⟨.refl broker, ⟨rfl, rfl, rfl⟩, by simp⟩
  split
  · exact ⟨.refl broker, ⟨rfl, rfl, rfl⟩, by simp⟩
  rename_i hvalid
  split
  · exact ⟨.refl broker, ⟨rfl, rfl, rfl⟩, fun _ ↦ hvalid⟩
  split
  · exact ⟨.refl broker, ⟨rfl, rfl, rfl⟩, fun _ ↦ hvalid⟩
  simp only
  split
  · exact ⟨hasked, ⟨rfl, rfl, rfl⟩, fun _ ↦ hvalid⟩
  split
  · exact ⟨hasked, ⟨rfl, rfl, rfl⟩, fun _ ↦ hvalid⟩
  split
  · exact ⟨hasked, ⟨rfl, rfl, rfl⟩, fun _ ↦ hvalid⟩
  · exact ⟨hasked, ⟨rfl, rfl, rfl⟩, fun _ ↦ hvalid⟩

theorem books_work :
    Books (PricedFor broker.config order market) broker (broker.work answers order market).1 := by
  obtain ⟨hvalidated, hterms, hvalid⟩ := broker.validate_terms answers order market
  unfold work
  split
  · rename_i hresult
    rw [hresult] at hvalidated
    exact hvalidated
  · rename_i checked sized reason hresult
    rw [hresult] at hvalidated
    exact hvalidated.trans (checked.books_reject (answers.moments 3) sized reason _)
  · rename_i checked sized hresult
    rw [hresult] at hvalidated hterms hvalid
    split
    · exact hvalidated
    · rename_i accepted htransition
      obtain ⟨-, rfl⟩ := Order.transition_ok_iff.mp htransition
      let accepted : Order := { sized with state := .accepted }
      have hevent := hvalidated.trans (checked.books_canonicalEvent (answers.moments 3) accepted
        .accepted none (some market.tradeDate))
      split
      · rename_i hrecord
        rw [hrecord] at hevent
        exact hevent
      · rename_i recorded hrecord
        rw [hrecord] at hevent
        have hattempt := recorded.books_attemptFill answers accepted market (hvalid rfl)
        refine hevent.trans ⟨hattempt.config, fun fill hfill ↦ ?_⟩
        rcases hattempt.fills fill hfill with hbefore | hpriced
        · exact .inl hbefore
        · obtain ⟨limits, hlimits, hprice⟩ := hpriced.price
          refine .inr ⟨hpriced.valid, hpriced.orderId.trans hterms.orderId,
            hpriced.side.trans hterms.side, limits, hlimits, ?_⟩
          rw [hprice, show recorded.config = broker.config from hevent.config,
            show accepted.side = order.side from hterms.side,
            show accepted.limitPrice = order.limitPrice from hterms.limitPrice]

/-- Each fill that a submission adds has the price of the rulebook. -/
theorem books_submit :
    Books (PricedFor broker.config order market) broker (broker.submit answers order market).1 := by
  have hprocess : Books (PricedFor broker.config order market) broker
      (broker.process answers order market).1 := by
    unfold process
    split
    · exact .refl broker
    · split
      · exact broker.books_work answers order market
      · have hopened : Books (PricedFor broker.config order market) broker
            (broker.canonicalOpen answers order (some market.tradeDate)).1 :=
          broker.books_canonicalOpen answers order _
        split
        · rename_i hopen
          rw [hopen] at hopened
          exact hopened
        · rename_i opened hopen
          rw [hopen] at hopened
          have hworked := opened.books_work answers order market
          rw [hopened.config] at hworked
          exact hopened.trans hworked
  exact ⟨hprocess.config, hprocess.fills⟩

end Pricing

end Broker

end QuantAgent.Paper
