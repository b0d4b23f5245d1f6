import QuantAgent.Paper.OrderAgreement

/-!
# What becomes of the size of an order

A submission changes the size of its order in one place, where validation rounds it to a lot of its
board; nothing behind that place does.  The refusal of an order that rounds to nothing is the only
one that begins as it does, so the reason of a rejected order tells it from every other.
-/

namespace QuantAgent.Paper

open Library Domain MarketRules

def initial (text : String) : Option Char := text.toList.head?

theorem initial_append {first : String} {c : Char} (h : initial first = some c) (second : String) :
    initial (first ++ second) = some c := by
  unfold initial at h ⊢
  rw [String.toList_append, List.head?_append, h]
  rfl

theorem initial_intercalate (separator : String) {first : String} {c : Char}
    (h : initial first = some c) (rest : List String) :
    initial (separator.intercalate (first :: rest)) = some c := by
  cases rest with
  | nil =>
    rw [String.intercalate_singleton]
    exact h
  | cons second rest =>
    rw [String.intercalate_cons_cons]
    exact initial_append (initial_append h _) _

def NotAboutSize (reason : String) : Prop := initial reason ≠ some 'q'

theorem NotAboutSize.of_initial {reason : String} {c : Char} (h : initial reason = some c)
    (hc : c ≠ 'q') : NotAboutSize reason := by
  rw [NotAboutSize, h]
  exact fun heq ↦ hc (Option.some.inj heq)

section Reasons

variable [Platform]

theorem initial_lotRefusal (order : Order) : initial (Broker.lotRefusal order) = some 'q' := by
  have hstart : initial "quantity " = some 'q' := by decide
  exact initial_append (initial_append (initial_append (initial_append (initial_append
    (initial_append (initial_append (initial_append hstart _) _) _) _) _) _) _) _

theorem NotAboutSize.ne_lotRefusal {reason : String} (h : NotAboutSize reason) (order : Order) :
    reason ≠ Broker.lotRefusal order := by
  rintro rfl
  exact h (initial_lotRefusal order)

theorem notAboutSize_message {portfolio after : Portfolio} {fill : Fill} {error : PortfolioError}
    (h : portfolio.applyFill fill = (after, .error error)) : NotAboutSize error.message := by
  have hbuy : initial "buy of " = some 'b' := by decide
  have hsell : initial "sell of " = some 's' := by decide
  unfold Portfolio.applyFill at h
  split at h
  · split at h
    · cases h
    · obtain ⟨-, hmessage⟩ := Prod.mk.inj h
      cases hmessage
      refine .of_initial ?_ (show 'b' ≠ 'q' by decide)
      exact initial_append (initial_append (initial_append (initial_append (initial_append
        (initial_append (initial_append (initial_append hbuy _) _) _) _) _) _) _) _
  · split at h
    · obtain ⟨-, hmessage⟩ := Prod.mk.inj h
      cases hmessage
      refine .of_initial ?_ (show 's' ≠ 'q' by decide)
      exact initial_append (initial_append (initial_append (initial_append
        (initial_append hsell _) _) _) _) _
    · cases h

end Reasons

/-- The reasons a verdict can give, in any combination. -/
theorem notAboutSize_intercalate {reasons : List String}
    (h : ∀ reason ∈ reasons, ∃ c, initial reason = some c ∧ c ≠ 'q') :
    NotAboutSize ("; ".intercalate reasons) := by
  cases reasons with
  | nil =>
    rw [String.intercalate_nil]
    exact fun hempty ↦ absurd hempty (by decide)
  | cons reason rest =>
    obtain ⟨c, hc, hne⟩ := h reason List.mem_cons_self
    exact .of_initial (initial_intercalate "; " hc rest) hne

theorem notAboutSize_verdict (isSuspended atLimitUp atLimitDown acquiredToday : Bool) :
    NotAboutSize ("; ".intercalate
      (tradability isSuspended atLimitUp atLimitDown false acquiredToday).reasons) := by
  have hsuspended : ∃ c, initial "security is suspended" = some c ∧ c ≠ 'q' :=
    ⟨'s', by decide, by decide⟩
  have hup : ∃ c, initial "locked at limit up: no offers to lift" = some c ∧ c ≠ 'q' :=
    ⟨'l', by decide, by decide⟩
  have hdown : ∃ c, initial "locked at limit down: no bids to hit" = some c ∧ c ≠ 'q' :=
    ⟨'l', by decide, by decide⟩
  have htoday : ∃ c, initial "T+1: shares bought today settle tomorrow" = some c ∧ c ≠ 'q' :=
    ⟨'T', by decide, by decide⟩
  apply notAboutSize_intercalate
  intro reason hreason
  simp only [tradability, Bool.false_eq_true, if_false, List.append_nil, List.mem_append,
    List.mem_ite_nil_right, List.mem_singleton] at hreason
  rcases hreason with ((⟨-, rfl⟩ | ⟨-, rfl⟩) | ⟨-, rfl⟩) | ⟨-, rfl⟩
  · exact hsuspended
  · exact hup
  · exact hdown
  · exact htoday

namespace Broker

theorem notAboutSize_instrumentRefusal {broker : Broker} {order : Order} {market : Market}
    {limits : PriceLimits} {reason : String}
    (h : broker.instrumentRefusal order market limits = some reason) : NotAboutSize reason := by
  unfold instrumentRefusal at h
  simp only at h
  split at h
  · cases h
    exact notAboutSize_verdict _ _ _ _
  split at h
  · cases h
    exact notAboutSize_verdict _ _ _ _
  split at h
  · cases h
    exact .of_initial (show initial "ST buy blocked by policy" = some 'S' by decide) (by decide)
  · cases h

variable [Platform]

theorem notAboutSize_bookRefusal {broker : Broker} {answers : Answers} {order : Order}
    {limits : PriceLimits} {reason : String}
    (h : broker.bookRefusal answers order limits = some reason) : NotAboutSize reason := by
  obtain ⟨start, hstart, rest, rfl⟩ := exists_bookRefusal h
  simp only [List.mem_cons, List.not_mem_nil, or_false] at hstart
  rcases hstart with rfl | rfl | rfl
  · exact .of_initial (initial_append (show initial "limit " = some 'l' by decide) _) (by decide)
  · exact .of_initial (initial_append (show initial "sell of " = some 's' by decide) _) (by decide)
  · exact .of_initial (initial_append
      (show initial "portfolio risk rejected: " = some 'p' by decide) _) (by decide)

/-- Validation gets as far as the size of the order. -/
def ReachesSize (broker : Broker) (answers : Answers) (order : Order) (market : Market) : Prop :=
  answers.blocked = none ∧ market.invalidReason = none ∧
    (∃ phase, market.phase = .ok phase ∧ phase.tradable = true) ∧
    ∃ limits, market.limits = .ok limits ∧
      ({ broker with portfolio := broker.portfolio.withPosition order.symbol } :
        Broker).instrumentRefusal order market limits = none

/-- An order whose size is not looked at keeps it, and is refused for something else. -/
theorem validate_of_not_reachesSize {broker : Broker} {answers : Answers} {order : Order}
    {market : Market} (h : ¬ broker.ReachesSize answers order market) :
    ∃ after result, broker.validate answers order market = (after, order, result) ∧
      result ≠ .ok none ∧ ∀ reason, result = .ok (some reason) → NotAboutSize reason := by
  have hkill : initial "kill switch active: " = some 'k' := by decide
  have hdata : initial "market_data_invalid: " = some 'm' := by decide
  have hphase : initial "outside a tradable session phase (" = some 'o' := by decide
  have hraised : ∀ (error : VenueError) (reason : String),
      (.error error : Except VenueError (Option String)) = .ok (some reason) →
        NotAboutSize reason := fun _ _ h ↦ by cases h
  have hrefused : ∀ reason : String, NotAboutSize reason → ∀ other,
      (.ok (some reason) : Except VenueError (Option String)) = .ok (some other) →
        NotAboutSize other := by
    intro reason hreason other heq
    obtain rfl := Option.some.inj (Except.ok.inj heq)
    exact hreason
  unfold validate
  cases hblocked : answers.blocked with
  | some reason =>
    exact ⟨_, _, rfl, (fun h ↦ by cases h),
      hrefused _ (.of_initial (initial_append hkill _) (by decide))⟩
  | none =>
  cases hinvalid : market.invalidReason with
  | some invalid =>
    exact ⟨_, _, rfl, (fun h ↦ by cases h),
      hrefused _ (.of_initial (initial_append hdata _) (by decide))⟩
  | none =>
  cases hmarketPhase : market.phase with
  | error error => exact ⟨_, _, rfl, (fun h ↦ by cases h), hraised _⟩
  | ok phase =>
  simp only
  split
  · exact ⟨_, _, rfl, (fun h ↦ by cases h),
      hrefused _ (.of_initial (initial_append (initial_append hphase _) _) (by decide))⟩
  rename_i htradable
  cases hlimits : market.limits with
  | error error => exact ⟨_, _, rfl, (fun h ↦ by cases h), hraised _⟩
  | ok limits =>
  simp only
  cases hrefusal : ({ broker with portfolio := broker.portfolio.withPosition order.symbol } :
      Broker).instrumentRefusal order market limits with
  | some reason =>
    exact ⟨_, _, rfl, (fun h ↦ by cases h), hrefused _ (notAboutSize_instrumentRefusal hrefusal)⟩
  | none =>
    refine absurd ⟨hblocked, hinvalid, ⟨phase, hmarketPhase, ?_⟩, limits, hlimits, hrefusal⟩ h
    simpa using htradable

/-- An order whose size is looked at is refused for it when it rounds to nothing, and otherwise has
the size it rounds to. -/
theorem validate_of_reachesSize {broker : Broker} {answers : Answers} {order : Order}
    {market : Market} (h : broker.ReachesSize answers order market) :
    ∃ after, (¬ 0 < order.sizedQuantity →
        broker.validate answers order market = (after, order, .ok (some (lotRefusal order)))) ∧
      ∀ hpositive : 0 < order.sizedQuantity, ∃ refusal,
        broker.validate answers order market = (after, order.sized hpositive, .ok refusal) ∧
          ∀ reason, refusal = some reason → NotAboutSize reason := by
  obtain ⟨hblocked, hinvalid, ⟨phase, hphase, htradable⟩, limits, hlimits, hrefusal⟩ := h
  have hopen : (!phase.tradable) = false := by rw [htradable]; rfl
  refine ⟨{ broker with portfolio := broker.portfolio.withPosition order.symbol }, ?_, ?_⟩
  · intro hnothing
    unfold Order.sizedQuantity at hnothing
    simp only [validate, hblocked, hinvalid, hphase, hopen, Bool.false_eq_true, if_false, hlimits,
      hrefusal]
    rw [dif_neg hnothing]
  · intro hpositive
    let checked : Broker := { broker with portfolio := broker.portfolio.withPosition order.symbol }
    refine ⟨checked.bookRefusal answers (order.sized hpositive) limits, ?_,
      fun reason hreason ↦ notAboutSize_bookRefusal hreason⟩
    have hsized : 0 < roundToLot order.quantity order.board order.side order.isFullLiquidation :=
      hpositive
    simp only [validate, hblocked, hinvalid, hphase, hopen, Bool.false_eq_true, if_false, hlimits,
      hrefusal]
    rw [dif_pos hsized]
    rfl

/-- The order has kept its name and its size, and no refusal for its size was noted. -/
structure SizeKept (before after : Order) : Prop where
  orderId : after.orderId = before.orderId
  quantity : after.quantity = before.quantity
  reason : after.rejectReason = before.rejectReason ∨
    ∃ reason, after.rejectReason = some reason ∧ NotAboutSize reason

variable (broker : Broker) (moment : Moment) (order : Order)

omit [Platform] in
theorem SizeKept.refl : SizeKept order order := ⟨rfl, rfl, .inl rfl⟩

omit [Platform] in
theorem SizeKept.trans {first second third : Order} (h : SizeKept first second)
    (h' : SizeKept second third) : SizeKept first third where
  orderId := h'.orderId.trans h.orderId
  quantity := h'.quantity.trans h.quantity
  reason := by
    rcases h'.reason with hsame | hnoted
    · rw [hsame]
      exact h.reason
    · exact .inr hnoted

omit [Platform] in
theorem sizeKept_of_transition {order after : Order} {target : OrderState}
    (h : order.transition target = .ok after) : SizeKept order after := by
  obtain ⟨-, rfl⟩ := Order.transition_ok_iff.mp h
  exact ⟨rfl, rfl, .inl rfl⟩

variable [Hashing ℚ]

omit [Platform] in
theorem of_reject (reason : String) (tradeDate : Option String) :
    (broker.reject moment order reason tradeDate).2.1.orderId = order.orderId ∧
      (broker.reject moment order reason tradeDate).2.1.quantity = order.quantity ∧
      (broker.reject moment order reason tradeDate).2.1.rejectReason = some reason := by
  unfold reject
  simp only
  split
  · exact ⟨rfl, rfl, rfl⟩
  · rename_i noted hnoted
    obtain ⟨-, rfl⟩ := Order.transition_ok_iff.mp hnoted
    exact ⟨rfl, rfl, rfl⟩

omit [Platform] in
theorem sizeKept_reject {reason : String} (h : NotAboutSize reason) (tradeDate : Option String) :
    SizeKept order (broker.reject moment order reason tradeDate).2.1 := by
  obtain ⟨hid, hquantity, hreason⟩ := broker.of_reject moment order reason tradeDate
  exact ⟨hid, hquantity, .inr ⟨reason, hreason, h⟩⟩

theorem sizeKept_applyExecutionReport (wallClock : String) (portfolioCheck : Option String)
    (order : Order) (fill : Fill) (tradeDate : Option String) :
    SizeKept order (broker.applyExecutionReport moment wallClock portfolioCheck order fill
        tradeDate).2.1 ∧
      ∀ error, (broker.applyExecutionReport moment wallClock portfolioCheck order fill
        tradeDate).2.2 = .error (.portfolio error) → NotAboutSize error.message := by
  by_cases hknown : fill.fillId ∈ broker.fillIds
  · rw [applyExecutionReport_known hknown]
    exact ⟨.refl order, fun _ h ↦ by cases h⟩
  cases haccepts : broker.portfolio.accepts fill with
  | false =>
    obtain ⟨error, herror⟩ := Portfolio.applyFill_of_not_accepts haccepts
    rw [applyExecutionReport, if_neg hknown, herror]
    refine ⟨.refl order, fun other hother ↦ ?_⟩
    obtain rfl := VenueError.portfolio.inj (Except.error.inj hother)
    exact notAboutSize_message herror
  | true =>
    have hfilled : SizeKept order (filledBy order fill) := ⟨rfl, rfl, .inl rfl⟩
    rw [applyExecutionReport_accepted hknown haccepts]
    cases hfill : (broker.moved fill).canonicalFill moment order fill tradeDate wallClock with
    | mk after result =>
    cases result with
    | error error =>
      refine ⟨.refl order, fun other hother ↦ ?_⟩
      have hraised := congrArg Prod.snd hfill
      rw [Except.error.inj hother] at hraised
      unfold canonicalFill at hraised
      split at hraised
      · cases hraised
      simp only at hraised
      split at hraised
      · cases hraised
      split at hraised
      · cases hraised
      · rename_i hrecord
        unfold record at hrecord
        split at hrecord <;> cases hrecord
        cases hraised
    | ok value =>
      cases htransition : (filledBy order fill).transition (stateAfter order fill) with
      | error error => exact ⟨hfilled, fun _ h ↦ by cases h⟩
      | ok moved =>
        have hmoved := hfilled.trans (sizeKept_of_transition htransition)
        cases portfolioCheck with
        | none => exact ⟨hmoved, fun _ h ↦ by cases h⟩
        | some message => exact ⟨hmoved, fun _ h ↦ by cases h⟩

theorem sizeKept_attemptFill (answers : Answers) (order : Order) (market : Market) :
    SizeKept order (broker.attemptFill answers order market).2.1 := by
  unfold attemptFill
  split
  · exact .refl order
  simp only
  split
  · exact .refl order
  split
  · exact .refl order
  rename_i limits _
  obtain ⟨hkept, hmessage⟩ := broker.sizeKept_applyExecutionReport (answers.moments 4)
    answers.wallClock answers.portfolioCheck order
    (broker.fillOf answers order market limits (broker.tradeSize order market))
    (some market.tradeDate)
  split
  · rename_i heq
    rw [heq] at hkept hmessage
    exact hkept.trans (sizeKept_reject _ _ _ (hmessage _ rfl) _)
  · rename_i heq
    rw [heq] at hkept
    exact hkept
  · rename_i heq
    rw [heq] at hkept
    exact hkept

/-- An order that validation leaves alone keeps its size through the rest of its submission. -/
theorem sizeKept_work {broker after : Broker} {answers : Answers} {order order' : Order}
    {market : Market} {result : Except VenueError (Option String)}
    (h : broker.validate answers order market = (after, order', result))
    (hreason : ∀ reason, result = .ok (some reason) → NotAboutSize reason) :
    SizeKept order' (broker.work answers order market).2.1 := by
  rw [work, h]
  cases result with
  | error error => exact .refl order'
  | ok refusal =>
  cases refusal with
  | some reason => exact sizeKept_reject _ _ _ (hreason reason rfl) _
  | none =>
    simp only
    cases htransition : order'.transition .accepted with
    | error error => exact .refl order'
    | ok accepted =>
      have haccepted := sizeKept_of_transition htransition
      simp only
      cases after.canonicalEvent (answers.moments 3) accepted .accepted none
        (some market.tradeDate) with
      | mk recorded answer =>
      cases answer with
      | error error => exact haccepted
      | ok value => exact haccepted.trans (sizeKept_attemptFill _ _ _ _)

/-- What a submission does to the size of a new order: nothing when validation does not come to it,
and otherwise it is rounded, or the order is refused for it. -/
theorem size_of_work {broker : Broker} {answers : Answers} {order : Order} {market : Market}
    (hnew : order.rejectReason = none) :
    (broker.work answers order market).2.1.orderId = order.orderId ∧
      (¬ broker.ReachesSize answers order market →
        (broker.work answers order market).2.1.quantity = order.quantity ∧
          (broker.work answers order market).2.1.rejectReason ≠ some (lotRefusal order)) ∧
      (broker.ReachesSize answers order market →
        (0 < order.sizedQuantity →
          (broker.work answers order market).2.1.quantity = order.sizedQuantity ∧
            (broker.work answers order market).2.1.rejectReason ≠ some (lotRefusal order)) ∧
        (¬ 0 < order.sizedQuantity →
          (broker.work answers order market).2.1.rejectReason = some (lotRefusal order))) := by
  have hunrefused : ∀ {before after : Order}, SizeKept before after →
      before.rejectReason = none → after.rejectReason ≠ some (lotRefusal order) := by
    intro before after hkept hnone hrefused
    rcases hkept.reason with hsame | ⟨reason, hreason, hother⟩
    · rw [hsame, hnone] at hrefused
      cases hrefused
    · rw [hreason] at hrefused
      exact hother.ne_lotRefusal order (Option.some.inj hrefused)
  by_cases hreaches : broker.ReachesSize answers order market
  · obtain ⟨after, hnothing, hsome⟩ := validate_of_reachesSize hreaches
    by_cases hpositive : 0 < order.sizedQuantity
    · obtain ⟨refusal, hvalidate, hreason⟩ := hsome hpositive
      have hkept := sizeKept_work hvalidate fun reason hrefused ↦ hreason reason (Except.ok.inj hrefused)
      refine ⟨hkept.orderId, fun hnot ↦ absurd hreaches hnot, fun _ ↦ ⟨fun _ ↦ ?_, fun hnot ↦
        absurd hpositive hnot⟩⟩
      exact ⟨hkept.quantity, hunrefused hkept hnew⟩
    · have hrefused := hnothing hpositive
      obtain ⟨hid, -, hreason⟩ := after.of_reject (answers.moments 3) order (lotRefusal order)
        (some market.tradeDate)
      have hwork : (broker.work answers order market) =
          after.reject (answers.moments 3) order (lotRefusal order) (some market.tradeDate) := by
        rw [work, hrefused]
      rw [hwork]
      exact ⟨hid, fun hnot ↦ absurd hreaches hnot, fun _ ↦ ⟨fun hnot ↦ absurd hnot hpositive,
        fun _ ↦ hreason⟩⟩
  · obtain ⟨after, result, hvalidate, -, hreason⟩ := validate_of_not_reachesSize hreaches
    have hkept := sizeKept_work hvalidate hreason
    exact ⟨hkept.orderId, fun _ ↦ ⟨hkept.quantity, hunrefused hkept hnew⟩, fun h ↦
      absurd h hreaches⟩

end Broker

end QuantAgent.Paper
