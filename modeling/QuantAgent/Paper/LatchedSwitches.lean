import QuantAgent.Library.IsoDate
import QuantAgent.MarketRules.Reference
import QuantAgent.Paper.Admission
import QuantAgent.Paper.KillReaders
import QuantAgent.Paper.RiskVenue

/-!
# Latched switches along a run

Whatever a venue is called for, and however often its process is replaced, a latched switch stays
latched until a confirmed clearance names its identifier; and what it stands in the way of is
neither accepted nor filled.
-/

namespace QuantAgent.Paper

open Library Domain MarketRules Library.Run

namespace KillSwitch

/-! ## Journalled changes -/

/-- A switch changes, and what is journalled makes a replica of it change alike. -/
structure Latches (before : KillSwitch) (bodies : List EventBody) (after : KillSwitch) : Prop where
  journalled : ∀ replica : KillSwitch, replica.SameLatches before → ∀ events : List Event,
    (events.map fun event ↦ event.body) = bodies → (replica.restore events).SameLatches after
  named : before.Named → after.Named
  kept : ∀ id record, before.triggered.get? id = some record →
    after.triggered.get? id = some record

variable (switch : KillSwitch)

theorem Latches.refl : Latches switch [] switch where
  journalled replica h events hevents := by
    rw [List.map_eq_nil_iff] at hevents
    rw [hevents]
    exact h
  named h := h
  kept _ _ h := h

variable {bodies : List EventBody}

theorem Latches.append {first second third : KillSwitch} {bodies' : List EventBody}
    (h : Latches first bodies second) (h' : Latches second bodies' third) :
    Latches first (bodies ++ bodies') third where
  journalled replica hreplica events hevents := by
    obtain ⟨earlier, later, rfl, hearlier, hlater⟩ := List.map_eq_append_iff.mp hevents
    rw [restore, List.foldl_append]
    exact h'.journalled _ (h.journalled replica hreplica earlier hearlier) later hlater
  named hnamed := h'.named (h.named hnamed)
  kept id record hfound := h'.kept id record (h.kept id record hfound)

theorem restore_of_state {events : List Event}
    (h : ∀ event ∈ events, ∃ change, event.body = .riskStateUpdated change) :
    switch.restore events = switch := by
  induction events with
  | nil => rfl
  | cons event events ih =>
    obtain ⟨⟨change, hbody⟩, hrest⟩ := List.forall_mem_cons.mp h
    have hevent : switch.restoreEvent event = switch := by
      rw [restoreEvent, hbody]
    rw [restore, List.foldl_cons, hevent]
    exact ih hrest

theorem Latches.of_state (h : ∀ body ∈ bodies, ∃ change, body = .riskStateUpdated change) :
    Latches switch bodies switch where
  journalled replica hreplica events hevents := by
    rw [replica.restore_of_state fun event hevent ↦ h event.body ?_]
    · exact hreplica
    · rw [← hevents]
      exact List.mem_map_of_mem hevent
  named hnamed := hnamed
  kept _ _ hfound := hfound

/-- What a trigger can do: nothing, or latch a switch that was released. -/
theorem trigger_cases (scope reason : String) (key : Option String) (now : String) :
    ((switch.trigger scope reason key now).1 = switch ∧
      (switch.trigger scope reason key now).2.1 = []) ∨
    scope ∈ scopes ∧ switch.triggered.get? (switchId scope key) = none ∧
      (switch.trigger scope reason key now).1 =
        ⟨switch.triggered.insert (switchId scope key) ⟨scope, key, reason, now⟩⟩ ∧
      (switch.trigger scope reason key now).2.1 =
        [.killSwitchTriggered ⟨scope, key, reason, now⟩] := by
  unfold trigger
  split
  · exact .inl ⟨rfl, rfl⟩
  · rename_i hscope
    cases hfound : switch.triggered.get? (switchId scope key) with
    | some existing => exact .inl ⟨rfl, rfl⟩
    | none => exact .inr ⟨not_not.mp hscope, rfl, rfl, rfl⟩

/-- What a clearance can do: nothing, or release a switch that a human confirms. -/
theorem clear_cases (scope : String) (key : Option String) (humanConfirmation : Bool)
    (author reason : Option String) (now : String) :
    ((switch.clear scope key humanConfirmation author reason now).1 = switch ∧
      (switch.clear scope key humanConfirmation author reason now).2.1 = []) ∨
    ∃ record, humanConfirmation = true ∧
      switch.triggered.get? (switchId scope key) = some record ∧
      (switch.clear scope key humanConfirmation author reason now).1 =
        switch.without (switchId scope key) ∧
      (switch.clear scope key humanConfirmation author reason now).2.1 =
        [.killSwitchCleared ⟨scope, key, true, author, reason, now⟩] := by
  unfold clear
  cases humanConfirmation with
  | false => exact .inl ⟨rfl, rfl⟩
  | true =>
    cases hfound : switch.triggered.get? (switchId scope key) with
    | none => exact .inl ⟨rfl, rfl⟩
    | some record => exact .inr ⟨record, rfl, rfl, rfl, rfl⟩

theorem latches_trigger (scope reason : String) (key : Option String) (now : String) :
    Latches switch (switch.trigger scope reason key now).2.1
      (switch.trigger scope reason key now).1 := by
  rcases switch.trigger_cases scope reason key now with
    ⟨hsame, hnothing⟩ | ⟨hscope, hfree, hlatched, hbody⟩
  · rw [hsame, hnothing]
    exact .refl switch
  · rw [hlatched, hbody]
    refine ⟨fun replica hreplica events hevents ↦ ?_,
      fun hnamed ↦ SwitchDesk.named_latched hnamed hscope key reason now, fun id record hfound ↦ ?_⟩
    · obtain ⟨event, rfl, hevent⟩ := List.map_eq_singleton_iff.mp hevents
      exact SwitchDesk.sameLatches_latched hreplica hscope hfree hevent
    · have hne : id ≠ switchId scope key := by
        intro hid
        rw [hid, hfree] at hfound
        cases hfound
      rw [Dict.get?_insert_of_ne _ hne]
      exact hfound

theorem SameLatches.named {left right : KillSwitch} (h : left.SameLatches right)
    (hnamed : right.Named) : left.Named := by
  intro id record hfound
  have hname := h id
  rw [hfound, Option.map_some] at hname
  obtain ⟨other, hother, hsame⟩ := Option.map_eq_some_iff.mp hname.symm
  obtain ⟨hscope, hid⟩ := hnamed id other hother
  obtain ⟨hscopes, hkeys⟩ := Prod.mk.inj hsame
  rw [hscopes] at hscope hid
  rw [hkeys] at hid
  exact ⟨hscope, hid⟩

end KillSwitch

namespace RiskEngine

open KillSwitch (Latches)

/-! ## What the engine does to its switch -/

/-- The switch is left alone, and only changes of the risk state are journalled. -/
structure LeavesSwitch (engine : RiskEngine) (outcome : RiskEngine × List EventBody) : Prop where
  killSwitch : outcome.1.killSwitch = engine.killSwitch
  bodies : ∀ body ∈ outcome.2, ∃ change, body = .riskStateUpdated change

variable {engine after : RiskEngine}

theorem LeavesSwitch.latches {outcome : RiskEngine × List EventBody}
    (h : LeavesSwitch engine outcome) :
    Latches engine.killSwitch outcome.2 outcome.1.killSwitch := by
  rw [h.killSwitch]
  exact .of_state engine.killSwitch h.bodies

theorem leavesSwitch_nothing (h : after.killSwitch = engine.killSwitch) :
    LeavesSwitch engine (after, []) :=
  ⟨h, List.forall_mem_nil _⟩

theorem leavesSwitch_one (h : after.killSwitch = engine.killSwitch) (change : RiskStateChange) :
    LeavesSwitch engine (after, [.riskStateUpdated change]) :=
  ⟨h, fun _ hbody ↦ ⟨change, List.mem_singleton.mp hbody⟩⟩

section

variable (engine : RiskEngine)

theorem leavesSwitch_recordSessionStart (session : String) (equity : ℚ) :
    LeavesSwitch engine (engine.recordSessionStart session equity) := by
  unfold recordSessionStart
  split
  · exact leavesSwitch_nothing rfl
  · refine leavesSwitch_one ?_ _
    rfl

theorem leavesSwitch_beginSession (session : String) (openingEquity : Option ℚ) :
    LeavesSwitch engine (engine.beginSession session openingEquity) := by
  unfold beginSession
  simp only
  split
  · exact leavesSwitch_nothing rfl
  · split
    · rename_i equity _
      have hrecord := leavesSwitch_recordSessionStart
        { engine with
          sessionDate := some (datePart session)
          sessionTurnover := (engine.turnoverBySession.get? (datePart session)).getD 0
          sessionStartEquity := engine.openingOf (datePart session) openingEquity }
        (datePart session) equity
      exact ⟨hrecord.killSwitch, hrecord.bodies⟩
    · exact leavesSwitch_nothing rfl

theorem killSwitch_observePeak (equity : ℚ) :
    (engine.observePeak equity).killSwitch = engine.killSwitch := by
  unfold observePeak
  split <;> rfl

theorem latches_startWith (equity : ℚ) :
    Latches engine.killSwitch (engine.startWith equity).2 (engine.startWith equity).1.killSwitch := by
  unfold startWith
  split
  · exact .refl engine.killSwitch
  · rename_i session _ _
    exact (leavesSwitch_recordSessionStart { engine with sessionStartEquity := some equity } session
      equity).latches
  · exact .refl engine.killSwitch

theorem latches_raisePeak (equity : ℚ) :
    Latches engine.killSwitch (engine.raisePeak equity).2 (engine.raisePeak equity).1.killSwitch := by
  unfold raisePeak
  split
  · exact (leavesSwitch_one (killSwitch_observePeak engine equity) _).latches
  · exact .refl engine.killSwitch

theorem latches_haltSession (dailyLoss : ℚ) (limit : Option ℚ) :
    Latches engine.killSwitch (engine.haltSession dailyLoss limit).2
      (engine.haltSession dailyLoss limit).1.killSwitch := by
  unfold haltSession
  split
  · exact .refl engine.killSwitch
  · refine LeavesSwitch.latches (leavesSwitch_one ?_ _)
    rfl

theorem latches_approve (order : Order) (notional : ℚ) :
    Latches engine.killSwitch (engine.approve order notional).2
      (engine.approve order notional).1.killSwitch := by
  unfold approve
  simp only
  split
  · refine LeavesSwitch.latches (leavesSwitch_one ?_ _)
    rfl
  · exact .refl engine.killSwitch

theorem latches_checkOrder (order : Order) (portfolio : Portfolio) (context : OrderContext)
    (decidedAt : String) :
    Latches engine.killSwitch (engine.checkOrder order portfolio context decidedAt).2.1
      (engine.checkOrder order portfolio context decidedAt).1.killSwitch := by
  unfold checkOrder
  simp only
  split
  · exact engine.latches_approve order _
  · exact .refl engine.killSwitch

end

section Respond

variable [QuoteTexts]

theorem latches_respond (engine : RiskEngine) (equity : ℚ) (now : String) :
    Latches engine.killSwitch (engine.respond equity now).2
      (engine.respond equity now).1.killSwitch := by
  have hlatch : ∀ halted : RiskEngine, Latches halted.killSwitch
      (halted.latchDrawdown (engine.drawdownOf equity) now).2
      (halted.latchDrawdown (engine.drawdownOf equity) now).1.killSwitch :=
    fun halted ↦ halted.killSwitch.latches_trigger _ _ _ now
  unfold respond
  simp only
  by_cases hloss : (engine.lossCheck equity).passed = true
  · rw [if_pos hloss]
    split
    · exact .refl engine.killSwitch
    · exact hlatch engine
  · rw [if_neg hloss]
    have hhalt := engine.latches_haltSession (engine.dailyLossOf equity) engine.dailyLossLimit
    split
    · exact hhalt.append (.refl _)
    · exact hhalt.append (hlatch _)

theorem latches_checkPortfolio (engine : RiskEngine) (portfolio : Portfolio)
    (prices : Dict String ℚ) (industryMap : Option (Dict String String)) (now : String) :
    Latches engine.killSwitch (engine.checkPortfolio portfolio prices industryMap now).2.1
      (engine.checkPortfolio portfolio prices industryMap now).1.killSwitch := by
  unfold checkPortfolio
  split
  · exact .refl engine.killSwitch
  · rename_i value _
    let equity := max value (1 / 1000000000)
    have hobserved := (engine.latches_startWith equity).append
      ((engine.startWith equity).1.latches_raisePeak equity)
    exact hobserved.append ((engine.observeEquity equity).1.latches_respond equity now)

end Respond

/-! ## A new engine -/

section

variable (engine : RiskEngine)

theorem killSwitch_restoreState (change : RiskStateChange) :
    (engine.restoreState change).killSwitch = engine.killSwitch := by
  unfold restoreState
  simp only
  repeat' split
  all_goals first
    | rfl
    | exact killSwitch_observePeak _ _

theorem killSwitch_restoreEvent (event : Event) :
    (engine.restoreEvent event).killSwitch = engine.killSwitch.restoreEvent event := by
  unfold restoreEvent
  simp only
  split
  · exact killSwitch_restoreState _ _
  · exact killSwitch_observePeak _ _
  · rfl

/-- A new engine latches what the journal says. -/
theorem killSwitch_bindStateLedger (events : List Event) :
    (engine.bindStateLedger events).killSwitch = engine.killSwitch.restore events := by
  induction events generalizing engine with
  | nil => rfl
  | cons event events ih =>
    rw [bindStateLedger, List.foldl_cons, ← bindStateLedger, ih, killSwitch_restoreEvent]
    rfl

theorem killSwitch_observeInceptionEquity (equity : ℚ) :
    (engine.observeInceptionEquity equity).killSwitch = engine.killSwitch := by
  unfold observeInceptionEquity
  split
  · exact killSwitch_observePeak engine equity
  · rfl

end

end RiskEngine

namespace RiskVenue

open KillSwitch (Latches)

section Calls

variable [EventDigest]

/-! ## The journal of a venue -/

theorem events_emit (venue : RiskVenue) (timing : Timing) (marketTime : Option String)
    (bodies : List EventBody) :
    ∃ events, (venue.emit timing marketTime bodies).ledger.events = venue.ledger.events ++ events ∧
      (events.map fun event ↦ event.body) = bodies ∧
      ∀ event ∈ events, event.marketTime = marketTime := by
  have hfold : ∀ ledger : EventLedger, ∃ events,
      (bodies.foldl (fun ledger body ↦ ledger.append (timing.stamps ledger.sequence) venue.runId
        venue.broker.portfolio.portfolioId body marketTime) ledger).events =
          ledger.events ++ events ∧
      (events.map fun event ↦ event.body) = bodies ∧
      ∀ event ∈ events, event.marketTime = marketTime := by
    induction bodies with
    | nil => exact fun ledger ↦ ⟨[], (List.append_nil _).symm, rfl, by simp⟩
    | cons body bodies ih =>
      intro ledger
      let next := ledger.nextEvent (timing.stamps ledger.sequence) venue.runId
        venue.broker.portfolio.portfolioId body marketTime
      obtain ⟨events, hevents, hbodies, hmarket⟩ := ih (ledger.append
        (timing.stamps ledger.sequence) venue.runId venue.broker.portfolio.portfolioId body
        marketTime)
      refine ⟨next :: events, ?_, ?_, List.forall_mem_cons.mpr ⟨rfl, hmarket⟩⟩
      · rw [List.foldl_cons, hevents]
        simp only [EventLedger.append, List.append_assoc]
        rfl
      · rw [List.map_cons, hbodies]
        rfl
  exact hfold venue.ledger

omit [EventDigest] in
/-- Every latch stands under its own identifier, and the journal latches what is latched. -/
structure Kept (venue : RiskVenue) : Prop where
  named : venue.engine.killSwitch.Named
  journalled : (KillSwitch.released.restore venue.ledger.events).SameLatches venue.engine.killSwitch

omit [EventDigest] in
/-- A call of the venue that releases no switch and leaves the broker alone. -/
structure Advances (before after : RiskVenue) : Prop where
  kept : before.Kept → after.Kept
  latched : ∀ id record, before.engine.killSwitch.triggered.get? id = some record →
    after.engine.killSwitch.triggered.get? id = some record
  broker : after.broker = before.broker

omit [EventDigest] in
theorem Advances.trans {first second third : RiskVenue} (h : Advances first second)
    (h' : Advances second third) : Advances first third where
  kept hkept := h'.kept (h.kept hkept)
  latched id record hfound := h'.latched id record (h.latched id record hfound)
  broker := h'.broker.trans h.broker

omit [EventDigest] in
/-- A call that touches neither the switch nor the journal. -/
theorem Advances.of_same {before after : RiskVenue} (hengine : after.engine = before.engine)
    (hledger : after.ledger = before.ledger) (hbroker : after.broker = before.broker) :
    Advances before after where
  kept h := ⟨by rw [hengine]; exact h.named, by rw [hengine, hledger]; exact h.journalled⟩
  latched _ _ hfound := by rw [hengine]; exact hfound
  broker := hbroker

omit [EventDigest] in
theorem Advances.refl (venue : RiskVenue) : Advances venue venue := .of_same rfl rfl rfl

/-- What the engine makes of a call keeps the venue. -/
theorem advances_advance (venue : RiskVenue) (timing : Timing)
    {outcome : RiskEngine × List EventBody}
    (h : Latches venue.engine.killSwitch outcome.2 outcome.1.killSwitch) :
    Advances venue (venue.advance timing outcome) where
  kept hkept := by
    obtain ⟨events, hevents, hbodies, -⟩ :=
      { venue with engine := outcome.1 }.events_emit timing none outcome.2
    refine ⟨h.named hkept.named, ?_⟩
    rw [advance, hevents, KillSwitch.restore, List.foldl_append]
    exact h.journalled _ hkept.journalled events hbodies
  latched := h.kept
  broker := rfl

/-- What is emitted about anything but a switch keeps the venue. -/
theorem kept_emit {venue : RiskVenue} (h : venue.Kept) (timing : Timing)
    (marketTime : Option String) {bodies : List EventBody}
    (hquiet : ∀ (switch : KillSwitch) (event : Event), event.body ∈ bodies →
      switch.restoreEvent event = switch) :
    (venue.emit timing marketTime bodies).Kept := by
  obtain ⟨events, hevents, hbodies, -⟩ := venue.events_emit timing marketTime bodies
  have hsame : ∀ (events : List Event) (switch : KillSwitch),
      (∀ event ∈ events, event.body ∈ bodies) → switch.restore events = switch := by
    intro events
    induction events with
    | nil => exact fun _ _ ↦ rfl
    | cons event events ih =>
      intro switch hmem
      obtain ⟨hevent, hrest⟩ := List.forall_mem_cons.mp hmem
      rw [KillSwitch.restore, List.foldl_cons, hquiet switch event hevent]
      exact ih switch hrest
  refine ⟨h.named, ?_⟩
  rw [hevents, KillSwitch.restore, List.foldl_append]
  have hkept := hsame events (venue.ledger.events.foldl KillSwitch.restoreEvent .released) ?_
  · rw [KillSwitch.restore] at hkept
    rw [hkept]
    exact h.journalled
  · intro event hevent
    rw [← hbodies]
    exact List.mem_map_of_mem hevent

/-! ## Calls of the venue -/

omit [EventDigest] in
theorem advances_recordMark (venue : RiskVenue) (symbol : String) (price : ℚ) (stamp : ℤ) :
    Advances venue (venue.recordMark symbol price stamp) := by
  unfold recordMark
  simp only
  split
  · split <;> exact .of_same rfl rfl rfl
  · split <;> exact .of_same rfl rfl rfl

variable [QuoteTexts]

theorem advances_checkPortfolio (venue : RiskVenue) (timing : Timing) :
    Advances venue (venue.checkPortfolio timing) :=
  venue.advances_advance timing (venue.engine.latches_checkPortfolio _ _ _ _)

theorem advances_enterSession (venue : RiskVenue) (timing : Timing) (session : String)
    (openingEquity : Option ℚ) :
    Advances venue (venue.enterSession timing session openingEquity) := by
  unfold enterSession
  split
  · exact .refl venue
  · let entered : RiskVenue := { venue with session := some session, openingEquity }
    have hentered : Advances venue entered := .of_same rfl rfl rfl
    have hbegun := entered.advances_advance timing
      (venue.engine.leavesSwitch_beginSession session openingEquity).latches
    exact (hentered.trans hbegun).trans (advances_checkPortfolio _ timing)

variable [Platform]

theorem advances_observe (venue : RiskVenue) (timing : Timing) (market : Market) :
    Advances venue (venue.observe timing market) := by
  unfold observe
  split
  · exact (venue.advances_recordMark _ _ _).trans (advances_enterSession _ timing _ _)
  · exact .refl venue

omit [Platform] in
theorem advances_observeMarks (venue : RiskVenue) (timing : Timing) (prices : Dict String ℚ)
    (tradeDate clock : String) :
    Advances venue (venue.observeMarks timing prices tradeDate clock) := by
  unfold observeMarks
  simp only
  split
  · exact .refl venue
  · rename_i stamp _
    have hmarks : ∀ (entries : List (String × ℚ)) (marked : RiskVenue),
        Advances marked (entries.foldl (fun venue entry ↦
          if 0 < entry.2 then venue.recordMark entry.1 entry.2 stamp else venue) marked) := by
      intro entries
      induction entries with
      | nil => exact .refl
      | cons entry entries ih =>
        intro marked
        rw [List.foldl_cons]
        split
        · exact (marked.advances_recordMark _ _ _).trans (ih _)
        · exact ih marked
    exact (hmarks prices.entries venue).trans (advances_enterSession _ timing _ _)

variable [Hashing ℚ]

section

variable (venue : RiskVenue) (timing : Timing) (given : Answers) (order : Order) (market : Market)

theorem advances_decided : Advances venue (venue.decided timing given order market) := by
  unfold decided
  split
  · rename_i decision hdecision
    obtain ⟨asked, -, rfl⟩ := Option.map_eq_some_iff.mp hdecision
    exact venue.advances_advance timing (venue.engine.latches_checkOrder _ _ _ _)
  · exact .refl venue

/-- A submission goes to the broker with the answer of the engine, and the rest concerns the engine
alone. -/
theorem submitObserved_cases :
    ∃ checked : RiskVenue, Advances venue checked ∧
      Advances { checked with broker := (venue.broker.submit { venue.answersFor given order with
        riskRefusal := venue.refusal timing given order market } order market).1 }
        (venue.submitObserved timing given order market).1 := by
  refine ⟨venue.decided timing given order market, venue.advances_decided timing given order market, ?_⟩
  unfold submitObserved
  simp only
  split
  · exact advances_checkPortfolio _ timing
  · exact .refl _

end

end Calls

/-! ## What a switch is for -/

def Active (venue : RiskVenue) (scope : String) : Prop :=
  ∃ record ∈ venue.engine.killSwitch.active, record.scope = scope

variable {scope : String}

variable {venue : RiskVenue}

theorem active_iff : venue.Active scope ↔
    ∃ id record, venue.engine.killSwitch.triggered.get? id = some record ∧ record.scope = scope := by
  unfold Active KillSwitch.active
  constructor
  · intro h
    obtain ⟨record, hmem, hscope⟩ := h
    obtain ⟨id, hid⟩ := Dict.mem_values_iff.mp hmem
    exact ⟨id, record, hid, hscope⟩
  · intro h
    obtain ⟨id, record, hid, hscope⟩ := h
    exact ⟨record, Dict.mem_values_iff.mpr ⟨id, hid⟩, hscope⟩

theorem Advances.active {before after : RiskVenue} (h : Advances before after)
    (hactive : before.Active scope) : after.Active scope := by
  obtain ⟨id, record, hid, hscope⟩ := active_iff.mp hactive
  exact active_iff.mpr ⟨id, record, h.latched id record hid, hscope⟩

theorem exists_blocked (h : venue.Active scope) (given : Answers) {order : Order}
    (hrefuses : ∀ record : SwitchRecord, record.scope = scope → KillSwitch.refuses record
      order.side order.strategyId = true) :
    ∃ reason, (venue.answersFor given order).blocked = some reason := by
  obtain ⟨record, hmem, hscope⟩ := h
  have hblocking : record ∈ venue.engine.killSwitch.blocking order.side order.strategyId :=
    List.mem_filter.mpr ⟨hmem, hrefuses record hscope⟩
  cases hfound : venue.engine.killSwitch.blocking order.side order.strategyId with
  | nil =>
    rw [hfound] at hblocking
    cases hblocking
  | cons first rest =>
    refine ⟨first.reason, ?_⟩
    simp only [answersFor, hfound, List.map_cons, List.head?_cons]

variable {record : SwitchRecord}

theorem refuses_global (h : record.scope = scopeGlobal) (side : Side) (strategyId : Option String) :
    KillSwitch.refuses record side strategyId = true := by
  unfold KillSwitch.refuses
  rw [if_pos h]

theorem refuses_purchase (h : record.scope = scopePortfolio) (strategyId : Option String) :
    KillSwitch.refuses record .buy strategyId = true := by
  have hother : ¬ record.scope = scopeGlobal := by
    rw [h]
    decide
  unfold KillSwitch.refuses
  rw [if_neg hother, if_pos ⟨h, rfl⟩]

end RiskVenue

def VenueStep.order : VenueStep → Option Order
  | .submit _ order _ => some order
  | _ => none

namespace RiskVenue

variable [EventDigest] [QuoteTexts] [Platform] [Hashing ℚ]

/-- A switch of a scope is latched before a step, or when its order is validated. -/
def InForce (venue : RiskVenue) (input : Timing × VenueStep) (scope : String) : Prop :=
  venue.Active scope ∨ ∃ given order market, input.2 = .submit given order market ∧
    (venue.observe input.1 market).Active scope

/-- What a step owes to the latched switches, where a clearance is known to be their own by scope
and key. -/
structure StepHolds (own : SwitchRecord → String → Option String → Prop) (venue : RiskVenue)
    (input : Timing × VenueStep) : Prop where
  /-- Nothing is accepted or filled while a global switch is latched. -/
  halted : venue.InForce input scopeGlobal →
    Broker.NothingAdmitted (fun _ ↦ true) input.2.order venue.broker (venue.step input).broker
  /-- No purchase is accepted or filled while a portfolio switch is latched. -/
  reduceOnly : venue.InForce input scopePortfolio →
    Broker.NothingAdmitted (fun side ↦ side = .buy) input.2.order venue.broker
      (venue.step input).broker
  /-- A latched switch stays, unless it is cleared with the confirmation of a human. -/
  latched : ∀ id record, venue.engine.killSwitch.triggered.get? id = some record →
    ((venue.step input).engine.killSwitch.triggered.get? id).map SwitchRecord.name =
        some record.name ∨
      ∃ scope key author reason, input.2 = .clear scope key true author reason ∧ own record scope key

def LatchesHold (own : SwitchRecord → String → Option String → Prop) (process : NewProcess)
    (canonical : CanonicalLedger ℚ) (inputs : List (Timing × VenueStep)) : Prop :=
  Always step (StepHolds own) (start process canonical .fresh) inputs

omit [EventDigest] [QuoteTexts] [Platform] [Hashing ℚ] in
/-- A clearance is a switch's own when it names its scope and its key. -/
def ownName (record : SwitchRecord) (scope : String) (key : Option String) : Prop :=
  record.scope = scope ∧ record.key = key

omit [EventDigest] [QuoteTexts] [Platform] [Hashing ℚ] in
/-- A clearance is a switch's own when it names its identifier. -/
def ownIdentifier (record : SwitchRecord) (scope : String) (key : Option String) : Prop :=
  switchId record.scope record.key = switchId scope key

/-! ## Steps -/

variable {own : SwitchRecord → String → Option String → Prop} {venue : RiskVenue}

variable {input : Timing × VenueStep}

theorem stepHolds_of_quiet (horder : input.2.order = none)
    (hadmits : ∀ concerned, Broker.NothingAdmitted concerned none venue.broker (venue.step
      input).broker)
    (hlatched : ∀ id record, venue.engine.killSwitch.triggered.get? id = some record → ((venue.step
      input).engine.killSwitch.triggered.get? id).map SwitchRecord.name = some record.name ∨ ∃
      scope key author reason, input.2 = .clear scope key true author reason ∧ own record scope
      key) : StepHolds own venue input where
  halted _ := by rw [horder]; exact hadmits _
  reduceOnly _ := by rw [horder]; exact hadmits _
  latched := hlatched

/-- A step that leaves the broker alone and releases no switch. -/
theorem stepHolds_of_advances (horder : input.2.order = none)
    (h : Advances venue (venue.step input)) : StepHolds own venue input := by
  refine stepHolds_of_quiet horder (fun concerned ↦ ?_) fun id record hfound ↦ .inl ?_
  · rw [h.broker]
    exact (Broker.Quiet.refl venue.broker).nothingAdmitted concerned
  · rw [h.latched id record hfound]
    rfl

theorem stepHolds_submit (own : SwitchRecord → String → Option String → Prop) (venue : RiskVenue)
    (timing : Timing) (given : Answers) (order : Order) (market : Market) :
    StepHolds own venue (timing, .submit given order market) ∧
      (venue.Kept → (venue.step (timing, .submit given order market)).Kept) := by
  let observed := venue.observe timing market
  have hobserved := venue.advances_observe timing market
  obtain ⟨checked, hchecked, hafter⟩ := observed.submitObserved_cases timing given order market
  let answers := { observed.answersFor given order with
    riskRefusal := observed.refusal timing given order market }
  have hbroker : (venue.step (timing, .submit given order market)).broker =
      (venue.broker.submit answers order market).1 := by
    rw [← hobserved.broker]
    exact hafter.broker
  have hforce : ∀ scope, venue.InForce (timing, .submit given order market) scope →
      observed.Active scope := by
    intro scope hscope
    rcases hscope with hbefore | ⟨given', order', market', hinput, hactive⟩
    · exact hobserved.active hbefore
    · cases hinput
      exact hactive
  refine ⟨⟨fun hglobal ↦ ?_, fun hportfolio ↦ ?_, fun id record hfound ↦ .inl ?_⟩, fun hkept ↦ ?_⟩
  · obtain ⟨reason, hreason⟩ := exists_blocked (hforce _ hglobal) given
      (fun record hscope ↦ refuses_global hscope order.side order.strategyId)
    have hblocked : answers.blocked = some reason := hreason
    rw [hbroker]
    exact venue.broker.nothingAdmitted_blocked hblocked order market _
  · rw [hbroker]
    cases hside : order.side with
    | buy =>
      obtain ⟨reason, hreason⟩ := exists_blocked (hforce _ hportfolio) given
        (fun record hscope ↦ by rw [hside]; exact refuses_purchase hscope order.strategyId)
      have hblocked : answers.blocked = some reason := hreason
      exact venue.broker.nothingAdmitted_blocked hblocked order market _
    | sell =>
      have hsale : (fun side : Side ↦ decide (side = .buy)) order.side = false := by
        rw [hside]
        rfl
      exact venue.broker.nothingAdmitted_of_side answers market hsale
  · have hlater := hchecked.latched id record (hobserved.latched id record hfound)
    have hlast : (venue.step (timing, .submit given order market)).engine.killSwitch.triggered.get? id =
        some record := hafter.latched id record hlater
    rw [hlast]
    rfl
  · obtain ⟨hnamed, hjournalled⟩ := hchecked.kept (hobserved.kept hkept)
    exact hafter.kept ⟨hnamed, hjournalled⟩

/-- A clearance releases the switch of its identifier alone, and only when a human confirms it. -/
theorem stepHolds_clear (h : venue.Kept) (timing : Timing) (scope : String) (key : Option String)
    (humanConfirmation : Bool) (author reason : Option String) :
    StepHolds ownIdentifier venue (timing, .clear scope key humanConfirmation author reason) ∧
      (venue.step (timing, .clear scope key humanConfirmation author reason)).Kept := by
  rcases venue.engine.killSwitch.clear_cases scope key humanConfirmation author reason timing.now with
    ⟨hsame, hnothing⟩ | ⟨found, hconfirmed, hfound, hreleased, hbody⟩
  · have hstep : venue.step (timing, .clear scope key humanConfirmation author reason) = venue := by
      change venue.clear timing scope key humanConfirmation author reason = venue
      rw [clear, hsame, hnothing]
      rfl
    have hadvances : Advances venue
        (venue.step (timing, .clear scope key humanConfirmation author reason)) := by
      rw [hstep]
      exact .refl venue
    exact ⟨stepHolds_of_advances rfl hadvances, hadvances.kept h⟩
  · let released := { venue.engine with
      killSwitch := venue.engine.killSwitch.without (switchId scope key) }
    let body : EventBody := .killSwitchCleared ⟨scope, key, true, author, reason, timing.now⟩
    have hstep : venue.step (timing, .clear scope key humanConfirmation author reason) =
        venue.advance timing (released, [body]) := by
      change venue.clear timing scope key humanConfirmation author reason = _
      rw [clear, hreleased, hbody]
    rw [hconfirmed] at hstep ⊢
    refine ⟨stepHolds_of_quiet rfl (fun concerned ↦ ?_) fun id record hlatched ↦ ?_, ?_⟩
    · rw [hstep]
      exact (Broker.Quiet.refl venue.broker).nothingAdmitted concerned
    · rw [hstep]
      change ((released.killSwitch.triggered.get? id).map SwitchRecord.name = _) ∨ _
      by_cases hid : id = switchId scope key
      · obtain ⟨-, hown⟩ := h.named id record hlatched
        exact .inr ⟨scope, key, author, reason, rfl, hown.symm.trans hid⟩
      · left
        have hkept : released.killSwitch.triggered.get? id = some record := by
          change (venue.engine.killSwitch.without (switchId scope key)).triggered.get? id = _
          unfold KillSwitch.without
          rw [Dict.get?_erase, if_neg hid]
          exact hlatched
        rw [hkept]
        rfl
    · rw [hstep]
      obtain ⟨events, hevents, hbodies, -⟩ :=
        { venue with engine := released }.events_emit timing none [body]
      obtain ⟨event, rfl, hevent⟩ := List.map_eq_singleton_iff.mp hbodies
      refine ⟨h.named.without _, ?_⟩
      rw [advance, hevents, KillSwitch.restore, List.foldl_append]
      exact SwitchDesk.sameLatches_cleared h.journalled h.named hfound hevent

/-- A new process latches what the journal says, and admits nothing. -/
theorem stepHolds_restart (h : venue.Kept) (timing : Timing) (process : NewProcess) :
    StepHolds own venue (timing, .restart process) ∧
      (venue.step (timing, .restart process)).Kept := by
  have hswitch : (venue.step (timing, .restart process)).engine.killSwitch =
      KillSwitch.released.restore venue.ledger.events := by
    change (RiskEngine.observeInceptionEquity _ _).killSwitch = _
    rw [RiskEngine.killSwitch_observeInceptionEquity, RiskEngine.killSwitch_bindStateLedger]
    rfl
  refine ⟨stepHolds_of_quiet rfl (fun concerned ↦ ?_) fun id record hlatched ↦ .inl ?_, ?_, ?_⟩
  · refine ⟨fun id held hheld _ _ ↦ ?_, fun fill hfill _ ↦ absurd hfill List.not_mem_nil, fun _ ↦ rfl⟩
    cases hheld
  · rw [hswitch, h.journalled id, hlatched]
    rfl
  · rw [hswitch]
    exact h.journalled.named h.named
  · rw [hswitch]
    exact fun _ ↦ rfl

/-- Every step of a venue that journals its switches owes them nothing, and keeps the journal. -/
theorem stepHolds_step (h : venue.Kept) (input : Timing × VenueStep) :
    StepHolds ownIdentifier venue input ∧ (venue.step input).Kept := by
  obtain ⟨timing, call⟩ := input
  cases call with
  | submit given order market =>
    obtain ⟨hholds, hkept⟩ := stepHolds_submit ownIdentifier venue timing given order market
    exact ⟨hholds, hkept h⟩
  | cancel given orderId tradeDate =>
    refine ⟨stepHolds_of_quiet rfl (venue.broker.nothingAdmitted_cancel given orderId tradeDate)
      fun id record hlatched ↦ .inl ?_, ⟨h.named, h.journalled⟩⟩
    exact congrArg (Option.map SwitchRecord.name) hlatched
  | observe market =>
    have hobserved := venue.advances_observe timing market
    exact ⟨stepHolds_of_advances rfl hobserved, hobserved.kept h⟩
  | observeMarks prices tradeDate clock =>
    have hobserved := venue.advances_observeMarks timing prices tradeDate clock
    exact ⟨stepHolds_of_advances rfl hobserved, hobserved.kept h⟩
  | markToMarket prices marketTime =>
    refine ⟨stepHolds_of_quiet rfl
      (fun concerned ↦ (Broker.Quiet.refl venue.broker).nothingAdmitted concerned)
      fun id record hlatched ↦ .inl (congrArg (Option.map SwitchRecord.name) hlatched), ?_⟩
    refine kept_emit h timing marketTime fun switch event hbody ↦ ?_
    rw [KillSwitch.restoreEvent, List.mem_singleton.mp hbody]
  | closeSession tradeDate =>
    refine ⟨stepHolds_of_quiet rfl venue.broker.nothingAdmitted_closeSession
      fun id record hlatched ↦ .inl (congrArg (Option.map SwitchRecord.name) hlatched), ?_⟩
    have hclosed : ({ venue with broker := venue.broker.closeSession } : RiskVenue).Kept :=
      ⟨h.named, h.journalled⟩
    refine kept_emit hclosed timing (some tradeDate) fun switch event hbody ↦ ?_
    rw [KillSwitch.restoreEvent, List.mem_singleton.mp hbody]
  | trigger scope reason key =>
    have htriggered : Advances venue (venue.trigger timing scope reason key) :=
      venue.advances_advance timing (venue.engine.killSwitch.latches_trigger scope reason key _)
    exact ⟨stepHolds_of_advances rfl htriggered, htriggered.kept h⟩
  | clear scope key humanConfirmation author reason =>
    exact stepHolds_clear h timing scope key humanConfirmation author reason
  | restart process => exact stepHolds_restart h timing process

omit [EventDigest] [QuoteTexts] [Platform] [Hashing ℚ] in
theorem kept_start (process : NewProcess) (canonical : CanonicalLedger ℚ) :
    (start process canonical .fresh).Kept := by
  have hswitch : (start process canonical .fresh).engine.killSwitch = .released := by
    change (RiskEngine.observeInceptionEquity _ _).killSwitch = _
    rw [RiskEngine.killSwitch_observeInceptionEquity, RiskEngine.killSwitch_bindStateLedger]
    rfl
  refine ⟨?_, ?_⟩
  · rw [hswitch]
    exact KillSwitch.named_released
  · rw [hswitch]
    exact fun _ ↦ rfl

/-- In every run of a venue, restarts included, latched switches hold until a confirmed clearance
names their identifier. -/
theorem latchesHold_identifier (process : NewProcess) (canonical : CanonicalLedger ℚ)
    (inputs : List (Timing × VenueStep)) :
    LatchesHold ownIdentifier process canonical inputs := by
  have hrun : ∀ (inputs : List (Timing × VenueStep)) (venue : RiskVenue), venue.Kept →
      Always step (StepHolds ownIdentifier) venue inputs := by
    intro inputs
    induction inputs with
    | nil => exact fun _ _ ↦ trivial
    | cons input inputs ih =>
      intro venue h
      obtain ⟨hholds, hkept⟩ := stepHolds_step h input
      exact ⟨hholds, ih _ hkept⟩
  exact hrun inputs _ (kept_start process canonical)

/-! ## A switch without a key -/

/-- The desk of every strategy is halted, and the clearance names a strategy with a star. -/
def starredClearance (timing : Timing) : List (Timing × VenueStep) := [
  (timing, .trigger scopeStrategy "data outage" none),
  (timing, .clear scopeStrategy (some "*") true none none)]

/-- The clearance releases a switch of another key. -/
theorem not_latchesHold_of_star (process : NewProcess) (canonical : CanonicalLedger ℚ)
    (timing : Timing) : ¬ LatchesHold ownName process canonical (starredClearance timing) := by
  intro h
  let latched := (start process canonical .fresh).step
    (timing, .trigger scopeStrategy "data outage" none)
  let record : SwitchRecord := ⟨scopeStrategy, none, "data outage", timing.now⟩
  have hswitch : (start process canonical .fresh).engine.killSwitch = .released := by
    change (RiskEngine.observeInceptionEquity _ _).killSwitch = _
    rw [RiskEngine.killSwitch_observeInceptionEquity, RiskEngine.killSwitch_bindStateLedger]
    rfl
  have hlatched : latched.engine.killSwitch =
      ⟨Dict.empty.insert (switchId scopeStrategy none) record⟩ := by
    change ((start process canonical .fresh).engine.killSwitch.trigger scopeStrategy "data outage"
      none timing.now).1 = _
    rw [hswitch]
    rfl
  have hfound : latched.engine.killSwitch.triggered.get? (switchId scopeStrategy none) =
      some record := by
    rw [hlatched]
    exact Dict.get?_insert_self _ _ _
  have hstep := h.2.1
  rcases hstep.latched _ record hfound with hkept | ⟨scope, key, author, reason, hinput, -, hkey⟩
  · have hreleased : (latched.step (timing, .clear scopeStrategy (some "*") true none
        none)).engine.killSwitch.triggered.get? (switchId scopeStrategy none) = none := by
      change (latched.engine.killSwitch.clear scopeStrategy (some "*") true none none
        timing.now).1.triggered.get? _ = none
      rw [hlatched]
      rfl
    rw [hreleased] at hkept
    cases hkept
  · cases hinput
    cases hkey

end RiskVenue

/-! ## A sample process -/

namespace RiskVenue

/-- The number of a day, counted from the first of January of the year one. -/
def dayNumber (year month day : ℕ) : ℕ :=
  let before := year - 1
  365 * before + before / 4 - before / 100 + before / 400 +
    ((List.range month).tail.map (IsoDate.daysIn year)).sum + day

def clockSeconds : List Char → Option ℕ
  | ['T', h₁, h₂, ':', m₁, m₂] => seconds h₁ h₂ m₁ m₂ '0' '0'
  | ['T', h₁, h₂, ':', m₁, m₂, ':', s₁, s₂] => seconds h₁ h₂ m₁ m₂ s₁ s₂
  | _ => none
where
  seconds (h₁ h₂ m₁ m₂ s₁ s₂ : Char) : Option ℕ :=
    let hour := ofDecimal [h₁, h₂]
    let minute := ofDecimal [m₁, m₂]
    let second := ofDecimal [s₁, s₂]
    if [h₁, h₂, m₁, m₂, s₁, s₂].all Char.isDigit && hour < 24 && minute < 60 && second < 60 then
      some (hour * 3600 + minute * 60 + second)
    else none

def readSeconds (text : String) : Option ℤ :=
  let date := text.toList.take 10
  if IsoDate.isExact (String.ofList date) then
    (clockSeconds (text.toList.drop 10)).map fun seconds ↦
      (dayNumber (ofDecimal (date.take 4)) (ofDecimal ((date.drop 5).take 2))
        (ofDecimal (date.drop 8)) * 86400 + seconds : ℕ)
  else none

theorem readSeconds_undated (clock : String) : readSeconds ("T" ++ clock) = none := by
  have hdate : IsoDate.isExact (String.ofList (("T" ++ clock).toList.take 10)) = false := by
    have hchars : ("T" ++ clock).toList.take 10 = 'T' :: clock.toList.take 9 := by
      rw [String.toList_append]
      rfl
    have hletter : 'T'.isDigit = false := by decide
    rw [hchars]
    unfold IsoDate.isExact
    rw [String.toList_ofList]
    split
    · rename_i y₁ y₂ y₃ y₄ _ m₁ m₂ _ d₁ d₂ htext
      obtain ⟨rfl, -⟩ := List.cons.inj htext
      simp [hletter]
    · rfl
  simp only [readSeconds, hdate, Bool.false_eq_true, if_false]

/-- Quote times to whole seconds, and percentages to two decimals. -/
@[reducible]
def wholeSeconds : QuoteTexts where
  readInstant := readSeconds
  showPercent x := Reference.cents (x * 100) ++ "%"
  readInstant_undated := readSeconds_undated

example : readSeconds "2026-01-06T09:30" = (readSeconds "2026-01-05T10:00:30").map (· + 84570) := by
  decide

/-- A process with an account that holds nothing yet. -/
def sampleProcess : NewProcess where
  portfolio := .opening "paper" 1000000
  config := ⟨1 / 10, 1 / 4000, 0, 0, false⟩
  lineage := .empty
  book := .empty
  limits := {}
  industryMap := .empty
  runId := "paper"

def countingTiming : Timing where
  now := "2026-01-05T02:00:00+00:00"
  stamps sequence := ⟨toString sequence, "2026-01-05T02:00:00.000000+00:00"⟩

/-- A confirmed clearance for a strategy named with a star releases the halt of every strategy. -/
theorem not_latchesHold_starredClearance :
    ¬ (letI : EventDigest := SwitchDesk.sequenceDigest
      letI : QuoteTexts := wholeSeconds
      LatchesHold ownName sampleProcess (.fresh false) (starredClearance countingTiming)) := by
  let _ := SwitchDesk.sequenceDigest
  let _ := wholeSeconds
  exact not_latchesHold_of_star sampleProcess (.fresh false) countingTiming

end RiskVenue

end QuantAgent.Paper
