import QuantAgent.Library.Run
import QuantAgent.Paper.KillSwitch

/-!
# Two readers of the kill journal

A venue that starts again rebuilds the set of latched switches.  The recovery of the account keeps
one flag instead: a latch of global scope sets it, and any clearance of global scope resets it.  The
two agree as long as every clearance of a global switch is one of global scope and leaves none.
-/

namespace QuantAgent.Paper

open Library Run
open Domain (orDefault)

/-- What recovery finds in the events, as far as the kill switch goes. -/
structure RecoveredState where
  killed : Bool
  killReason : Option String
  eventsReplayed : ℕ
  sessionsClosed : ℕ
  chainValid : Bool
  deriving DecidableEq, Repr

/-- `RecoveryRefused`. -/
structure RecoveryRefused where
  error : EventChainError
  deriving DecidableEq, Repr

/-- One event of the recovery: only a global latch halts the whole account. -/
def recoverEvent (state : RecoveredState) (event : Event) : RecoveredState :=
  let state := { state with eventsReplayed := state.eventsReplayed + 1 }
  match event.body with
  | .sessionClosed _ _ _ => { state with sessionsClosed := state.sessionsClosed + 1 }
  | .killSwitchTriggered payload =>
    if orDefault (some payload.scope) "GLOBAL" = "GLOBAL" then
      { state with killed := true, killReason := some payload.reason }
    else state
  | .killSwitchCleared payload =>
    if orDefault (some payload.scope) "GLOBAL" = "GLOBAL" then
      { state with killed := false, killReason := none }
    else state
  | _ => state

def RecoveredState.opening (chainValid : Bool) : RecoveredState := ⟨false, none, 0, 0, chainValid⟩

variable [EventDigest]

/-- `recover`. -/
def recover (ledger : EventLedger) (requireValidChain : Bool) :
    Except RecoveryRefused RecoveredState :=
  match ledger.verify with
  | .ok _ => .ok (ledger.events.foldl recoverEvent (.opening true))
  | .error error =>
    if requireValidChain then .error ⟨error⟩
    else .ok (ledger.events.foldl recoverEvent (.opening false))

structure SwitchDesk where
  switch : KillSwitch
  ledger : EventLedger

inductive SwitchCall where
  | trigger (scope reason : String) (key : Option String)
  | clear (scope : String) (key : Option String) (humanConfirmation : Bool)
      (author reason : Option String)
  deriving DecidableEq, Repr

/-- A call with the clock of the switch and the stamp of the event it may append. -/
structure TimedCall where
  call : SwitchCall
  now : String
  stamp : EventStamp
  deriving DecidableEq, Repr

namespace SwitchDesk

variable (runId portfolioId : String)

def journal (ledger : EventLedger) (stamp : EventStamp) (bodies : List EventBody) : EventLedger :=
  bodies.foldl (fun ledger body ↦ ledger.append stamp runId portfolioId body none) ledger

def step (desk : SwitchDesk) (timed : TimedCall) : SwitchDesk :=
  match timed.call with
  | .trigger scope reason key =>
    match desk.switch.trigger scope reason key timed.now with
    | (switch, bodies, _) => ⟨switch, journal runId portfolioId desk.ledger timed.stamp bodies⟩
  | .clear scope key humanConfirmation author reason =>
    match desk.switch.clear scope key humanConfirmation author reason timed.now with
    | (switch, bodies, _) => ⟨switch, journal runId portfolioId desk.ledger timed.stamp bodies⟩

omit [EventDigest] in
def fresh : SwitchDesk := ⟨.released, .fresh⟩

omit [EventDigest] in
/-- The switch of a venue that starts again on the same ledger. -/
def restarted (desk : SwitchDesk) : KillSwitch := KillSwitch.released.restore desk.ledger.events

/-- Recovery reports the account as killed exactly when a venue that starts again is. -/
def ReadersAgree (desk : SwitchDesk) : Prop :=
  ∃ state, recover desk.ledger true = .ok state ∧ (state.killed = true ↔ desk.restarted.killed = true)

omit [EventDigest] in
/-- A confirmed clearance that removes a global switch names the global scope exactly when it
leaves no other global switch. -/
def ClearsWhole (desk : SwitchDesk) (timed : TimedCall) : Prop :=
  ∀ scope key author reason, timed.call = .clear scope key true author reason →
    ∀ record, desk.switch.triggered.get? (switchId scope key) = some record →
      record.scope = scopeGlobal →
        (scope = scopeGlobal ↔ (desk.switch.without (switchId scope key)).killed = false)

def flag (desk : SwitchDesk) : Bool :=
  (desk.ledger.events.foldl recoverEvent (.opening true)).killed

structure Kept (desk : SwitchDesk) : Prop where
  intact : desk.ledger.Intact
  named : desk.switch.Named
  journalled : desk.restarted.SameLatches desk.switch

theorem kept_fresh : fresh.Kept where
  intact := EventLedger.intact_fresh
  named := KillSwitch.named_released
  journalled _ := rfl

/-- What a call can do: nothing, latch a switch that was released, or release one. -/
theorem step_cases (desk : SwitchDesk) (timed : TimedCall) :
    ((∀ scope key author reason, timed.call = .clear scope key true author reason →
        desk.switch.triggered.get? (switchId scope key) = none) ∧
      step runId portfolioId desk timed = desk) ∨
    (∃ scope reason key, scope ∈ scopes ∧
      (∀ scope' key' author reason', timed.call ≠ .clear scope' key' true author reason') ∧
      desk.switch.triggered.get? (switchId scope key) = none ∧
      step runId portfolioId desk timed =
        ⟨⟨desk.switch.triggered.insert (switchId scope key) ⟨scope, key, reason, timed.now⟩⟩,
          desk.ledger.append timed.stamp runId portfolioId
            (.killSwitchTriggered ⟨scope, key, reason, timed.now⟩) none⟩) ∨
    (∃ scope key author reason record, timed.call = .clear scope key true author reason ∧
      desk.switch.triggered.get? (switchId scope key) = some record ∧
      step runId portfolioId desk timed =
        ⟨desk.switch.without (switchId scope key),
          desk.ledger.append timed.stamp runId portfolioId
            (.killSwitchCleared ⟨scope, key, true, author, reason, timed.now⟩) none⟩) := by
  unfold step
  cases hcall : timed.call with
  | trigger scope reason key =>
    simp only [KillSwitch.trigger]
    split
    · exact .inl ⟨(fun _ _ _ _ h ↦ by cases h), rfl⟩
    · rename_i hscope
      cases hfound : desk.switch.triggered.get? (switchId scope key) with
      | some existing => exact .inl ⟨(fun _ _ _ _ h ↦ by cases h), rfl⟩
      | none =>
        exact .inr (.inl ⟨scope, reason, key, not_not.mp hscope, (fun _ _ _ _ h ↦ by cases h), hfound, rfl⟩)
  | clear scope key humanConfirmation author reason =>
    simp only [KillSwitch.clear]
    cases humanConfirmation with
    | false => exact .inl ⟨(fun _ _ _ _ h ↦ by cases h), rfl⟩
    | true =>
      cases hfound : desk.switch.triggered.get? (switchId scope key) with
      | none =>
        refine .inl ⟨?_, by simp [journal]⟩
        rintro _ _ _ _ ⟨⟩
        exact hfound
      | some record =>
        refine .inr (.inr ⟨scope, key, author, reason, record, rfl, hfound, ?_⟩)
        simp [journal]

/-- A venue that starts again latches what one more event says. -/
theorem restarted_append (desk : SwitchDesk) (switch : KillSwitch) (stamp : EventStamp)
    (body : EventBody) :
    (SwitchDesk.mk switch (desk.ledger.append stamp runId portfolioId body none)).restarted =
      desk.restarted.restoreEvent (desk.ledger.nextEvent stamp runId portfolioId body none) :=
  List.foldl_append ..

variable {left right switch : KillSwitch} {scope now id : String} {key : Option String}

omit [EventDigest] in
theorem sameLatches_latched (h : left.SameLatches right) (hscope : scope ∈ scopes)
    (hfree : right.triggered.get? (switchId scope key) = none) {event : Event} {reason : String}
    (hbody : event.body = .killSwitchTriggered ⟨scope, key, reason, now⟩) :
    (left.restoreEvent event).SameLatches
      ⟨right.triggered.insert (switchId scope key) ⟨scope, key, reason, now⟩⟩ := by
  intro id
  have hleft : left.triggered.get? (switchId scope key) = none := by
    have hname := h (switchId scope key)
    rw [hfree, Option.map_none] at hname
    exact Option.map_eq_none_iff.mp hname
  unfold KillSwitch.restoreEvent
  rw [hbody]
  simp only [KillSwitch.orDefault_scope hscope]
  rw [Dict.get?_setDefault, Dict.get?_insert, hleft]
  split
  · rfl
  · exact h id

variable {record : SwitchRecord}

section

omit [EventDigest]

/-- A clearance that releases a switch names a scope. -/
theorem orDefault_of_found (hnamed : switch.Named)
    (hfound : switch.triggered.get? (switchId scope key) = some record) (default : String) :
    orDefault (some scope) default = scope := by
  by_cases hblank : scope = ""
  · subst hblank
    obtain ⟨hknown, hid⟩ := hnamed _ _ hfound
    exact absurd hid.symm (KillSwitch.switchId_ne_blank hknown record.key key)
  · exact if_neg hblank

theorem sameLatches_cleared (h : left.SameLatches right) (hnamed : right.Named)
    (hfound : right.triggered.get? (switchId scope key) = some record) {event : Event}
    {author reason : Option String}
    (hbody : event.body = .killSwitchCleared ⟨scope, key, true, author, reason, now⟩) :
    (left.restoreEvent event).SameLatches (right.without (switchId scope key)) := by
  intro id
  have hscope := orDefault_of_found hnamed hfound scopeGlobal
  unfold KillSwitch.restoreEvent KillSwitch.without
  rw [hbody]
  simp only [hscope]
  rw [Dict.get?_erase, Dict.get?_erase]
  split
  · rfl
  · exact h id

theorem named_latched (h : switch.Named) (hscope : scope ∈ scopes) (key : Option String)
    (reason now : String) :
    (KillSwitch.mk (switch.triggered.insert (switchId scope key)
      ⟨scope, key, reason, now⟩)).Named := by
  intro id record hfound
  simp only [Dict.get?_insert] at hfound
  split at hfound
  · rename_i hid
    rw [← Option.some.inj hfound]
    exact ⟨hscope, hid⟩
  · exact h id record hfound

/-- A new latch kills the account when it is global. -/
theorem killed_latched (hfree : switch.triggered.get? id = none) :
    (KillSwitch.mk (switch.triggered.insert id record)).killed = true ↔
      record.scope = scopeGlobal ∨ switch.killed = true := by
  rw [KillSwitch.killed_iff, KillSwitch.killed_iff]
  constructor
  · intro h
    obtain ⟨other, found, hfound, hscope⟩ := h
    simp only [Dict.get?_insert] at hfound
    split at hfound
    · rw [← Option.some.inj hfound] at hscope
      exact .inl hscope
    · exact .inr ⟨other, found, hfound, hscope⟩
  · rintro (hscope | ⟨other, found, hfound, hscope⟩)
    · exact ⟨id, record, Dict.get?_insert_self .., hscope⟩
    · have hne : other ≠ id := by
        rintro rfl
        rw [hfree] at hfound
        cases hfound
      exact ⟨other, found, by rw [Dict.get?_insert_of_ne _ hne]; exact hfound, hscope⟩

/-- Releasing a switch of another scope leaves the account as it is. -/
theorem killed_without (hfound : switch.triggered.get? id = some record)
    (hscope : record.scope ≠ scopeGlobal) :
    (switch.without id).killed = switch.killed := by
  rw [Bool.eq_iff_iff, KillSwitch.killed_iff, KillSwitch.killed_iff]
  constructor
  · intro h
    obtain ⟨other, found, hother, hglobal⟩ := h
    exact ⟨other, found, Dict.get?_of_get?_erase hother, hglobal⟩
  · intro h
    obtain ⟨other, found, hother, hglobal⟩ := h
    have hne : other ≠ id := by
      rintro rfl
      rw [hfound] at hother
      exact hscope (by rw [Option.some.inj hother]; exact hglobal)
    refine ⟨other, found, ?_, hglobal⟩
    unfold KillSwitch.without
    rw [Dict.get?_erase, if_neg hne]
    exact hother

end

theorem flag_append (switch : KillSwitch) (ledger : EventLedger) (stamp : EventStamp)
    (body : EventBody) :
    flag ⟨switch, ledger.append stamp runId portfolioId body none⟩ =
      match body with
      | .killSwitchTriggered payload =>
        if orDefault (some payload.scope) scopeGlobal = scopeGlobal then true
        else flag ⟨switch, ledger⟩
      | .killSwitchCleared payload =>
        if orDefault (some payload.scope) scopeGlobal = scopeGlobal then false
        else flag ⟨switch, ledger⟩
      | _ => flag ⟨switch, ledger⟩ := by
  have hlast : flag ⟨switch, ledger.append stamp runId portfolioId body none⟩ =
      (recoverEvent (ledger.events.foldl recoverEvent (.opening true))
        (ledger.nextEvent stamp runId portfolioId body none)).killed := by
    unfold flag EventLedger.append
    simp only [List.foldl_append, List.foldl_cons, List.foldl_nil]
  rw [hlast]
  unfold recoverEvent EventLedger.nextEvent scopeGlobal
  cases body with
  | killSwitchTriggered payload =>
    simp only
    split
    · rfl
    · rfl
  | killSwitchCleared payload =>
    simp only
    split
    · rfl
    · rfl
  | _ => rfl

variable {desk : SwitchDesk}

/-- Whatever is called, the journal latches what is latched. -/
theorem kept_step (h : desk.Kept) (timed : TimedCall) :
    (step runId portfolioId desk timed).Kept := by
  obtain ⟨-, hsame⟩ | ⟨scope, reason, key, hscope, -, hfree, hstep⟩ |
    ⟨scope, key, author, reason, record, -, hfound, hstep⟩ := step_cases runId portfolioId desk timed
  · rw [hsame]
    exact h
  · rw [hstep]
    refine ⟨h.intact.append .., named_latched h.named hscope key reason timed.now, ?_⟩
    rw [restarted_append]
    exact sameLatches_latched h.journalled hscope hfree rfl
  · rw [hstep]
    refine ⟨h.intact.append .., h.named.without _, ?_⟩
    rw [restarted_append]
    exact sameLatches_cleared h.journalled h.named hfound rfl

/-- The readers agree exactly when the flag of recovery is right about the latches. -/
theorem Kept.readersAgree_iff (h : desk.Kept) :
    desk.ReadersAgree ↔ flag desk = desk.switch.killed := by
  have hrecover : recover desk.ledger true =
      .ok (desk.ledger.events.foldl recoverEvent (.opening true)) := by
    unfold recover
    rw [h.intact.verified]
  unfold ReadersAgree
  rw [hrecover, h.journalled.killed_eq]
  constructor
  · intro hagree
    obtain ⟨state, hstate, hiff⟩ := hagree
    rw [← Except.ok.inj hstate] at hiff
    exact Bool.eq_iff_iff.mpr hiff
  · intro hflag
    exact ⟨_, rfl, Bool.eq_iff_iff.mp hflag⟩

/-- A flag that is right stays right exactly when a global clearance is whole. -/
theorem Kept.flag_step_iff (h : desk.Kept) (hflag : flag desk = desk.switch.killed)
    (timed : TimedCall) :
    flag (step runId portfolioId desk timed) = (step runId portfolioId desk timed).switch.killed ↔
      desk.ClearsWhole timed := by
  obtain ⟨hnone, hsame⟩ | ⟨scope, reason, key, hscope, hcall, hfree, hstep⟩ |
    ⟨scope, key, author, reason, record, hcall, hfound, hstep⟩ := step_cases runId portfolioId desk timed
  · rw [hsame]
    refine ⟨fun _ scope key author reason hcall record hfound ↦ ?_, fun _ ↦ hflag⟩
    rw [hnone scope key author reason hcall] at hfound
    cases hfound
  · rw [hstep, flag_append]
    refine ⟨fun _ _ _ _ _ hclear ↦ absurd hclear (hcall _ _ _ _), fun _ ↦ ?_⟩
    simp only [KillSwitch.orDefault_scope hscope]
    rw [Bool.eq_iff_iff, killed_latched hfree, ← hflag]
    by_cases hglobal : scope = scopeGlobal
    · simp [hglobal]
    · rw [if_neg hglobal, or_iff_right hglobal]
      rfl
  · have hwhole : desk.ClearsWhole timed ↔ (record.scope = scopeGlobal →
        (scope = scopeGlobal ↔ (desk.switch.without (switchId scope key)).killed = false)) := by
      unfold ClearsWhole
      rw [hcall]
      constructor
      · intro hclears
        exact hclears scope key author reason rfl record hfound
      · rintro hclears _ _ _ _ ⟨⟩ other hother
        rw [hfound] at hother
        exact Option.some.inj hother ▸ hclears
    rw [hwhole, hstep, flag_append]
    simp only [orDefault_of_found h.named hfound]
    by_cases hrecord : record.scope = scopeGlobal
    · have hkilled := KillSwitch.killed_iff.mpr ⟨_, _, hfound, hrecord⟩
      have hbefore : flag ⟨desk.switch.without (switchId scope key), desk.ledger⟩ = true :=
        hflag.trans hkilled
      rw [imp_iff_right hrecord, hbefore]
      by_cases hglobal : scope = scopeGlobal
      · rw [if_pos hglobal, iff_true_left hglobal, eq_comm]
      · rw [if_neg hglobal, iff_false_left hglobal, eq_comm, Bool.not_eq_false]
    · have hglobal : ¬ scope = scopeGlobal := by
        intro hscope
        obtain ⟨hknown, hid⟩ := h.named _ _ hfound
        rw [hscope] at hid
        exact hrecord (KillSwitch.scope_eq_of_switchId_global hknown hid.symm)
      rw [if_neg hglobal, killed_without hfound hrecord]
      exact ⟨fun _ hrecord' ↦ absurd hrecord' hrecord, fun _ ↦ hflag⟩

/-- In every run of calls the two readers agree exactly as long as every global clearance is
whole. -/
theorem readersAgree_throughout_iff (calls : List TimedCall) :
    Throughout (step runId portfolioId) ReadersAgree fresh calls ↔
      Always (step runId portfolioId) ClearsWhole fresh calls := by
  have hstep : ∀ desk timed, (Kept desk ∧ flag desk = desk.switch.killed) → ClearsWhole desk timed →
      Kept (step runId portfolioId desk timed) ∧
        flag (step runId portfolioId desk timed) = (step runId portfolioId desk timed).switch.killed :=
    fun desk timed h hclears ↦
      ⟨kept_step runId portfolioId h.1 timed, (h.1.flag_step_iff runId portfolioId h.2 timed).mpr hclears⟩
  have hfail : ∀ desk timed, (Kept desk ∧ flag desk = desk.switch.killed) → ¬ ClearsWhole desk timed →
      ¬ ReadersAgree (step runId portfolioId desk timed) := fun desk timed h hclears hagree ↦
    hclears ((h.1.flag_step_iff runId portfolioId h.2 timed).mp
      ((kept_step runId portfolioId h.1 timed).readersAgree_iff.mp hagree))
  exact throughout_iff_always_of_invariant (fun desk h ↦ h.1.readersAgree_iff.mpr h.2) hstep hfail
    ⟨kept_fresh, rfl⟩

/-- A digest for runs on fixed inputs. -/
@[reducible]
def sequenceDigest : EventDigest := ⟨fun content ↦ toString content.sequence⟩

def overlappingHalts : List TimedCall := [
  ⟨.trigger "GLOBAL" "data outage" none, "2024-01-02T01:30:00+00:00",
    ⟨"e1", "2024-01-02T01:30:00.000001+00:00"⟩⟩,
  ⟨.trigger "GLOBAL" "desk A" (some "A"), "2024-01-02T01:31:00+00:00",
    ⟨"e2", "2024-01-02T01:31:00.000001+00:00"⟩⟩,
  ⟨.clear "GLOBAL" (some "A") true (some "operator") none, "2024-01-02T01:32:00+00:00",
    ⟨"e3", "2024-01-02T01:32:00.000001+00:00"⟩⟩]

omit [EventDigest] in
/-- Recovery then reports an account as running that a venue that starts again holds halted. -/
theorem not_readersAgree_overlappingHalts :
    ¬ (letI : EventDigest := sequenceDigest
      Throughout (step "paper" "account") ReadersAgree fresh overlappingHalts) := by
  let _ := sequenceDigest
  intro h
  obtain ⟨state, hstate, hiff⟩ := h.last
  have hkilled : (run (step "paper" "account") fresh overlappingHalts).restarted.killed = true := by
    decide +kernel
  have hrecovered : recover (run (step "paper" "account") fresh overlappingHalts).ledger true =
      .ok ⟨false, none, 3, 0, true⟩ := by decide +kernel
  rw [hrecovered] at hstate
  have hrunning : state.killed = false := by rw [← Except.ok.inj hstate]
  rw [hrunning] at hiff
  exact absurd (hiff.mpr hkilled) Bool.false_ne_true

end SwitchDesk

end QuantAgent.Paper
