import QuantAgent.Streaming.BusOrder

/-!
# Resuming from a checkpoint

A checkpoint carries the number of emissions, their digest, the printed frontier and the last event's
identifier; a resumed bus adopts the first three.  It does not know which events were emitted nor
which one was the last, and its frontier has lost its zone.  As long as nothing that is published or
pending looks at any of these, it is indistinguishable from the bus the checkpoint was taken of.
-/

namespace QuantAgent.Streaming

open Library Domain Library.Run

/-- What the printed form of a stamp holds: the clock on the wall and the offset, not the zone. -/
structure PrintedTime where
  wall : ℤ
  utcOffset : ℤ
  deriving DecidableEq

/-- `isoformat`. -/
def isoformat (moment : DateTime) : PrintedTime := ⟨moment.wall, moment.utcOffset⟩

/-- The identity of the fixed-offset zone that a printed stamp is read with. -/
class FixedZones where
  zone : ℤ → ℕ

/-- `datetime.fromisoformat` of a printed stamp. -/
def fromisoformat [FixedZones] (printed : PrintedTime) : DateTime where
  wall := printed.wall
  zone := FixedZones.zone printed.utcOffset
  utcOffset := printed.utcOffset
  ambiguous := false

/-- Enough to prove a resumed run is the same run. -/
structure BusCheckpoint where
  emitted : ℕ
  digest : String
  /-- `none` is the empty text. -/
  frontier : Option PrintedTime
  lastEventId : Option String
  deriving DecidableEq

namespace EventBus

/-- `checkpoint`. -/
def checkpoint (bus : EventBus) : BusCheckpoint where
  emitted := bus.emitted
  digest := bus.digest
  frontier := bus.frontier.map fun frontier ↦ isoformat frontier.decisionTime
  lastEventId := bus.last.map MarketEvent.eventId

/-- `resume_from`; `none` on a bus that has emitted. -/
def resumeFrom [FixedZones] (bus : EventBus) (checkpoint : BusCheckpoint) : Option EventBus :=
  if bus.emitted ≠ 0 then none
  else some { bus with
    emitted := checkpoint.emitted
    digest := checkpoint.digest
    frontier := match checkpoint.frontier with
      | none => bus.frontier
      | some printed => some ⟨fromisoformat printed⟩ }

/-- `publish_all`: nothing if one of the events is refused. -/
def publishAll (bus : EventBus) : List MarketEvent → Option EventBus
  | [] => some bus
  | event :: events =>
    match bus.publish event with
    | (_, .error _) => none
    | (bus, .ok ()) => bus.publishAll events

/-- A new bus that adopts the checkpoint of another one and is given its pending events. -/
def resumed [FixedZones] (bus : EventBus) (pending : List MarketEvent) : Option EventBus := do
  let adopted ← (fresh bus.allowDuplicates).resumeFrom bus.checkpoint
  adopted.publishAll pending

/-- The bus that `resume_from` leaves. -/
def adopted [FixedZones] (bus : EventBus) : EventBus :=
  { EventBus.fresh bus.allowDuplicates with
    emitted := bus.emitted
    digest := bus.digest
    frontier := bus.frontier.map fun frontier ↦
      ⟨fromisoformat (isoformat frontier.decisionTime)⟩ }

end EventBus

/-- What a caller sees of an error: stamps are printed. -/
inductive Seen where
  | duplicateEvent (event : MarketEvent)
  | marketDataFromConsumer (event : MarketEvent)
  | lateArrival (event last : MarketEvent)
  | naiveTimestamp (text : String)
  | impossibleAvailability (eventTime availableTime : PrintedTime)
  | frontierRetreat (current target : PrintedTime)

def BusError.seen : BusError → Seen
  | .duplicateEvent event => .duplicateEvent event
  | .marketDataFromConsumer event => .marketDataFromConsumer event
  | .lateArrival event last => .lateArrival event last
  | .time (.naiveTimestamp text) => .naiveTimestamp text
  | .time (.impossibleAvailability eventTime availableTime) =>
    .impossibleAvailability (isoformat eventTime) (isoformat availableTime)
  | .time (.frontierRetreat current target) =>
    .frontierRetreat (isoformat current) (isoformat target)

/-- What an action yields or raises, as a caller sees it. -/
def answer {α : Type} (result : Except BusError α) : Except Seen α := result.mapError BusError.seen

namespace Session

def on (bus : EventBus) : Session := ⟨bus, [], [], []⟩

/-- What can be read off two sessions is the same. -/
structure Alike (first second : Session) : Prop where
  emissions : second.emissions = first.emissions
  emitted : second.bus.emitted = first.bus.emitted
  digest : second.bus.digest = first.bus.digest
  frontier : second.bus.frontier.map (fun frontier ↦ isoformat frontier.decisionTime) =
    first.bus.frontier.map fun frontier ↦ isoformat frontier.decisionTime

section Runs

variable [TextDigest]

def SameRun : Session → Session → List Action → Prop
  | first, second, [] => Alike first second
  | first, second, action :: actions =>
    Alike first second ∧
      answer (first.perform action).2 = answer (second.perform action).2 ∧
      SameRun (first.step action) (second.step action) actions

/-- A bus on which the pending events have one order, and stand to the frontier as they stand to its
printed form. -/
structure Resumable [FixedZones] (bus : EventBus) : Prop where
  total : ∀ first ∈ bus.heap, ∀ second ∈ bus.heap,
    first = second ∨ first.precedes second ∨ second.precedes first
  consistent : Consistent MarketEvent.precedes bus.heap
  frontier : ∀ frontier, bus.frontier = some frontier → ∀ event ∈ bus.heap,
    event.times.eventTime.less (fromisoformat (isoformat frontier.decisionTime)) =
      event.times.eventTime.less frontier.decisionTime

/-- A publication that does not ask for what the checkpoint has lost: the event was not emitted
before; until something is emitted again, it does not sort before the last event, and it stands to
the frontier as to its printed form; it is no market data while a consumer holds control that held
it at the checkpoint; and its key is ordered with the pending ones. -/
def Continues [FixedZones] (start : EventBus) (session : Session) : Action → Prop
  | .publish event =>
    (start.allowDuplicates = false → event.eventId ∈ start.seen →
      event.eventId ∈ start.heap.map MarketEvent.eventId) ∧
    (session.bus.emitted = start.emitted → ∀ last ∈ start.last, event.precedes last = false) ∧
    (session.bus.draining = true → session.emissions = [] → event.kind ∉ marketKinds) ∧
    (session.bus.frontier = start.frontier → ∀ frontier ∈ start.frontier,
      event.times.eventTime.less (fromisoformat (isoformat frontier.decisionTime)) =
        event.times.eventTime.less frontier.decisionTime) ∧
    (∀ other ∈ session.bus.heap, event = other ∨ event.precedes other ∨ other.precedes event) ∧
    Consistent MarketEvent.precedes (event :: session.bus.heap)
  | _ => True

/-- What the resumed session knows and what it does not. -/
structure Mirrors [FixedZones] (start : EventBus) (original resumed : Session) : Prop where
  heap : resumed.bus.heap.Perm original.bus.heap
  total : ∀ first ∈ original.bus.heap, ∀ second ∈ original.bus.heap,
    first = second ∨ first.precedes second ∨ second.precedes first
  consistent : Consistent MarketEvent.precedes original.bus.heap
  emitted : resumed.bus.emitted = original.bus.emitted
  digest : resumed.bus.digest = original.bus.digest
  strict : original.bus.allowDuplicates = start.allowDuplicates
  strict' : resumed.bus.allowDuplicates = start.allowDuplicates
  seen : ∀ eventId, eventId ∈ original.bus.seen ↔
    eventId ∈ resumed.bus.seen ∨ eventId ∈ start.seen
  pending : ∀ event ∈ start.heap, event.eventId ∈ resumed.bus.seen
  last : resumed.bus.last = original.bus.last ∨
    (original.bus.emitted = start.emitted ∧ original.bus.last = start.last ∧
      resumed.bus.last = none)
  frontier : resumed.bus.frontier = original.bus.frontier ∨
    (original.bus.frontier = start.frontier ∧
      resumed.bus.frontier = start.frontier.map (fun frontier ↦
        ⟨fromisoformat (isoformat frontier.decisionTime)⟩) ∧
      ∀ frontier ∈ start.frontier, ∀ event ∈ original.bus.heap,
        event.times.eventTime.less (fromisoformat (isoformat frontier.decisionTime)) =
          event.times.eventTime.less frontier.decisionTime)
  emissions : resumed.emissions = original.emissions
  drains : resumed.drains = original.drains
  draining : resumed.bus.draining = original.bus.draining ∨
    (original.emissions = [] ∧ original.bus.draining = true ∧ resumed.bus.draining = false)

section

omit [TextDigest]

theorem Mirrors.alike [FixedZones] {start : EventBus} {original resumed : Session}
    (h : Mirrors start original resumed) : Alike original resumed where
  emissions := h.emissions
  emitted := h.emitted
  digest := h.digest
  frontier := by
    rcases h.frontier with hsame | hprinted
    · rw [hsame]
    · rw [hprinted.1, hprinted.2.1, Option.map_map]
      rfl

end

/-- How far a frontier is moved by an emission, or why it is not. -/
def advance (frontier : Option DecisionFrontier) (moment : DateTime) :
    Option DecisionFrontier × Except BusError Unit :=
  match frontier with
  | none => (some ⟨moment⟩, .ok ())
  | some frontier =>
    match frontier.advancedTo moment with
    | .error error => (some frontier, .error (.time error))
    | .ok advanced => (some advanced, .ok ())

/-- An emission is recorded whether the frontier can move or not. -/
theorem emit_eq (bus : EventBus) (event : MarketEvent) :
    bus.emit event = ({ bus with
      last := some event
      emitted := bus.emitted + 1
      digest := TextDigest.hexdigest (bus.digest ++ event.eventId)
      frontier := (advance bus.frontier event.times.eventTime).1 },
      (advance bus.frontier event.times.eventTime).2) := by
  unfold EventBus.emit advance
  cases hfrontier : bus.frontier with
  | none => rfl
  | some frontier =>
    simp only
    cases hadvance : frontier.advancedTo event.times.eventTime with
    | error error => rw [← hfrontier]
    | ok advanced => rfl

section Steps

variable [FixedZones] {start : EventBus} {original resumed : Session}

variable {event : MarketEvent}

section

variable (h : Mirrors start original resumed)
  (hcontinues : Continues start original (.publish event))
include h hcontinues

omit [TextDigest] in
/-- A publication that does not ask for what is lost is refused by both buses or by none. -/
theorem Mirrors.refusal :
    resumed.bus.refusal event = original.bus.refusal event := by
  obtain ⟨hnew, hlater, hreaction, -⟩ := hcontinues
  have hduplicate : (resumed.bus.allowDuplicates = false ∧ event.eventId ∈ resumed.bus.seen) ↔
      (original.bus.allowDuplicates = false ∧ event.eventId ∈ original.bus.seen) := by
    rw [h.strict, h.strict', h.seen]
    refine and_congr_right fun hstrict ↦ ⟨.inl, fun hseen ↦ hseen.elim id ?_⟩
    intro hstart
    obtain ⟨other, hother, hsame⟩ := List.mem_map.mp (hnew hstrict hstart)
    exact hsame ▸ h.pending other hother
  have hmarket : (resumed.bus.draining = true ∧ event.kind ∈ marketKinds) ↔
      (original.bus.draining = true ∧ event.kind ∈ marketKinds) := by
    rcases h.draining with hsame | ⟨hnone, htrue, hfalse⟩
    · rw [hsame]
    · rw [hfalse, htrue]
      simp [hreaction htrue hnone]
  unfold EventBus.refusal
  refine if_congr hduplicate rfl (if_congr hmarket rfl ?_)
  rcases h.last with hsame | ⟨hemitted, hstart, hnone⟩
  · rw [hsame]
  · rw [hnone, hstart]
    cases hlast : start.last with
    | none => rfl
    | some last => simp [hlater hemitted last hlast]

theorem Mirrors.publish :
    answer (original.perform (.publish event)).2 = answer (resumed.perform (.publish event)).2 ∧
      Mirrors start (original.step (.publish event)) (resumed.step (.publish event)) := by
  have hrefusal := h.refusal hcontinues
  obtain ⟨-, -, -, hfrontier, htotal, hconsistent⟩ := hcontinues
  cases hanswer : original.bus.refusal event with
  | some error =>
    rw [hanswer] at hrefusal
    rw [step, step, perform_refused hanswer, perform_refused hrefusal]
    exact ⟨rfl, h⟩
  | none =>
    rw [hanswer] at hrefusal
    rw [step, step, perform_accepted hanswer, perform_accepted hrefusal]
    refine ⟨rfl, ?_⟩
    exact {
      heap := h.heap.append_right [event]
      total := by
        intro first hfirst second hsecond
        rcases List.mem_append.mp hfirst with hfirst | hfirst
        · rcases List.mem_append.mp hsecond with hsecond | hsecond
          · exact h.total first hfirst second hsecond
          · rw [List.mem_singleton.mp hsecond]
            rcases htotal first hfirst with hsame | hless | hless
            · exact .inl hsame.symm
            · exact .inr (.inr hless)
            · exact .inr (.inl hless)
        · rw [List.mem_singleton.mp hfirst]
          rcases List.mem_append.mp hsecond with hsecond | hsecond
          · exact htotal second hsecond
          · exact .inl (List.mem_singleton.mp hsecond).symm
      consistent := by
        refine hconsistent.subset ?_
        intro other hother
        simpa [or_comm] using hother
      emitted := h.emitted
      digest := h.digest
      strict := h.strict
      strict' := h.strict'
      seen := by
        intro eventId
        rw [List.mem_cons, List.mem_cons, h.seen, or_assoc]
      pending := fun other hother ↦ List.mem_cons_of_mem _ (h.pending other hother)
      last := h.last
      frontier := by
        refine h.frontier.imp_right ?_
        intro hprinted
        refine ⟨hprinted.1, hprinted.2.1, ?_⟩
        intro frontier hsome other hother
        rcases List.mem_append.mp hother with hother | hother
        · exact hprinted.2.2 frontier hsome other hother
        · rw [List.mem_singleton.mp hother]
          exact hfrontier hprinted.1 frontier hsome
      emissions := h.emissions
      drains := h.drains
      draining := h.draining }

end

variable {rest : List MarketEvent}

section

omit [TextDigest]

section

variable (h : Mirrors start original resumed)
include h

theorem Mirrors.moved {rest' : List MarketEvent} (hrest : rest'.Perm rest)
    (hsubset : rest ⊆ original.bus.heap) {emitted : ℕ} {digest : String} {last : Option MarketEvent}
    {frontier frontier' : Option DecisionFrontier} {draining : Bool} {drains : List Drain}
    {emissions : List MarketEvent}
    (hfrontier : frontier' = frontier ∨ (frontier = start.frontier ∧ frontier' = start.frontier.map
      (fun frontier ↦ ⟨fromisoformat (isoformat frontier.decisionTime)⟩) ∧ ∀ frontier ∈
      start.frontier, ∀ event ∈ rest, event.times.eventTime.less (fromisoformat (isoformat
      frontier.decisionTime)) = event.times.eventTime.less frontier.decisionTime)) :
    Mirrors start
      ⟨{ original.bus with heap := rest, emitted, digest, last, frontier, draining }, drains,
        original.accepted, emissions⟩
      ⟨{ resumed.bus with heap := rest', emitted, digest, last, frontier := frontier', draining },
        drains, resumed.accepted, emissions⟩ where
  heap := hrest
  total first hfirst second hsecond :=
    h.total first (hsubset hfirst) second (hsubset hsecond)
  consistent := h.consistent.subset hsubset
  emitted := rfl
  digest := rfl
  strict := h.strict
  strict' := h.strict'
  seen := h.seen
  pending := h.pending
  last := .inl rfl
  frontier := hfrontier
  emissions := rfl
  drains := rfl
  draining := .inl rfl

/-- A generator that ends moves nothing but the flag. -/
theorem Mirrors.idle (drains : List Drain) :
    Mirrors start { original with bus := { original.bus with draining := false }, drains }
      { resumed with bus := { resumed.bus with draining := false }, drains } where
  heap := h.heap
  total := h.total
  consistent := h.consistent
  emitted := h.emitted
  digest := h.digest
  strict := h.strict
  strict' := h.strict'
  seen := h.seen
  pending := h.pending
  last := h.last
  frontier := h.frontier
  emissions := h.emissions
  drains := rfl
  draining := .inl rfl

theorem Mirrors.moved_frontier (hevent : event ∈ original.bus.heap)
    (hsubset : rest ⊆ original.bus.heap) :
    answer (advance original.bus.frontier event.times.eventTime).2 =
        answer (advance resumed.bus.frontier event.times.eventTime).2 ∧
      ((advance resumed.bus.frontier event.times.eventTime).1 =
          (advance original.bus.frontier event.times.eventTime).1 ∨
        ((advance original.bus.frontier event.times.eventTime).1 = start.frontier ∧
          (advance resumed.bus.frontier event.times.eventTime).1 =
            start.frontier.map (fun frontier ↦
              ⟨fromisoformat (isoformat frontier.decisionTime)⟩) ∧
          ∀ frontier ∈ start.frontier, ∀ event ∈ rest,
            event.times.eventTime.less (fromisoformat (isoformat frontier.decisionTime)) =
              event.times.eventTime.less frontier.decisionTime)) := by
  rcases h.frontier with hsame | ⟨hstart, hprinted, hagree⟩
  · rw [hsame]
    exact ⟨rfl, .inl rfl⟩
  · cases hfrontier : start.frontier with
    | none =>
      rw [hstart, hprinted, hfrontier]
      exact ⟨rfl, .inl rfl⟩
    | some frontier =>
      rw [hstart, hprinted, hfrontier]
      have hless := hagree frontier hfrontier event hevent
      simp only [Option.map_some, advance, DecisionFrontier.advancedTo, hless]
      by_cases hback : event.times.eventTime.less frontier.decisionTime = true
      · rw [if_pos hback, if_pos hback]
        refine ⟨rfl, .inr ⟨rfl, rfl, ?_⟩⟩
        intro other hother later hlater
        exact hagree other (hfrontier.trans hother) later (hsubset hlater)
      · rw [if_neg hback, if_neg hback]
        exact ⟨rfl, .inl rfl⟩

end

end

section

variable (h : Mirrors start original resumed)
include h

theorem Mirrors.resume (index : ℕ) (limit : Option DateTime) :
    answer (original.resume index limit).2 = answer (resumed.resume index limit).2 ∧
      Mirrors start (original.resume index limit).1 (resumed.resume index limit).1 := by
  unfold Session.resume EventBus.pass
  simp only
  rw [h.drains]
  cases htake : takeLeast MarketEvent.precedes original.bus.heap with
  | none =>
    have hnil := takeLeast_eq_none_iff.mp htake
    have hnil' : resumed.bus.heap = [] := by
      have hperm := h.heap
      rw [hnil] at hperm
      exact hperm.eq_nil
    have htake' : takeLeast MarketEvent.precedes resumed.bus.heap = none :=
      takeLeast_eq_none_iff.mpr hnil'
    rw [htake']
    exact ⟨rfl, h.idle _⟩
  | some taken =>
    obtain ⟨event, rest⟩ := taken
    obtain ⟨rest', htake', hrest⟩ := takeLeast_perm precedes_asymm h.heap h.total h.consistent htake
    have hperm := perm_of_takeLeast htake
    have hevent := hperm.mem_iff.mpr (List.mem_cons_self ..)
    have hsubset : rest ⊆ original.bus.heap :=
      fun other hother ↦ hperm.mem_iff.mpr (List.mem_cons_of_mem _ hother)
    rw [htake']
    simp only
    by_cases hlimit : limit.any (fun limit ↦ limit.less event.times.eventTime) = true
    · rw [if_pos hlimit, if_pos hlimit]
      exact ⟨rfl, h.idle _⟩
    · rw [if_neg hlimit, if_neg hlimit, emit_eq, emit_eq]
      obtain ⟨hanswer, hfrontier⟩ := h.moved_frontier hevent hsubset
      cases hmoved : (advance original.bus.frontier event.times.eventTime).2 with
      | error error =>
        cases hmoved' : (advance resumed.bus.frontier event.times.eventTime).2 with
        | error error' =>
          rw [hmoved, hmoved'] at hanswer
          simp only [h.emitted, h.digest, h.emissions]
          have hseen := Except.error.inj hanswer
          exact ⟨congrArg Except.error hseen, h.moved hrest hsubset hfrontier⟩
        | ok _ =>
          rw [hmoved, hmoved'] at hanswer
          cases hanswer
      | ok _ =>
        cases hmoved' : (advance resumed.bus.frontier event.times.eventTime).2 with
        | error error' =>
          rw [hmoved, hmoved'] at hanswer
          cases hanswer
        | ok _ =>
          simp only [h.emitted, h.digest, h.emissions]
          exact ⟨trivial, h.moved hrest hsubset hfrontier⟩

/-- What the two sessions do next is answered alike and keeps them alike. -/
theorem Mirrors.step {action : Action} (hcontinues : Continues start original action) :
    answer (original.perform action).2 = answer (resumed.perform action).2 ∧
      Mirrors start (original.step action) (resumed.step action) := by
  cases action with
  | publish event => exact h.publish hcontinues
  | drain until_ =>
    refine ⟨rfl, ?_⟩
    exact { h with drains := congrArg (· ++ [Drain.created until_]) h.drains }
  | next index =>
    unfold Session.step perform
    simp only [h.drains]
    split
    · split
      · exact ⟨rfl, { h with drains := rfl }⟩
      · exact h.resume index _
    · exact h.resume index _
    · exact ⟨rfl, h⟩
  | close index =>
    unfold Session.step perform
    simp only [h.drains]
    split
    · exact ⟨rfl, h.idle _⟩
    · exact ⟨rfl, { h with drains := rfl }⟩
    · exact ⟨rfl, h⟩

theorem Mirrors.sameRun {actions : List Action}
    (hcontinues : Always Session.step (Continues start) original actions) :
    SameRun original resumed actions := by
  induction actions generalizing original resumed with
  | nil => exact h.alike
  | cons action actions ih =>
    have hstep := h.step hcontinues.1
    exact ⟨h.alike, hstep.1, ih hstep.2 hcontinues.2⟩

end

end Steps

structure Buffered (bus : EventBus) : Prop where
  known : ∀ event ∈ bus.heap, event.eventId ∈ bus.seen
  distinct : bus.allowDuplicates = false → (bus.heap.map MarketEvent.eventId).Nodup

omit [TextDigest] in
theorem Buffered.fresh (allowDuplicates : Bool) : Buffered (.fresh allowDuplicates) where
  known := by
    intro event hevent
    cases hevent
  distinct _ := List.nodup_nil

variable {bus after : EventBus}

section

omit [TextDigest]

theorem Buffered.of_same (h : Buffered bus) (hheap : after.heap = bus.heap)
    (hseen : after.seen = bus.seen) (hstrict : after.allowDuplicates = bus.allowDuplicates) :
    Buffered after where
  known := by
    rw [hheap, hseen]
    exact h.known
  distinct := by
    rw [hheap, hstrict]
    exact h.distinct

theorem Buffered.of_perm (h : Buffered bus) {gone : List MarketEvent}
    (hheap : bus.heap.Perm (gone ++ after.heap)) (hseen : after.seen = bus.seen)
    (hstrict : after.allowDuplicates = bus.allowDuplicates) : Buffered after where
  known := by
    intro event hevent
    rw [hseen]
    exact h.known event (hheap.mem_iff.mpr (List.mem_append_right _ hevent))
  distinct := by
    intro hfalse
    have hall := h.distinct (hstrict ▸ hfalse)
    have hmap := (hheap.map MarketEvent.eventId).nodup_iff.mp hall
    rw [List.map_append] at hmap
    exact (List.nodup_append.mp hmap).2.1

end

variable {session : Session}

/-- A generator that goes on takes at most one event off the heap. -/
theorem Buffered.resume (h : Buffered session.bus) (index : ℕ) (limit : Option DateTime) :
    Buffered (session.resume index limit).1.bus := by
  unfold Session.resume EventBus.pass
  simp only
  cases htake : takeLeast MarketEvent.precedes session.bus.heap with
  | none => exact h.of_same rfl rfl rfl
  | some taken =>
    obtain ⟨event, rest⟩ := taken
    simp only
    by_cases hlimit : limit.any (fun limit ↦ limit.less event.times.eventTime) = true
    · rw [if_pos hlimit]
      exact h.of_same rfl rfl rfl
    · rw [if_neg hlimit, emit_eq]
      have hperm : session.bus.heap.Perm ([event] ++ rest) := perm_of_takeLeast htake
      cases (advance session.bus.frontier event.times.eventTime).2 with
      | error error => exact h.of_perm hperm rfl rfl
      | ok _ => exact h.of_perm hperm rfl rfl

theorem Buffered.step (h : Buffered session.bus) (action : Action) :
    Buffered (session.step action).bus := by
  cases action with
  | publish event =>
    unfold Session.step
    cases hrefusal : session.bus.refusal event with
    | some error =>
      rw [perform_refused hrefusal]
      exact h
    | none =>
      rw [perform_accepted hrefusal]
      exact {
        known := by
          intro other hother
          rcases List.mem_append.mp hother with hbefore | hnew
          · exact List.mem_cons_of_mem _ (h.known other hbefore)
          · rw [List.mem_singleton.mp hnew]
            exact List.mem_cons_self ..
        distinct := by
          intro hstrict
          have hnew : event.eventId ∉ session.bus.seen := by
            intro hseen
            unfold EventBus.refusal at hrefusal
            rw [if_pos ⟨hstrict, hseen⟩] at hrefusal
            cases hrefusal
          have hapart : event.eventId ∉ session.bus.heap.map MarketEvent.eventId := by
            intro hmem
            obtain ⟨other, hother, hsame⟩ := List.mem_map.mp hmem
            exact hnew (hsame ▸ h.known other hother)
          rw [List.map_append, List.perm_append_comm.nodup_iff]
          exact List.nodup_cons.mpr ⟨hapart, h.distinct hstrict⟩ }
  | drain until_ => exact h
  | next index =>
    unfold Session.step perform
    simp only
    split
    · split
      · exact h
      · exact h.resume index _
    · exact h.resume index _
    · exact h
  | close index =>
    unfold Session.step perform
    simp only
    split
    · exact h.of_same rfl rfl rfl
    · exact h
    · exact h

/-- Every bus of every run: what is pending was seen, and is distinct. -/
theorem buffered_run (allowDuplicates : Bool) (history : List Action) :
    Buffered (run Session.step (.on (.fresh allowDuplicates)) history).bus :=
  @of_run Session Action Session.step (fun session ↦ Buffered session.bus) _
    (fun _ action h ↦ h.step action) (Buffered.fresh allowDuplicates) history

section

omit [TextDigest]

/-- A bus that has emitted nothing itself takes in every batch of distinct events. -/
theorem publishAll_eq (hlast : bus.last = none) (hdraining : bus.draining = false)
    {events : List MarketEvent}
    (hnew : bus.allowDuplicates = false → (events.map MarketEvent.eventId).Nodup ∧ ∀ event ∈
      events, event.eventId ∉ bus.seen) :
    bus.publishAll events = some { bus with
      heap := bus.heap ++ events
      seen := (events.map MarketEvent.eventId).reverse ++ bus.seen } := by
  induction events generalizing bus with
  | nil => simp [EventBus.publishAll]
  | cons event events ih =>
    have hrefusal : bus.refusal event = none := by
      unfold EventBus.refusal
      rw [if_neg, if_neg, hlast]
      · simp [hdraining]
      · intro hboth
        exact (hnew hboth.1).2 event (List.mem_cons_self ..) hboth.2
    let published : EventBus := { bus with
      heap := bus.heap ++ [event]
      seen := event.eventId :: bus.seen }
    have hrest : published.allowDuplicates = false →
        (events.map MarketEvent.eventId).Nodup ∧
          ∀ event ∈ events, event.eventId ∉ published.seen := by
      intro hstrict
      obtain ⟨hdistinct, hunseen⟩ := hnew hstrict
      rw [List.map_cons, List.nodup_cons] at hdistinct
      refine ⟨hdistinct.2, ?_⟩
      intro other hother hseen
      rcases List.mem_cons.mp hseen with hsame | hbefore
      · exact hdistinct.1 (hsame ▸ List.mem_map_of_mem hother)
      · exact hunseen other (List.mem_cons_of_mem _ hother) hbefore
    calc bus.publishAll (event :: events)
        = published.publishAll events := by
          simp only [EventBus.publishAll, EventBus.publish, hrefusal, published]
      _ = some { published with
            heap := published.heap ++ events
            seen := (events.map MarketEvent.eventId).reverse ++ published.seen } :=
          @ih published hlast hdraining hrest
      _ = some { bus with
            heap := bus.heap ++ event :: events
            seen := ((event :: events).map MarketEvent.eventId).reverse ++ bus.seen } := by
          simp [published]

theorem resumeFrom_checkpoint [FixedZones] (bus : EventBus) :
    (EventBus.fresh bus.allowDuplicates).resumeFrom bus.checkpoint = some bus.adopted := by
  unfold EventBus.resumeFrom
  rw [if_neg (by simp [EventBus.fresh])]
  cases hfrontier : bus.frontier <;>
    simp [EventBus.adopted, EventBus.checkpoint, EventBus.fresh, hfrontier]

end

variable {pending : List MarketEvent}

section

omit [TextDigest]

theorem Buffered.resumed_eq [FixedZones] (h : Buffered bus) (hpending : pending.Perm bus.heap) :
    bus.resumed pending = some { bus.adopted with
      heap := pending
      seen := (pending.map MarketEvent.eventId).reverse } := by
  have hnew : bus.adopted.allowDuplicates = false →
      (pending.map MarketEvent.eventId).Nodup ∧
        ∀ event ∈ pending, event.eventId ∉ bus.adopted.seen := by
    intro hstrict
    exact ⟨(hpending.map _).nodup_iff.mpr (h.distinct hstrict), fun _ _ ↦ List.not_mem_nil⟩
  calc bus.resumed pending
      = bus.adopted.publishAll pending := by
        unfold EventBus.resumed
        rw [resumeFrom_checkpoint]
        rfl
    _ = some { bus.adopted with
          heap := pending
          seen := (pending.map MarketEvent.eventId).reverse } := by
        rw [publishAll_eq rfl rfl hnew]
        simp [EventBus.adopted, EventBus.fresh]

theorem Buffered.mirrors [FixedZones] (h : Buffered bus) (hresumable : Resumable bus)
    (hpending : pending.Perm bus.heap) :
    Mirrors bus (.on bus) (.on { bus.adopted with
      heap := pending
      seen := (pending.map MarketEvent.eventId).reverse }) where
  heap := hpending
  total := hresumable.total
  consistent := hresumable.consistent
  emitted := rfl
  digest := rfl
  strict := rfl
  strict' := rfl
  seen := by
    intro eventId
    refine ⟨.inr, ?_⟩
    intro hseen
    rcases hseen with hpublished | hbefore
    · obtain ⟨event, hevent, rfl⟩ := List.mem_map.mp (List.mem_reverse.mp hpublished)
      exact h.known event (hpending.mem_iff.mp hevent)
    · exact hbefore
  pending := by
    intro event hevent
    exact List.mem_reverse.mpr (List.mem_map_of_mem (hpending.mem_iff.mpr hevent))
  last := .inr ⟨rfl, rfl, rfl⟩
  frontier := .inr ⟨rfl, rfl, fun frontier hfrontier event hevent ↦
    hresumable.frontier frontier hfrontier event hevent⟩
  emissions := rfl
  drains := rfl
  draining := by
    cases hdraining : bus.draining with
    | true => exact .inr ⟨rfl, hdraining, rfl⟩
    | false => exact .inl hdraining.symm

end

/-- A bus resumed from the checkpoint of another one, with its pending events in any order, is the
same run. -/
def ResumedSame [FixedZones] (bus : EventBus) (actions : List Action) : Prop :=
  ∀ pending : List MarketEvent, pending.Perm bus.heap →
    ∃ resumed, bus.resumed pending = some resumed ∧ SameRun (.on bus) (.on resumed) actions

/-- At every point of every run, a bus whose pending events have one order is resumed as the same
run, as long as no publication asks for what the checkpoint has lost. -/
theorem resumedSame_of_continues [FixedZones] (allowDuplicates : Bool)
    (history actions : List Action)
    (hresumable : Resumable (run Session.step (.on (.fresh allowDuplicates)) history).bus)
    (hcontinues : Always Session.step
      (Continues (run Session.step (.on (.fresh allowDuplicates)) history).bus)
      (.on (run Session.step (.on (.fresh allowDuplicates)) history).bus) actions) :
    ResumedSame (run Session.step (.on (.fresh allowDuplicates)) history).bus actions := by
  intro pending hpending
  have hbuffered := buffered_run allowDuplicates history
  exact ⟨_, hbuffered.resumed_eq hpending, (hbuffered.mirrors hresumable hpending).sameRun hcontinues⟩

end Runs

/-- Zones that no clock has. -/
@[reducible] def offsetZones : FixedZones := ⟨fun _ ↦ 0⟩

def oneShown : List Action :=
  [.publish (signalAt (universal 10) "evt_1"), .publish (signalAt (universal 20) "evt_2"),
    .drain none, .next 0, .close 0]

def goesOn : List Action :=
  [.drain none, .next 0, .publish (signalAt (universal 30) "evt_3"), .next 0, .next 0]

theorem consistent_singleton (event : MarketEvent) :
    Consistent MarketEvent.precedes [event] := by
  intro first hfirst second _ third hthird _ _
  rw [List.mem_singleton.mp hfirst, List.mem_singleton.mp hthird]
  exact precedes_irrefl event

def shown : EventBus := (run (@Session.step echoDigest) (.on (.fresh false)) oneShown).bus

theorem resumedSame_goesOn : @ResumedSame echoDigest offsetZones shown goesOn := by
  let _ := echoDigest
  let _ := offsetZones
  refine resumedSame_of_continues false oneShown goesOn ⟨?_, ?_, ?_⟩
    ⟨trivial, trivial, ⟨?_, ?_, ?_, ?_, ?_, ?_⟩, trivial, trivial, trivial⟩
  · intro first hfirst second hsecond
    exact .inl ((List.mem_singleton.mp hfirst).trans (List.mem_singleton.mp hsecond).symm)
  · exact consistent_singleton _
  · intro frontier hfrontier event hevent
    cases hfrontier
    rfl
  · intro _ hseen
    exact absurd hseen (by decide)
  · intro hemitted
    exact absurd hemitted (by decide)
  · intro _ hnone
    cases hnone
  · intro _ frontier hfrontier
    cases hfrontier
    rfl
  · intro other hother
    cases hother
  · exact consistent_singleton _

/-- An event that was emitted before the checkpoint, and one that sorts before the last emitted one,
are refused by the bus and accepted by the resumed one. -/
theorem not_resumedSame_shownAgain :
    ¬ @ResumedSame echoDigest offsetZones shown [.publish (signalAt (universal 10) "evt_1")] ∧
      ¬ @ResumedSame echoDigest offsetZones shown [.publish (signalAt (universal 5) "evt_0")] := by
  let _ := echoDigest
  let _ := offsetZones
  have hresumed := (buffered_run false oneShown).resumed_eq (.refl _)
  constructor
  · intro hsame
    obtain ⟨resumed, heq, -, hanswer, -⟩ := hsame _ (.refl _)
    cases hresumed.symm.trans heq
    exact absurd (congrArg Except.toBool hanswer) (by decide)
  · intro hsame
    obtain ⟨resumed, heq, -, hanswer, -⟩ := hsame _ (.refl _)
    cases hresumed.symm.trans heq
    exact absurd (congrArg Except.toBool hanswer) (by decide)

end Session

end QuantAgent.Streaming
