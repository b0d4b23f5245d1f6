import QuantAgent.Library.Heapq
import QuantAgent.Streaming.BusOrder
import Mathlib.Data.List.Nodup

/-!
# Replaying a set of events

A fixed set of events is published and drained.  Here the heap of a bus is the list that the
standard library keeps, so what comes out is what the comparisons of the keys make of it: arrival
order does not matter exactly as far as the keys are those of one strict order.
-/

namespace QuantAgent.Streaming

open Library Domain Library.Heapq

namespace EventBus

/-- Buffer an event on the heap.  On a bus that refuses duplicates no two keys of the heap are
equal, so the counter beside them is never compared. -/
def push (bus : EventBus) (event : MarketEvent) : Except BusError EventBus :=
  match bus.refusal event with
  | some error => .error error
  | none => .ok { bus with
      heap := heappush MarketEvent.precedes bus.heap event
      seen := event.eventId :: bus.seen }

/-- `publish_all`. -/
def pushAll (bus : EventBus) (events : List MarketEvent) : Except BusError EventBus :=
  events.foldlM push bus

variable [TextDigest]

/-- A drain without a limit, for as many events as the heap holds. -/
def drainAll (bus : EventBus) : ℕ → Except BusError (List MarketEvent × EventBus)
  | 0 => .ok ([], bus)
  | fuel + 1 =>
    match heappop MarketEvent.precedes bus.heap with
    | none => .ok ([], bus)
    | some (event, rest) =>
      match { bus with heap := rest }.emit event with
      | (_, .error error) => .error error
      | (bus, .ok ()) =>
        match bus.drainAll fuel with
        | .error error => .error error
        | .ok (events, bus) => .ok (event :: events, bus)

end EventBus

/-- `replay`: order a fixed set of events and digest the result. -/
def replay [TextDigest] (events : List MarketEvent) :
    Except BusError (List MarketEvent × String) := do
  let bus ← (EventBus.fresh false).pushAll events
  let (emitted, bus) ← bus.drainAll bus.heap.length
  .ok (emitted, bus.digest)

/-- Arrival order does not leak: every arrangement of distinct events is replayed alike, and where
two events share an identifier every arrangement is refused. -/
def ArrivalFree [TextDigest] (events : List MarketEvent) : Prop :=
  ∀ shuffled : List MarketEvent, shuffled.Perm events →
    if (events.map MarketEvent.eventId).Nodup then replay shuffled = replay events
    else ∃ event, replay shuffled = .error (.duplicateEvent event)

/-- Of events with different identifiers one comes first, and never in a circle. -/
structure KeysOrdered (events : List MarketEvent) : Prop where
  total : ∀ first ∈ events, ∀ second ∈ events, first.eventId ≠ second.eventId →
    first.precedes second ∨ second.precedes first
  acyclic : ∀ first ∈ events, ∀ second ∈ events, ∀ third ∈ events,
    first.eventId ≠ second.eventId → second.eventId ≠ third.eventId →
      first.eventId ≠ third.eventId → first.precedes second → second.precedes third →
        first.precedes third

variable {events published : List MarketEvent}

theorem KeysOrdered.subset {part : List MarketEvent} (h : KeysOrdered events)
    (hsubset : part ⊆ events) : KeysOrdered part where
  total first hfirst second hsecond := h.total first (hsubset hfirst) second (hsubset hsecond)
  acyclic first hfirst second hsecond third hthird :=
    h.acyclic first (hsubset hfirst) second (hsubset hsecond) third (hsubset hthird)

theorem KeysOrdered.consistent (h : KeysOrdered events)
    (hdistinct : (events.map MarketEvent.eventId).Nodup) :
    Consistent MarketEvent.precedes events := by
  intro first hfirst second hsecond third hthird hsecondFirst hthirdSecond
  by_contra hthirdFirst
  replace hthirdFirst : third.precedes first = true := by simpa using hthirdFirst
  have hne : first ≠ second := by
    intro heq
    rw [heq, hthirdSecond] at hthirdFirst
    cases hthirdFirst
  have hids : first.eventId ≠ second.eventId :=
    fun heq ↦ hne (List.inj_on_of_nodup_map hdistinct hfirst hsecond heq)
  have hless : first.precedes second = true := by
    refine (h.total first hfirst second hsecond hids).resolve_right ?_
    rw [hsecondFirst]
    exact Bool.false_ne_true
  have hids' : third.eventId ≠ second.eventId := by
    intro heq
    have hsame := List.inj_on_of_nodup_map hdistinct hthird hsecond heq
    rw [hsame, precedes_asymm _ _ hless] at hthirdFirst
    cases hthirdFirst
  have hids'' : third.eventId ≠ first.eventId := by
    intro heq
    have hsame := List.inj_on_of_nodup_map hdistinct hthird hfirst heq
    rw [hsame, precedes_irrefl first] at hthirdFirst
    cases hthirdFirst
  have hcircle := h.acyclic third hthird first hfirst second hsecond hids'' hids hids'
    hthirdFirst hless
  rw [hthirdSecond] at hcircle
  cases hcircle

structure Buffering (bus : EventBus) (published : List MarketEvent) : Prop where
  strict : bus.allowDuplicates = false
  idle : bus.draining = false
  last : bus.last = none
  frontier : bus.frontier = none
  digest : bus.digest = genesisDigest
  seen : ∀ eventId, eventId ∈ bus.seen ↔ eventId ∈ published.map MarketEvent.eventId
  perm : bus.heap.Perm published

theorem buffering_fresh : Buffering (.fresh false) [] := by
  refine ⟨rfl, rfl, rfl, rfl, rfl, ?_, .refl _⟩
  intro eventId
  exact Iff.rfl

variable {bus : EventBus}

section

variable (h : Buffering bus published)
include h

/-- An event is refused exactly when its identifier has been seen. -/
theorem Buffering.refusal (event : MarketEvent) :
    bus.refusal event =
      if event.eventId ∈ published.map MarketEvent.eventId then some (.duplicateEvent event)
      else none := by
  simp only [EventBus.refusal, h.strict, h.idle, h.last, h.seen, true_and, Bool.false_eq_true,
    false_and, if_false]

theorem Buffering.push {event : MarketEvent}
    (hnew : event.eventId ∉ published.map MarketEvent.eventId) :
    ∃ after, bus.push event = .ok after ∧ Buffering after (event :: published) ∧
      after.heap = heappush MarketEvent.precedes bus.heap event := by
  have hrefusal := h.refusal event
  rw [if_neg hnew] at hrefusal
  refine ⟨_, by rw [EventBus.push, hrefusal], ?_, rfl⟩
  refine ⟨h.strict, h.idle, h.last, h.frontier, h.digest, ?_, ?_⟩
  · intro eventId
    rw [List.mem_cons, h.seen, List.map_cons, List.mem_cons]
  · exact (heappush_perm bus.heap event).trans (h.perm.cons event)

/-- Distinct events are all accepted, and the heap stays one where the keys are consistent. -/
theorem Buffering.pushAll
    (hdistinct : ((events.reverse ++ published).map MarketEvent.eventId).Nodup) :
    ∃ after, bus.pushAll events = .ok after ∧ Buffering after (events.reverse ++ published) ∧
      ∀ entries, Consistent MarketEvent.precedes entries → (∀ event ∈ events, event ∈ entries) →
        (∀ event ∈ published, event ∈ entries) → Ordered MarketEvent.precedes bus.heap →
          Ordered MarketEvent.precedes after.heap := by
  induction events generalizing bus published with
  | nil => exact ⟨bus, rfl, h, fun _ _ _ _ hordered ↦ hordered⟩
  | cons event events ih =>
    rw [List.reverse_cons, List.append_assoc, List.singleton_append] at hdistinct ⊢
    have hnew : event.eventId ∉ published.map MarketEvent.eventId := by
      rw [List.map_append, List.map_cons, List.nodup_append] at hdistinct
      exact (List.nodup_cons.mp hdistinct.2.1).1
    obtain ⟨next, hpush, hnext, hheap⟩ := h.push hnew
    obtain ⟨after, hpushAll, hafter, hkept⟩ := ih hnext hdistinct
    refine ⟨after, ?_, hafter, ?_⟩
    · rw [EventBus.pushAll, List.foldlM_cons, hpush]
      exact hpushAll
    · intro entries hconsistent hevents hpublished hordered
      obtain ⟨hevent, hrest⟩ := List.forall_mem_cons.mp hevents
      refine hkept entries hconsistent hrest (List.forall_mem_cons.mpr ⟨hevent, hpublished⟩) ?_
      rw [hheap]
      refine heappush_ordered precedes_asymm hconsistent ?_ hevent hordered
      exact fun entry hentry ↦ hpublished entry (h.perm.mem_iff.mp hentry)

theorem Buffering.pushAll_duplicate (hdistinct : (published.map MarketEvent.eventId).Nodup)
    (hduplicate : ¬ ((events.reverse ++ published).map MarketEvent.eventId).Nodup) :
    ∃ event, bus.pushAll events = .error (.duplicateEvent event) := by
  induction events generalizing bus published with
  | nil => exact absurd hdistinct hduplicate
  | cons event events ih =>
    rw [List.reverse_cons, List.append_assoc, List.singleton_append] at hduplicate
    by_cases hseen : event.eventId ∈ published.map MarketEvent.eventId
    · refine ⟨event, ?_⟩
      have hrefusal := h.refusal event
      rw [if_pos hseen] at hrefusal
      rw [EventBus.pushAll, List.foldlM_cons, EventBus.push, hrefusal]
      rfl
    · obtain ⟨next, hpush, hnext, -⟩ := h.push hseen
      have hnodup := List.nodup_cons.mpr ⟨hseen, hdistinct⟩
      obtain ⟨again, hagain⟩ := ih hnext hnodup hduplicate
      refine ⟨again, ?_⟩
      rw [EventBus.pushAll, List.foldlM_cons, hpush]
      exact hagain

end

section Drain

variable [TextDigest]

def digestOf (digest : String) (events : List MarketEvent) : String :=
  events.foldl (fun digest event ↦ TextDigest.hexdigest (digest ++ event.eventId)) digest

/-- The frontier stands at no later time than any pending event. -/
def Reached (bus : EventBus) : Prop :=
  ∀ frontier, bus.frontier = some frontier → ∀ event ∈ bus.heap,
    event.times.eventTime.less frontier.decisionTime = false

omit [TextDigest] in
theorem emit_reached [TextDigest] {bus : EventBus} {event : MarketEvent} {rest : List MarketEvent}
    (hreached : ∀ frontier, bus.frontier = some frontier →
      event.times.eventTime.less frontier.decisionTime = false) :
    { bus with heap := rest }.emit event = ({ bus with
      heap := rest
      last := some event
      emitted := bus.emitted + 1
      digest := TextDigest.hexdigest (bus.digest ++ event.eventId)
      frontier := some ⟨event.times.eventTime⟩ }, .ok ()) := by
  unfold EventBus.emit
  cases hfrontier : bus.frontier with
  | none => rfl
  | some frontier =>
    simp only [DecisionFrontier.advancedTo, hreached frontier hfrontier]
    rfl

theorem drainAll_sorted {entries : List MarketEvent}
    (hconsistent : Consistent MarketEvent.precedes entries) {fuel : ℕ} {bus : EventBus}
    (hfuel : bus.heap.length ≤ fuel) (hheap : ∀ event ∈ bus.heap, event ∈ entries)
    (hordered : Ordered MarketEvent.precedes bus.heap) (hreached : Reached bus) :
    ∃ events after, bus.drainAll fuel = .ok (events, after) ∧ events.Perm bus.heap ∧
      (events.Pairwise fun earlier later ↦ later.precedes earlier = false) ∧
      after.digest = digestOf bus.digest events := by
  induction fuel generalizing bus with
  | zero =>
    have hnil := List.eq_nil_of_length_eq_zero (Nat.le_zero.mp hfuel)
    exact ⟨[], bus, rfl, by rw [hnil], .nil, rfl⟩
  | succ fuel ih =>
    rw [EventBus.drainAll]
    cases hpop : heappop MarketEvent.precedes bus.heap with
    | none =>
      rw [heappop_eq_none_iff.mp hpop]
      exact ⟨[], bus, rfl, .refl _, .nil, rfl⟩
    | some popped =>
      obtain ⟨event, rest⟩ := popped
      have hperm := heappop_perm hpop
      have hevent := hperm.mem_iff.mpr (List.mem_cons_self ..)
      have hrest : ∀ other ∈ rest, other ∈ bus.heap :=
        fun other hother ↦ hperm.mem_iff.mpr (List.mem_cons_of_mem _ hother)
      have hleast := heappop_least precedes_asymm hconsistent hheap hordered hpop
      simp only [emit_reached fun frontier hfrontier ↦
        hreached frontier hfrontier event hevent]
      obtain ⟨events, after, hdrain, hevents, hsorted, hdigest⟩ := @ih { bus with
        heap := rest
        last := some event
        emitted := bus.emitted + 1
        digest := TextDigest.hexdigest (bus.digest ++ event.eventId)
        frontier := some ⟨event.times.eventTime⟩ }
        (by
          have hlength := hperm.length_eq
          rw [List.length_cons] at hlength
          simp only
          omega)
        (fun other hother ↦ hheap other (hrest other hother))
        (heappop_ordered precedes_asymm hconsistent hheap hordered hpop)
        (by
          intro frontier hfrontier other hother
          rw [← Option.some.inj hfrontier]
          exact SortKey.not_less_time (hleast other hother))
      rw [hdrain]
      refine ⟨event :: events, after, rfl, ?_, ?_, hdigest⟩
      · exact (hevents.cons event).trans hperm.symm
      · refine List.pairwise_cons.mpr ⟨?_, hsorted⟩
        exact fun other hother ↦ hleast other (hevents.mem_iff.mp hother)

variable {events : List MarketEvent}

/-- Distinct events with consistent keys are replayed in the order of their keys. -/
theorem replay_sorted (hdistinct : (events.map MarketEvent.eventId).Nodup)
    (hconsistent : Consistent MarketEvent.precedes events) :
    ∃ emitted, replay events = .ok (emitted, digestOf genesisDigest emitted) ∧
      emitted.Perm events ∧
      emitted.Pairwise fun earlier later ↦ later.precedes earlier = false := by
  have hdistinct' : ((events.reverse ++ []).map MarketEvent.eventId).Nodup := by
    rw [List.append_nil, List.map_reverse]
    exact List.nodup_reverse.mpr hdistinct
  obtain ⟨bus, hpush, hbus, hkept⟩ := buffering_fresh.pushAll hdistinct'
  have hperm : bus.heap.Perm events := by
    have hall := hbus.perm
    rw [List.append_nil] at hall
    exact hall.trans (List.reverse_perm events)
  have hordered : Ordered MarketEvent.precedes bus.heap := by
    refine hkept events hconsistent (fun _ hmem ↦ hmem) (by simp) ?_
    intro i child parent _ hchild
    cases hchild
  obtain ⟨emitted, after, hdrain, hemitted, hsorted, hdigest⟩ :=
    drainAll_sorted hconsistent (Nat.le_refl _) (fun event hmem ↦ hperm.mem_iff.mp hmem) hordered
      (by
        intro frontier hfrontier
        rw [hbus.frontier] at hfrontier
        cases hfrontier)
  refine ⟨emitted, ?_, hemitted.trans hperm, hsorted⟩
  rw [hbus.digest] at hdigest
  rw [replay, hpush]
  change (bus.drainAll bus.heap.length >>= _) = _
  rw [hdrain, ← hdigest]
  rfl

omit [TextDigest] in
/-- Two drains of the same events in the order of strict keys are the same. -/
theorem sorted_unique {emitted emitted' : List MarketEvent} (h : KeysOrdered events)
    (hdistinct : (events.map MarketEvent.eventId).Nodup) (hperm : emitted.Perm events)
    (hperm' : emitted'.Perm events)
    (hsorted : emitted.Pairwise fun earlier later ↦ later.precedes earlier = false)
    (hsorted' : emitted'.Pairwise fun earlier later ↦ later.precedes earlier = false) :
    emitted = emitted' := by
  refine List.Perm.eq_of_pairwise ?_ hsorted hsorted' (hperm.trans hperm'.symm)
  intro first second hfirst hsecond hle hle'
  have hfirst' := hperm.mem_iff.mp hfirst
  have hsecond' := hperm'.mem_iff.mp hsecond
  by_contra hne
  have hids : first.eventId ≠ second.eventId :=
    fun heq ↦ hne (List.inj_on_of_nodup_map hdistinct hfirst' hsecond' heq)
  rcases h.total first hfirst' second hsecond' hids with hless | hless
  · rw [hle'] at hless
    cases hless
  · rw [hle] at hless
    cases hless

theorem KeysOrdered.arrivalFree (h : KeysOrdered events) :
    ArrivalFree events := by
  intro shuffled hperm
  have hnodup := (hperm.map MarketEvent.eventId).nodup_iff
  split
  · rename_i hdistinct
    have hshuffled := h.subset hperm.subset
    obtain ⟨emitted, hreplay, hemitted, hsorted⟩ := replay_sorted hdistinct (h.consistent hdistinct)
    obtain ⟨emitted', hreplay', hemitted', hsorted'⟩ :=
      replay_sorted (hnodup.mpr hdistinct) (hshuffled.consistent (hnodup.mpr hdistinct))
    rw [hreplay, hreplay',
      sorted_unique h hdistinct hemitted (hemitted'.trans hperm) hsorted hsorted']
  · rename_i hduplicate
    have hshuffled : ¬ ((shuffled.reverse ++ []).map MarketEvent.eventId).Nodup := by
      rw [List.append_nil, List.map_reverse, List.nodup_reverse]
      exact hnodup.not.mpr hduplicate
    obtain ⟨event, hpush⟩ := buffering_fresh.pushAll_duplicate List.nodup_nil hshuffled
    exact ⟨event, by rw [replay, hpush]; rfl⟩

variable {first second : MarketEvent}

omit [TextDigest] in
/-- An event that does not sort before another one follows it. -/
theorem advanced_of_not_precedes (h : second.precedes first = false) :
    second.times.eventTime.less first.times.eventTime = false :=
  SortKey.not_less_time h

theorem replay_two (hids : first.eventId ≠ second.eventId) (h : second.precedes first = false) :
    ∃ digest, replay [first, second] = .ok ([first, second], digest) := by
  have htime := advanced_of_not_precedes h
  refine ⟨digestOf genesisDigest [first, second], ?_⟩
  simp [replay, EventBus.pushAll, EventBus.push, EventBus.refusal, EventBus.fresh, heappush,
    siftDown, EventBus.drainAll, heappop, siftUp, EventBus.emit, DecisionFrontier.advancedTo,
    Ne.symm hids, h, htime, digestOf, bind, Except.bind, pure, Except.pure]

theorem replay_circle {third : MarketEvent} (hids : first.eventId ≠ second.eventId)
    (hids' : second.eventId ≠ third.eventId) (hids'' : first.eventId ≠ third.eventId)
    (h : first.precedes second = true) (h' : second.precedes third = true)
    (h'' : third.precedes first = true) :
    ∃ digest, replay [first, second, third] = .ok ([third, first, second], digest) := by
  have hback := precedes_asymm _ _ h
  have hback' := precedes_asymm _ _ h'
  have hback'' := precedes_asymm _ _ h''
  have htime := advanced_of_not_precedes hback
  have htime'' := advanced_of_not_precedes hback''
  refine ⟨digestOf genesisDigest [third, first, second], ?_⟩
  simp [replay, EventBus.pushAll, EventBus.push, EventBus.refusal, EventBus.fresh, heappush,
    siftDown, EventBus.drainAll, heappop, siftUp, EventBus.emit, DecisionFrontier.advancedTo,
    Ne.symm hids, Ne.symm hids', Ne.symm hids'', h, h'', hback, htime, htime'', digestOf, bind,
    Except.bind, pure, Except.pure]

theorem ArrivalFree.eq_of_perm {shuffled : List MarketEvent} (h : ArrivalFree events)
    (hdistinct : (events.map MarketEvent.eventId).Nodup) (hperm : shuffled.Perm events) :
    replay shuffled = replay events := by
  have hboth := h shuffled hperm
  rwa [if_pos hdistinct] at hboth

/-- Arrival order does not leak from a list of events, nor from any part of it, exactly when the
keys of its events are those of one strict order. -/
theorem arrivalFree_parts_iff (events : List MarketEvent) :
    (∀ part : List MarketEvent, part.Subperm events → ArrivalFree part) ↔ KeysOrdered events := by
  constructor
  · intro h
    have htotal : ∀ first ∈ events, ∀ second ∈ events, first.eventId ≠ second.eventId →
        first.precedes second ∨ second.precedes first := by
      intro first hfirst second hsecond hids
      by_contra hneither
      rw [not_or, Bool.not_eq_true, Bool.not_eq_true] at hneither
      have hne : first ≠ second := fun heq ↦ hids (congrArg _ heq)
      have hpart : [first, second].Subperm events := by
        refine List.subperm_of_subset (by simp [hne]) ?_
        simp [hfirst, hsecond]
      obtain ⟨digest, hforth⟩ := replay_two hids hneither.2
      obtain ⟨digest', hback⟩ := replay_two (Ne.symm hids) hneither.1
      have hsame := (h _ hpart).eq_of_perm (by simp [hids]) (List.Perm.swap first second [])
      rw [hforth, hback] at hsame
      have hlists := (Prod.mk.inj (Except.ok.inj hsame)).1
      exact hne (List.cons.inj hlists).1.symm
    refine ⟨htotal, ?_⟩
    intro first hfirst second hsecond third hthird hids hids' hids'' hless hless'
    refine (htotal first hfirst third hthird hids'').resolve_right ?_
    intro hcircle
    have hne : first ≠ second := fun heq ↦ hids (congrArg _ heq)
    have hne' : second ≠ third := fun heq ↦ hids' (congrArg _ heq)
    have hne'' : first ≠ third := fun heq ↦ hids'' (congrArg _ heq)
    have hpart : [first, second, third].Subperm events := by
      refine List.subperm_of_subset (by simp [hne, hne', hne'']) ?_
      simp [hfirst, hsecond, hthird]
    obtain ⟨digest, hforth⟩ := replay_circle hids hids' hids'' hless hless' hcircle
    obtain ⟨digest', hround⟩ :=
      replay_circle hids' (Ne.symm hids'') (Ne.symm hids) hless' hcircle hless
    have hperm : [second, third, first].Perm [first, second, third] := by
      change ([second, third] ++ [first]).Perm ([first] ++ [second, third])
      exact List.perm_append_comm
    have hsame := (h _ hpart).eq_of_perm (by simp [hids, hids', hids'']) hperm
    rw [hforth, hround] at hsame
    have hlists := (Prod.mk.inj (Except.ok.inj hsame)).1
    exact hne'' (List.cons.inj hlists).1
  · intro h part hpart
    exact (h.subset hpart.subset).arrivalFree

end Drain

/-- Half past one in New York, before the clocks go back. -/
def newYorkSignal : MarketEvent := Session.signalAt (Session.newYork 90 (-240)) "evt_1"

/-- The same instant on a clock without daylight saving. -/
def universalSignal : MarketEvent := Session.signalAt (Session.universal 330) "evt_2"

example : newYorkSignal.times.eventTime.instant = universalSignal.times.eventTime.instant := by
  decide

/-- Neither of the two signals comes first, so the one that arrives first does. -/
theorem not_arrivalFree_sameInstant :
    ¬ @ArrivalFree Session.echoDigest [newYorkSignal, universalSignal] := by
  intro h
  have hids : newYorkSignal.eventId ≠ universalSignal.eventId := by decide
  obtain ⟨_, hforth⟩ := @replay_two Session.echoDigest _ _ hids (by decide)
  obtain ⟨_, hback⟩ := @replay_two Session.echoDigest _ _ (Ne.symm hids) (by decide)
  have hsame := @ArrivalFree.eq_of_perm Session.echoDigest _ _ h (by simp [hids])
    (List.Perm.swap newYorkSignal universalSignal [])
  rw [hforth, hback] at hsame
  have hlists := (Prod.mk.inj (Except.ok.inj hsame)).1
  exact hids (congrArg MarketEvent.eventId (List.cons.inj hlists).1).symm

end QuantAgent.Streaming
