import QuantAgent.Streaming.Bus

/-!
# Order and conservation on the event bus

Whatever publishers and drains do to one bus, the emitted events come in order, none is lost and
none comes twice, and the frontier stands at the last of them.  All of this rests on the order of
the keys being one: the comparison of two stamps of the same zone ignores their offsets, so the keys
of an hour that a clock passes twice can go round in a circle.
-/

namespace QuantAgent.Streaming

open Library Domain Library.Run

theorem precedes_asymm (first second : MarketEvent) (h : first.precedes second = true) :
    second.precedes first = false :=
  SortKey.less_asymm h

theorem precedes_irrefl (event : MarketEvent) : event.precedes event = false :=
  SortKey.less_irrefl _

namespace Session

/-- What the emitted and the pending events of a session are meant to satisfy. -/
structure InOrder (session : Session) : Prop where
  sorted : session.emissions.Pairwise fun earlier later ↦ later.precedes earlier = false
  distinct : (session.emissions.map MarketEvent.eventId).Nodup
  conserved : session.accepted.Perm (session.emissions ++ session.bus.heap)
  once : (session.accepted.map MarketEvent.eventId).Nodup
  frontier : session.bus.frontier.map DecisionFrontier.decisionTime =
    session.emissions.getLast?.map fun event ↦ event.times.eventTime

structure Tracked (session : Session) : Prop where
  strict : session.bus.allowDuplicates = false
  consistent : Consistent MarketEvent.precedes session.accepted
  seen : ∀ event ∈ session.accepted, event.eventId ∈ session.bus.seen
  once : (session.accepted.map MarketEvent.eventId).Nodup
  conserved : session.accepted.Perm (session.emissions ++ session.bus.heap)
  sorted : session.emissions.Pairwise fun earlier later ↦ later.precedes earlier = false
  ahead : ∀ earlier ∈ session.emissions, ∀ event ∈ session.bus.heap,
    event.precedes earlier = false
  last : session.bus.last = session.emissions.getLast?
  frontier : session.bus.frontier =
    session.emissions.getLast?.map fun event ↦ ⟨event.times.eventTime⟩

variable {session : Session}

theorem Tracked.inOrder (h : Tracked session) : InOrder session where
  sorted := h.sorted
  distinct := by
    have hmap : (session.accepted.map MarketEvent.eventId).Perm
        ((session.emissions ++ session.bus.heap).map MarketEvent.eventId) := h.conserved.map _
    have hall := hmap.nodup_iff.mp h.once
    rw [List.map_append] at hall
    exact (List.nodup_append.mp hall).1
  conserved := h.conserved
  once := h.once
  frontier := by
    rw [h.frontier, Option.map_map]
    rfl

theorem tracked_opening : Tracked opening where
  strict := rfl
  consistent := by
    intro first hfirst
    cases hfirst
  seen := by
    intro event hevent
    cases hevent
  once := List.nodup_nil
  conserved := .refl _
  sorted := .nil
  ahead := by
    intro earlier hearlier
    cases hearlier
  last := rfl
  frontier := rfl

variable {event : MarketEvent}

section

variable (h : Tracked session)
include h

theorem Tracked.mem_emissions (hmem : event ∈ session.emissions) :
    event ∈ session.accepted :=
  h.conserved.mem_iff.mpr (List.mem_append_left _ hmem)

theorem Tracked.mem_heap (hmem : event ∈ session.bus.heap) :
    event ∈ session.accepted :=
  h.conserved.mem_iff.mpr (List.mem_append_right _ hmem)

/-- The invariant does not see the flag of a drain, nor the generators. -/
theorem Tracked.of_same {after : Session}
    (hbus : ∃ draining, after.bus = { session.bus with draining })
    (haccepted : after.accepted = session.accepted)
    (hemissions : after.emissions = session.emissions) : Tracked after := by
  obtain ⟨draining, hbus⟩ := hbus
  exact {
    strict := by rw [hbus]; exact h.strict
    consistent := by rw [haccepted]; exact h.consistent
    seen := by rw [haccepted, hbus]; exact h.seen
    once := by rw [haccepted]; exact h.once
    conserved := by rw [haccepted, hemissions, hbus]; exact h.conserved
    sorted := by rw [hemissions]; exact h.sorted
    ahead := by rw [hemissions, hbus]; exact h.ahead
    last := by rw [hemissions, hbus]; exact h.last
    frontier := by rw [hemissions, hbus]; exact h.frontier }

/-- An accepted event does not sort before any emitted one. -/
theorem Tracked.not_precedes_emitted (haccepts : session.bus.refusal event = none)
    (hconsistent : Consistent MarketEvent.precedes (event :: session.accepted)) :
    ∀ earlier ∈ session.emissions, event.precedes earlier = false := by
  intro earlier hearlier
  obtain ⟨before, last, hemissions⟩ : ∃ before last, session.emissions = before ++ [last] :=
    (List.eq_nil_or_concat' session.emissions).resolve_left (List.ne_nil_of_mem hearlier)
  have hlast : session.bus.last = some last := by rw [h.last, hemissions]; simp
  have hlate : event.precedes last = false := by
    unfold EventBus.refusal at haccepts
    rw [hlast] at haccepts
    split at haccepts
    · cases haccepts
    · split at haccepts
      · cases haccepts
      · simpa using haccepts
  have hsorted := h.sorted
  rw [hemissions, List.pairwise_append] at hsorted
  rw [hemissions, List.mem_append, List.mem_singleton] at hearlier
  rcases hearlier with hbefore | rfl
  · have hearlier : earlier ∈ session.emissions := by
      rw [hemissions]
      exact List.mem_append_left _ hbefore
    have hmem : last ∈ session.emissions := by
      rw [hemissions]
      exact List.mem_append_right _ (List.mem_singleton_self _)
    exact hconsistent earlier (List.mem_cons_of_mem _ (h.mem_emissions hearlier)) last
      (List.mem_cons_of_mem _ (h.mem_emissions hmem)) event (List.mem_cons_self ..)
      (hsorted.2.2 earlier hbefore last (List.mem_singleton_self _)) hlate
  · exact hlate

theorem Tracked.publish (haccepts : session.bus.refusal event = none)
    (hconsistent : Consistent MarketEvent.precedes (event :: session.accepted)) :
    Tracked { session with
      bus := { session.bus with
        heap := session.bus.heap ++ [event]
        seen := event.eventId :: session.bus.seen }
      accepted := session.accepted ++ [event] } where
  strict := h.strict
  consistent := by
    refine hconsistent.subset ?_
    intro other hother
    simpa [or_comm] using hother
  seen := by
    intro other hother
    rcases List.mem_append.mp hother with hknown | hnew
    · exact List.mem_cons_of_mem _ (h.seen other hknown)
    · rw [List.mem_singleton.mp hnew]
      exact List.mem_cons_self ..
  once := by
    have hnew : event.eventId ∉ session.bus.seen := by
      intro hseen
      simp [EventBus.refusal, h.strict, hseen] at haccepts
    rw [List.map_append, List.nodup_append]
    refine ⟨h.once, by simp, fun id hid other hother ↦ ?_⟩
    obtain ⟨known, hknown, rfl⟩ := List.mem_map.mp hid
    obtain rfl : other = event.eventId := by simpa using hother
    exact fun hsame ↦ hnew (hsame ▸ h.seen known hknown)
  conserved := by
    rw [← List.append_assoc]
    exact h.conserved.append_right _
  sorted := h.sorted
  ahead := by
    intro earlier hearlier other hother
    rcases List.mem_append.mp hother with hpending | hnew
    · exact h.ahead earlier hearlier other hpending
    · rw [List.mem_singleton.mp hnew]
      exact h.not_precedes_emitted haccepts hconsistent earlier hearlier
  last := h.last
  frontier := h.frontier

end

section Steps

variable [TextDigest]

variable {session : Session} {event : MarketEvent}

theorem perform_refused {error : BusError} (h : session.bus.refusal event = some error) :
    session.perform (.publish event) = (session, .error error) := by
  simp [perform, EventBus.publish, h]

theorem perform_accepted (h : session.bus.refusal event = none) :
    session.perform (.publish event) = ({ session with
      bus := { session.bus with
        heap := session.bus.heap ++ [event]
        seen := event.eventId :: session.bus.seen }
      accepted := session.accepted ++ [event] }, .ok none) := by
  simp [perform, EventBus.publish, h]

/-- Emitting the smallest pending event moves the frontier and never raises. -/
theorem Tracked.emit (h : Tracked session) {rest : List MarketEvent}
    (htake : takeLeast MarketEvent.precedes session.bus.heap = some (event, rest)) :
    ∃ bus, { session.bus with heap := rest }.emit event = (bus, .ok ()) ∧
      ∀ drains draining, Tracked {
        bus := { bus with draining }
        drains
        accepted := session.accepted
        emissions := session.emissions ++ [event] } := by
  have hperm := perm_of_takeLeast htake
  have hevent := hperm.mem_iff.mpr (List.mem_cons_self ..)
  have hleast : ∀ other ∈ rest, other.precedes event = false := by
    refine least_of_takeLeast precedes_asymm ?_ htake
    exact h.consistent.subset fun other hother ↦ h.mem_heap hother
  have hadvance : ∀ frontier, session.bus.frontier = some frontier →
      frontier.advancedTo event.times.eventTime = .ok ⟨event.times.eventTime⟩ := by
    intro frontier hfrontier
    rw [h.frontier] at hfrontier
    obtain ⟨last, hlast, rfl⟩ := Option.map_eq_some_iff.mp hfrontier
    have hahead := h.ahead last (List.mem_of_getLast? hlast) event hevent
    have htime : event.times.eventTime.less last.times.eventTime = false :=
      SortKey.not_less_time hahead
    rw [DecisionFrontier.advancedTo, htime]
    rfl
  refine ⟨{ session.bus with
    heap := rest
    last := some event
    emitted := session.bus.emitted + 1
    digest := TextDigest.hexdigest (session.bus.digest ++ event.eventId)
    frontier := some ⟨event.times.eventTime⟩ }, ?_, fun drains draining ↦ ?_⟩
  · unfold EventBus.emit
    cases hfrontier : session.bus.frontier with
    | none => rfl
    | some frontier => simp only [hadvance frontier hfrontier]
  · exact {
      strict := h.strict
      consistent := h.consistent
      seen := h.seen
      once := h.once
      conserved := by
        rw [List.append_assoc]
        exact h.conserved.trans (hperm.append_left _)
      sorted := by
        rw [List.pairwise_append]
        refine ⟨h.sorted, List.pairwise_singleton .., fun earlier hearlier later hlater ↦ ?_⟩
        rw [List.mem_singleton.mp hlater]
        exact h.ahead earlier hearlier event hevent
      ahead := by
        intro earlier hearlier other hother
        rcases List.mem_append.mp hearlier with hbefore | hlast
        · exact h.ahead earlier hbefore other (hperm.mem_iff.mpr (List.mem_cons_of_mem _ hother))
        · rw [List.mem_singleton.mp hlast]
          exact hleast other hother
      last := by simp
      frontier := by simp }

/-- A generator that goes on keeps the invariant and raises nothing. -/
theorem Tracked.resume (h : Tracked session) (index : ℕ) (limit : Option DateTime) :
    Tracked (session.resume index limit).1 ∧
      ∃ yielded, (session.resume index limit).2 = .ok yielded := by
  unfold Session.resume EventBus.pass
  have hidle : ∀ drains, Tracked { session with
      bus := { session.bus with draining := false }, drains } :=
    fun drains ↦ h.of_same ⟨false, rfl⟩ rfl rfl
  simp only
  cases htake : takeLeast MarketEvent.precedes session.bus.heap with
  | none => exact ⟨hidle _, none, rfl⟩
  | some taken =>
    obtain ⟨event, rest⟩ := taken
    simp only
    by_cases hlimit : limit.any (fun limit ↦ limit.less event.times.eventTime) = true
    · rw [if_pos hlimit]
      exact ⟨hidle _, none, rfl⟩
    · rw [if_neg hlimit]
      obtain ⟨bus, hemit, htracked⟩ := (hidle session.drains).emit htake
      simp only at hemit
      rw [hemit]
      exact ⟨htracked _ _, some event, rfl⟩

/-- What is refused changes nothing, and the frontier never moves back. -/
structure Steady (session : Session) (action : Action) : Prop where
  refused : ∀ event error, action = .publish event → (session.perform action).2 = .error error →
    session.step action = session
  advances : ∀ current target,
    (session.perform action).2 ≠ .error (.time (.frontierRetreat current target))

/-- The keys of the accepted events and of one that is accepted next are those of an order. -/
def Comparable (session : Session) : Action → Prop
  | .publish event => session.bus.refusal event = none →
      Consistent MarketEvent.precedes (event :: session.accepted)
  | _ => True

theorem Tracked.step {action : Action} (h : Tracked session)
    (hcomparable : Comparable session action) : Tracked (session.step action) := by
  cases action with
  | publish event =>
    unfold Session.step
    cases hrefusal : session.bus.refusal event with
    | some error =>
      rw [perform_refused hrefusal]
      exact h
    | none =>
      rw [perform_accepted hrefusal]
      exact h.publish hrefusal (hcomparable hrefusal)
  | drain until_ => exact h.of_same ⟨session.bus.draining, rfl⟩ rfl rfl
  | next index =>
    unfold Session.step perform
    simp only
    split
    · split
      · exact h.of_same ⟨session.bus.draining, rfl⟩ rfl rfl
      · exact (h.resume index _).1
    · exact (h.resume index _).1
    · exact h
  | close index =>
    unfold Session.step perform
    simp only
    split
    · exact h.of_same ⟨false, rfl⟩ rfl rfl
    · exact h.of_same ⟨session.bus.draining, rfl⟩ rfl rfl
    · exact h

omit [TextDigest] in
theorem limitOf_error {until_ : Option Stamp} {error : BusError}
    (h : limitOf until_ = .error error) : ∃ text, error = .time (.naiveTimestamp text) := by
  cases until_ with
  | none => cases h
  | some stamp =>
    cases stamp with
    | aware moment => cases h
    | naive text => exact ⟨text, (Except.error.inj h).symm⟩

theorem Tracked.steady (h : Tracked session) (action : Action) :
    Steady session action where
  refused := by
    intro event error haction hraised
    subst haction
    unfold Session.step
    cases hrefusal : session.bus.refusal event with
    | some refused => rw [perform_refused hrefusal]
    | none =>
      rw [perform_accepted hrefusal] at hraised
      cases hraised
  advances := by
    intro current target hraised
    cases action with
    | publish event =>
      cases hrefusal : session.bus.refusal event with
      | some refused =>
        rw [perform_refused hrefusal] at hraised
        rw [Except.error.inj hraised] at hrefusal
        unfold EventBus.refusal at hrefusal
        grind
      | none =>
        rw [perform_accepted hrefusal] at hraised
        cases hraised
    | drain until_ => cases hraised
    | next index =>
      unfold perform at hraised
      simp only at hraised
      split at hraised
      · split at hraised
        · rename_i error herror
          obtain ⟨text, rfl⟩ := limitOf_error herror
          cases hraised
        · obtain ⟨yielded, hyielded⟩ := (h.resume index _).2
          rw [hyielded] at hraised
          cases hraised
      · obtain ⟨yielded, hyielded⟩ := (h.resume index _).2
        rw [hyielded] at hraised
        cases hraised
      · cases hraised
    | close index =>
      unfold perform at hraised
      simp only at hraised
      split at hraised <;> cases hraised

/-- In every run whose accepted events have comparable keys, the emissions are in order, conserved
and distinct, the frontier stands at the last of them, and it never has to move back. -/
theorem inOrder_of_comparable (actions : List Action)
    (hcomparable : Always step Comparable opening actions) :
    Throughout step InOrder opening actions ∧ Always step Steady opening actions := by
  have htracked := throughout_of_step (fun _ _ h ↦ h.step) tracked_opening hcomparable
  exact ⟨htracked.imp fun _ h ↦ h.inOrder, htracked.always fun _ action h ↦ h.steady action⟩

end Steps

/-- A digest that keeps what it is given; nothing here reads it. -/
@[reducible] def echoDigest : TextDigest := ⟨id⟩

/-- A minute of the clocks in New York on the third of November 2024, which go back an hour. -/
def newYork (minute utcOffset : ℤ) : DateTime where
  wall := (20030 * 1440 + minute) * 60000000
  zone := 1
  utcOffset := utcOffset * 60000000
  ambiguous := true

/-- A minute of the same day on a clock without daylight saving. -/
def universal (minute : ℤ) : DateTime where
  wall := (20030 * 1440 + minute) * 60000000
  zone := 0
  utcOffset := 0
  ambiguous := false

def signalAt (moment : DateTime) (eventId : String) : MarketEvent where
  kind := .signal
  times := .immediate moment
  sequence := 0
  eventId

/-- Half past one, before the clocks go back. -/
def firstSignal : MarketEvent := signalAt (newYork 90 (-240)) "evt_1"

def secondSignal : MarketEvent := signalAt (universal 345) "evt_2"

/-- Twenty past one, after the clocks went back. -/
def thirdSignal : MarketEvent := signalAt (newYork 80 (-300)) "evt_3"

def twiceShown : List Action :=
  [.publish firstSignal, .drain none, .next 0, .publish secondSignal, .next 0,
    .publish thirdSignal, .next 0]

theorem emissions_twiceShown : (run (@step echoDigest) opening twiceShown).emissions =
    [firstSignal, secondSignal, thirdSignal] := by
  rfl

/-- Each signal is later than the one before it, and the third sorts before the first. -/
theorem not_inOrder_twiceShown : ¬ Throughout (@step echoDigest) InOrder opening twiceShown := by
  intro hall
  have hsorted := hall.last.sorted
  rw [emissions_twiceShown] at hsorted
  simp only [List.pairwise_cons] at hsorted
  have hprecedes : thirdSignal.precedes firstSignal = true := by decide
  rw [hsorted.1 thirdSignal (by simp)] at hprecedes
  cases hprecedes

/-- The first two signals alone are in order. -/
theorem inOrder_of_comparable_twoSignals :
    Throughout (@step echoDigest) InOrder opening (twiceShown.take 5) ∧
      Always (@step echoDigest) (@Steady echoDigest) opening (twiceShown.take 5) := by
  have hself : ∀ event : MarketEvent, event.precedes event = false := fun _ ↦
    SortKey.less_irrefl _
  have hlater : secondSignal.precedes firstSignal = false := by decide
  have hearlier : firstSignal.precedes secondSignal = true := by decide
  refine @inOrder_of_comparable echoDigest _ ⟨fun _ ↦ ?_, trivial, trivial, fun _ ↦ ?_, trivial,
    trivial⟩
  · change Consistent MarketEvent.precedes [firstSignal]
    simp [Consistent, hself]
  · change Consistent MarketEvent.precedes [secondSignal, firstSignal]
    simp [Consistent, hself, hlater, hearlier]

end Session

end QuantAgent.Streaming
