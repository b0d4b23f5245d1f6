import QuantAgent.Domain.Timeline
import QuantAgent.Library.Run
import QuantAgent.Library.Selection

/-!
# The event bus

One queue of events, emitted in the order of their keys while a frontier moves forward.  A drain is
a generator: it does nothing until it is asked for an event, gives up control with every event it
emits, and may be left at any point, so any number of drains and publishers interleave on one bus.
-/

namespace QuantAgent.Streaming

open Library Domain Library.Run

/-- Every event a streaming run can carry. -/
inductive EventKind where
  | calendar
  | sessionOpen
  | corporateAction
  | securityState
  | suspension
  | priceLimit
  | quote
  | trade
  | bar
  | signal
  | target
  | riskDecision
  | order
  | cancel
  | venueCallback
  | fill
  | expiry
  | markToMarket
  | settlement
  | sessionClose
  | endOfDay
  deriving DecidableEq, Repr

def EventKind.value : EventKind → String
  | calendar => "CALENDAR"
  | sessionOpen => "SESSION_OPEN"
  | corporateAction => "CORPORATE_ACTION"
  | securityState => "SECURITY_STATE"
  | suspension => "SUSPENSION"
  | priceLimit => "PRICE_LIMIT"
  | quote => "QUOTE"
  | trade => "TRADE"
  | bar => "BAR"
  | signal => "SIGNAL"
  | target => "TARGET"
  | riskDecision => "RISK_DECISION"
  | order => "ORDER"
  | cancel => "CANCEL"
  | venueCallback => "VENUE_CALLBACK"
  | fill => "FILL"
  | expiry => "EXPIRY"
  | markToMarket => "MARK_TO_MARKET"
  | settlement => "SETTLEMENT"
  | sessionClose => "SESSION_CLOSE"
  | endOfDay => "END_OF_DAY"

/-- The kinds that describe the market rather than a reaction to it. -/
def marketKinds : List EventKind :=
  [.calendar, .sessionOpen, .corporateAction, .securityState, .suspension, .priceLimit, .quote,
    .trade, .bar, .sessionClose]

/-- One thing that happened, with everything needed to order it. -/
structure MarketEvent where
  kind : EventKind
  times : EventTime
  sequence : ℤ
  eventId : String

def MarketEvent.sortKey (event : MarketEvent) : SortKey :=
  orderingKey event.times event.kind.value event.sequence event.eventId

def MarketEvent.precedes (event other : MarketEvent) : Bool := event.sortKey.less other.sortKey

inductive BusError where
  | duplicateEvent (event : MarketEvent)
  | marketDataFromConsumer (event : MarketEvent)
  | lateArrival (event last : MarketEvent)
  | time (error : TimeError)

class TextDigest where
  hexdigest : String → String

def genesisDigest : String := "0000000000000000000000000000000000000000000000000000000000000000"

/-- A deterministic event queue with a moving frontier.  The heap is listed in order of arrival. -/
structure EventBus where
  heap : List MarketEvent
  emitted : ℕ
  digest : String
  last : Option MarketEvent
  seen : List String
  allowDuplicates : Bool
  draining : Bool
  frontier : Option DecisionFrontier

namespace EventBus

def fresh (allowDuplicates : Bool) : EventBus where
  heap := []
  emitted := 0
  digest := genesisDigest
  last := none
  seen := []
  allowDuplicates
  draining := false
  frontier := none

def refusal (bus : EventBus) (event : MarketEvent) : Option BusError :=
  if bus.allowDuplicates = false ∧ event.eventId ∈ bus.seen then some (.duplicateEvent event)
  else if bus.draining = true ∧ event.kind ∈ marketKinds then some (.marketDataFromConsumer event)
  else match bus.last with
    | some last => if event.precedes last then some (.lateArrival event last) else none
    | none => none

def publish (bus : EventBus) (event : MarketEvent) : EventBus × Except BusError Unit :=
  match bus.refusal event with
  | some error => (bus, .error error)
  | none => ({ bus with heap := bus.heap ++ [event], seen := event.eventId :: bus.seen }, .ok ())

section Emission

variable [TextDigest]

def emit (bus : EventBus) (event : MarketEvent) : EventBus × Except BusError Unit :=
  let recorded := { bus with
    last := some event
    emitted := bus.emitted + 1
    digest := TextDigest.hexdigest (bus.digest ++ event.eventId) }
  let moment := event.times.eventTime
  match bus.frontier with
  | none => ({ recorded with frontier := some ⟨moment⟩ }, .ok ())
  | some frontier =>
    match frontier.advancedTo moment with
    | .error error => (recorded, .error (.time error))
    | .ok advanced => ({ recorded with frontier := some advanced }, .ok ())

/-- One pass of the loop of a drain: the event it yields, if it does not end. -/
def pass (bus : EventBus) (limit : Option DateTime) :
    EventBus × Except BusError (Option MarketEvent) :=
  match takeLeast MarketEvent.precedes bus.heap with
  | none => (bus, .ok none)
  | some (event, rest) =>
    if limit.any (fun limit ↦ limit.less event.times.eventTime) then (bus, .ok none)
    else
      match { bus with heap := rest }.emit event with
      | (after, .error error) => (after, .error error)
      | (after, .ok ()) => ({ after with draining := true }, .ok (some event))

end Emission

end EventBus

/-- A generator of a drain: not asked yet, waiting for the consumer, or over. -/
inductive Drain where
  | created (until_ : Option Stamp)
  | waiting (limit : Option DateTime)
  | over

/-- The limit of a drain, computed when it is first asked for an event. -/
def limitOf : Option Stamp → Except BusError (Option DateTime)
  | none => .ok none
  | some stamp =>
    match ensureAware stamp with
    | .error error => .error (.time error)
    | .ok limit => .ok (some limit)

/-- A bus, the generators that were created on it, the events it accepted and those it emitted. -/
structure Session where
  bus : EventBus
  drains : List Drain
  accepted : List MarketEvent
  emissions : List MarketEvent

inductive Action where
  | publish (event : MarketEvent)
  | drain (until_ : Option Stamp)
  /-- Ask a generator for its next event. -/
  | next (index : ℕ)
  /-- Leave a generator: it is closed, or collected. -/
  | close (index : ℕ)

namespace Session

/-- A new bus that refuses duplicates. -/
def opening : Session := ⟨.fresh false, [], [], []⟩

variable [TextDigest]

/-- A generator goes on until it yields, ends or raises. -/
def resume (session : Session) (index : ℕ) (limit : Option DateTime) :
    Session × Except BusError (Option MarketEvent) :=
  match { session.bus with draining := false }.pass limit with
  | (bus, .ok (some event)) =>
    ({ session with
      bus
      drains := session.drains.set index (.waiting limit)
      emissions := session.emissions ++ [event] }, .ok (some event))
  | (bus, .ok none) => ({ session with bus, drains := session.drains.set index .over }, .ok none)
  | (bus, .error error) =>
    ({ session with bus, drains := session.drains.set index .over }, .error error)

/-- The session after an action, and what the action yields or raises. -/
def perform (session : Session) : Action → Session × Except BusError (Option MarketEvent)
  | .publish event =>
    match session.bus.publish event with
    | (bus, .error error) => ({ session with bus }, .error error)
    | (bus, .ok ()) => ({ session with bus, accepted := session.accepted ++ [event] }, .ok none)
  | .drain until_ => ({ session with drains := session.drains ++ [.created until_] }, .ok none)
  | .next index =>
    match session.drains[index]? with
    | some (.created until_) =>
      match limitOf until_ with
      | .error error =>
        ({ session with drains := session.drains.set index .over }, .error error)
      | .ok limit => session.resume index limit
    | some (.waiting limit) => session.resume index limit
    | _ => (session, .ok none)
  | .close index =>
    match session.drains[index]? with
    | some (.waiting _) =>
      ({ session with
        bus := { session.bus with draining := false }
        drains := session.drains.set index .over }, .ok none)
    | some (.created _) => ({ session with drains := session.drains.set index .over }, .ok none)
    | _ => (session, .ok none)

def step (session : Session) (action : Action) : Session := (session.perform action).1

end Session

end QuantAgent.Streaming
