import QuantAgent.Domain.AccountReplay
import QuantAgent.Domain.Mirror
import QuantAgent.MarketRules.Ashare
import QuantAgent.Streaming.Bus

/-!
# The streaming order life cycle

A consumer that folds order events onto the book and its ledger and keeps no economic state of its
own: only which canonical order a client id stands for, and the session it belongs to.  An event is
carried here with its payload, and the bus by what it orders events with.
-/

namespace QuantAgent.Streaming

open Library Domain MarketRules

structure OrderTerms where
  clientOrderId : String
  side : Side
  quantity : ℚ
  limitPrice : Option ℚ
  referencePrice : Option ℚ
  board : Board
  previousClose : Option ℚ
  isSt : Bool
  isFullLiquidation : Bool
  previous_pos : ∀ previous ∈ previousClose, 0 < previous

structure BarTerms where
  close : ℚ
  volume : ℚ
  board : Board
  isSuspended : Bool
  previousClose : Option ℚ
  isSt : Bool
  previous_pos : ∀ previous ∈ previousClose, 0 < previous

structure FillTerms where
  clientOrderId : String
  executionId : String
  quantity : ℚ
  price : ℚ
  commission : ℚ
  stampDuty : ℚ
  transferFee : ℚ

inductive VenueReply where
  | accepted
  | rejected
  | other (status : String)
  deriving DecidableEq, Repr

inductive Payload where
  | order (terms : OrderTerms)
  | cancel (clientOrderId : String) (reason : Option String)
  | venueCallback (clientOrderId : String) (status : VenueReply) (reason : Option String)
  | fill (terms : FillTerms)
  | expiry (clientOrderId : String) (reason : Option String)
  | bar (terms : BarTerms)
  /-- Any other kind: neither consumer reads it. -/
  | none_ (kind : EventKind)

def Payload.kind : Payload → EventKind
  | order _ => .order
  | cancel .. => .cancel
  | venueCallback .. => .venueCallback
  | fill _ => .fill
  | expiry .. => .expiry
  | bar _ => .bar
  | none_ kind => kind

structure Notice where
  times : EventTime
  symbol : String
  sequence : ℤ
  payload : Payload

class StreamTexts where
  /-- `event_time.date().isoformat()`. -/
  session : DateTime → String
  /-- `event_time.isoformat()`. -/
  iso : DateTime → String
  /-- The content-addressed id of an event. -/
  eventId : Notice → String

/-- The parts of a payload that tell events of one kind and time apart. -/
def Payload.identity : Payload → String
  | order terms => terms.clientOrderId
  | cancel clientOrderId _ => clientOrderId
  | venueCallback clientOrderId status reason =>
    clientOrderId ++ "|" ++ (match status with
      | .accepted => "ACCEPTED"
      | .rejected => "REJECTED"
      | .other status => status) ++ "|" ++ reason.getD ""
  | fill terms => terms.clientOrderId ++ "|" ++ terms.executionId
  | expiry clientOrderId _ => clientOrderId
  | bar _ => ""
  | none_ _ => ""

/-- Ids that name an event in plain text, and days of one month of 24 hours. -/
instance : StreamTexts where
  session moment :=
    let day := moment.wall / 86400000000 + 1
    "2026-01-" ++ (if day < 10 then "0" else "") ++ toString day
  iso moment := toString moment.wall
  eventId notice := notice.payload.kind.value ++ "|" ++ toString notice.times.eventTime.wall ++ "|" ++
    notice.symbol ++ "|" ++ toString notice.sequence ++ "|" ++ notice.payload.identity

instance : TextDigest where
  hexdigest := characterDigest

def Notice.event [StreamTexts] (notice : Notice) : MarketEvent where
  kind := notice.payload.kind
  times := notice.times
  sequence := notice.sequence
  eventId := StreamTexts.eventId notice

def Notice.session [StreamTexts] (notice : Notice) : String :=
  StreamTexts.session notice.times.eventTime

inductive StreamError where
  | unroutable (clientOrderId : String)
  | unknownReply (status : String)
  | unknownOrder (orderId : String)
  | order (error : OrderError)
  | mirror (error : MirrorError)
  | account (error : CanonicalLedger.AccountReplayError)
  | rule (error : RuleError)
  | bus (error : BusError)

/-- `OrderLifecycle`; `handled` counts the order events. -/
structure OrderLifecycle where
  mirror : Mirror ℚ
  lineage : Lineage
  initialCash : ℚ
  canonicalIds : Dict String String
  sessions : Dict String String
  handled : ℕ

namespace OrderLifecycle

def fresh (durable : Bool) (lineage : Lineage) (initialCash : ℚ) : OrderLifecycle where
  mirror := .fresh durable
  lineage
  initialCash
  canonicalIds := .empty
  sessions := .empty
  handled := 0

variable [Hashing ℚ]

/-- `mirror_event`, with the clock and the write of the moment. -/
def mirrored (clock : ℕ → Moment) (lifecycle : OrderLifecycle) (orderId : String)
    (kind : OrderEventType) (fill : Option (Fill ℚ)) (reason : Option String) (session : String) :
    OrderLifecycle × Except StreamError Unit :=
  match lifecycle.mirror.mirrorEvent (clock lifecycle.mirror.book.events.length) orderId kind fill
      reason none (some session) with
  | (mirror, .ok _) => ({ lifecycle with mirror }, .ok ())
  | (mirror, .error error) => ({ lifecycle with mirror }, .error (.mirror error))

/-- Events without a fill, one after another, as long as none is refused. -/
def mirroredAll (clock : ℕ → Moment) (lifecycle : OrderLifecycle) (orderId session : String) :
    List (OrderEventType × Option String) → OrderLifecycle × Except StreamError Unit
  | [] => (lifecycle, .ok ())
  | (kind, reason) :: rest =>
    match lifecycle.mirrored clock orderId kind none reason session with
    | (lifecycle, .error error) => (lifecycle, .error error)
    | (lifecycle, .ok ()) => mirroredAll clock lifecycle orderId session rest

/-- `_resolve`: the canonical order of a client id and its session. -/
def resolve (lifecycle : OrderLifecycle) (clientOrderId : String) :
    Except StreamError (String × String) :=
  match lifecycle.canonicalIds.get? clientOrderId with
  | none => .error (.unroutable clientOrderId)
  | some canonicalId => .ok (canonicalId, (lifecycle.sessions.get? clientOrderId).getD "")

/-- `account`: what the chain replays to. -/
def account (lifecycle : OrderLifecycle) : Except StreamError AccountState :=
  match lifecycle.mirror.ledger.replay "" lifecycle.initialCash with
  | .error error => .error (.account error)
  | .ok (_, account) => .ok account

section Handlers

variable [StreamTexts] (clock : ℕ → Moment) (lifecycle : OrderLifecycle)

def intentOf (notice : Notice) (terms : OrderTerms) : Except OrderError (OrderIntent ℚ) :=
  let signal := Signal.create (N := ℚ) notice.symbol
    (notice.session ++ "-" ++ terms.clientOrderId) lifecycle.lineage
  OrderIntent.create notice.symbol terms.side (truncate terms.quantity) notice.session signal
    terms.limitPrice terms.referencePrice

/-- `_on_order`. -/
def onOrder (notice : Notice) (terms : OrderTerms) : OrderLifecycle × Except StreamError Unit :=
  match lifecycle.intentOf notice terms with
  | .error error => (lifecycle, .error (.order error))
  | .ok intent =>
    match lifecycle.mirror.mirrorOpen (clock lifecycle.mirror.book.events.length) intent none
        (some notice.session) with
    | (mirror, .error error) => ({ lifecycle with mirror }, .error (.mirror error))
    | (mirror, .ok canonical) =>
      { lifecycle with
        mirror
        canonicalIds := lifecycle.canonicalIds.insert terms.clientOrderId canonical.orderId
        sessions := lifecycle.sessions.insert terms.clientOrderId notice.session }.mirroredAll
        clock canonical.orderId notice.session [(.riskApproved, none), (.submitted, none)]

/-- `_on_callback`. -/
def onCallback (clientOrderId : String) (status : VenueReply) (reason : Option String) :
    OrderLifecycle × Except StreamError Unit :=
  match lifecycle.resolve clientOrderId with
  | .error error => (lifecycle, .error error)
  | .ok (canonicalId, session) =>
    match status with
    | .accepted => lifecycle.mirrored clock canonicalId .accepted none reason session
    | .rejected => lifecycle.mirrored clock canonicalId .rejected none reason session
    | .other status => (lifecycle, .error (.unknownReply status))

def executionOf (notice : Notice) (terms : FillTerms) (canonicalId : String)
    (canonical : Order ℚ) : Fill ℚ where
  executionId := terms.executionId
  orderId := canonicalId
  symbol := canonical.symbol
  side := canonical.side
  quantity := truncate terms.quantity
  price := terms.price
  referencePrice :=
    match canonical.limitPrice with
    | some limit => if limit = 0 then canonical.referencePrice else some limit
    | none => canonical.referencePrice
  commission := terms.commission
  stampDuty := terms.stampDuty
  transferFee := terms.transferFee
  filledAt := StreamTexts.iso notice.times.eventTime
  lineage := canonical.lineage.derive .executionId (some terms.executionId)

/-- `_on_fill`. -/
def onFill (notice : Notice) (terms : FillTerms) : OrderLifecycle × Except StreamError Unit :=
  match lifecycle.resolve terms.clientOrderId with
  | .error error => (lifecycle, .error error)
  | .ok (canonicalId, session) =>
    match lifecycle.mirror.book.orders.get? canonicalId with
    | none => (lifecycle, .error (.unknownOrder canonicalId))
    | some canonical =>
      let fill := executionOf notice terms canonicalId canonical
      let kind : OrderEventType :=
        if canonical.quantity ≤ canonical.filledQuantity + fill.quantity then .fill
        else .partialFill
      lifecycle.mirrored clock canonicalId kind (some fill) none session

/-- `str(reason or default)`. -/
def reasonOr (reason : Option String) (default : String) : String :=
  match reason with
  | none => default
  | some text => if text = "" then default else text

/-- `_on_cancel` and `_on_expiry`: events for an order that is not terminal. -/
def onEnd (clientOrderId : String) (events : List (OrderEventType × Option String)) :
    OrderLifecycle × Except StreamError Unit :=
  match lifecycle.resolve clientOrderId with
  | .error error => (lifecycle, .error error)
  | .ok (canonicalId, session) =>
    match lifecycle.mirror.book.orders.get? canonicalId with
    | none => (lifecycle, .error (.unknownOrder canonicalId))
    | some canonical =>
      if canonical.isTerminal then (lifecycle, .ok ())
      else lifecycle.mirroredAll clock canonicalId session events

/-- `_on_cancel`. -/
def onCancel (clientOrderId : String) (reason : Option String) :
    OrderLifecycle × Except StreamError Unit :=
  lifecycle.onEnd clock clientOrderId
    [(.cancelRequested, none), (.cancelled, some (reasonOr reason "operator_cancel"))]

/-- `_on_expiry`. -/
def onExpiry (clientOrderId : String) (reason : Option String) :
    OrderLifecycle × Except StreamError Unit :=
  lifecycle.onEnd clock clientOrderId [(.expired, some (reasonOr reason "end_of_session"))]

/-- What the handler of an event does, when its kind has one. -/
def route (notice : Notice) : Option (OrderLifecycle × Except StreamError Unit) :=
  match notice.payload with
  | .order terms => some (lifecycle.onOrder clock notice terms)
  | .venueCallback clientOrderId status reason =>
    some (lifecycle.onCallback clock clientOrderId status reason)
  | .fill terms => some (lifecycle.onFill clock notice terms)
  | .cancel clientOrderId reason => some (lifecycle.onCancel clock clientOrderId reason)
  | .expiry clientOrderId reason => some (lifecycle.onExpiry clock clientOrderId reason)
  | .bar _ => none
  | .none_ _ => none

/-- `handle`. -/
def handle (notice : Notice) : OrderLifecycle × Except StreamError Unit :=
  match lifecycle.route clock notice with
  | none => (lifecycle, .ok ())
  | some (after, .ok ()) => ({ after with handled := after.handled + 1 }, .ok ())
  | some (after, .error error) => (after, .error error)

end Handlers

end OrderLifecycle

end QuantAgent.Streaming
