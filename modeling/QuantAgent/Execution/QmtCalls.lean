import QuantAgent.Execution.QmtGateway

/-!
# Overlapping calls of a gateway

One process runs a gateway: calls that wait for the broker, callbacks and queries overlap.  A call
that waits keeps what it has read; what it does between two waits is one step, and so is the
recording of one row.
-/

namespace QuantAgent.Execution

open Library Domain

/-- An order that was handed to the broker, and the client order it stands for. -/
structure Sent (V N : Type) where
  clientOrderId : String
  request : StockOrder V N

inductive Call (V N : Type) where
  /-- The identity is claimed and the order is about to be sent. -/
  | sending (order : Order N) (request : StockOrder V N)
  /-- The order is sent and the answer is not there. -/
  | submitting (order : Order N)
  /-- A cancel request for an order without an entry queries the broker first. -/
  | lookingUp (clientOrderId : String)
  | cancelling (clientOrderId : String) (current : OrderState N)
  /-- An error report has read the entry it replaces. -/
  | rejecting (clientId brokerId message : String) (current : Option (OrderState N))

/-- A process with its gateway, the identity file and the orders that reached the broker. -/
structure Host (V N : Type) where
  gateway : QMTGateway V N
  calls : List (Call V N)
  file : Option (List Char)
  sent : List (Sent V N)

inductive Action (V N : Type) where
  | submit (order : Order N) (now : ClaimTime)
  | orderStock (call : ℕ)
  | submitReturned (call : ℕ) (answer : Option V)
  | cancel (clientOrderId : String)
  | lookedUp (call : ℕ)
  /-- The answer in words; `none` is the answer `0`. -/
  | cancelReturned (call : ℕ) (failure : Option String)
  /-- A call raises. -/
  | abandon (call : ℕ)
  /-- A callback, or a row of a query. -/
  | ingest (row : OrderRow V) (source : String)
  | errorReported (error : OrderErrorRow V)
  | errorRecorded (call : ℕ)
  | startPreflight
  | endPreflight (failures : List String)
  | bindLiveClient (constants : XtConstants V)
  | disconnect
  | onConnected
  | onDisconnected
  /-- Another process writes to the identity file. -/
  | elsewhere (file : Option (List Char))

namespace Host

variable {V N : Type}

def begin (h : Host V N) (call : Call V N) : Host V N := { h with calls := h.calls ++ [call] }

def finish (h : Host V N) (i : ℕ) (gateway : QMTGateway V N) : Host V N :=
  { h with gateway, calls := h.calls.eraseIdx i }

/-- `submit` up to the moment the order is sent. -/
def submit [Documents N] [NumText N] [BrokerValue V N] [PyText] [Sha1] (h : Host V N)
    (order : Order N) (now : ClaimTime) : Host V N :=
  if (h.gateway.orders.get? order.clientOrderId).isSome then h
  else if h.gateway.config.dryRun then
    { h with gateway := h.gateway.record (QMTGateway.dryRunState V order) }
  else match h.gateway.submitChecks order with
    | .error _ => h
    | .ok constants =>
      match h.gateway.registerClientIdentity h.file order.clientOrderId now with
      | (gateway, file, .error _) => { h with gateway, file }
      | (gateway, file, .ok remark) =>
        { h with gateway, file }.begin
          (.sending order (gateway.stockOrder constants order remark))

/-- `cancel` from the entry it found on, up to the request. -/
def requestCancel (h : Host V N) (clientOrderId : String) (current : OrderState N) : Host V N :=
  if current.status.terminal ∨ current.brokerOrderId.getD "" = "" then h
  else h.begin (.cancelling clientOrderId current)

/-- `cancel` up to the first wait. -/
def cancel [BrokerValue V N] (h : Host V N) (clientOrderId : String) : Host V N :=
  if h.gateway.config.dryRun then
    let current := h.gateway.orders.get? clientOrderId
    { h with gateway := h.gateway.record (QMTGateway.dryRunCancelled V current clientOrderId) }
  else match h.gateway.ensureConnected true with
    | .error _ => h
    | .ok _ =>
      match h.gateway.orders.get? clientOrderId with
      | some current => h.requestCancel clientOrderId current
      | none => h.begin (.lookingUp clientOrderId)

/-- `cancel` after it queried the broker. -/
def lookedUp (h : Host V N) (i : ℕ) (clientOrderId : String) : Host V N :=
  let h := h.finish i h.gateway
  match h.gateway.orders.get? clientOrderId with
  | some current => h.requestCancel clientOrderId current
  | none => h

/-- `_ingest_order_error` up to the entry it reads. -/
def errorReported [BrokerValue V N] (h : Host V N) (error : OrderErrorRow V) : Host V N :=
  let brokerId := textAttr error.orderId
  let clientId := (h.gateway.brokerToClient.get? brokerId).getD ""
  if clientId = "" then h
  else h.begin (.rejecting clientId brokerId (QMTGateway.errorText error)
    (h.gateway.orders.get? clientId))

def cancelMessage (failure : Option String) : String :=
  failure.elim "cancel_requested" ("cancel_request_failed:" ++ ·)

def step [Documents N] [NumText N] [BrokerValue V N] [PyText] [Sha1] (h : Host V N) :
    Action V N → Host V N
  | .submit order now => h.submit order now
  | .orderStock i =>
    match h.calls[i]? with
    | some (.sending order request) =>
      { h with
        calls := h.calls.set i (.submitting order)
        sent := h.sent ++ [⟨order.clientOrderId, request⟩] }
    | _ => h
  | .submitReturned i answer =>
    match h.calls[i]? with
    | some (.submitting order) => h.finish i (h.gateway.submitReturned order answer).1
    | _ => h
  | .cancel clientOrderId => h.cancel clientOrderId
  | .lookedUp i =>
    match h.calls[i]? with
    | some (.lookingUp clientOrderId) => h.lookedUp i clientOrderId
    | _ => h
  | .cancelReturned i failure =>
    match h.calls[i]? with
    | some (.cancelling clientOrderId current) =>
      h.finish i (h.gateway.record
        (QMTGateway.cancelState current clientOrderId (cancelMessage failure)))
    | _ => h
  | .abandon i => h.finish i h.gateway
  | .ingest row source => { h with gateway := (h.gateway.ingestOrderSnapshot row source).1 }
  | .errorReported error => h.errorReported error
  | .errorRecorded i =>
    match h.calls[i]? with
    | some (.rejecting clientId brokerId message current) =>
      h.finish i (h.gateway.record
        (QMTGateway.errorState V current clientId brokerId message))
    | _ => h
  | .startPreflight => { h with gateway := h.gateway.startPreflight }
  | .endPreflight failures => { h with gateway := (h.gateway.endPreflight failures).1 }
  | .bindLiveClient constants => { h with gateway := h.gateway.bindLiveClient constants }
  | .disconnect => { h with gateway := h.gateway.disconnect }
  | .onConnected => { h with gateway := h.gateway.onConnected }
  | .onDisconnected => { h with gateway := h.gateway.onDisconnected }
  | .elsewhere file => { h with file }

end Host

end QuantAgent.Execution
