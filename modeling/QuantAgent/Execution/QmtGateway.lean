import QuantAgent.Domain.HexHashing
import QuantAgent.Domain.Idempotency
import QuantAgent.Execution.BrokerBase

/-!
# The QMT gateway

The gateway keeps an entry for each client order and learns of its orders from several sides: the
return of a submission, callbacks, queries, the return of a cancel request and error reports.  The
broker carries only a short remark, so a claim that maps the remark to the client order is appended
to the identity file before the order is sent.  Calls that wait for the broker are split where they
wait.
-/

namespace QuantAgent.Execution

open Library Domain

structure QMTConfig where
  accountId : String
  dryRun : Bool
  liveTradingEnabled : Bool
  strategyName : String
  orderRemarkPrefix : String
  requirePreflight : Bool
  requireRiskApproval : Bool

/-- The constants of the broker package; `none` where it lacks one. -/
structure XtConstants (V : Type) where
  stockBuy : V
  stockSell : V
  fixPrice : V
  marketPeerPriceFirst : V
  orderUnreported : Option V
  orderWaitReporting : Option V
  orderReported : Option V
  orderPartSucc : Option V
  orderSucceeded : Option V
  orderPartCancel : Option V
  orderCanceled : Option V
  orderJunk : Option V

/-- A row of the broker for an order; `none` for an attribute it lacks. -/
structure OrderRow (V : Type) where
  orderId : Option V
  orderRemark : Option V
  orderStatus : Option V
  tradedVolume : Option V
  filledVolume : Option V
  tradedPrice : Option V
  avgPrice : Option V
  price : Option V

structure OrderErrorRow (V : Type) where
  orderId : Option V
  errorMsg : Option String
  errorMessage : Option String

/-- What is handed to `order_stock`, the account apart. -/
structure StockOrder (V N : Type) where
  symbol : String
  side : V
  quantity : ℤ
  priceType : V
  price : N
  strategyName : String
  remark : String

structure QMTGateway (V N : Type) where
  config : QMTConfig
  /-- The constants of the bound client; `none` when no client is bound. -/
  xtConst : Option (XtConstants V)
  orders : Dict String (OrderState N)
  brokerToClient : Dict String String
  remarkToClient : Dict String String
  clientToRemark : Dict String String
  unresolvedOwnedRemarks : List String
  identityStore : IdempotencyStore N
  connected : Bool
  preflightOk : Bool

inductive GatewayError (N : Type) where
  | remarkPrefixForm
  | remarkPrefixLength (orderRemarkPrefix : String)
  | mapCollision (remark previous clientId : String)
  | remarkLimit (remark : String)
  | tokenCollision (remark storedClient clientOrderId : String)
  | store (error : IdempotencyError N)
  | liveBlocked
  | notConnected
  | noPreflight
  | riskApproval (clientOrderId riskCheckResult : String)
  | limitPrice
  /-- What the broker handed over has no number where one is needed. -/
  | conversion

def GatewayError.message {N : Type} [PyText] : GatewayError N → Option String
  | .remarkPrefixForm =>
    some "QMT order_remark_prefix must be non-empty ASCII alphanumeric text"
  | .remarkPrefixLength orderRemarkPrefix =>
    some ("QMT order_remark_prefix is too long for a durable recovery token: " ++
      PyText.quoted orderRemarkPrefix)
  | .mapCollision remark previous clientId =>
    some ("QMT identity map collision for " ++ remark ++ ": " ++ PyText.quoted previous ++
      " vs " ++ PyText.quoted clientId)
  | .remarkLimit remark =>
    some ("QMT recovery remark violates broker limit: " ++ PyText.quoted remark)
  | .tokenCollision remark storedClient clientOrderId =>
    some ("QMT recovery token collision: " ++ remark ++ " maps to " ++
      PyText.quoted storedClient ++ ", attempted " ++ PyText.quoted clientOrderId)
  | .liveBlocked => some "Live QMT operation blocked by configuration."
  | .notConnected => some "QMT live client/account is not connected and subscribed."
  | .noPreflight => some "QMT live operation blocked until startup preflight/state sync succeeds."
  | .riskApproval clientOrderId riskCheckResult =>
    some ("Live QMT submit blocked: order " ++ clientOrderId ++ " has risk_check_result=" ++
      PyText.quoted riskCheckResult ++ "; explicit upstream approval is required.")
  | .limitPrice => some "QMT LIMIT order requires finite price > 0"
  | .store _ => none
  | .conversion => none

/-- `sha1(text.encode("utf-8")).hexdigest()`. -/
class Sha1 where
  hexdigest : String → String

/-- The digests of two texts; of any other text, the text in hexadecimal. -/
instance : Sha1 where
  hexdigest
    | "" => "da39a3ee5e6b4b0d3255bfef95601890afd80709"
    | "cid-001" => "b291f94bd0b7a49d0e9f3b7613e1a4ef8c097174"
    | text => hexText text.toList

/-- `_APPROVED_RISK`. -/
def approvedRisk : List String := ["approved", "approve", "pass", "passed", "ok"]

/-- `_QMT_ORDER_REMARK_MAX_ENGLISH_CHARS`. -/
def remarkMaxChars : ℕ := 24

/-- `_REMARK_DIGEST_CHARS`. -/
def remarkDigestChars : ℕ := 20

namespace QMTGateway

variable {V N : Type}

/-- `_validate_remark_prefix`. -/
def validateRemarkPrefix (config : QMTConfig) : Except (GatewayError N) Unit :=
  let chars := config.orderRemarkPrefix.toList
  if chars = [] ∨ ¬ chars.all Char.isAlphanum then .error .remarkPrefixForm
  else if remarkMaxChars < chars.length + 1 + remarkDigestChars then
    .error (.remarkPrefixLength config.orderRemarkPrefix)
  else .ok ()

/-- What the keys of the identity file start with. -/
def remarkMarker : List Char := "qmt-remark:".toList

/-- `f"qmt-remark:{remark}"`. -/
def remarkKey (remark : String) : String := String.ofList (remarkMarker ++ remark.toList)

def remarkOfKey (key : String) : Option String :=
  if remarkMarker <+: key.toList then
    some (String.ofList (key.toList.drop remarkMarker.length))
  else none

/-- One turn of the loop of `_load_identity_map`. -/
def loadIdentity [Documents N] (maps : Dict String String × Dict String String)
    (record : ClaimRecord N) : Except (GatewayError N) (Dict String String × Dict String String) :=
  match remarkOfKey record.key with
  | none => .ok maps
  | some remark =>
    let clientId := Json.textOr (record.payload.get? "clientOrderId")
    if clientId = "" then .ok maps
    else match maps.1.get? remark with
      | some previous =>
        if previous ≠ clientId then .error (.mapCollision remark previous clientId)
        else .ok (maps.1.insert remark clientId, maps.2.insert clientId remark)
      | none => .ok (maps.1.insert remark clientId, maps.2.insert clientId remark)

/-- `_load_identity_map`, for a gateway whose maps are empty. -/
def loadIdentityMap [Documents N] (store : IdempotencyStore N) :
    Except (GatewayError N) (Dict String String × Dict String String) :=
  store.claims.values.foldlM loadIdentity (.empty, .empty)

/-- `__post_init__`: no gateway when its prefix is unfit or its identity file cannot be read. -/
def create [Documents N] [NumText N] (config : QMTConfig) (file : Option (List Char)) :
    Except (GatewayError N) (QMTGateway V N) := do
  validateRemarkPrefix config
  match IdempotencyStore.create file with
  | .error reason => .error (.store (.corruption reason))
  | .ok store =>
    let maps ← loadIdentityMap store
    .ok {
      config
      xtConst := none
      orders := .empty
      brokerToClient := .empty
      remarkToClient := maps.1
      clientToRemark := maps.2
      unresolvedOwnedRemarks := []
      identityStore := store
      connected := false
      preflightOk := false }

/-- `_remark_token`. -/
def remarkToken [Sha1] (config : QMTConfig) (clientOrderId : String) :
    Except (GatewayError N) String :=
  let digest := (Sha1.hexdigest clientOrderId).toList.take remarkDigestChars
  let remark := config.orderRemarkPrefix.toList ++ ':' :: digest
  if remarkMaxChars < remark.length ∨ ¬ remark.all (fun c ↦ c.val < 128) then
    .error (.remarkLimit (String.ofList remark))
  else .ok (String.ofList remark)

/-- `{"clientOrderId": client_order_id}`. -/
def identityPayload (clientOrderId : String) : Mapping N where
  members := Dict.empty.insert "clientOrderId" (.str clientOrderId)
  distinct := by
    intro member hmember
    have hentry : member = ("clientOrderId", .str clientOrderId) := by
      simpa [Dict.insert, Dict.empty, Dict.keys] using hmember
    rw [hentry]
    trivial

/-- `_register_client_identity`: the remark of an order, claimed durably before it is used. -/
def registerClientIdentity [Documents N] [NumText N] [Sha1] (g : QMTGateway V N)
    (file : Option (List Char)) (clientOrderId : String) (now : ClaimTime) :
    QMTGateway V N × Option (List Char) × Except (GatewayError N) String :=
  match g.clientToRemark.get? clientOrderId with
  | some existing => (g, file, .ok existing)
  | none =>
    match remarkToken g.config clientOrderId with
    | .error error => (g, file, .error error)
    | .ok remark =>
      match g.identityStore.claim file (remarkKey remark) none
          (some (identityPayload clientOrderId)) false now with
      | (store, file, .error error) =>
        ({ g with identityStore := store }, file, .error (.store error))
      | (store, file, .ok result) =>
        let storedClient := Json.textOr (result.record.payload.get? "clientOrderId")
        if storedClient ≠ clientOrderId then
          ({ g with identityStore := store }, file,
            .error (.tokenCollision remark storedClient clientOrderId))
        else
          ({ g with
              identityStore := store
              remarkToClient := g.remarkToClient.insert remark clientOrderId
              clientToRemark := g.clientToRemark.insert clientOrderId remark },
            file, .ok remark)

/-- `_is_owned_remark`. -/
def isOwnedRemark (config : QMTConfig) (remark : String) : Bool :=
  remark ≠ "" && (config.orderRemarkPrefix.toList ++ [':']).isPrefixOf remark.toList

/-- `_bind_live_client`. -/
def bindLiveClient (g : QMTGateway V N) (constants : XtConstants V) : QMTGateway V N :=
  { g with xtConst := some constants, connected := true }

/-- `disconnect`. -/
def disconnect (g : QMTGateway V N) : QMTGateway V N :=
  { g with xtConst := none, connected := false, preflightOk := false }

/-- `on_connected`. -/
def onConnected (g : QMTGateway V N) : QMTGateway V N := { g with connected := true }

/-- `on_disconnected`. -/
def onDisconnected (g : QMTGateway V N) : QMTGateway V N :=
  { g with connected := false, preflightOk := false }

/-- `_ensure_connected` of a live gateway: the constants of its client. -/
def ensureConnected (g : QMTGateway V N) (requirePreflight : Bool) :
    Except (GatewayError N) (XtConstants V) :=
  if g.config.liveTradingEnabled = false then .error .liveBlocked
  else match g.connected, g.xtConst with
    | true, some constants =>
      if requirePreflight && g.config.requirePreflight && !g.preflightOk then .error .noPreflight
      else .ok constants
    | _, _ => .error .notConnected

section Broker

variable [BrokerValue V N]

/-- `map_status`: legacy numeric fallback for older status encodings. -/
def mapStatus : ℤ → OrderStatus
  | 48 => .pending
  | 49 => .submitted
  | 50 => .partlyFilled
  | 51 => .filled
  | 52 => .cancelled
  | 53 => .rejected
  | _ => .pending

/-- The constants a status is looked up under, in the order they are stored. -/
def statusTable (constants : XtConstants V) : List (Option V × OrderStatus) := [
  (constants.orderUnreported, .pending),
  (constants.orderWaitReporting, .pending),
  (constants.orderReported, .submitted),
  (constants.orderPartSucc, .partlyFilled),
  (constants.orderSucceeded, .filled),
  (constants.orderPartCancel, .cancelled),
  (constants.orderCanceled, .cancelled),
  (constants.orderJunk, .rejected)]

/-- Whether a constant is there and equals a status. -/
def matchesStatus (status : V) (entry : Option V × OrderStatus) : Bool :=
  entry.1.any fun constant ↦ BrokerValue.same constant status

/-- `_map_broker_status`: of equal constants the last one counts. -/
def mapBrokerStatus (g : QMTGateway V N) : Option V → Option OrderStatus
  | none => some .pending
  | some status =>
    match ((g.xtConst.elim [] statusTable).reverse.find? (matchesStatus status)) with
    | some entry => some entry.2
    | none =>
      match BrokerValue.int status with
      | .value code => some (mapStatus code)
      | .refused => some .pending
      | .failed => none

/-- `_client_id_for_snapshot`. -/
def clientIdForSnapshot (g : QMTGateway V N) (row : OrderRow V) (brokerId : String) :
    Option String :=
  (if brokerId = "" then none else g.brokerToClient.get? brokerId).or
    (g.remarkToClient.get? (textAttr row.orderRemark))

def tradedQuantity (row : OrderRow V) : Option ℤ := intAttr [row.tradedVolume, row.filledVolume] 0

/-- The entry a row stands for; `none` when a conversion raises. -/
def snapshotState (g : QMTGateway V N) (row : OrderRow V) (clientId brokerId source : String) :
    Option (OrderState N) := do
  let status ← g.mapBrokerStatus row.orderStatus
  let filledQuantity ← tradedQuantity row
  let avgPrice ← floatAttr [row.tradedPrice, row.avgPrice, row.price] (BrokerValue.zero V)
  some {
    clientOrderId := clientId
    brokerOrderId := if brokerId = "" then none else some brokerId
    status
    filledQuantity
    avgPrice
    lastMessage := "broker_" ++ source }

def noteUnresolved (g : QMTGateway V N) (row : OrderRow V) : QMTGateway V N :=
  let remark := textAttr row.orderRemark
  if isOwnedRemark g.config remark then
    { g with unresolvedOwnedRemarks := g.unresolvedOwnedRemarks.insert remark }
  else g

/-- Note the identifier the broker gave to an order. -/
def noteBrokerId (g : QMTGateway V N) (brokerId clientId : String) : QMTGateway V N :=
  if brokerId = "" then g
  else { g with brokerToClient := g.brokerToClient.insert brokerId clientId }

def record (g : QMTGateway V N) (state : OrderState N) : QMTGateway V N :=
  { g with orders := g.orders.insert state.clientOrderId state }

/-- `_ingest_order_snapshot`. -/
def ingestOrderSnapshot (g : QMTGateway V N) (row : OrderRow V) (source : String) :
    QMTGateway V N × Except (GatewayError N) (Option (OrderState N)) :=
  let brokerId := textAttr row.orderId
  let clientId := (g.clientIdForSnapshot row brokerId).getD ""
  if clientId = "" then (g.noteUnresolved row, .ok none)
  else
    let noted := g.noteBrokerId brokerId clientId
    match noted.snapshotState row clientId brokerId source with
    | none => (noted, .error .conversion)
    | some state => (noted.record state, .ok (some state))

/-- The loop of `query_orders`, up to a row that raises. -/
def ingestAll (g : QMTGateway V N) : List (OrderRow V) →
    QMTGateway V N × Except (GatewayError N) Unit
  | [] => (g, .ok ())
  | row :: rows =>
    match g.ingestOrderSnapshot row "query" with
    | (g, .error error) => (g, .error error)
    | (g, .ok _) => g.ingestAll rows

/-- The beginning of `preflight`. -/
def startPreflight (g : QMTGateway V N) : QMTGateway V N := { g with unresolvedOwnedRemarks := [] }

/-- The end of `preflight`, with the errors collected on the way. -/
def endPreflight (g : QMTGateway V N) (failures : List String) : QMTGateway V N × List String :=
  let errors := failures ++ (g.unresolvedOwnedRemarks.mergeSort (· ≤ ·)).map
    ("owned_order_identity_unresolved:" ++ ·)
  ({ g with preflightOk := errors = [] }, errors)

/-- The broker's answers to the queries of `preflight`, each with the error it leads to. -/
structure Answers (V : Type) where
  asset : Option String
  orders : Except String (List (OrderRow V))
  /-- What a row that cannot be read is reported as. -/
  ordersSync : String
  trades : Option String
  positions : Option String

/-- `preflight`: the gateway afterwards and the errors of its report. -/
def preflight (g : QMTGateway V N) (answers : Answers V) :
    Except (GatewayError N) (QMTGateway V N × List String) :=
  if g.config.dryRun then .ok ({ g with preflightOk := true }, [])
  else do
    let _ ← g.ensureConnected false
    let synced : QMTGateway V N × Option String :=
      match answers.orders with
      | .error failure => (g.startPreflight, some failure)
      | .ok rows =>
        match g.startPreflight.ingestAll rows with
        | (g, .error _) => (g, some answers.ordersSync)
        | (g, .ok ()) => (g, none)
    .ok (synced.1.endPreflight
      (answers.asset.toList ++ synced.2.toList ++ answers.trades.toList ++
        answers.positions.toList))

/-- What `submit` hands to the broker. -/
def stockOrder (g : QMTGateway V N) (constants : XtConstants V) (order : Order N) (remark : String) :
    StockOrder V N where
  symbol := order.symbol
  side := if order.side = .buy then constants.stockBuy else constants.stockSell
  quantity := order.quantity
  priceType :=
    if order.orderType = .limit then constants.fixPrice else constants.marketPeerPriceFirst
  price :=
    if order.orderType = .limit then order.price.getD (BrokerValue.zero V) else BrokerValue.zero V
  strategyName := g.config.strategyName
  remark

/-- The checks of a live `submit` before the identity is claimed. -/
def submitChecks [PyText] (g : QMTGateway V N) (order : Order N) :
    Except (GatewayError N) (XtConstants V) := do
  let constants ← g.ensureConnected true
  if g.config.requireRiskApproval ∧ PyText.folded order.riskCheckResult ∉ approvedRisk then
    .error (.riskApproval order.clientOrderId order.riskCheckResult)
  else if order.orderType = .limit ∧ ¬ order.price.any (BrokerValue.usablePrice V) then
    .error .limitPrice
  else .ok constants

variable (V) in
def dryRunState (order : Order N) : OrderState N where
  clientOrderId := order.clientOrderId
  brokerOrderId := some ("dry-" ++ order.clientOrderId)
  status := .submitted
  filledQuantity := 0
  avgPrice := BrokerValue.zero V
  lastMessage := "dry_run_not_submitted_to_broker"

variable (V) in
def submitRejected (order : Order N) (answer : String) : OrderState N where
  clientOrderId := order.clientOrderId
  brokerOrderId := none
  status := .rejected
  filledQuantity := 0
  avgPrice := BrokerValue.zero V
  lastMessage := "broker_submit_rejected:" ++ answer

variable (V) in
def submitAccepted (order : Order N) (brokerKey : String) : OrderState N where
  clientOrderId := order.clientOrderId
  brokerOrderId := some brokerKey
  status := .submitted
  filledQuantity := 0
  avgPrice := BrokerValue.zero V
  lastMessage := "broker_submit_accepted"

/-- `submit` from the return of `order_stock` on; `none` is the answer `None`. -/
def submitReturned (g : QMTGateway V N) (order : Order N) (answer : Option V) :
    QMTGateway V N × Except (GatewayError N) (OrderState N) :=
  match answer with
  | none =>
    let state := submitRejected V order "None"
    (g.record state, .ok state)
  | some value =>
    let brokerKey := BrokerValue.str value
    match BrokerValue.int value with
    | .value code =>
      if code ≤ 0 then
        let state := submitRejected V order brokerKey
        (g.record state, .ok state)
      else
        let state := submitAccepted V order brokerKey
        let noted := { g with
          brokerToClient := g.brokerToClient.insert brokerKey order.clientOrderId }
        (noted.record state, .ok state)
    | _ => (g, .error .conversion)

/-- The entry of a cancel request that got its answer. -/
def cancelState (current : OrderState N) (clientOrderId message : String) : OrderState N :=
  { current with clientOrderId, lastMessage := message }

variable (V) in
def dryRunCancelled (current : Option (OrderState N)) (clientOrderId : String) : OrderState N where
  clientOrderId
  brokerOrderId := current.bind OrderState.brokerOrderId
  status := .cancelled
  filledQuantity := current.elim 0 OrderState.filledQuantity
  avgPrice := current.elim (BrokerValue.zero V) OrderState.avgPrice
  lastMessage := "dry_run_cancelled"

def errorText (error : OrderErrorRow V) : String :=
  error.errorMsg.getD (error.errorMessage.getD "broker_order_error")

variable (V) in
/-- The entry of an order whose error was reported, over the entry read before. -/
def errorState (current : Option (OrderState N)) (clientId brokerId message : String) :
    OrderState N where
  clientOrderId := clientId
  brokerOrderId := if brokerId = "" then current.bind OrderState.brokerOrderId else some brokerId
  status := .rejected
  filledQuantity := current.elim 0 OrderState.filledQuantity
  avgPrice := current.elim (BrokerValue.zero V) OrderState.avgPrice
  lastMessage := message

end Broker

end QMTGateway

def liveConfig : QMTConfig where
  accountId := "ACC001"
  dryRun := false
  liveTradingEnabled := true
  strategyName := "QuantAgent"
  orderRemarkPrefix := "qa"
  requirePreflight := true
  requireRiskApproval := true

def liveConstants : XtConstants XtValue where
  stockBuy := .int 23
  stockSell := .int 24
  fixPrice := .int 11
  marketPeerPriceFirst := .int 44
  orderUnreported := some (.int 48)
  orderWaitReporting := some (.int 49)
  orderReported := some (.int 50)
  orderPartSucc := some (.int 55)
  orderSucceeded := some (.int 56)
  orderPartCancel := some (.int 53)
  orderCanceled := some (.int 54)
  orderJunk := some (.int 57)

end QuantAgent.Execution
