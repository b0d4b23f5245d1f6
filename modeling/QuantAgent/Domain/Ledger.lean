import QuantAgent.Domain.Orders

/-!
# The canonical ledger

An append-only hash-chained log of order events, its JSON forms, its verification, and the order
book that is rebuilt from it.  Dictionaries are listed in the order of their keys, which is the
order they are printed in.  The file behind a durable ledger is the subject of a later module; here
a write either lands or fails.
-/

namespace QuantAgent.Domain

open Library

variable {N : Type}

/-- `payload[key]` for a text. -/
def requiredStr (payload : Json N) (key : String) : Option String :=
  match payload.get? key with
  | some (.str value) => some value
  | _ => none

/-- `payload[key]` for a number. -/
def requiredNum (payload : Json N) (key : String) : Option N :=
  match payload.get? key with
  | some (.num value) => some value
  | _ => none

/-- `payload.get(key)` for a text. -/
def getStr (payload : Json N) (key : String) : Option (Option String) :=
  match payload.get? key with
  | some (.str value) => some (some value)
  | some .null => some none
  | none => some none
  | _ => none

/-- `payload.get(key)` for a number. -/
def getNum (payload : Json N) (key : String) : Option (Option N) :=
  match payload.get? key with
  | some (.num value) => some (some value)
  | some .null => some none
  | none => some none
  | _ => none

/-- `payload.get(key)` for anything. -/
def getJson (payload : Json N) (key : String) : Json N := (payload.get? key).getD .null

/-- A nested mapping that may be missing or empty. -/
def optionalMapping {α : Type} (decode : Json N → Option α) : Json N → Option (Option α)
  | .null => some none
  | .obj [] => some none
  | payload => (decode payload).map some

/-- `value or default` for a text. -/
def orDefault (value : Option String) (default : String) : String :=
  match value with
  | some text => if text = "" then default else text
  | none => default

section Codec

variable [Number N]

omit [Number N] in
/-- `_fill_to_dict`. -/
def fillToDict (fill : Fill N) : Json N :=
  .obj [
    ("commission", .num fill.commission),
    ("executionId", .str fill.executionId),
    ("filledAt", .str fill.filledAt),
    ("lineage", fill.lineage.asDict),
    ("orderId", .str fill.orderId),
    ("price", .num fill.price),
    ("quantity", .num fill.quantity),
    ("referencePrice", optionalNum fill.referencePrice),
    ("side", .str fill.side.value),
    ("stampDuty", .num fill.stampDuty),
    ("symbol", .str fill.symbol),
    ("transferFee", .num fill.transferFee)]

/-- `float(payload.get(key) or 0.0)`. -/
def feeOf (payload : Json N) (key : String) : Option N := do
  let value ← getNum payload key
  Number.toFloat ((value.map Number.orZero).getD Number.zero)

/-- `_fill_from_dict` on a mapping that is present. -/
def fillFromDict (payload : Json N) : Option (Fill N) := do
  let executionId ← requiredStr payload "executionId"
  let orderId ← requiredStr payload "orderId"
  let symbol ← requiredStr payload "symbol"
  let side ← (requiredStr payload "side").bind Side.ofValue
  let quantity ← requiredNum payload "quantity"
  let price ← (requiredNum payload "price").bind Number.toFloat
  let referencePrice ← getNum payload "referencePrice"
  let commission ← feeOf payload "commission"
  let stampDuty ← feeOf payload "stampDuty"
  let transferFee ← feeOf payload "transferFee"
  let filledAt ← getStr payload "filledAt"
  some {
    executionId, orderId, symbol, side
    quantity := Number.toInt quantity
    price, referencePrice, commission, stampDuty, transferFee
    filledAt := orDefault filledAt ""
    lineage := Lineage.fromMapping (payload.get? "lineage") }

omit [Number N] in
/-- `_risk_to_dict`. -/
def riskToDict (decision : RiskDecision N) : Json N :=
  .obj [
    ("approved", .bool decision.approved),
    ("decidedAt", .str decision.decidedAt),
    ("decidedBy", .str decision.decidedBy),
    ("lineage", decision.lineage.asDict),
    ("measured", decision.measured),
    ("reason", .str decision.reason),
    ("riskDecisionId", .str decision.riskDecisionId),
    ("rule", .str decision.rule),
    ("threshold", decision.threshold)]

omit [Number N] in
/-- `_risk_from_dict` on a mapping that is present. -/
def riskFromDict (payload : Json N) : Option (RiskDecision N) := do
  let riskDecisionId ← requiredStr payload "riskDecisionId"
  let approved ← match payload.get? "approved" with
    | some (.bool value) => some value
    | _ => none
  let rule ← requiredStr payload "rule"
  let reason ← getStr payload "reason"
  let decidedBy ← getStr payload "decidedBy"
  let decidedAt ← getStr payload "decidedAt"
  some {
    riskDecisionId, approved, rule
    threshold := getJson payload "threshold"
    measured := getJson payload "measured"
    reason := orDefault reason ""
    decidedBy := orDefault decidedBy "risk_engine"
    decidedAt := orDefault decidedAt ""
    lineage := Lineage.fromMapping (payload.get? "lineage") }

omit [Number N] in
/-- `_event_to_dict` on an event that is present. -/
def eventToDict (event : OrderEvent N) : Json N :=
  .obj [
    ("eventTime", .str event.eventTime),
    ("eventType", .str event.eventType.value),
    ("fill", (event.fill.map fillToDict).getD .null),
    ("lineage", event.lineage.asDict),
    ("orderId", .str event.orderId),
    ("reason", optionalStr event.reason),
    ("riskDecision", (event.riskDecision.map riskToDict).getD .null),
    ("sequence", .num event.sequence)]

/-- The event of a record, read from a mapping that is present. -/
def eventFromDict (payload : Json N) : Option (OrderEvent N) := do
  let eventType ← (requiredStr payload "eventType").bind OrderEventType.ofValue
  let orderId ← requiredStr payload "orderId"
  let sequence ← requiredNum payload "sequence"
  let eventTime ← requiredStr payload "eventTime"
  let fill ← optionalMapping fillFromDict (getJson payload "fill")
  let reason ← getStr payload "reason"
  let riskDecision ← optionalMapping riskFromDict (getJson payload "riskDecision")
  some {
    eventType, orderId
    sequence := Number.toInt sequence
    eventTime, fill, reason, riskDecision
    lineage := Lineage.fromMapping (payload.get? "lineage") }

end Codec

def intentToDict (intent : OrderIntent N) : Json N :=
  .obj [
    ("lineage", intent.lineage.asDict),
    ("orderIntentId", .str intent.orderIntentId),
    ("quantity", .num intent.quantity),
    ("side", .str intent.side.value),
    ("symbol", .str intent.symbol),
    ("tradeDate", .str intent.tradeDate)]

/-- A split, bonus issue or cash dividend. -/
structure CorporateAction (N : Type) where
  corporateActionId : String
  symbol : String
  exDate : String
  shareRatio : N
  cashPerShare : N
  lineage : Lineage

/-- `CorporateAction.to_dict`. -/
def CorporateAction.toDict (action : CorporateAction N) : Json N :=
  .obj [
    ("cashPerShare", .num action.cashPerShare),
    ("corporateActionId", .str action.corporateActionId),
    ("exDate", .str action.exDate),
    ("lineage", action.lineage.asDict),
    ("shareRatio", .num action.shareRatio),
    ("symbol", .str action.symbol)]

/-- One link of the chain.  A missing mapping is `null`. -/
structure LedgerRecord (N : Type) where
  sequence : N
  recordedAt : String
  previousHash : String
  recordHash : String
  event : Option (OrderEvent N)
  tradeDate : Option String
  corporateAction : Json N
  intent : Json N

def schemaVersion : String := "quantagent.canonical_ledger.v1"

def genesisHash : String := "0000000000000000000000000000000000000000000000000000000000000000"

/-- The members of a record that its digest covers. -/
structure RecordBody (N : Type) where
  sequence : N
  recordedAt : String
  event : Json N
  tradeDate : Option String
  corporateAction : Json N
  intent : Json N

namespace RecordBody

def toDict (body : RecordBody N) : Json N :=
  .obj [
    ("corporateAction", body.corporateAction),
    ("event", body.event),
    ("intent", body.intent),
    ("recordedAt", .str body.recordedAt),
    ("schemaVersion", .str schemaVersion),
    ("sequence", .num body.sequence),
    ("tradeDate", optionalStr body.tradeDate)]

def payload (body : RecordBody N) (previousHash recordHash : String) : Json N :=
  .obj [
    ("corporateAction", body.corporateAction),
    ("event", body.event),
    ("intent", body.intent),
    ("previousHash", .str previousHash),
    ("recordHash", .str recordHash),
    ("recordedAt", .str body.recordedAt),
    ("schemaVersion", .str schemaVersion),
    ("sequence", .num body.sequence),
    ("tradeDate", optionalStr body.tradeDate)]

end RecordBody

/-- `_record_from_dict`. -/
def recordFromDict [Number N] (payload : Json N) : Option (LedgerRecord N) := do
  let event ← optionalMapping eventFromDict (getJson payload "event")
  let sequence ← requiredNum payload "sequence"
  let recordedAt ← requiredStr payload "recordedAt"
  let previousHash ← requiredStr payload "previousHash"
  let recordHash ← requiredStr payload "recordHash"
  let tradeDate ← getStr payload "tradeDate"
  some {
    sequence := Number.toInt sequence
    recordedAt, previousHash, recordHash, event, tradeDate
    corporateAction := getJson payload "corporateAction"
    intent := getJson payload "intent" }

/-- `dict(mapping) if mapping else None`. -/
def orNull : Json N → Json N
  | .obj [] => .null
  | mapping => mapping

/-- The body that verification takes the digest of. -/
def LedgerRecord.body (record : LedgerRecord N) : RecordBody N where
  sequence := record.sequence
  recordedAt := record.recordedAt
  event := (record.event.map eventToDict).getD .null
  tradeDate := record.tradeDate
  corporateAction := orNull record.corporateAction
  intent := orNull record.intent

/-- One instance: what it holds in memory, and whether it may still write. -/
structure CanonicalLedger (N : Type) where
  records : List (LedgerRecord N)
  head : String
  tornTail : Bool
  /-- Why the instance stopped accepting writes. -/
  writeFailure : Option String
  /-- The ledger has a path. -/
  durable : Bool

def CanonicalLedger.fresh (durable : Bool) : CanonicalLedger N where
  records := []
  head := genesisHash
  tornTail := false
  writeFailure := none
  durable

inductive Write where
  | landed
  | failed (error : String)
  deriving DecidableEq

structure Entry (N : Type) where
  event : Option (OrderEvent N)
  tradeDate : Option String
  intent : Option (OrderIntent N)
  corporateAction : Option (CorporateAction N)

def Entry.body [Number N] (entry : Entry N) (length : ℕ) (recordedAt : String) : RecordBody N where
  sequence := Number.natCast length
  recordedAt
  event := (entry.event.map eventToDict).getD .null
  tradeDate := entry.tradeDate
  corporateAction := (entry.corporateAction.map CorporateAction.toDict).getD .null
  intent := (entry.intent.map intentToDict).getD .null

/-- The mapping a body is written as behind its predecessor. -/
def RecordBody.chained [Hashing N] (body : RecordBody N) (previous : String) : Json N :=
  body.payload previous (digest previous body.toDict)

inductive AppendError where
  | writeUnavailable (failure : String)
  | notRecordable
  | notSerialisable
  | os (error : String)
  deriving DecidableEq

namespace CanonicalLedger

section Write

variable [Number N] [Hashing N]

/-- Record an event.  A failed write latches the ledger closed before it is raised again. -/
def append (ledger : CanonicalLedger N) (recordedAt : String) (write : Write) (entry : Entry N) :
    CanonicalLedger N × Except AppendError (LedgerRecord N) :=
  match ledger.writeFailure with
  | some failure => (ledger, .error (.writeUnavailable failure))
  | none =>
    let body := entry.body ledger.records.length recordedAt
    match recordFromDict (body.chained ledger.head) with
    | none => (ledger, .error .notRecordable)
    | some record =>
      let recorded : CanonicalLedger N :=
        { ledger with
          records := ledger.records ++ [record]
          head := digest ledger.head body.toDict }
      if ledger.durable then
        -- the writer has no hook for foreign objects, unlike the digest
        if (body.chained ledger.head).Plain then
          match write with
          | .landed => (recorded, .ok record)
          | .failed error => ({ ledger with writeFailure := some error }, .error (.os error))
        else (ledger, .error .notSerialisable)
      else (recorded, .ok record)

omit [Number N] [Hashing N] in
def events (ledger : CanonicalLedger N) : List (OrderEvent N) :=
  ledger.records.filterMap LedgerRecord.event

omit [Number N] in
/-- Recompute the chain from `previous` on: the last hash, or the index of the first break. -/
def verifyFrom (previous : String) (index : ℕ) : List (LedgerRecord N) → Except ℕ String
  | [] => .ok previous
  | record :: rest =>
    if record.previousHash = previous ∧ record.recordHash = digest previous record.body.toDict then
      verifyFrom record.recordHash (index + 1) rest
    else .error index

omit [Number N] in
def verify (ledger : CanonicalLedger N) : Except ℕ String :=
  verifyFrom genesisHash 0 ledger.records

omit [Number N] in
def Valid (ledger : CanonicalLedger N) : Prop := ∃ head, ledger.verify = .ok head

end Write

section Replay

inductive ReplayError where
  | corruption (brokenAt : ℕ)
  | noIntent (orderId : String)
  | malformedIntent
  | order (error : OrderError)
  deriving DecidableEq

def intentFromDict [Number N] (payload : Json N) : Option (OrderIntent N) := do
  let orderIntentId ← requiredStr payload "orderIntentId"
  let symbol ← requiredStr payload "symbol"
  let side ← (requiredStr payload "side").bind Side.ofValue
  let quantity ← requiredNum payload "quantity"
  let tradeDate ← requiredStr payload "tradeDate"
  some {
    orderIntentId, symbol, side
    quantity := Number.toInt quantity
    tradeDate
    limitPrice := none
    referencePrice := none
    lineage := Lineage.fromMapping (payload.get? "lineage") }

/-- The settlement sessions after one more order event: by execution for fills, else by order. -/
def datesAfter (dates : Dict String String) (record : LedgerRecord N) (event : OrderEvent N) :
    Dict String String :=
  match record.tradeDate with
  | none => dates
  | some date =>
    if date = "" then dates
    else match event.fill with
      | some fill => dates.insert fill.executionId date
      | none =>
        match dates.get? event.orderId with
        | some _ => dates
        | none => dates.insert event.orderId date

/-- The settlement sessions after one more record. -/
def datesStep (dates : Dict String String) (record : LedgerRecord N) : Dict String String :=
  match record.event with
  | none => dates
  | some event => datesAfter dates record event

/-- The settlement sessions a replay collects. -/
def tradeDates (ledger : CanonicalLedger N) : Dict String String :=
  ledger.records.foldl datesStep .empty

variable [Arithmetic N] [Hashing N]

def replayRecord (now : String) (book : OrderBook N) (record : LedgerRecord N) :
    Except ReplayError (OrderBook N) :=
  match record.event with
  | none => .ok book
  | some event =>
    if event.eventType = .created then
      match orNull record.intent with
      | .null => .error (.noIntent event.orderId)
      | payload =>
        match intentFromDict payload with
        | none => .error .malformedIntent
        | some intent => .ok (book.openOrder intent (event.lineage.get .parentOrderId) now).1
    else
      match book.apply event.orderId event.eventType event.fill event.reason event.riskDecision
        now with
      | .error error => .error (.order error)
      | .ok (book, _) => .ok book

def replayRecords (now : String) (book : OrderBook N) (records : List (LedgerRecord N)) :
    Except ReplayError (OrderBook N) :=
  records.foldlM (replayRecord now) book

def replayBook (now : String) (ledger : CanonicalLedger N) : Except ReplayError (OrderBook N) :=
  match ledger.verify with
  | .error brokenAt => .error (.corruption brokenAt)
  | .ok _ => replayRecords now .empty ledger.records

end Replay

end CanonicalLedger

end QuantAgent.Domain
