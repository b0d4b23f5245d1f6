import QuantAgent.Domain.Documents
import QuantAgent.Domain.LedgerRoundTrip
import QuantAgent.Library.IsoDate

/-!
# The outcome journal of pending paper signals

An append-only hash chain of what happened to each pending signal, one JSON record per line.  An
append reads the whole file, verifies the chain, checks the record against the records of its
payload and of its date, and writes one line; a repeated outcome is answered with the record that is
there.  A line whose fields have other types than an append gives them counts as unparsable here.
-/

namespace QuantAgent.Paper

open Library TextFile Domain

variable {N : Type}

/-- `sha256` over the printed material, as the hexadecimal digest. -/
class Sha256 (N : Type) where
  sha256 : Json N → String
  sha256_ascii : ∀ material, ∀ c ∈ (sha256 material).toList, c.toNat < 128

/-- A digest that prints its material in hexadecimal. -/
instance hexSha256 [NumText N] : Sha256 N where
  sha256 material := hexText material.text
  sha256_ascii _ := hexText_ascii _

/-- `JOURNAL_SCHEMA_VERSION`. -/
def journalSchema : String := "paper_pending_execution_journal_v1"

/-- The statuses a record may have, and any other text. -/
inductive JournalStatus where
  | executionObserved
  | executionBlocked
  | missedExecutionSession
  | executionIndeterminate
  | executionStarted
  | executionReconciled
  | legacyTerminalBound
  | dailyDecisionFrozen
  | unsupported (text : String)
  deriving DecidableEq, Repr

namespace JournalStatus

def value : JournalStatus → String
  | executionObserved => "execution_observed"
  | executionBlocked => "execution_blocked"
  | missedExecutionSession => "missed_execution_session"
  | executionIndeterminate => "execution_indeterminate"
  | executionStarted => "execution_started"
  | executionReconciled => "execution_reconciled"
  | legacyTerminalBound => "legacy_terminal_bound"
  | dailyDecisionFrozen => "daily_decision_frozen"
  | unsupported text => text

def ofValue (text : String) : JournalStatus :=
  if text = "execution_observed" then executionObserved
  else if text = "execution_blocked" then executionBlocked
  else if text = "missed_execution_session" then missedExecutionSession
  else if text = "execution_indeterminate" then executionIndeterminate
  else if text = "execution_started" then executionStarted
  else if text = "execution_reconciled" then executionReconciled
  else if text = "legacy_terminal_bound" then legacyTerminalBound
  else if text = "daily_decision_frozen" then dailyDecisionFrozen
  else unsupported text

/-- `TERMINAL_OUTCOMES`. -/
def terminal : JournalStatus → Bool
  | executionObserved => true
  | executionBlocked => true
  | missedExecutionSession => true
  | executionIndeterminate => true
  | _ => false

/-- `_ALLOWED_STATUSES`. -/
def allowed : JournalStatus → Bool
  | unsupported _ => false
  | _ => true

theorem ofValue_value {status : JournalStatus} (h : status.allowed = true) :
    ofValue status.value = status := by
  cases status with
  | unsupported text => cases h
  | _ => rfl

end JournalStatus

/-- `PendingExecutionRecord`. -/
structure PendingExecutionRecord (N : Type) where
  schemaVersion : String
  sequence : N
  pendingPayloadSha256 : String
  signalDate : String
  executionDate : String
  status : JournalStatus
  details : Dict String (Json N)
  recordedAt : String
  previousRecordSha256 : String
  recordSha256 : String

/-- What cannot be trusted about a journal, or is refused by it. -/
inductive JournalCorruption where
  | malformedLine
  | duplicateKey
  | invalidChain
  | multipleTerminals (payload : String)
  | multipleReconciliations (payload : String)
  | multipleBindings (payload : String)
  | multipleDecisions (date : String)
  | reconciliationWithoutIndeterminate
  | reconciliationUnbound
  | alreadyReconciled (payload : String)
  | bindingWithoutTerminal
  | bindingOfReceipt
  | bindingUnbound
  | bindingIdentity
  | bindingRecords
  | bindingPrefix
  | bindingAssurance
  | bindingReconstruction
  | bindingDigests
  | alreadyBound (payload : String)
  | decisionKind
  | decisionRecords
  | decisionBinding
  | alreadyFrozen (date : String)
  | alreadyTerminal (payload : String) (status : JournalStatus)
  | alreadyStarted (payload : String)
  deriving DecidableEq, Repr

inductive JournalError where
  | unsupportedStatus (text : String)
  | emptyPayload
  | inexactDate (field text : String)
  | corruption (reason : JournalCorruption)
  /-- Details that JSON has no form for. -/
  | notSerializable
  deriving DecidableEq, Repr

namespace PendingExecutionRecord

/-- `to_dict`, without the digest. -/
def material (record : PendingExecutionRecord N) : Json N :=
  .obj [
    ("details", .obj record.details.entries),
    ("execution_date", .str record.executionDate),
    ("pending_payload_sha256", .str record.pendingPayloadSha256),
    ("previous_record_sha256", .str record.previousRecordSha256),
    ("recorded_at", .str record.recordedAt),
    ("schema_version", .str record.schemaVersion),
    ("sequence", .num record.sequence),
    ("signal_date", .str record.signalDate),
    ("status", .str record.status.value)]

/-- `to_dict`. -/
def toDict (record : PendingExecutionRecord N) : Json N :=
  .obj [
    ("details", .obj record.details.entries),
    ("execution_date", .str record.executionDate),
    ("pending_payload_sha256", .str record.pendingPayloadSha256),
    ("previous_record_sha256", .str record.previousRecordSha256),
    ("record_sha256", .str record.recordSha256),
    ("recorded_at", .str record.recordedAt),
    ("schema_version", .str record.schemaVersion),
    ("sequence", .num record.sequence),
    ("signal_date", .str record.signalDate),
    ("status", .str record.status.value)]

def strOf (document : Json N) (key : String) : Option String :=
  match document.get? key with
  | some (.str text) => some text
  | _ => none

def numOf (document : Json N) (key : String) : Option N :=
  match document.get? key with
  | some (.num value) => some value
  | _ => none

def dictOf (document : Json N) (key : String) : Option (Dict String (Json N)) :=
  match document.get? key with
  | some (.obj members) =>
    if h : (members.map Prod.fst).Nodup then some ⟨members, h⟩ else none
  | _ => none

def fieldCount : Json N → ℕ
  | .obj members => members.length
  | _ => 0

/-- `PendingExecutionRecord(**payload)`: the ten fields and no other. -/
def fromDict (document : Json N) : Option (PendingExecutionRecord N) :=
  if fieldCount document ≠ 10 then none
  else do
    let details ← dictOf document "details"
    let executionDate ← strOf document "execution_date"
    let pendingPayloadSha256 ← strOf document "pending_payload_sha256"
    let previousRecordSha256 ← strOf document "previous_record_sha256"
    let recordSha256 ← strOf document "record_sha256"
    let recordedAt ← strOf document "recorded_at"
    let schemaVersion ← strOf document "schema_version"
    let sequence ← numOf document "sequence"
    let signalDate ← strOf document "signal_date"
    let status ← strOf document "status"
    some {
      schemaVersion, sequence, pendingPayloadSha256, signalDate, executionDate
      status := .ofValue status
      details, recordedAt, previousRecordSha256, recordSha256 }

end PendingExecutionRecord

namespace PendingExecutionJournal

section Read

variable [NumText N]

def readRecord (line : List Char) : Except JournalCorruption (PendingExecutionRecord N) :=
  match Json.loads line with
  | none => .error .malformedLine
  | some document =>
    if ¬ document.Distinct then .error .duplicateKey
    else match PendingExecutionRecord.fromDict document with
      | none => .error .malformedLine
      | some record => .ok record

/-- The records on lines; a blank line holds none. -/
def readLines : List (List Char) → Except JournalCorruption (List (PendingExecutionRecord N))
  | [] => .ok []
  | line :: rest =>
    if strip line = [] then readLines rest
    else match readRecord line with
      | .error reason => .error reason
      | .ok record =>
        match readLines rest with
        | .error reason => .error reason
        | .ok records => .ok (record :: records)

/-- `records`. -/
def records (file : Option (List Char)) :
    Except JournalCorruption (List (PendingExecutionRecord N)) :=
  match file with
  | none => .ok []
  | some content => readLines (splitLines (universalNewlines content))

end Read

section Verify

variable [Documents N] [NumText N] [Sha256 N]

omit [NumText N] in
/-- What `verify` asks of a record: schema, status, dates, sequence, chain and digest. -/
def checkRecord (previous : String) (expectedSequence : ℕ) (record : PendingExecutionRecord N) :
    Bool :=
  record.schemaVersion = journalSchema && record.status.allowed &&
    IsoDate.isExact record.signalDate && IsoDate.isExact record.executionDate &&
    Documents.same (.num record.sequence) (.num (Number.natCast expectedSequence)) &&
    record.previousRecordSha256 = previous && Sha256.sha256 record.material = record.recordSha256

omit [NumText N] in
/-- The loop of `verify`. -/
def verifyFrom (previous : String) (expectedSequence : ℕ) :
    List (PendingExecutionRecord N) → Bool
  | [] => true
  | record :: rest =>
    checkRecord previous expectedSequence record &&
      verifyFrom record.recordSha256 (expectedSequence + 1) rest

variable (N) in
/-- `verify`. -/
def verify (file : Option (List Char)) : Except JournalCorruption Bool :=
  match (records file : Except JournalCorruption (List (PendingExecutionRecord N))) with
  | .error reason => .error reason
  | .ok records => .ok (verifyFrom "" 1 records)

end Verify

/-- `history`. -/
def history (records : List (PendingExecutionRecord N)) (payload : String) :
    List (PendingExecutionRecord N) :=
  records.filter (·.pendingPayloadSha256 = payload)

def terminals (records : List (PendingExecutionRecord N)) (payload : String) :
    List (PendingExecutionRecord N) :=
  (history records payload).filter (·.status.terminal)

def withStatus (records : List (PendingExecutionRecord N)) (payload : String)
    (status : JournalStatus) : List (PendingExecutionRecord N) :=
  (history records payload).filter (·.status = status)

def decisions (records : List (PendingExecutionRecord N)) (date : String) :
    List (PendingExecutionRecord N) :=
  records.filter fun record ↦
    record.status = .dailyDecisionFrozen && record.signalDate = date

def only (found : List (PendingExecutionRecord N)) (reason : JournalCorruption) :
    Except JournalCorruption (Option (PendingExecutionRecord N)) :=
  if found.length > 1 then .error reason else .ok found.head?

/-- `terminal`. -/
def terminal (records : List (PendingExecutionRecord N)) (payload : String) :
    Except JournalCorruption (Option (PendingExecutionRecord N)) :=
  only (terminals records payload) (.multipleTerminals payload)

/-- `reconciliation`. -/
def reconciliation (records : List (PendingExecutionRecord N)) (payload : String) :
    Except JournalCorruption (Option (PendingExecutionRecord N)) :=
  only (withStatus records payload .executionReconciled) (.multipleReconciliations payload)

/-- `legacy_binding`. -/
def legacyBinding (records : List (PendingExecutionRecord N)) (payload : String) :
    Except JournalCorruption (Option (PendingExecutionRecord N)) :=
  only (withStatus records payload .legacyTerminalBound) (.multipleBindings payload)

/-- `daily_decision`. -/
def dailyDecision (records : List (PendingExecutionRecord N)) (date : String) :
    Except JournalCorruption (Option (PendingExecutionRecord N)) :=
  only (decisions records date) (.multipleDecisions date)

/-- `has_unresolved_start`. -/
def hasUnresolvedStart (records : List (PendingExecutionRecord N)) (payload : String) : Bool :=
  !(withStatus records payload .executionStarted).isEmpty && (terminals records payload).isEmpty

section Guards

variable [Documents N]

/-- `details.get(key) is not None`. -/
def present (details : Dict String (Json N)) (key : String) : Bool :=
  match details.get? key with
  | none => false
  | some .null => false
  | some _ => true

/-- `len(str(details.get(key) or "")) == 64`. -/
def isDigest (details : Dict String (Json N)) (key : String) : Bool :=
  (Json.textOr (details.get? key)).length = 64

/-- A reconciliation binds the indeterminate outcome of its payload. -/
def checkReconciliation (terminal : Option (PendingExecutionRecord N))
    (details : Dict String (Json N)) : Except JournalCorruption Unit :=
  match terminal with
  | none => .error .reconciliationWithoutIndeterminate
  | some terminal =>
    if terminal.status ≠ .executionIndeterminate then
      .error .reconciliationWithoutIndeterminate
    else if Json.textOr (details.get? "indeterminate_record_sha256") ≠ terminal.recordSha256 then
      .error .reconciliationUnbound
    else .ok ()

/-- A legacy binding binds an outcome without a receipt to a canonical prefix. -/
def checkLegacyBinding (terminal : Option (PendingExecutionRecord N))
    (details : Dict String (Json N)) : Except JournalCorruption Unit :=
  match terminal with
  | none => .error .bindingWithoutTerminal
  | some terminal =>
    if present terminal.details "canonical_prefix_receipt" then .error .bindingOfReceipt
    else if Json.textOr (details.get? "terminal_record_sha256") ≠ terminal.recordSha256 then
      .error .bindingUnbound
    else if !isDigest details "paper_account_identity_sha256" then .error .bindingIdentity
    else match (details.get? "canonical_records").bind Documents.int with
      | none => .error .bindingRecords
      | some canonicalRecords =>
        if canonicalRecords < 0 || !isDigest details "canonical_head" then
          .error .bindingPrefix
        else if Json.textOr (details.get? "assurance") ≠
            "operator_bound_canonical_only_legacy_terminal_v1" then
          .error .bindingAssurance
        else if Json.textOr (details.get? "operational_economic_reconstruction") ≠
            "not_claimed_canonical_is_record_of_account" then
          .error .bindingReconstruction
        else if !isDigest details "account_state_sha256" ||
            !isDigest details "target_weights_sha256" then
          .error .bindingDigests
        else .ok ()

/-- A frozen decision names its kind and binds the canonical account. -/
def checkDailyDecision (details : Dict String (Json N)) : Except JournalCorruption Unit :=
  if Json.textOr (details.get? "decision_kind") ∉ ["target", "no_target"] then
    .error .decisionKind
  else match (details.get? "canonical_records").bind Documents.int with
    | none => .error .decisionRecords
    | some canonicalRecords =>
      if !isDigest details "paper_account_identity_sha256" ||
          !isDigest details "canonical_account_state_sha256" ||
          !isDigest details "canonical_head" || canonicalRecords < 0 ||
          Json.textOr (details.get? "assurance") ≠
            "canonical_account_daily_decision_freeze_v1" then
        .error .decisionBinding
      else .ok ()

/-- `left == right` for details. -/
def sameDetails (left right : Dict String (Json N)) : Bool :=
  Documents.same (.obj left.entries) (.obj right.entries)

/-- The existing record answers a call with its details; other details are refused. -/
def repeated (existing : Option (PendingExecutionRecord N)) (agrees : PendingExecutionRecord N → Bool)
    (otherwise : JournalCorruption) :
    Except JournalCorruption (Option (PendingExecutionRecord N)) :=
  match existing with
  | none => .ok none
  | some existing => if agrees existing then .ok (some existing) else .error otherwise

/-- What answers a call, given the records its payload and its date already have: an existing
record, or none when a new one is due. -/
def answer (payload signalDate : String) (status : JournalStatus) (details : Dict String (Json N))
    (terminal reconciliation legacyBinding decision : Option (PendingExecutionRecord N))
    (started : Bool) : Except JournalCorruption (Option (PendingExecutionRecord N)) :=
  match status with
  | .executionReconciled =>
    match checkReconciliation terminal details with
    | .error reason => .error reason
    | .ok () =>
      repeated reconciliation (sameDetails ·.details details) (.alreadyReconciled payload)
  | .legacyTerminalBound =>
    match checkLegacyBinding terminal details with
    | .error reason => .error reason
    | .ok () => repeated legacyBinding (sameDetails ·.details details) (.alreadyBound payload)
  | .dailyDecisionFrozen =>
    match checkDailyDecision details with
    | .error reason => .error reason
    | .ok () =>
      repeated decision
        (fun existing ↦ existing.pendingPayloadSha256 = payload &&
          sameDetails existing.details details)
        (.alreadyFrozen signalDate)
  | status =>
    match terminal with
    | some terminal =>
      if status = terminal.status && sameDetails details terminal.details then
        .ok (some terminal)
      else .error (.alreadyTerminal payload terminal.status)
    | none =>
      if status = .executionStarted && started then .error (.alreadyStarted payload)
      else .ok none

/-- The checks of `append` between reading the records and writing. -/
def admission (records : List (PendingExecutionRecord N)) (payload signalDate : String)
    (status : JournalStatus) (details : Dict String (Json N)) :
    Except JournalCorruption (Option (PendingExecutionRecord N)) := do
  let terminal ← terminal records payload
  let reconciliation ← reconciliation records payload
  let legacyBinding ← legacyBinding records payload
  let decision ← dailyDecision records signalDate
  answer payload signalDate status details terminal reconciliation legacyBinding decision
    ((history records payload).any (·.status = .executionStarted))

end Guards

/-- The arguments of `append`, and what the clock shows. -/
structure Call (N : Type) where
  pendingPayloadSha256 : String
  signalDate : String
  executionDate : String
  status : String
  details : Option (Mapping N)
  recordedAt : Option String
  now : Timestamp

/-- `dict(details or {})`. -/
def Call.normalizedDetails (call : Call N) : Dict String (Json N) :=
  (call.details.getD .empty).members

/-- `recorded_at or datetime.now(...)`. -/
def Call.stamp (call : Call N) : String :=
  match call.recordedAt with
  | some text => if text = "" then call.now.text else text
  | none => call.now.text

section Append

variable [Documents N] [NumText N] [Sha256 N]

omit [NumText N] in
def sealed (records : List (PendingExecutionRecord N)) (call : Call N) :
    PendingExecutionRecord N :=
  let draft : PendingExecutionRecord N := {
    schemaVersion := journalSchema
    sequence := Number.natCast (records.length + 1)
    pendingPayloadSha256 := call.pendingPayloadSha256
    signalDate := call.signalDate
    executionDate := call.executionDate
    status := .ofValue call.status
    details := call.normalizedDetails
    recordedAt := call.stamp
    previousRecordSha256 := (records.getLast?.map (·.recordSha256)).getD ""
    recordSha256 := "" }
  { draft with recordSha256 := Sha256.sha256 draft.material }

omit [Documents N] [NumText N] [Sha256 N] in
/-- The checks of `append` before the file is locked. -/
def checkCall (call : Call N) : Except JournalError Unit :=
  if !(JournalStatus.ofValue call.status).allowed then .error (.unsupportedStatus call.status)
  else if strip call.pendingPayloadSha256.toList = [] then .error .emptyPayload
  else if !IsoDate.isExact call.signalDate then .error (.inexactDate "signal_date" call.signalDate)
  else if !IsoDate.isExact call.executionDate then
    .error (.inexactDate "execution_date" call.executionDate)
  else .ok ()

/-- `append`: the file afterwards, and the record or the error. -/
def append (file : Option (List Char)) (call : Call N) :
    Option (List Char) × Except JournalError (PendingExecutionRecord N) :=
  match checkCall call with
  | .error error => (file, .error error)
  | .ok () =>
    match (records file : Except JournalCorruption (List (PendingExecutionRecord N))) with
    | .error reason => (file, .error (.corruption reason))
    | .ok records =>
      if !verifyFrom "" 1 records then (file, .error (.corruption .invalidChain))
      else match admission records call.pendingPayloadSha256 call.signalDate
          (.ofValue call.status) call.normalizedDetails with
        | .error reason => (file, .error (.corruption reason))
        | .ok (some existing) => (file, .ok existing)
        | .ok none =>
          let record := sealed records call
          if record.toDict.Plain then
            (some (file.getD [] ++ lineOf record.toDict), .ok record)
          else (file, .error .notSerializable)

end Append

/-- `replay_terminal_status`: a terminal outcome is replaced by the later one of its payload, and
reconciled indeterminate outcomes are shown as such. -/
def replayTerminalStatus (records : List (PendingExecutionRecord N)) : Dict String JournalStatus :=
  let result := records.foldl (fun result record ↦
    if record.status.terminal then result.insert record.pendingPayloadSha256 record.status
    else result) .empty
  let reconciled := (records.filter (·.status = .executionReconciled)).map
    (·.pendingPayloadSha256)
  reconciled.foldl (fun result payload ↦
    if result.get? payload = some .executionIndeterminate then
      result.insert payload .executionReconciled
    else result) result

end PendingExecutionJournal

end QuantAgent.Paper
