import QuantAgent.Library.Durable
import QuantAgent.Paper.CanonicalReceipt

/-!
# Executing pending paper signals

One account: the outcome journal, the canonical ledger, and the orders handed to the order manager.
A run checks the account, and takes each pending signal whose session has come through a durable
start, the submission of its orders and a durable outcome; a run may stop between any two durable
steps.  What the simulator makes of the market, and what it writes to the ledger, is an input.
-/

namespace QuantAgent.Paper

open Library TextFile PendingExecutionJournal
open Domain hiding Call

variable {N : Type}

/-- Orders handed to `submit_orders`, with the account at that moment. -/
structure Submission (N : Type) where
  pendingPayloadSha256 : String
  accountIdentitySha256 : String
  journal : Option (List Char)
  canonical : CanonicalLedger N

/-- The stores behind one account, and what was submitted for it, the latest first. -/
structure Account (N : Type) where
  journal : Option (List Char)
  canonical : CanonicalLedger N
  submissions : List (Submission N)

def Account.new (canonical : CanonicalLedger N) : Account N where
  journal := none
  canonical
  submissions := []

structure LedgerWrite (N : Type) where
  records : List (LedgerRecord N)
  head : String
  tornTail : Bool

def LedgerWrite.grow (write : LedgerWrite N) (ledger : CanonicalLedger N) : CanonicalLedger N :=
  { ledger with
    records := ledger.records ++ write.records
    head := write.head
    tornTail := write.tornTail }

inductive ExecutionError where
  | invalidDate
  | identityFailed
  | invalidSessions
  | sessionNotSupplied (asOf : String)
  | sessionNotObserved (asOf : String)
  | journalUnverified
  | journal (error : JournalError)
  | unresolvedStart (payload : String)
  | multipleTerminals (payload : String)
  | unreconciled
  | terminalUnbound
  | sectorMapUnreadable
  | pendingCorrupt
  | protocolMissing
  | uncommitted
  | commitMismatch (names : List String)
  | summaryUnbound
  | summaryMissing
  | summaryMismatch
  | prefixUnreadable
  | accountChanged
  | pendingIdentity
  | missedUncertified
  | ledgerUnverified
  | simulator
  | receiptFailed
  | emptyReason
  | openOrders
  | startWithoutEvidence (payload : String)
  | startUnbound (payload : String)
  | reconciliationInvalid (payload : String)
  deriving DecidableEq, Repr

abbrev Procedure (N α : Type) := Durable (Account N) ExecutionError α

def corrupt {α : Type} (outcome : Except JournalCorruption α) : Except ExecutionError α :=
  outcome.mapError fun reason ↦ .journal (.corruption reason)

def Account.records [NumText N] (account : Account N) :
    Except ExecutionError (List (PendingExecutionRecord N)) :=
  corrupt (PendingExecutionJournal.records account.journal)

/-- `journal.append`. -/
def appendJournal [Documents N] [NumText N] [Sha256 N] (call : Call N) :
    Procedure N (PendingExecutionRecord N) := do
  let account ← Durable.look
  match append account.journal call with
  | (_, .error error) => Durable.raise (.journal error)
  | (file, .ok record) => do
      Durable.save fun account ↦ { account with journal := file }
      pure record

def writeLedger : List (LedgerWrite N) → Procedure N Unit
  | [] => pure ()
  | write :: writes => do
      Durable.save fun account ↦ { account with canonical := write.grow account.canonical }
      writeLedger writes

section Resolved

variable [Documents N] [Hashing N]

/-- What `_assert_account_execution_state_resolved` asks of the starts and the outcomes of a
payload. -/
def checkOutcome (records : List (PendingExecutionRecord N)) (ledger : CanonicalLedger N)
    (identity payload : String) : Except ExecutionError Unit :=
  if hasUnresolvedStart records payload then .error (.unresolvedStart payload)
  else match terminals records payload with
    | [] => .ok ()
    | [terminal] =>
      if terminal.status = .executionIndeterminate then
        match reconciliation records payload with
        | .error reason => .error (.journal (.corruption reason))
        | .ok reconciliation =>
          if reconciliationIsValid terminal reconciliation ledger identity then .ok ()
          else .error .unreconciled
      else .ok ()
    | _ => .error (.multipleTerminals payload)

def checkEvidence (records : List (PendingExecutionRecord N)) (ledger : CanonicalLedger N)
    (identity : String) (target : Option String) (payload : String) :
    Except ExecutionError Unit :=
  match (terminals records payload).head? with
  | none => .ok ()
  | some terminal =>
    match legacyBinding records payload with
    | .error reason => .error (.journal (.corruption reason))
    | .ok binding =>
      if verifyTerminalBinding terminal binding ledger target identity then .ok ()
      else .error .terminalUnbound

omit [Documents N] [Hashing N] in
/-- The payloads of a journal, in the order they first occur. -/
def payloads (records : List (PendingExecutionRecord N)) : List String :=
  (records.map (·.pendingPayloadSha256)).eraseDups

/-- `_assert_account_execution_state_resolved`. -/
def assertResolved (records : List (PendingExecutionRecord N)) (ledger : CanonicalLedger N)
    (identity : String) : Except ExecutionError Unit :=
  match Durable.checkEach (checkOutcome records ledger identity) (payloads records) with
  | .error error => .error error
  | .ok () => Durable.checkEach (checkEvidence records ledger identity none) (payloads records)

end Resolved

/-- `PendingPaperSignal`, as far as it decides about its execution. -/
structure PendingPaperSignal where
  signalDate : String
  targetWeightsSha256 : String
  sourceLineage : Dict String String
  payloadSha256 : String

/-- `str(source_lineage.get(key) or "")`. -/
def PendingPaperSignal.lineageText (pending : PendingPaperSignal) (key : String) : String :=
  (pending.sourceLineage.get? key).getD ""

/-- `PENDING_COMMIT_PROTOCOL`. -/
def commitProtocol : String := "pending_bound_daily_decision_v1"

/-- The frozen decision of a signal's date binds the signal and the account it was made for. -/
def commitMismatches [Documents N] (decision : PendingExecutionRecord N)
    (pending : PendingPaperSignal) (identity : String) : List String :=
  let field (key : String) : String := Json.textOr (decision.details.get? key)
  let canonicalRecords : String :=
    if present decision.details "canonical_records" then
      ((decision.details.get? "canonical_records").map Documents.str).getD ""
    else ""
  let checks : List (String × String × String) := [
    ("canonical_account_state_sha256", field "canonical_account_state_sha256",
      pending.lineageText "canonical_account_state_sha256"),
    ("canonical_head", field "canonical_head", pending.lineageText "canonical_ledger_head_hash"),
    ("canonical_records", canonicalRecords, pending.lineageText "canonical_ledger_records"),
    ("commit_protocol", field "commit_protocol", commitProtocol),
    ("decision_kind", field "decision_kind", "target"),
    ("paper_account_identity_sha256", field "paper_account_identity_sha256", identity),
    ("pending_payload_sha256", decision.pendingPayloadSha256, pending.payloadSha256),
    ("target_weights_sha256", field "target_weights_sha256", pending.targetWeightsSha256)]
  (checks.filter fun check ↦ check.2.1 ≠ check.2.2).map Prod.fst

/-- `_verify_pending_daily_commit`; `summaries` holds the digests of the files there are. -/
def verifyPendingDailyCommit [Documents N] [Hashing N] (records : List (PendingExecutionRecord N))
    (ledger : CanonicalLedger N) (summaries : String → Option String)
    (pending : PendingPaperSignal) (identity : String) : Except ExecutionError Unit :=
  if pending.sourceLineage.get? "daily_decision_commit_protocol" ≠ some commitProtocol then
    .error .protocolMissing
  else match dailyDecision records pending.signalDate with
    | .error reason => .error (.journal (.corruption reason))
    | .ok none => .error .uncommitted
    | .ok (some decision) =>
      let mismatches := commitMismatches decision pending identity
      if mismatches ≠ [] then .error (.commitMismatch mismatches)
      else
        let path := stripText (Json.textOr (decision.details.get? "daily_summary_path"))
        let digest := stripText (Json.textOr (decision.details.get? "daily_summary_sha256"))
        if digest.length ≠ 64 || path = "" then .error .summaryUnbound
        else match summaries path with
          | none => .error .summaryMissing
          | some found =>
            if found ≠ digest then .error .summaryMismatch
            else match canonicalSnapshot ledger,
                (decision.details.get? "canonical_records").bind Documents.int,
                decision.details.get? "canonical_head" with
              | some (count, head), some expectedCount, some expectedHead =>
                if (count : ℤ) ≠ expectedCount || head ≠ Documents.str expectedHead then
                  .error .accountChanged
                else .ok ()
              | _, _, _ => .error .prefixUnreadable

/-- `_normalise_sessions`; `none` is a value that is no date. -/
def normaliseSessions (values : List (Option String)) : Except ExecutionError (List String) :=
  if none ∈ values then .error .invalidSessions
  else .ok ((values.filterMap id).eraseDups.mergeSort fun first second ↦ !decide (second < first))

/-- `_next_session`. -/
def nextSession (signalDate : String) (sessions : List String) : Option String :=
  sessions.find? fun session ↦ signalDate < session

section Details

variable [Number N]

def startDetails (orderCount beforeRecords : ℕ)
    (beforeHead target identity assurance clock : String) : Mapping N where
  members := ⟨[
    ("calendar_assurance", .str assurance),
    ("canonical_head_before", .str beforeHead),
    ("canonical_records_before", .num (Number.natCast beforeRecords)),
    ("execution_clock", .str clock),
    ("order_count", .num (Number.natCast orderCount)),
    ("paper_account_identity_sha256", .str identity),
    ("production_pretrade_risk_certified", .bool false),
    ("risk_scope", .str "paper_simulator_admissibility_only"),
    ("shadow_acceptance_calendar_eligible", .bool false),
    ("target_weights_sha256", .str target)], by simp⟩
  distinct := by simp [Json.Distinct]

def missedDetails (receipt : PrefixReceipt) (asOf target identity : String) : Mapping N where
  members := ⟨[
    ("canonical_prefix_receipt", receipt.toDict),
    ("observed_as_of", .str asOf),
    ("paper_account_identity_sha256", .str identity),
    ("reason", .str
      "consumer did not run on exact next session; retroactive shadow fill prohibited"),
    ("target_weights_sha256", .str target)], by simp⟩
  distinct := by simp [Json.Distinct, PrefixReceipt.toDict_distinct]

def outcomeDetails (receipt : PrefixReceipt) (orderCount fillCount : ℕ) (statuses : List String)
    (navBefore navAfter : N) (target identity assurance clock : String) : Mapping N where
  members := ⟨[
    ("calendar_assurance", .str assurance),
    ("canonical_prefix_receipt", receipt.toDict),
    ("execution_clock", .str clock),
    ("fill_count", .num (Number.natCast fillCount)),
    ("nav_after", .num navAfter),
    ("nav_before", .num navBefore),
    ("order_count", .num (Number.natCast orderCount)),
    ("order_statuses", .arr (statuses.map .str)),
    ("paper_account_identity_sha256", .str identity),
    ("production_pretrade_risk_certified", .bool false),
    ("risk_scope", .str "paper_simulator_admissibility_only"),
    ("session_closed", .bool true),
    ("shadow_acceptance_calendar_eligible", .bool false),
    ("target_weights_sha256", .str target)], by simp⟩
  distinct := by simp [Json.Distinct, PrefixReceipt.toDict_distinct, Json.distinctItems_texts]

def indeterminateDetails (receipt : PrefixReceipt) (target identity : String) : Mapping N where
  members := ⟨[
    ("canonical_prefix_receipt", receipt.toDict),
    ("paper_account_identity_sha256", .str identity),
    ("reason", .str "explicit reconciliation converted dangling execution_started"),
    ("target_weights_sha256", .str target)], by simp⟩
  distinct := by simp [Json.Distinct, PrefixReceipt.toDict_distinct]

def reconciledDetails (terminalSha256 : String) (canonicalRecords : ℕ)
    (canonicalHead accountState identity asOf reason : String) : Mapping N where
  members := ⟨[
    ("account_state_sha256", .str accountState),
    ("canonical_head", .str canonicalHead),
    ("canonical_records", .num (Number.natCast canonicalRecords)),
    ("indeterminate_record_sha256", .str terminalSha256),
    ("paper_account_identity_sha256", .str identity),
    ("reason", .str reason),
    ("reconciled_as_of", .str asOf)], by simp⟩
  distinct := by simp [Json.Distinct]

end Details

inductive BrokerStatus where
  | pending
  | submitted
  | partlyFilled
  | filled
  | cancelled
  | rejected
  deriving DecidableEq, Repr

def BrokerStatus.value : BrokerStatus → String
  | pending => "pending"
  | submitted => "submitted"
  | partlyFilled => "partial"
  | filled => "filled"
  | cancelled => "cancelled"
  | rejected => "rejected"

/-- A pending signal, and what the simulator makes of it. -/
structure Attempt (N : Type) where
  signal : PendingPaperSignal
  /-- `len(orders)`; `none` when the account or the market does not allow an execution. -/
  orderCount : Option ℕ
  navBefore : N
  /-- What `submit_orders` writes. -/
  submitting : List (LedgerWrite N)
  /-- The statuses it returns; `none` when it raises. -/
  statuses : Option (List BrokerStatus)
  /-- What is written until the session is closed. -/
  closing : List (LedgerWrite N)
  /-- The fills and the account value then; `none` when that raises. -/
  closed : Option (ℕ × N)
  now : Timestamp

/-- `ContinuousPaperExecutionResult`. -/
structure ContinuousPaperExecutionResult (N : Type) where
  signalDate : String
  executionDate : String
  status : JournalStatus
  pendingPayloadSha256 : String
  orderCount : ℕ
  fillCount : ℕ
  navBefore : Option N
  navAfter : Option N
  calendarAssurance : String
  shadowAcceptanceCalendarEligible : Bool
  reasons : List String

/-- One run of `execute_pending_for_session`: its arguments, and what it meets. -/
structure ExecuteRun (N : Type) where
  /-- `none` is no date. -/
  asOf : Option String
  /-- The digest of the account identity; `none` when it cannot be ensured. -/
  identity : Option String
  observedSessions : List (Option String)
  authoritativeSessions : Option (List (Option String))
  executionClock : String
  sectorMapReadable : Bool
  /-- The signals of the store; `none` when one of them cannot be read. -/
  pending : Option (List (Attempt N))
  summaries : String → Option String

/-- What a run has established before it takes the signals. -/
structure Session where
  asOf : String
  identity : String
  sessions : List String
  assurance : String
  clock : String

section Execute

variable [Documents N] [NumText N] [Sha256 N] [Hashing N]

omit [Documents N] [NumText N] [Sha256 N] [Hashing N] in
def evidence (pendingPayloadSha256 signalDate executionDate : String) (status : JournalStatus)
    (details : Mapping N) (now : Timestamp) : Call N where
  pendingPayloadSha256
  signalDate
  executionDate
  status := status.value
  details := some details
  recordedAt := none
  now

/-- `_same_prefix_receipt`. -/
def samePrefixReceipt (ledger : CanonicalLedger N) (target identity : String) :
    Option PrefixReceipt :=
  match canonicalSnapshot ledger with
  | none => none
  | some (count, head) => buildPrefixReceipt ledger count head target identity

/-- The session of the signal has passed: this is recorded, and nothing is executed. -/
def missSession (session : Session) (nextDate : String) (attempt : Attempt N) :
    Procedure N (Option (ContinuousPaperExecutionResult N)) := do
  let account ← Durable.look
  match samePrefixReceipt account.canonical attempt.signal.targetWeightsSha256
      session.identity with
  | none => Durable.raise .missedUncertified
  | some receipt => do
      let _ ← appendJournal (evidence attempt.signal.payloadSha256 attempt.signal.signalDate nextDate
        .missedExecutionSession
        (missedDetails receipt session.asOf attempt.signal.targetWeightsSha256 session.identity)
        attempt.now)
      pure (some {
        signalDate := attempt.signal.signalDate
        executionDate := nextDate
        status := .missedExecutionSession
        pendingPayloadSha256 := attempt.signal.payloadSha256
        orderCount := 0
        fillCount := 0
        navBefore := none
        navAfter := none
        calendarAssurance := session.assurance
        shadowAcceptanceCalendarEligible := false
        reasons := ["retroactive execution prohibited"] })

omit [NumText N] [Sha256 N] [Documents N] [Hashing N] in
/-- `manager.submit_orders(orders)`. -/
def submitOrders (session : Session) (attempt : Attempt N) :
    Procedure N (List BrokerStatus) := do
  Durable.save fun account ↦ { account with
    submissions := {
      pendingPayloadSha256 := attempt.signal.payloadSha256
      accountIdentitySha256 := session.identity
      journal := account.journal
      canonical := account.canonical } :: account.submissions }
  writeLedger attempt.submitting
  match attempt.statuses with
  | none => Durable.raise .simulator
  | some statuses => pure statuses

/-- The outcome of a session: blocked when every order was refused and nothing was filled. -/
def outcomeStatus (orderCount fillCount : ℕ) (statuses : List BrokerStatus) : JournalStatus :=
  if orderCount ≠ 0 ∧ fillCount = 0 ∧ statuses ≠ [] ∧
      ∀ status ∈ statuses, status = .rejected ∨ status = .cancelled then
    .executionBlocked
  else .executionObserved

def concludeSession (session : Session) (attempt : Attempt N) (orderCount beforeRecords : ℕ)
    (beforeHead : String) (statuses : List BrokerStatus) :
    Procedure N (Option (ContinuousPaperExecutionResult N)) := do
  writeLedger attempt.closing
  match attempt.closed with
  | none => Durable.raise .simulator
  | some (fillCount, navAfter) => do
      let account ← Durable.look
      match buildPrefixReceipt account.canonical beforeRecords beforeHead
          attempt.signal.targetWeightsSha256 session.identity with
      | none => Durable.raise .receiptFailed
      | some receipt => do
          let _ ← appendJournal (evidence attempt.signal.payloadSha256 attempt.signal.signalDate
            session.asOf (outcomeStatus orderCount fillCount statuses)
            (outcomeDetails receipt orderCount fillCount (statuses.map (·.value))
              attempt.navBefore navAfter attempt.signal.targetWeightsSha256 session.identity
              session.assurance session.clock)
            attempt.now)
          pure (some {
            signalDate := attempt.signal.signalDate
            executionDate := session.asOf
            status := outcomeStatus orderCount fillCount statuses
            pendingPayloadSha256 := attempt.signal.payloadSha256
            orderCount
            fillCount
            navBefore := some attempt.navBefore
            navAfter := some navAfter
            calendarAssurance := session.assurance
            shadowAcceptanceCalendarEligible := false
            reasons := [] })

/-- The session of the signal has come: a durable start, the submission, a durable outcome. -/
def executeNow (session : Session) (attempt : Attempt N) :
    Procedure N (Option (ContinuousPaperExecutionResult N)) := do
  let account ← Durable.look
  match canonicalSnapshot account.canonical with
  | none => Durable.raise .ledgerUnverified
  | some (beforeRecords, beforeHead) =>
    match attempt.orderCount with
    | none => Durable.raise .simulator
    | some orderCount => do
        let _ ← appendJournal (evidence attempt.signal.payloadSha256 attempt.signal.signalDate
          session.asOf .executionStarted
          (startDetails orderCount beforeRecords beforeHead attempt.signal.targetWeightsSha256
            session.identity session.assurance session.clock)
          attempt.now)
        let statuses ← submitOrders session attempt
        concludeSession session attempt orderCount beforeRecords beforeHead statuses

omit [NumText N] [Sha256 N] in
/-- What is asked of a signal that has no outcome before its session is looked up. -/
def checkSignal (records : List (PendingExecutionRecord N)) (ledger : CanonicalLedger N)
    (summaries : String → Option String) (session : Session) (signal : PendingPaperSignal) :
    Except ExecutionError Unit :=
  match verifyPendingDailyCommit records ledger summaries signal session.identity with
  | .error error => .error error
  | .ok () =>
    if signal.lineageText "paper_account_identity_sha256" ≠ session.identity then
      .error .pendingIdentity
    else .ok ()

/-- One round of the loop over the pending signals. -/
def executeSignal (summaries : String → Option String) (session : Session)
    (attempt : Attempt N) : Procedure N (Option (ContinuousPaperExecutionResult N)) := do
  let account ← Durable.look
  let records ← Durable.lift account.records
  let terminal ← Durable.lift (corrupt (terminal records attempt.signal.payloadSha256))
  match terminal with
  | some _ => do
      Durable.lift (checkEvidence records account.canonical session.identity
        (some attempt.signal.targetWeightsSha256) attempt.signal.payloadSha256)
      pure none
  | none => do
      Durable.lift (checkSignal records account.canonical summaries session attempt.signal)
      match nextSession attempt.signal.signalDate session.sessions with
      | none => pure none
      | some nextDate =>
        if session.asOf < nextDate then pure none
        else if hasUnresolvedStart records attempt.signal.payloadSha256 then
          Durable.raise (.unresolvedStart attempt.signal.payloadSha256)
        else if nextDate < session.asOf then missSession session nextDate attempt
        else executeNow session attempt

omit [Documents N] [NumText N] [Sha256 N] [Hashing N] in
/-- The sessions of a run and how sure they are; `none` when the market has not been observed. -/
def ExecuteRun.calendar (run : ExecuteRun N) (asOf : String) :
    Except ExecutionError (Option (List String × String)) := do
  let observed ← normaliseSessions run.observedSessions
  match run.authoritativeSessions with
  | some values =>
    let sessions ← normaliseSessions values
    if asOf ∉ sessions then .error (.sessionNotSupplied asOf)
    else if asOf ∉ observed then .error (.sessionNotObserved asOf)
    else pure (some (sessions, "caller_supplied_session_set_unverified"))
  | none => pure (if asOf ∉ observed then none else some (observed, "observed_market_panel_only"))

omit [Hashing N] in
/-- `if not journal.verify(): raise`. -/
def checkJournal (account : Account N) : Except ExecutionError Unit :=
  match verify N account.journal with
  | .error reason => .error (.journal (.corruption reason))
  | .ok true => .ok ()
  | .ok false => .error .journalUnverified

/-- The checks of the account before a run takes the signals. -/
def checkAccount (identity : String) : Procedure N Unit := do
  let account ← Durable.look
  Durable.lift (checkJournal account)
  let records ← Durable.lift account.records
  Durable.lift (assertResolved records account.canonical identity)

/-- `_execute_pending_for_session_locked`. -/
def executePendingForSession (run : ExecuteRun N) :
    Procedure N (List (ContinuousPaperExecutionResult N)) :=
  match run.asOf, run.identity with
  | none, _ => Durable.raise .invalidDate
  | some _, none => Durable.raise .identityFailed
  | some asOf, some identity => do
      let calendar ← Durable.lift (run.calendar asOf)
      match calendar with
      | none => pure []
      | some (sessions, assurance) => do
          checkAccount identity
          if !run.sectorMapReadable then Durable.raise .sectorMapUnreadable
          else match run.pending with
            | none => Durable.raise .pendingCorrupt
            | some attempts =>
              Durable.collect
                (executeSignal run.summaries
                  { asOf, identity, sessions, assurance, clock := run.executionClock })
                attempts

end Execute

/-- One run of `reconcile_indeterminate_account`: its arguments, and what it meets. -/
structure ReconcileRun where
  /-- `none` is no date. -/
  asOf : Option String
  reason : String
  /-- The digest of the account identity; `none` when it cannot be ensured. -/
  identity : Option String
  /-- The digest of the recovered account; `none` when the ledgers do not agree on it. -/
  accountState : Option String
  openOrders : Bool
  now : Timestamp

section Reconcile

variable [Documents N] [NumText N] [Sha256 N] [Hashing N]

/-- A dangling start becomes an indeterminate outcome. -/
def convertStart (identity : String) (now : Timestamp) (start : PendingExecutionRecord N) :
    Procedure N (PendingExecutionRecord N) := do
  let payload := start.pendingPayloadSha256
  let target := Json.textOr (start.details.get? "target_weights_sha256")
  let beforeHead := Json.textOr (start.details.get? "canonical_head_before")
  if target = "" || !present start.details "canonical_records_before" || beforeHead = "" then
    Durable.raise (.startWithoutEvidence payload)
  else do
    let account ← Durable.look
    match (start.details.get? "canonical_records_before").bind Documents.int with
    | none => Durable.raise (.startUnbound payload)
    | some beforeRecords =>
      match buildPrefixReceipt account.canonical beforeRecords beforeHead target identity with
      | none => Durable.raise (.startUnbound payload)
      | some receipt =>
        appendJournal (evidence payload start.signalDate start.executionDate
          .executionIndeterminate (indeterminateDetails receipt target identity) now)

/-- An indeterminate outcome is bound to the reconciled account, unless it already is. -/
def bindOutcome (asOf reason identity accountState : String) (now : Timestamp)
    (terminal : PendingExecutionRecord N) :
    Procedure N (Option (PendingExecutionRecord N)) := do
  let payload := terminal.pendingPayloadSha256
  let account ← Durable.look
  let records ← Durable.lift account.records
  let existing ← Durable.lift (corrupt (reconciliation records payload))
  match existing with
  | some existing =>
    if reconciliationIsValid terminal (some existing) account.canonical identity then pure none
    else Durable.raise (.reconciliationInvalid payload)
  | none =>
    match canonicalSnapshot account.canonical with
    | none => Durable.raise .ledgerUnverified
    | some (count, head) => do
        let record ← appendJournal (evidence payload terminal.signalDate terminal.executionDate
          .executionReconciled
          (reconciledDetails terminal.recordSha256 count head accountState identity asOf reason)
          now)
        pure (some record)

def outcomeOf (records : List (PendingExecutionRecord N)) (identity : String) (now : Timestamp)
    (payload : String) : Procedure N (Option (PendingExecutionRecord N)) :=
  match (terminals records payload).head?,
      (withStatus records payload .executionStarted).getLast? with
  | some terminal, _ => pure (some terminal)
  | none, some start => some <$> convertStart identity now start
  | none, none => pure none

def reconcilePayload (records : List (PendingExecutionRecord N)) (asOf reason identity : String)
    (accountState : String) (now : Timestamp) (payload : String) :
    Procedure N (Option (PendingExecutionRecord N)) := do
  let terminal ← outcomeOf records identity now payload
  match terminal with
  | none => pure none
  | some terminal =>
    if terminal.status ≠ .executionIndeterminate then pure none
    else bindOutcome asOf reason identity accountState now terminal

/-- `_reconcile_indeterminate_account_locked`. -/
def reconcileIndeterminateAccount (run : ReconcileRun) :
    Procedure N (List (PendingExecutionRecord N)) :=
  let reason := stripText run.reason
  if reason = "" then Durable.raise .emptyReason
  else match run.asOf, run.identity with
    | none, _ => Durable.raise .invalidDate
    | some _, none => Durable.raise .identityFailed
    | some asOf, some identity => do
        let account ← Durable.look
        Durable.lift (checkJournal account)
        match run.accountState with
        | none => Durable.raise .simulator
        | some accountState =>
          if run.openOrders then Durable.raise .openOrders
          else do
            let records ← Durable.lift account.records
            let appended ← Durable.collect
              (reconcilePayload records asOf reason identity accountState run.now)
              (payloads records)
            let account ← Durable.look
            let records ← Durable.lift account.records
            Durable.lift (assertResolved records account.canonical identity)
            pure appended

end Reconcile

/-- What happens to an account: runs, each of which may stop behind some of its durable steps, and
between them whatever else is recorded in the journal or written to the ledger. -/
inductive Action (N : Type) where
  | execute (run : ExecuteRun N) (stopped : Option ℕ)
  | reconcile (run : ReconcileRun) (stopped : Option ℕ)
  | record (call : Call N)
  | ledger (canonical : CanonicalLedger N)

def remains {α : Type} (procedure : Procedure N α) (stopped : Option ℕ) (account : Account N) :
    Account N :=
  match stopped with
  | none => procedure.final account
  | some steps => procedure.stopped account steps

def act [Documents N] [NumText N] [Sha256 N] [Hashing N] (account : Account N) :
    Action N → Account N
  | .execute run stopped => remains (executePendingForSession run) stopped account
  | .reconcile run stopped => remains (reconcileIndeterminateAccount run) stopped account
  | .record call => { account with journal := (append account.journal call).1 }
  | .ledger canonical => { account with canonical }

end QuantAgent.Paper
