import QuantAgent.Paper.ExecutionJournal

/-!
# Canonical-ledger prefixes

Terminal evidence names a prefix of the canonical ledger by its length and its head.  Later events
append to the ledger, so evidence is checked against the head the prefix of that length has now.
-/

namespace QuantAgent.Paper

open Library TextFile Domain PendingExecutionJournal

variable {N : Type}

/-- `CANONICAL_PREFIX_RECEIPT_SCHEMA`. -/
def prefixReceiptSchema : String := "quantagent.paper.canonical_prefix_receipt.v1"

def prefixHeads (ledger : CanonicalLedger N) : List String :=
  genesisHash :: ledger.records.map (·.recordHash)

/-- `build_canonical_prefix_index` on what a fresh instance loads; `none` is a raised error. -/
def buildPrefixIndex [Hashing N] (ledger : CanonicalLedger N) : Option (List String) :=
  match ledger.verify with
  | .error _ => none
  | .ok _ =>
    if ledger.tornTail || ledger.writeFailure.isSome then none
    else if (prefixHeads ledger).getLast? ≠ some ledger.head then none
    else some (prefixHeads ledger)

/-- `head_at`. -/
def headAt (heads : List String) (count : ℤ) : Option String :=
  if count < 0 then none else heads[count.toNat]?

/-- `canonical_snapshot`. -/
def canonicalSnapshot [Hashing N] (ledger : CanonicalLedger N) : Option (ℕ × String) :=
  (buildPrefixIndex ledger).map fun heads ↦ (heads.length - 1, heads.getLast?.getD "")

/-- `text.strip()`. -/
def stripText (text : String) : String := String.ofList (strip text.toList)

/-- The receipt of a prefix and of the ledger behind it. -/
structure PrefixReceipt where
  beforeRecords : ℕ
  beforeHead : String
  afterRecords : ℕ
  afterHead : String
  targetWeightsSha256 : String
  accountIdentitySha256 : String

def PrefixReceipt.toDict [Number N] (receipt : PrefixReceipt) : Json N :=
  .obj [
    ("canonical_after_head", .str receipt.afterHead),
    ("canonical_after_records", .num (Number.natCast receipt.afterRecords)),
    ("canonical_before_head", .str receipt.beforeHead),
    ("canonical_before_records", .num (Number.natCast receipt.beforeRecords)),
    ("paper_account_identity_sha256", .str receipt.accountIdentitySha256),
    ("schema_version", .str prefixReceiptSchema),
    ("target_weights_sha256", .str receipt.targetWeightsSha256)]

theorem PrefixReceipt.toDict_distinct [Number N] (receipt : PrefixReceipt) :
    (receipt.toDict : Json N).Distinct := by
  simp only [toDict, Json.Distinct, Json.DistinctMembers, List.map_cons, List.map_nil, and_true]
  decide

section Receipt

variable [Documents N] [Hashing N]

/-- `build_canonical_prefix_receipt`. -/
def buildPrefixReceipt (ledger : CanonicalLedger N) (beforeRecords : ℤ)
    (beforeHead targetWeightsSha256 accountIdentitySha256 : String) : Option PrefixReceipt :=
  match buildPrefixIndex ledger with
  | none => none
  | some heads =>
    if headAt heads beforeRecords ≠ some beforeHead then none
    else if stripText targetWeightsSha256 = "" || stripText accountIdentitySha256 = "" then none
    else some {
      beforeRecords := beforeRecords.toNat
      beforeHead
      afterRecords := heads.length - 1
      afterHead := heads.getLast?.getD ""
      targetWeightsSha256 := stripText targetWeightsSha256
      accountIdentitySha256 := stripText accountIdentitySha256 }

omit [Hashing N] in
/-- `verify_canonical_prefix_receipt` against an index: whether the receipt binds a prefix; `none` is
a raised error. -/
def verifyPrefixReceipt (receipt : Option (Json N)) (heads : List String)
    (expectedTarget : Option String) (expectedIdentity : String) : Option Bool :=
  match receipt with
  | none => some false
  | some .null => some false
  | some (.obj members) =>
    let field (key : String) : String := Json.textOr ((Json.obj members).get? key)
    let count (key : String) : Option ℤ := ((Json.obj members).get? key).bind Documents.int
    if field "schema_version" ≠ prefixReceiptSchema then none
    else match count "canonical_before_records", count "canonical_after_records" with
      | some beforeRecords, some afterRecords =>
        if afterRecords < beforeRecords then none
        else if headAt heads beforeRecords ≠ some (field "canonical_before_head") then none
        else if headAt heads afterRecords ≠ some (field "canonical_after_head") then none
        else if field "target_weights_sha256" = "" ||
            field "paper_account_identity_sha256" = "" then none
        else if expectedTarget.any (· ≠ field "target_weights_sha256") then none
        else if field "paper_account_identity_sha256" ≠ expectedIdentity then none
        else some true
      | _, _ => none
  | some _ => none

omit [Hashing N] in
/-- `verify_legacy_terminal_binding`: whether it returns. -/
def verifyLegacyBinding (terminal : PendingExecutionRecord N)
    (binding : Option (PendingExecutionRecord N)) (heads : List String)
    (expectedIdentity : String) (expectedTarget : Option String) : Bool :=
  match binding with
  | none => false
  | some binding =>
    let field (key : String) : String := Json.textOr (binding.details.get? key)
    let terminalIdentity := Json.textOr (terminal.details.get? "paper_account_identity_sha256")
    let terminalTarget := Json.textOr (terminal.details.get? "target_weights_sha256")
    binding.status = .legacyTerminalBound &&
      field "terminal_record_sha256" = terminal.recordSha256 &&
      field "paper_account_identity_sha256" = expectedIdentity &&
      (terminalIdentity = "" || terminalIdentity = expectedIdentity) &&
      field "assurance" = "operator_bound_canonical_only_legacy_terminal_v1" &&
      field "operational_economic_reconstruction" =
        "not_claimed_canonical_is_record_of_account" &&
      (field "account_state_sha256").length = 64 &&
      (field "target_weights_sha256").length = 64 &&
      (terminalTarget = "" || terminalTarget = field "target_weights_sha256") &&
      expectedTarget.all (· = field "target_weights_sha256") &&
      (match (binding.details.get? "canonical_records").bind Documents.int,
          binding.details.get? "canonical_head" with
        | some count, some head => headAt heads count = some (Documents.str head)
        | _, _ => false)

/-- `_verify_terminal_canonical_binding`: whether it returns. -/
def verifyTerminalBinding (terminal : PendingExecutionRecord N)
    (binding : Option (PendingExecutionRecord N)) (ledger : CanonicalLedger N)
    (expectedTarget : Option String) (expectedIdentity : String) : Bool :=
  match buildPrefixIndex ledger with
  | none => false
  | some heads =>
    match verifyPrefixReceipt (terminal.details.get? "canonical_prefix_receipt") heads
        expectedTarget expectedIdentity with
    | none => false
    | some true => true
    | some false => verifyLegacyBinding terminal binding heads expectedIdentity expectedTarget

/-- `_reconciliation_is_valid`. -/
def reconciliationIsValid (terminal : PendingExecutionRecord N)
    (reconciliation : Option (PendingExecutionRecord N)) (ledger : CanonicalLedger N)
    (accountIdentitySha256 : String) : Bool :=
  match reconciliation with
  | none => false
  | some reconciliation =>
    Json.textOr (reconciliation.details.get? "indeterminate_record_sha256") =
        terminal.recordSha256 &&
      Json.textOr (reconciliation.details.get? "paper_account_identity_sha256") =
        accountIdentitySha256 &&
      (match (reconciliation.details.get? "canonical_records").bind Documents.int,
          reconciliation.details.get? "canonical_head", buildPrefixIndex ledger with
        | some count, some head, some heads => headAt heads count = some (Documents.str head)
        | _, _, _ => false)

end Receipt

end QuantAgent.Paper
