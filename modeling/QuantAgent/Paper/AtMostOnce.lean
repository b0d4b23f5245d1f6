import QuantAgent.Paper.ContinuousExecution
import QuantAgent.Paper.JournalProtocol

/-!
# Pending signals are executed at most once

The start of an execution is durable before any order is handed over, and the journal takes one
start for a payload.  A run looks at the whole journal before it takes the first signal; what it
found stays true while it appends to the journal and while the ledger grows, up to the start that it
has just recorded itself.
-/

namespace QuantAgent.Paper

open Library TextFile PendingExecutionJournal
open Domain hiding Call

variable {N : Type}

/-! ## Evidence about prefixes stays true -/

theorem prefixHeads_grow (write : LedgerWrite N) (ledger : CanonicalLedger N) :
    prefixHeads (write.grow ledger) =
      prefixHeads ledger ++ write.records.map (·.recordHash) := by
  simp [prefixHeads, LedgerWrite.grow]

theorem headAt_append {heads : List String} {count : ℤ} {head : String}
    (h : headAt heads count = some head) (more : List String) :
    headAt (heads ++ more) count = some head := by
  rw [headAt] at h ⊢
  by_cases hcount : count < 0
  · rw [if_pos hcount] at h
    cases h
  · rw [if_neg hcount] at h ⊢
    obtain ⟨hlt, rfl⟩ := List.getElem?_eq_some_iff.mp h
    rw [List.getElem?_append_left hlt, List.getElem?_eq_getElem hlt]

theorem buildPrefixIndex_eq [Hashing N] {ledger : CanonicalLedger N} {heads : List String}
    (h : buildPrefixIndex ledger = some heads) : heads = prefixHeads ledger := by
  rw [buildPrefixIndex] at h
  cases hverify : ledger.verify with
  | error index =>
    rw [hverify] at h
    cases h
  | ok head =>
    rw [hverify] at h
    simp only at h
    split_ifs at h
    exact (Option.some.inj h).symm

theorem buildPrefixIndex_of_snapshot [Hashing N] {ledger : CanonicalLedger N}
    {snapshot : ℕ × String} (h : canonicalSnapshot ledger = some snapshot) :
    buildPrefixIndex ledger = some (prefixHeads ledger) := by
  obtain ⟨heads, hheads, -⟩ := Option.map_eq_some_iff.mp h
  rw [hheads, buildPrefixIndex_eq hheads]

structure Names [Documents N] (heads : List String) (identity : String)
    (terminal reconciliation : PendingExecutionRecord N) : Prop where
  outcome : Json.textOr (reconciliation.details.get? "indeterminate_record_sha256") =
    terminal.recordSha256
  account : Json.textOr (reconciliation.details.get? "paper_account_identity_sha256") = identity
  ledger : ∃ count head, (reconciliation.details.get? "canonical_records").bind Documents.int =
    some count ∧ reconciliation.details.get? "canonical_head" = some head ∧
      headAt heads count = some (Documents.str head)

section Names

variable [Documents N] {heads : List String} {identity : String}
  {terminal reconciliation : PendingExecutionRecord N} {ledger : CanonicalLedger N}

theorem Names.append (h : Names heads identity terminal reconciliation) (more : List String) :
    Names (heads ++ more) identity terminal reconciliation := by
  obtain ⟨count, head, hcount, hhead, hat⟩ := h.ledger
  exact ⟨h.outcome, h.account, count, head, hcount, hhead, headAt_append hat more⟩

theorem names_of_valid [Hashing N]
    (h : reconciliationIsValid terminal (some reconciliation) ledger identity = true) :
    Names (prefixHeads ledger) identity terminal reconciliation := by
  simp only [reconciliationIsValid, Bool.and_eq_true, decide_eq_true_eq] at h
  obtain ⟨⟨houtcome, haccount⟩, hledger⟩ := h
  refine ⟨houtcome, haccount, ?_⟩
  split at hledger
  · rename_i count head heads hcount hhead hheads
    rw [← buildPrefixIndex_eq hheads]
    exact ⟨count, head, hcount, hhead, of_decide_eq_true hledger⟩
  · cases hledger

theorem Names.valid [Hashing N] (h : Names (prefixHeads ledger) identity terminal reconciliation)
    (hledger : buildPrefixIndex ledger = some (prefixHeads ledger)) :
    reconciliationIsValid terminal (some reconciliation) ledger identity = true := by
  obtain ⟨count, head, hcount, hhead, hat⟩ := h.ledger
  simp [reconciliationIsValid, h.outcome, h.account, hcount, hhead, hledger, hat]

end Names

/-! ## Settled payloads -/

structure Settled [Documents N] (heads : List String) (identity : String)
    (records : List (PendingExecutionRecord N)) (payload : String) : Prop where
  concluded : withStatus records payload .executionStarted ≠ [] → terminals records payload ≠ []
  reconciled : ∀ terminal ∈ terminals records payload, terminal.status = .executionIndeterminate →
    ∃ reconciliation ∈ withStatus records payload .executionReconciled,
      Names heads identity terminal reconciliation

section Settled

variable [Documents N] {heads : List String} {identity payload : String}
  {records : List (PendingExecutionRecord N)} {record : PendingExecutionRecord N}

theorem Settled.append_heads (h : Settled heads identity records payload) (more : List String) :
    Settled (heads ++ more) identity records payload where
  concluded := h.concluded
  reconciled terminal hmem hstatus := by
    obtain ⟨reconciliation, hfound, hnames⟩ := h.reconciled terminal hmem hstatus
    exact ⟨reconciliation, hfound, hnames.append more⟩

omit [Documents N] in
theorem terminals_append_other (h : record.pendingPayloadSha256 ≠ payload) :
    terminals (records ++ [record]) payload = terminals records payload := by
  simp [terminals_eq, h]

omit [Documents N] in
theorem withStatus_append_other (h : record.pendingPayloadSha256 ≠ payload)
    (status : JournalStatus) :
    withStatus (records ++ [record]) payload status = withStatus records payload status := by
  simp [withStatus_eq, h]

theorem Settled.append_other (h : Settled heads identity records payload)
    (hother : record.pendingPayloadSha256 ≠ payload) :
    Settled heads identity (records ++ [record]) payload := by
  constructor
  · rw [terminals_append_other hother, withStatus_append_other hother]
    exact h.concluded
  · rw [terminals_append_other hother, withStatus_append_other hother]
    exact h.reconciled

theorem settled_of_outcome (hsome : terminals records payload ≠ [])
    (hcertain : ∀ terminal ∈ terminals records payload,
      terminal.status ≠ .executionIndeterminate) :
    Settled heads identity records payload where
  concluded _ := hsome
  reconciled terminal hmem hstatus := absurd hstatus (hcertain terminal hmem)

theorem settled_of_notMem (h : payload ∉ payloads records) :
    Settled heads identity records payload := by
  have hnone : ∀ record ∈ records, record.pendingPayloadSha256 ≠ payload := by
    intro record hmem heq
    exact h (List.mem_eraseDups.mpr (List.mem_map.mpr ⟨record, hmem, heq⟩))
  constructor
  · intro hstarted
    obtain ⟨start, hmem⟩ := List.exists_mem_of_ne_nil _ hstarted
    obtain ⟨hrecord, -, hpayload⟩ := mem_withStatus.mp hmem
    exact absurd hpayload (hnone start hrecord)
  · intro terminal hmem
    obtain ⟨hrecord, -, hpayload⟩ := mem_terminals.mp hmem
    exact absurd hpayload (hnone terminal hrecord)

variable [Hashing N] {ledger : CanonicalLedger N}

theorem settled_of_checkOutcome (h : checkOutcome records ledger identity payload = .ok ()) :
    Settled (prefixHeads ledger) identity records payload := by
  rw [checkOutcome] at h
  split at h
  · cases h
  · rename_i hstart
    have hconcluded : withStatus records payload .executionStarted ≠ [] →
        terminals records payload ≠ [] := by
      intro hsome hnone
      simp [hasUnresolvedStart, hsome, hnone] at hstart
    refine ⟨hconcluded, ?_⟩
    intro terminal hmem hstatus
    split at h
    · rename_i hnil
      simp [hnil] at hmem
    · rename_i found hone
      obtain rfl : terminal = found := by simpa [hone] using hmem
      rw [if_pos hstatus] at h
      cases hread : reconciliation records payload with
      | error reason =>
        rw [hread] at h
        cases h
      | ok found =>
        rw [hread] at h
        simp only at h
        split at h
        · rename_i hvalid
          cases found with
          | none => simp [reconciliationIsValid] at hvalid
          | some found =>
            have hhead : (withStatus records payload .executionReconciled).head? = some found := by
              rw [reconciliation, only] at hread
              split at hread
              · cases hread
              · exact Except.ok.inj hread
            exact ⟨found, List.mem_of_head? hhead, names_of_valid hvalid⟩
        · cases h
    · cases h

theorem settled_of_assertResolved (h : assertResolved records ledger identity = .ok ())
    (payload : String) : Settled (prefixHeads ledger) identity records payload := by
  by_cases hmem : payload ∈ payloads records
  · rw [assertResolved] at h
    cases hcheck : Durable.checkEach (checkOutcome records ledger identity) (payloads records) with
    | error error =>
      rw [hcheck] at h
      cases h
    | ok _ => exact settled_of_checkOutcome (Durable.of_checkEach hcheck payload hmem)
  · exact settled_of_notMem hmem

end Settled

/-! ## The journal behind one call -/

section Standing

variable [Documents N] [NumText N] [Sha256 N]

variable (N) in
/-- A journal in order, or one that cannot be read any more. -/
def Standing (file : Option (List Char)) : Prop :=
  InOrder N file ∨ ∃ reason, (PendingExecutionJournal.records file :
    Except JournalCorruption (List (PendingExecutionRecord N))) = .error reason

variable {file : Option (List Char)} {records : List (PendingExecutionRecord N)} {call : Call N}

/-- Nothing is added to a journal that cannot be read. -/
theorem append_unreadable (call : Call N) {reason : JournalCorruption}
    (h : (PendingExecutionJournal.records file :
      Except JournalCorruption (List (PendingExecutionRecord N))) = .error reason) :
    ∃ error, append file call = (file, .error error) := by
  rw [append]
  cases checkCall call with
  | error error => exact ⟨error, rfl⟩
  | ok _ =>
    simp only [h]
    exact ⟨_, rfl⟩

/-- The file behind a new record: its line, and what can be read then. -/
structure Extended (file : Option (List Char)) (records : List (PendingExecutionRecord N))
    (record : PendingExecutionRecord N) : Prop where
  written : Written file (records ++ [record])
  standing : Standing N file
  read : ∀ later, PendingExecutionJournal.records file = .ok later → later = records ++ [record]

theorem extended_of_due (h : Intact file records) (hdue : Due records call) :
    Extended (append file call).1 records (sealed records call) := by
  rw [h.append_due hdue]
  by_cases hsafe : call.LineSafe
  · have hintact := h.extend hdue hsafe
    refine ⟨hintact.written, .inl ⟨_, hintact⟩, ?_⟩
    intro later hlater
    rw [hintact.records_eq] at hlater
    exact (Except.ok.inj hlater).symm
  · have hplain := (sealed_plain_iff records call).mpr hdue.2.2
    have hline := (sealed_lineSafe_iff h.readable hdue.1).not.mpr hsafe
    have herror := records_of_broken h.written h.readable hplain hline
    refine ⟨written_append h.written _, .inr ⟨_, herror⟩, ?_⟩
    intro later hlater
    rw [herror] at hlater
    cases hlater

section

variable (h : Standing N file)
include h

theorem append_cases (call : Call N) :
    (append file call).1 = file ∨ ∃ records, Intact file records ∧ Due records call ∧
      Extended (append file call).1 records (sealed records call) := by
  rcases h with ⟨records, hintact⟩ | ⟨reason, hreason⟩
  · by_cases hdue : Due records call
    · exact .inr ⟨records, hintact, hdue, extended_of_due hintact hdue⟩
    · exact .inl (hintact.append_not_due hdue)
  · obtain ⟨error, herror⟩ := append_unreadable call hreason
    exact .inl (by rw [herror])

theorem standing_append (call : Call N) :
    Standing N (append file call).1 := by
  rcases append_cases h call with hsame | ⟨records, -, -, hextended⟩
  · rw [hsame]
    exact h
  · exact hextended.standing

/-- Whatever a call does, the records that can be read afterwards begin with those before. -/
theorem records_append {later : List (PendingExecutionRecord N)}
    (hlater : PendingExecutionJournal.records (append file call).1 = .ok later) :
    ∃ records added, PendingExecutionJournal.records file = .ok records ∧
      later = records ++ added := by
  rcases append_cases h call with hsame | ⟨records, hintact, -, hextended⟩
  · rw [hsame] at hlater
    exact ⟨later, [], hlater, (List.append_nil later).symm⟩
  · exact ⟨records, [sealed records call], hintact.records_eq, hextended.read later hlater⟩

/-- A call about an execution is answered by a record that was due, or by the outcome there is. -/
theorem append_ok {record : PendingExecutionRecord N} (hstatus : Executes (.ofValue call.status))
    (hok : (append file call).2 = .ok record) :
    ∃ records, Intact file records ∧
      (Due records call ∨ ((append file call).1 = file ∧
        ∃ terminal ∈ terminals records call.pendingPayloadSha256,
          terminal.status = .ofValue call.status)) := by
  rcases h with ⟨records, hintact⟩ | ⟨reason, hreason⟩
  · refine ⟨records, hintact, ?_⟩
    by_cases hdue : Due records call
    · exact .inl hdue
    · refine .inr ⟨hintact.append_not_due hdue, ?_⟩
      rw [append] at hok
      cases hcall : checkCall call with
      | error error =>
        rw [hcall] at hok
        cases hok
      | ok _ =>
        simp only [hcall, hintact.records_eq, hintact.chained, Bool.not_true,
          Bool.false_eq_true, if_false] at hok
        cases hadmission : admission records call.pendingPayloadSha256 call.signalDate
            (.ofValue call.status) call.normalizedDetails with
        | error reason =>
          rw [hadmission] at hok
          cases hok
        | ok result =>
          cases result with
          | some existing =>
            have hanswer := answer_of_admission hadmission
            rw [answer_executes hstatus] at hanswer
            cases hterminal : (terminals records call.pendingPayloadSha256).head? with
            | none =>
              rw [hterminal] at hanswer
              simp only at hanswer
              split at hanswer
              · cases hanswer
              · cases hanswer
            | some terminal =>
              refine ⟨terminal, List.mem_of_head? hterminal, ?_⟩
              rw [hterminal] at hanswer
              simp only at hanswer
              split at hanswer
              · rename_i hsame
                simp only [Bool.and_eq_true, decide_eq_true_eq] at hsame
                exact hsame.1.symm
              · cases hanswer
          | none =>
            rw [hadmission] at hok
            simp only at hok
            split at hok
            · rename_i hplain
              rw [sealed_plain_iff] at hplain
              exact absurd ⟨hcall, hadmission, hplain⟩ hdue
            · cases hok
  · obtain ⟨error, herror⟩ := append_unreadable call hreason
    rw [herror] at hok
    cases hok

end

end Standing

/-! ## Submissions -/

/-- For every payload: a start has an outcome, and an indeterminate outcome has a valid
reconciliation. -/
def Resolved [Documents N] [Hashing N] (records : List (PendingExecutionRecord N))
    (ledger : CanonicalLedger N) (identity : String) : Prop :=
  ∀ payload, (withStatus records payload .executionStarted ≠ [] →
      terminals records payload ≠ []) ∧
    ∀ terminal ∈ terminals records payload, terminal.status = .executionIndeterminate →
      ∃ reconciliation ∈ withStatus records payload .executionReconciled,
        reconciliationIsValid terminal (some reconciliation) ledger identity = true

def Submission.Undisturbed [Documents N] [NumText N] [Hashing N] (submission : Submission N) :
    Prop :=
  ∀ records : List (PendingExecutionRecord N),
    PendingExecutionJournal.records submission.journal = .ok records →
      Resolved records submission.canonical submission.accountIdentitySha256

/-- Everything the journal held at a submission was resolved, apart from its last record: the start
of the payload that is submitted. -/
def Submission.Clear [Documents N] [NumText N] [Hashing N] (submission : Submission N) : Prop :=
  ∃ records start, Written submission.journal (records ++ [start]) ∧
    start.status = .executionStarted ∧
    start.pendingPayloadSha256 = submission.pendingPayloadSha256 ∧
    Resolved records submission.canonical submission.accountIdentitySha256

/-- A payload is submitted at most once, and nothing is submitted on top of something unresolved. -/
structure AtMostOnce [Documents N] [NumText N] [Hashing N] (account : Account N) : Prop where
  once : (account.submissions.map (·.pendingPayloadSha256)).Nodup
  clear : ∀ submission ∈ account.submissions, submission.Clear

section Sound

variable [Documents N] [NumText N] [Sha256 N] [Hashing N]

/-- The journal is in order or lost, and as long as it can be read it holds the start of everything
that was submitted. -/
structure Sound (account : Account N) : Prop extends AtMostOnce account where
  standing : Standing N account.journal
  started : ∀ submission ∈ account.submissions,
    ∀ records : List (PendingExecutionRecord N),
      PendingExecutionJournal.records account.journal = .ok records →
        withStatus records submission.pendingPayloadSha256 .executionStarted ≠ []

theorem sound_new (canonical : CanonicalLedger N) : Sound (Account.new canonical) where
  once := List.nodup_nil
  clear := by simp [Account.new]
  standing := .inl ⟨[], intact_none⟩
  started := by simp [Account.new]

omit [Documents N] [NumText N] [Sha256 N] [Hashing N] in
theorem withStatus_append (records added : List (PendingExecutionRecord N)) (payload : String)
    (status : JournalStatus) :
    withStatus (records ++ added) payload status =
      withStatus records payload status ++ withStatus added payload status := by
  simp [withStatus_eq]

variable {account : Account N}

theorem Sound.append (h : Sound account) (call : Call N) :
    Sound { account with journal := (append account.journal call).1 } where
  once := h.once
  clear := h.clear
  standing := standing_append h.standing call
  started submission hmem later hlater := by
    obtain ⟨records, added, hrecords, rfl⟩ := records_append h.standing hlater
    rw [withStatus_append]
    exact List.append_ne_nil_of_left_ne_nil (h.started submission hmem records hrecords) _

theorem Sound.ledger (h : Sound account) (canonical : CanonicalLedger N) :
    Sound { account with canonical } where
  once := h.once
  clear := h.clear
  standing := h.standing
  started := h.started

def Ready (identity : String) (account : Account N) : Prop :=
  Sound account ∧ ∀ records : List (PendingExecutionRecord N),
    PendingExecutionJournal.records account.journal = .ok records →
      ∀ payload, Settled (prefixHeads account.canonical) identity records payload

def Running (identity payload : String) (account : Account N) : Prop :=
  Sound account ∧ ∀ records : List (PendingExecutionRecord N),
    PendingExecutionJournal.records account.journal = .ok records →
      ∀ other, other ≠ payload → Settled (prefixHeads account.canonical) identity records other

structure Opened (identity payload : String) (account : Account N) : Prop where
  sound : Sound account
  fresh : payload ∉ account.submissions.map (·.pendingPayloadSha256)
  verified : buildPrefixIndex account.canonical = some (prefixHeads account.canonical)
  extended : ∃ (records : List (PendingExecutionRecord N)) (start : PendingExecutionRecord N),
    Extended account.journal records start ∧
    start.status = .executionStarted ∧ start.pendingPayloadSha256 = payload ∧
    ∀ other, Settled (prefixHeads account.canonical) identity records other

theorem Ready.running {identity : String} (h : Ready identity account) (payload : String) :
    Running identity payload account :=
  ⟨h.1, fun records hrecords other _ ↦ h.2 records hrecords other⟩

omit [NumText N] [Sha256 N] in
theorem resolved_of_settled {ledger : CanonicalLedger N} {identity : String}
    {records : List (PendingExecutionRecord N)}
    (hledger : buildPrefixIndex ledger = some (prefixHeads ledger))
    (h : ∀ payload, Settled (prefixHeads ledger) identity records payload) :
    Resolved records ledger identity := by
  intro payload
  refine ⟨(h payload).concluded, ?_⟩
  intro terminal hmem hstatus
  obtain ⟨reconciliation, hfound, hnames⟩ := (h payload).reconciled terminal hmem hstatus
  exact ⟨reconciliation, hfound, hnames.valid hledger⟩

/-! ## What the procedures keep -/

open Durable

theorem upholds_appendJournal (call : Call N) {before : Account N → Prop}
    {after : Account N → Prop} (hbefore : ∀ account, before account → Sound account)
    (hafter : ∀ account record, before account → (append account.journal call).2 = .ok record →
      after { account with journal := (append account.journal call).1 }) :
    Upholds Sound before (appendJournal call) fun _ ↦ after := by
  refine Upholds.look.next fun account ↦ ?_
  cases happend : append account.journal call with
  | mk file result =>
    cases result with
    | error error => exact Upholds.raise
    | ok record =>
      refine Upholds.andThen after (Upholds.save ?_ ?_) fun _ ↦
        Upholds.done fun _ hs ↦ hs
      · rintro _ ⟨hs, rfl⟩
        have hsound := (hbefore _ hs).append call
        rwa [happend] at hsound
      · rintro _ ⟨hs, rfl⟩
        have hresult := hafter _ record hs (by rw [happend])
        rwa [happend] at hresult

theorem upholds_start (identity : String) (call : Call N)
    (hstatus : JournalStatus.ofValue call.status = .executionStarted) :
    Upholds Sound
      (fun account ↦ Ready identity account ∧
        buildPrefixIndex account.canonical = some (prefixHeads account.canonical))
      (appendJournal call) fun _ ↦ Opened identity call.pendingPayloadSha256 := by
  refine upholds_appendJournal call (fun account h ↦ h.1.1) ?_
  intro account record h hok
  obtain ⟨⟨hsound, hsettled⟩, hledger⟩ := h
  obtain ⟨records, hintact, hcases⟩ := append_ok hsound.standing
    (by rw [hstatus]; exact executes_started) hok
  rcases hcases with hdue | ⟨-, terminal, hmem, hterminal⟩
  · have hread := hintact.records_eq
    have hadmission := hdue.2.1
    rw [hstatus] at hadmission
    have hnone := (admission_executes executes_started hadmission).2 rfl
    refine ⟨hsound.append call, ?_, hledger, ?_⟩
    · intro hmem
      obtain ⟨submission, hsubmission, hpayload⟩ := List.mem_map.mp hmem
      exact hsound.started submission hsubmission records hread (by rw [hpayload]; exact hnone)
    · exact ⟨records, sealed records call, extended_of_due hintact hdue, hstatus, rfl,
        hsettled records hread⟩
  · have hkind := (mem_terminals.mp hmem).2.1
    rw [hterminal, hstatus] at hkind
    cases hkind

theorem upholds_outcome (identity : String) (call : Call N)
    (hterminal : (JournalStatus.ofValue call.status).terminal = true)
    (hcertain : JournalStatus.ofValue call.status ≠ .executionIndeterminate) :
    Upholds Sound (Running identity call.pendingPayloadSha256) (appendJournal call)
      fun _ ↦ Ready identity := by
  refine upholds_appendJournal call (fun account h ↦ h.1) ?_
  intro account record h hok
  obtain ⟨hsound, hsettled⟩ := h
  obtain ⟨records, hintact, hcases⟩ :=
    append_ok hsound.standing (executes_of_terminal hterminal) hok
  have hread := hintact.records_eq
  refine ⟨hsound.append call, ?_⟩
  intro later hlater payload
  rcases hcases with hdue | ⟨hsame, terminal, hmem, hstatus⟩
  · obtain rfl := (extended_of_due hintact hdue).read later hlater
    by_cases hpayload : payload = call.pendingPayloadSha256
    · have hnone := (admission_executes (executes_of_terminal hterminal) hdue.2.1).1
      have hall : terminals (records ++ [sealed records call]) payload = [sealed records call] := by
        rw [hpayload, terminals_eq, List.filter_append, ← terminals_eq, hnone]
        simp [sealed, hterminal]
      refine settled_of_outcome (by simp [hall]) ?_
      intro terminal hmem
      rw [hall, List.mem_singleton] at hmem
      rw [hmem]
      exact hcertain
    · exact (hsettled records hread payload hpayload).append_other (Ne.symm hpayload)
  · simp only [hsame] at hlater
    rw [hread] at hlater
    cases hlater
    by_cases hpayload : payload = call.pendingPayloadSha256
    · have hall := head?_of_mem ((protocol_of_guarded hintact.guarded).terminalOnce _) hmem
      refine settled_of_outcome (by rw [hpayload]; exact List.ne_nil_of_mem hmem) ?_
      intro found hfound
      rw [hpayload] at hfound
      have hhead := head?_of_mem ((protocol_of_guarded hintact.guarded).terminalOnce _) hfound
      rw [hall] at hhead
      rw [← Option.some.inj hhead, hstatus]
      exact hcertain
    · exact hsettled records hread payload hpayload

theorem upholds_writeLedger (identity payload : String) (writes : List (LedgerWrite N)) :
    Upholds Sound (Running identity payload) (writeLedger writes)
      fun _ ↦ Running identity payload := by
  induction writes with
  | nil => exact Upholds.done fun _ h ↦ h
  | cons write writes ih =>
    refine Upholds.andThen (Running identity payload) ?_ fun _ ↦ ih
    refine Upholds.save (fun account h ↦ h.1.ledger _) ?_
    intro account h
    refine ⟨h.1.ledger _, ?_⟩
    intro records hrecords other hother
    rw [prefixHeads_grow]
    exact (h.2 records hrecords other hother).append_heads _

variable (session : Session) (attempt : Attempt N)

theorem upholds_submitOrders :
    Upholds Sound (Opened session.identity attempt.signal.payloadSha256)
      (submitOrders session attempt)
      fun _ ↦ Running session.identity attempt.signal.payloadSha256 := by
  have hsubmit : ∀ account : Account N,
      Opened session.identity attempt.signal.payloadSha256 account →
      Running session.identity attempt.signal.payloadSha256 { account with
        submissions := {
          pendingPayloadSha256 := attempt.signal.payloadSha256
          accountIdentitySha256 := session.identity
          journal := account.journal
          canonical := account.canonical } :: account.submissions } := by
    intro account h
    obtain ⟨records, start, hextended, hstatus, hpayload, hsettled⟩ := h.extended
    have hstart : start ∈ withStatus (records ++ [start]) attempt.signal.payloadSha256
        .executionStarted := mem_withStatus.mpr ⟨by simp, hstatus, hpayload⟩
    refine ⟨⟨⟨?_, ?_⟩, h.sound.standing, ?_⟩, ?_⟩
    · exact List.nodup_cons.mpr ⟨h.fresh, h.sound.once⟩
    · refine List.forall_mem_cons.mpr ⟨?_, h.sound.clear⟩
      exact ⟨records, start, hextended.written, hstatus, hpayload,
        resolved_of_settled h.verified hsettled⟩
    · refine List.forall_mem_cons.mpr ⟨?_, h.sound.started⟩
      intro later hlater
      rw [hextended.read later hlater]
      exact List.ne_nil_of_mem hstart
    · intro later hlater other hother
      rw [hextended.read later hlater]
      exact (hsettled other).append_other (by rw [hpayload]; exact Ne.symm hother)
  rw [submitOrders]
  refine Upholds.andThen (Running session.identity attempt.signal.payloadSha256)
    (Upholds.save (fun account h ↦ (hsubmit account h).1) hsubmit) fun _ ↦ ?_
  refine (upholds_writeLedger session.identity attempt.signal.payloadSha256
    attempt.submitting).next fun _ ↦ ?_
  cases attempt.statuses with
  | none => exact Upholds.raise
  | some statuses => exact Upholds.done fun _ h ↦ h

theorem upholds_record (call : Call N) :
    Upholds Sound Sound (appendJournal call) fun _ ↦ Sound :=
  upholds_appendJournal call (fun _ h ↦ h) fun _ _ h _ ↦ h.append call

/-! ## Runs -/

theorem upholds_missSession (nextDate : String) (attempt : Attempt N) :
    Upholds Sound (Ready session.identity) (missSession session nextDate attempt)
      fun _ ↦ Ready session.identity := by
  refine Upholds.look.next fun account ↦ ?_
  cases samePrefixReceipt account.canonical attempt.signal.targetWeightsSha256
      session.identity with
  | none => exact Upholds.raise
  | some receipt =>
    refine Upholds.next ((upholds_outcome session.identity _ rfl (by nofun)).imp ?_ fun _ _ h ↦ h)
      fun _ ↦ Upholds.done fun _ h ↦ h
    exact fun account h ↦ h.1.running _

omit [Documents N] [NumText N] [Sha256 N] [Hashing N] in
theorem outcomeStatus_certain (orderCount fillCount : ℕ) (statuses : List BrokerStatus) :
    (JournalStatus.ofValue (outcomeStatus orderCount fillCount statuses).value).terminal = true ∧
      JournalStatus.ofValue (outcomeStatus orderCount fillCount statuses).value ≠
        .executionIndeterminate := by
  rw [outcomeStatus]
  split
  · exact ⟨rfl, nofun⟩
  · exact ⟨rfl, nofun⟩

theorem upholds_concludeSession (orderCount beforeRecords : ℕ) (beforeHead : String)
    (statuses : List BrokerStatus) :
    Upholds Sound (Running session.identity attempt.signal.payloadSha256)
      (concludeSession session attempt orderCount beforeRecords beforeHead statuses)
      fun _ ↦ Ready session.identity := by
  refine (upholds_writeLedger session.identity attempt.signal.payloadSha256
    attempt.closing).next fun _ ↦ ?_
  cases attempt.closed with
  | none => exact Upholds.raise
  | some closed =>
    obtain ⟨fillCount, navAfter⟩ := closed
    refine Upholds.look.next fun account ↦ ?_
    cases buildPrefixReceipt account.canonical beforeRecords beforeHead
        attempt.signal.targetWeightsSha256 session.identity with
    | none => exact Upholds.raise
    | some receipt =>
      have hcertain := outcomeStatus_certain orderCount fillCount statuses
      refine Upholds.next
        ((upholds_outcome session.identity _ hcertain.1 hcertain.2).imp ?_ fun _ _ h ↦ h)
        fun _ ↦ Upholds.done fun _ h ↦ h
      exact fun account h ↦ h.1

theorem upholds_executeNow :
    Upholds Sound (Ready session.identity) (executeNow session attempt)
      fun _ ↦ Ready session.identity := by
  refine Upholds.look.next fun account ↦ ?_
  cases hsnapshot : canonicalSnapshot account.canonical with
  | none => exact Upholds.raise
  | some snapshot =>
    obtain ⟨beforeRecords, beforeHead⟩ := snapshot
    cases attempt.orderCount with
    | none => exact Upholds.raise
    | some orderCount =>
      refine Upholds.next ((upholds_start session.identity _ rfl).imp ?_ fun _ _ h ↦ h)
        fun _ ↦ (upholds_submitOrders session attempt).next fun statuses ↦
          upholds_concludeSession session attempt orderCount beforeRecords beforeHead statuses
      rintro _ ⟨h, rfl⟩
      exact ⟨h, buildPrefixIndex_of_snapshot hsnapshot⟩

/-- A round of the loop over the pending signals keeps everything settled. -/
theorem upholds_executeSignal (summaries : String → Option String) (session : Session)
    (attempt : Attempt N) :
    Upholds Sound (Ready session.identity) (executeSignal summaries session attempt)
      fun _ ↦ Ready session.identity := by
  refine Upholds.afterLook fun account ↦ ?_
  refine Upholds.afterLift fun records ↦ ?_
  refine Upholds.afterLift fun terminal ↦ ?_
  cases terminal with
  | some terminal =>
    exact Upholds.afterLift fun _ ↦ Upholds.done fun _ h ↦ h
  | none =>
    refine Upholds.afterLift fun _ ↦ ?_
    cases nextSession attempt.signal.signalDate session.sessions with
    | none => exact Upholds.done fun _ h ↦ h
    | some nextDate =>
      simp only
      split_ifs
      · exact Upholds.done fun _ h ↦ h
      · exact Upholds.raise
      · exact upholds_missSession session nextDate attempt
      · exact upholds_executeNow session attempt

/-- A run that takes signals has found everything settled. -/
theorem upholds_checkAccount (identity : String) :
    Upholds Sound Sound (checkAccount identity : Procedure N Unit) fun _ ↦ Ready identity := by
  refine Upholds.look.next fun account ↦ ?_
  refine Upholds.afterLift fun _ ↦ ?_
  refine Upholds.lift.next fun records ↦ ?_
  refine Upholds.lift.imp (fun _ h ↦ h) ?_
  rintro _ _ ⟨⟨⟨hsound, rfl⟩, hrecords⟩, hresolved⟩
  refine ⟨hsound, ?_⟩
  intro later hlater payload
  rw [Account.records, hlater] at hrecords
  cases hrecords
  exact settled_of_assertResolved hresolved payload

theorem upholds_executePendingForSession (run : ExecuteRun N) :
    Upholds Sound Sound (executePendingForSession run) fun _ ↦ Sound := by
  rw [executePendingForSession]
  cases run.asOf with
  | none => exact Upholds.raise
  | some asOf =>
    cases run.identity with
    | none => exact Upholds.raise
    | some identity =>
      refine Upholds.afterLift fun calendar ↦ ?_
      cases calendar with
      | none => exact Upholds.done fun _ h ↦ h
      | some calendar =>
        obtain ⟨sessions, assurance⟩ := calendar
        refine (upholds_checkAccount identity).next fun _ ↦ ?_
        cases run.sectorMapReadable with
        | false => exact Upholds.raise
        | true =>
          cases run.pending with
          | none => exact Upholds.raise
          | some attempts =>
            refine (Upholds.collect fun attempt _ ↦ ?_).imp (fun _ h ↦ h) fun _ _ h ↦ h.1
            exact upholds_executeSignal run.summaries
              ⟨asOf, identity, sessions, assurance, run.executionClock⟩ attempt

theorem upholds_convertStart (identity : String) (now : Timestamp)
    (start : PendingExecutionRecord N) :
    Upholds Sound Sound (convertStart identity now start) fun _ ↦ Sound := by
  rw [convertStart]
  split_ifs
  · exact Upholds.raise
  · refine Upholds.afterLook fun account ↦ ?_
    cases (start.details.get? "canonical_records_before").bind Documents.int with
    | none => exact Upholds.raise
    | some beforeRecords =>
      simp only
      split
      · exact Upholds.raise
      · exact upholds_record _

theorem upholds_bindOutcome (asOf reason identity accountState : String) (now : Timestamp)
    (terminal : PendingExecutionRecord N) :
    Upholds Sound Sound (bindOutcome asOf reason identity accountState now terminal)
      fun _ ↦ Sound := by
  refine Upholds.afterLook fun account ↦ ?_
  refine Upholds.afterLift fun records ↦ ?_
  refine Upholds.afterLift fun existing ↦ ?_
  cases existing with
  | some existing =>
    simp only
    split_ifs
    · exact Upholds.done fun _ h ↦ h
    · exact Upholds.raise
  | none =>
    cases canonicalSnapshot account.canonical with
    | none => exact Upholds.raise
    | some snapshot => exact (upholds_record _).next fun _ ↦ Upholds.done fun _ h ↦ h

theorem upholds_outcomeOf (records : List (PendingExecutionRecord N)) (identity : String)
    (now : Timestamp) (payload : String) :
    Upholds Sound Sound (outcomeOf records identity now payload) fun _ ↦ Sound := by
  rw [outcomeOf]
  cases (terminals records payload).head? with
  | some terminal => exact Upholds.done fun _ h ↦ h
  | none =>
    cases (withStatus records payload .executionStarted).getLast? with
    | some start =>
      exact (upholds_convertStart identity now start).next fun _ ↦ Upholds.done fun _ h ↦ h
    | none => exact Upholds.done fun _ h ↦ h

theorem upholds_reconcilePayload (records : List (PendingExecutionRecord N))
    (asOf reason identity accountState : String) (now : Timestamp) (payload : String) :
    Upholds Sound Sound
      (reconcilePayload records asOf reason identity accountState now payload) fun _ ↦ Sound := by
  refine (upholds_outcomeOf records identity now payload).next fun terminal ↦ ?_
  cases terminal with
  | none => exact Upholds.done fun _ h ↦ h
  | some terminal =>
    simp only
    split_ifs
    · exact Upholds.done fun _ h ↦ h
    · exact upholds_bindOutcome asOf reason identity accountState now terminal

theorem upholds_reconcileIndeterminateAccount (run : ReconcileRun) :
    Upholds Sound Sound
      (reconcileIndeterminateAccount run : Procedure N (List (PendingExecutionRecord N)))
      fun _ ↦ Sound := by
  rw [reconcileIndeterminateAccount]
  by_cases hreason : stripText run.reason = ""
  · rw [if_pos hreason]
    exact Upholds.raise
  · rw [if_neg hreason]
    cases run.asOf with
    | none => exact Upholds.raise
    | some asOf =>
      cases run.identity with
      | none => exact Upholds.raise
      | some identity =>
        refine Upholds.afterLook fun account ↦ ?_
        refine Upholds.afterLift fun _ ↦ ?_
        cases run.accountState with
        | none => exact Upholds.raise
        | some accountState =>
          cases run.openOrders with
          | true => exact Upholds.raise
          | false =>
            refine Upholds.afterLift fun records ↦ ?_
            refine (Upholds.collect fun payload _ ↦ upholds_reconcilePayload records asOf
              (stripText run.reason) identity accountState run.now payload).next
              fun appended ↦ ?_
            refine Upholds.afterLook fun later ↦ ?_
            refine Upholds.afterLift fun found ↦ ?_
            exact Upholds.afterLift fun _ ↦ Upholds.done fun _ h ↦ h

theorem sound_remains {α : Type} {procedure : Procedure N α}
    (h : Upholds Sound Sound procedure fun _ ↦ Sound) (stopped : Option ℕ)
    (haccount : Sound account) : Sound (remains procedure stopped account) := by
  cases stopped with
  | none => exact h.final haccount haccount
  | some steps => exact h.stopped haccount haccount steps

theorem sound_act (h : Sound account) (action : Action N) :
    Sound (act account action) := by
  cases action with
  | execute run stopped => exact sound_remains (upholds_executePendingForSession run) stopped h
  | reconcile run stopped =>
    exact sound_remains (upholds_reconcileIndeterminateAccount run) stopped h
  | record call => exact h.append call
  | ledger canonical => exact h.ledger canonical

/-- Whatever runs there are and wherever they stop, every payload is submitted at most once, and
where a run submits, everything but the start it has just recorded is resolved. -/
theorem atMostOnce_run (canonical : CanonicalLedger N) (history : List (Action N)) :
    AtMostOnce (Run.run act (Account.new canonical) history) := by
  have hstep : ∀ (account : Account N) (action : Action N), Sound account →
      Sound (act account action) := fun _ action h ↦ sound_act h action
  exact (Run.of_run hstep (sound_new canonical) history).toAtMostOnce

/-- An account behind the start of a signal and the submission of its orders. -/
def Account.submitted (account : Account N) (session : Session) (attempt : Attempt N)
    (journal : Option (List Char)) : Account N where
  journal
  canonical := account.canonical
  submissions := {
    pendingPayloadSha256 := attempt.signal.payloadSha256
    accountIdentitySha256 := session.identity
    journal
    canonical := account.canonical } :: account.submissions

/-- The states of an execution up to the moment its orders are handed over. -/
theorem passed_executeNow {session : Session} {attempt : Attempt N} {orderCount count : ℕ}
    {head : String} {file : Option (List Char)} {record : PendingExecutionRecord N}
    (hsnapshot : canonicalSnapshot account.canonical = some (count, head))
    (horders : attempt.orderCount = some orderCount)
    (happend : append account.journal (evidence attempt.signal.payloadSha256
      attempt.signal.signalDate session.asOf .executionStarted
      (startDetails orderCount count head attempt.signal.targetWeightsSha256 session.identity
        session.assurance session.clock) attempt.now) = (file, .ok record)) :
    ∃ more, (executeNow session attempt account).1 =
      { account with journal := file } :: account.submitted session attempt file :: more := by
  have hstart : appendJournal (evidence attempt.signal.payloadSha256
      attempt.signal.signalDate session.asOf .executionStarted
      (startDetails orderCount count head attempt.signal.targetWeightsSha256 session.identity
        session.assurance session.clock) attempt.now) account =
      ([{ account with journal := file }], .ok record) := by
    rw [appendJournal, Durable.look_next, happend]
    rfl
  rw [executeNow, Durable.look_next]
  simp only [hsnapshot, horders]
  rw [Durable.next_ok (congrArg Prod.snd hstart), Durable.final, hstart]
  obtain ⟨rest, hrest⟩ := Durable.passed_next (submitOrders session attempt) (fun statuses ↦
    concludeSession session attempt orderCount count head statuses)
    { account with journal := file }
  have hsubmit : ∃ rest, (submitOrders session attempt { account with journal := file }).1 =
      account.submitted session attempt file :: rest := ⟨_, rfl⟩
  obtain ⟨more, hmore⟩ := hsubmit
  rw [hmore] at hrest
  exact ⟨more ++ rest, congrArg (_ :: ·) hrest⟩

end Sound

/-! ## A run meets its own start -/

def frozenCall : Call PyNumber where
  pendingPayloadSha256 := "5f"
  signalDate := "2026-01-05"
  executionDate := "2026-01-05"
  status := "daily_decision_frozen"
  details := some ⟨⟨[
    ("assurance", .str "canonical_account_daily_decision_freeze_v1"),
    ("canonical_account_state_sha256", .str genesisHash),
    ("canonical_head", .str genesisHash),
    ("canonical_records", .num (.int 0)),
    ("commit_protocol", .str commitProtocol),
    ("daily_summary_path", .str "summary.json"),
    ("daily_summary_sha256", .str genesisHash),
    ("decision_kind", .str "target"),
    ("paper_account_identity_sha256", .str genesisHash),
    ("target_weights_sha256", .str genesisHash)], by simp⟩, by simp [Json.Distinct]⟩
  recordedAt := none
  now := ⟨"2026-01-05T08:00:00+00:00", ascii_of_all (by decide)⟩

def frozenAttempt : Attempt PyNumber where
  signal := {
    signalDate := "2026-01-05"
    targetWeightsSha256 := genesisHash
    sourceLineage := ⟨[
      ("canonical_account_state_sha256", genesisHash),
      ("canonical_ledger_head_hash", genesisHash),
      ("canonical_ledger_records", "0"),
      ("daily_decision_commit_protocol", commitProtocol),
      ("paper_account_identity_sha256", genesisHash)], by simp⟩
    payloadSha256 := "5f" }
  orderCount := some 1
  navBefore := .int 1000000
  submitting := []
  statuses := some [.filled]
  closing := []
  closed := some (1, .int 1000000)
  now := ⟨"2026-01-06T07:00:00+00:00", ascii_of_all (by decide)⟩

def frozenRun : ExecuteRun PyNumber where
  asOf := some "2026-01-06"
  identity := some genesisHash
  observedSessions := [some "2026-01-06"]
  authoritativeSessions := none
  executionClock := "14:59:00+08:00"
  sectorMapReadable := true
  pending := some [frozenAttempt]
  summaries _ := some genesisHash

theorem due_frozenCall : Due [] frozenCall :=
  ⟨(checkCall_ok_iff _).mpr ⟨by decide, by decide, by decide, by decide⟩, rfl, by
    simp [frozenCall, Call.normalizedDetails, Json.Plain, Json.PlainMembers]⟩

theorem lineSafe_frozenCall : frozenCall.LineSafe := by
  refine ⟨by decide, by decide, ?_⟩
  simp only [Call.normalizedDetails, frozenCall, Option.getD_some, json_lineSafe_cons,
    json_lineSafe_str, json_lineSafe_num]
  simp only [Json.LineSafe, Json.strings, Json.stringsMembers]
  decide

def frozenAccount : Account PyNumber :=
  act (Account.new (CanonicalLedger.fresh false)) (.record frozenCall)

theorem intact_frozenAccount : Intact frozenAccount.journal [sealed [] frozenCall] := by
  have hjournal : frozenAccount.journal = (append none frozenCall).1 := rfl
  rw [hjournal, intact_none.append_due due_frozenCall]
  exact intact_none.extend due_frozenCall lineSafe_frozenCall

/-- What the run establishes before it takes the signal. -/
def frozenSession : Session where
  asOf := "2026-01-06"
  identity := genesisHash
  sessions := ["2026-01-06"]
  assurance := "observed_market_panel_only"
  clock := "14:59:00+08:00"

theorem next_frozenSession :
    nextSession frozenAttempt.signal.signalDate frozenSession.sessions = some "2026-01-06" := by
  have horder : "2026-01-05" < "2026-01-06" := by
    rw [String.lt_iff_toList_lt]
    decide
  have hsessions : frozenSession.sessions = ["2026-01-06"] := rfl
  have hsignal : frozenAttempt.signal.signalDate = "2026-01-05" := rfl
  rw [hsessions, hsignal]
  simp only [nextSession, List.find?_cons, horder, decide_true]

theorem calendar_frozenRun :
    frozenRun.calendar "2026-01-06" =
      .ok (some (["2026-01-06"], "observed_market_panel_only")) := by
  have hsorted : normaliseSessions [some "2026-01-06"] = .ok ["2026-01-06"] := by
    simp [normaliseSessions, List.eraseDups_cons]
  simp only [ExecuteRun.calendar, frozenRun, hsorted]
  rfl

def startedCall : Call PyNumber :=
  evidence "5f" "2026-01-05" "2026-01-06" .executionStarted
    (startDetails 1 0 genesisHash genesisHash genesisHash "observed_market_panel_only"
      "14:59:00+08:00") frozenAttempt.now

theorem due_startedCall : Due [sealed [] frozenCall] startedCall :=
  ⟨(checkCall_ok_iff _).mpr ⟨by decide, by decide, by decide, by decide⟩, rfl, by
    simp [startedCall, evidence, startDetails, Call.normalizedDetails, Json.Plain,
      Json.PlainMembers]⟩

theorem lineSafe_startedCall : startedCall.LineSafe := by
  refine ⟨by decide, by decide, ?_⟩
  simp only [Call.normalizedDetails, startedCall, evidence, startDetails, Option.getD_some,
    json_lineSafe_cons, json_lineSafe_str, json_lineSafe_num]
  simp only [Json.LineSafe, Json.strings, Json.stringsMembers]
  decide

theorem records_frozenAccount : frozenAccount.records = .ok [sealed [] frozenCall] := by
  rw [Account.records, intact_frozenAccount.records_eq]
  rfl

theorem checkAccount_frozenAccount :
    (checkAccount genesisHash : Procedure PyNumber Unit) frozenAccount = ([], .ok ()) := by
  have hverify : verify PyNumber frozenAccount.journal = .ok true := by
    rw [verify, intact_frozenAccount.records_eq]
    exact congrArg Except.ok intact_frozenAccount.chained
  have hjournal : checkJournal frozenAccount = .ok () := by
    rw [checkJournal, hverify]
  rw [checkAccount, Durable.look_next, Durable.lift_next hjournal,
    Durable.lift_next records_frozenAccount]
  rfl

theorem checkAccount_next {β : Type} (second : Unit → Procedure PyNumber β) :
    (checkAccount genesisHash >>= second) frozenAccount = second () frozenAccount := by
  rw [Durable.next_ok (congrArg Prod.snd checkAccount_frozenAccount), Durable.final,
    checkAccount_frozenAccount]
  rfl

/-- The signal passes every check and is executed. -/
theorem executeSignal_frozen :
    executeSignal frozenRun.summaries frozenSession frozenAttempt frozenAccount =
      executeNow frozenSession frozenAttempt frozenAccount := by
  have hterminal : corrupt (terminal [sealed [] frozenCall] frozenAttempt.signal.payloadSha256) =
      .ok none := rfl
  have hsignal : checkSignal [sealed [] frozenCall] frozenAccount.canonical frozenRun.summaries
      frozenSession frozenAttempt.signal = .ok () := by rfl
  have hlate : ¬ frozenSession.asOf < "2026-01-06" := lt_irrefl _
  have hearly : ¬ "2026-01-06" < frozenSession.asOf := lt_irrefl _
  have hstart : ¬ hasUnresolvedStart [sealed [] frozenCall]
      frozenAttempt.signal.payloadSha256 = true := by
    rw [Bool.not_eq_true]
    rfl
  rw [executeSignal, Durable.look_next, Durable.lift_next records_frozenAccount,
    Durable.lift_next hterminal]
  simp only
  rw [Durable.lift_next hsignal]
  simp only [next_frozenSession]
  rw [if_neg hlate, if_neg hstart, if_neg hearly]

theorem executePendingForSession_frozen :
    executePendingForSession frozenRun frozenAccount =
      Durable.collect (executeSignal frozenRun.summaries frozenSession) [frozenAttempt]
        frozenAccount := by
  have hasOf : frozenRun.asOf = some "2026-01-06" := rfl
  have hidentity : frozenRun.identity = some genesisHash := rfl
  have hsector : frozenRun.sectorMapReadable = true := rfl
  have hpending : frozenRun.pending = some [frozenAttempt] := rfl
  rw [executePendingForSession]
  simp only [hasOf, hidentity]
  rw [Durable.lift_next calendar_frozenRun]
  simp only
  rw [checkAccount_next]
  simp only [hsector, hpending, Bool.not_true, Bool.false_eq_true, if_false]
  rfl

theorem passed_frozenRun :
    ∃ more, (executePendingForSession frozenRun frozenAccount).1 =
      { frozenAccount with journal := (append frozenAccount.journal startedCall).1 } ::
        frozenAccount.submitted frozenSession frozenAttempt
          (append frozenAccount.journal startedCall).1 :: more := by
  have happend : append frozenAccount.journal startedCall =
      ((append frozenAccount.journal startedCall).1,
        .ok (sealed [sealed [] frozenCall] startedCall)) := by
    rw [intact_frozenAccount.append_due due_startedCall]
  have hsnapshot : canonicalSnapshot frozenAccount.canonical = some (0, genesisHash) := rfl
  have horders : frozenAttempt.orderCount = some 1 := rfl
  have hnow : ∃ more, (executeNow frozenSession frozenAttempt frozenAccount).1 = _ :=
    passed_executeNow hsnapshot horders happend
  obtain ⟨more, hmore⟩ := hnow
  obtain ⟨rest, hrest⟩ := Durable.passed_next
    (executeSignal frozenRun.summaries frozenSession frozenAttempt)
    (fun first ↦ Durable.collect (executeSignal frozenRun.summaries frozenSession) [] >>=
      fun rest ↦ pure (first.toList ++ rest)) frozenAccount
  rw [executePendingForSession_frozen, Durable.collect, hrest, executeSignal_frozen, hmore]
  exact ⟨more ++ rest, rfl⟩

theorem run_frozen :
    Run.run act (Account.new (CanonicalLedger.fresh false))
      [.record frozenCall, .execute frozenRun (some 2)] =
        frozenAccount.submitted frozenSession frozenAttempt
          (append frozenAccount.journal startedCall).1 := by
  obtain ⟨more, hmore⟩ := passed_frozenRun
  rw [Run.run_cons, Run.run_cons, Run.run_nil, ← frozenAccount, act, remains]
  exact Durable.stopped_two hmore

theorem records_frozen :
    PendingExecutionJournal.records (append frozenAccount.journal startedCall).1 =
      .ok [sealed [] frozenCall, sealed [sealed [] frozenCall] startedCall] := by
  rw [intact_frozenAccount.append_due due_startedCall]
  exact (intact_frozenAccount.extend due_startedCall lineSafe_startedCall).records_eq

/-- A journal that holds a start without an outcome disturbs a submission. -/
theorem disturbed_frozen {payload identity : String} {file : Option (List Char)}
    {canonical : CanonicalLedger PyNumber}
    (hread : PendingExecutionJournal.records file =
      .ok [sealed [] frozenCall, sealed [sealed [] frozenCall] startedCall]) :
    ¬ Submission.Undisturbed ⟨payload, identity, file, canonical⟩ := by
  have hterminals : terminals [sealed [] frozenCall, sealed [sealed [] frozenCall] startedCall]
      "5f" = [] := by
    simp only [terminals_eq, List.filter_cons, sealed, frozenCall, startedCall, evidence]
    rfl
  have hstarted : sealed [sealed [] frozenCall] startedCall ∈
      withStatus [sealed [] frozenCall, sealed [sealed [] frozenCall] startedCall] "5f"
        .executionStarted := mem_withStatus.mpr ⟨by simp, rfl, rfl⟩
  intro h
  exact (h _ hread "5f").1 (List.ne_nil_of_mem hstarted) hterminals

/-- When the orders of a signal are handed over, the journal holds the start of the signal without
an outcome. -/
theorem not_undisturbed_ownStart :
    ¬ ∀ submission ∈ (Run.run act (Account.new (CanonicalLedger.fresh false))
        [.record frozenCall, .execute frozenRun (some 2)]).submissions,
      submission.Undisturbed := by
  intro h
  rw [run_frozen, Account.submitted, List.forall_mem_cons] at h
  exact disturbed_frozen records_frozen h.1

end QuantAgent.Paper
