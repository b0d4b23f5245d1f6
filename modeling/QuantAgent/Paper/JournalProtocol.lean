import QuantAgent.Library.GuardedLog
import QuantAgent.Library.Run
import QuantAgent.Paper.JournalFile

/-!
# The protocol of the outcome journal

In every file that appends have written, the chain verifies, each payload has one start, one outcome
that no start follows, one reconciliation and one legacy binding of its outcome, each date has one
frozen decision, and a call that repeats an outcome is answered with the record that is there.  This
fails only where a string of an appended record holds a line end that is printed as it is.
-/

namespace QuantAgent.Paper

open Library TextFile Domain

variable {N : Type}

namespace PendingExecutionJournal

section

variable (records : List (PendingExecutionRecord N)) (payload : String)

theorem terminals_eq :
    terminals records payload = records.filter fun record ↦
      record.status.terminal && record.pendingPayloadSha256 = payload :=
  List.filter_filter

theorem withStatus_eq (status : JournalStatus) :
    withStatus records payload status = records.filter fun record ↦
      record.status = status && record.pendingPayloadSha256 = payload :=
  List.filter_filter

end

variable {records found : List (PendingExecutionRecord N)} {record : PendingExecutionRecord N}

theorem mem_terminals {payload : String} :
    record ∈ terminals records payload ↔
      record ∈ records ∧ record.status.terminal = true ∧
        record.pendingPayloadSha256 = payload := by
  simp [terminals_eq]

theorem mem_withStatus {payload : String} {status : JournalStatus} :
    record ∈ withStatus records payload status ↔
      record ∈ records ∧ record.status = status ∧ record.pendingPayloadSha256 = payload := by
  simp [withStatus_eq]

theorem mem_decisions {date : String} :
    record ∈ decisions records date ↔
      record ∈ records ∧ record.status = .dailyDecisionFrozen ∧ record.signalDate = date := by
  simp [decisions]

structure Unique (records : List (PendingExecutionRecord N)) (payload date : String) : Prop where
  terminal : (terminals records payload).length ≤ 1
  reconciliation : (withStatus records payload .executionReconciled).length ≤ 1
  binding : (withStatus records payload .legacyTerminalBound).length ≤ 1
  decision : (decisions records date).length ≤ 1

theorem only_of_le (h : found.length ≤ 1) (reason : JournalCorruption) :
    only found reason = .ok found.head? :=
  if_neg (Nat.not_lt.mpr h)

theorem only_of_lt (h : ¬ found.length ≤ 1) (reason : JournalCorruption) :
    only found reason = .error reason :=
  if_pos (Nat.not_le.mp h)

section Guard

variable [Documents N] {records : List (PendingExecutionRecord N)} {payload date : String}
  {status : JournalStatus} {details : Dict String (Json N)}
  {result : Option (PendingExecutionRecord N)}

/-- The guard on a journal where nothing is doubled. -/
theorem admission_of_unique (h : Unique records payload date) :
    admission records payload date status details =
      answer payload date status details (terminals records payload).head?
        (withStatus records payload .executionReconciled).head?
        (withStatus records payload .legacyTerminalBound).head? (decisions records date).head?
        ((history records payload).any (·.status = .executionStarted)) := by
  rw [admission, terminal, reconciliation, legacyBinding, dailyDecision, only_of_le h.terminal,
    only_of_le h.reconciliation, only_of_le h.binding, only_of_le h.decision]
  rfl

section

variable (h : admission records payload date status details = .ok result)
include h

/-- The guard refuses everything where something is doubled. -/
theorem unique_of_admission :
    Unique records payload date := by
  by_contra hdoubled
  rw [admission, terminal, reconciliation, legacyBinding, dailyDecision] at h
  by_cases hterminal : (terminals records payload).length ≤ 1
  · by_cases hreconciliation : (withStatus records payload .executionReconciled).length ≤ 1
    · by_cases hbinding : (withStatus records payload .legacyTerminalBound).length ≤ 1
      · have hdecision : ¬ (decisions records date).length ≤ 1 :=
          fun hdecision ↦ hdoubled ⟨hterminal, hreconciliation, hbinding, hdecision⟩
        rw [only_of_le hterminal, only_of_le hreconciliation, only_of_le hbinding,
          only_of_lt hdecision] at h
        cases h
      · rw [only_of_le hterminal, only_of_le hreconciliation, only_of_lt hbinding] at h
        cases h
    · rw [only_of_le hterminal, only_of_lt hreconciliation] at h
      cases h
  · rw [only_of_lt hterminal] at h
    cases h

theorem answer_of_admission :
    answer payload date status details (terminals records payload).head?
      (withStatus records payload .executionReconciled).head?
      (withStatus records payload .legacyTerminalBound).head? (decisions records date).head?
      ((history records payload).any (·.status = .executionStarted)) = .ok result := by
  rw [← admission_of_unique (unique_of_admission h)]
  exact h

end

omit [Documents N] in
theorem repeated_none {existing : Option (PendingExecutionRecord N)}
    {agrees : PendingExecutionRecord N → Bool} {otherwise : JournalCorruption}
    (h : repeated existing agrees otherwise = .ok none) : existing = none := by
  cases existing with
  | none => rfl
  | some existing =>
    rw [repeated] at h
    split at h
    · cases h
    · cases h

omit [Documents N] in
theorem checked_none {checked : Except JournalCorruption Unit}
    {found : List (PendingExecutionRecord N)} {agrees : PendingExecutionRecord N → Bool}
    {otherwise : JournalCorruption}
    (h : (match checked with
      | .error reason => Except.error reason
      | .ok () => repeated found.head? agrees otherwise) = .ok none) :
    checked = .ok () ∧ found = [] := by
  cases checked with
  | error reason => cases h
  | ok _ => exact ⟨rfl, List.head?_eq_none_iff.mp (repeated_none h)⟩

/-- A reconciliation is let in behind the indeterminate outcome it binds, once. -/
theorem admission_reconciled
    (h : admission records payload date .executionReconciled details = .ok none) :
    checkReconciliation (terminals records payload).head? details = .ok () ∧
      withStatus records payload .executionReconciled = [] := by
  have hanswer := answer_of_admission h
  rw [answer] at hanswer
  exact checked_none hanswer

/-- A legacy binding is let in behind the outcome it binds, once. -/
theorem admission_bound (h : admission records payload date .legacyTerminalBound details = .ok none) :
    checkLegacyBinding (terminals records payload).head? details = .ok () ∧
      withStatus records payload .legacyTerminalBound = [] := by
  have hanswer := answer_of_admission h
  rw [answer] at hanswer
  exact checked_none hanswer

theorem admission_frozen (h : admission records payload date .dailyDecisionFrozen details = .ok none) :
    checkDailyDecision details = .ok () ∧ decisions records date = [] := by
  have hanswer := answer_of_admission h
  rw [answer] at hanswer
  exact checked_none hanswer

/-- The statuses that are neither a reconciliation, a binding nor a decision. -/
def Executes (status : JournalStatus) : Prop :=
  status ≠ .executionReconciled ∧ status ≠ .legacyTerminalBound ∧ status ≠ .dailyDecisionFrozen

theorem executes_of_terminal (h : status.terminal = true) : Executes status := by
  refine ⟨?_, ?_, ?_⟩
  · rintro rfl
    cases h
  · rintro rfl
    cases h
  · rintro rfl
    cases h

theorem answer_executes (h : Executes status)
    (terminal reconciliation binding decision : Option (PendingExecutionRecord N))
    (started : Bool) :
    answer payload date status details terminal reconciliation binding decision started =
      match terminal with
      | some terminal =>
        if status = terminal.status && sameDetails details terminal.details then
          .ok (some terminal)
        else .error (.alreadyTerminal payload terminal.status)
      | none =>
        if status = .executionStarted && started then .error (.alreadyStarted payload)
        else .ok none := by
  obtain ⟨hreconciled, hbound, hfrozen⟩ := h
  cases status with
  | executionReconciled => exact absurd rfl hreconciled
  | legacyTerminalBound => exact absurd rfl hbound
  | dailyDecisionFrozen => exact absurd rfl hfrozen
  | _ => rfl

/-- A start or an outcome is let in where the payload has no outcome, a start also where it has no
start. -/
theorem admission_executes (hstatus : Executes status)
    (h : admission records payload date status details = .ok none) :
    terminals records payload = [] ∧
      (status = .executionStarted → withStatus records payload .executionStarted = []) := by
  have hanswer := answer_of_admission h
  rw [answer_executes hstatus] at hanswer
  cases hterminal : (terminals records payload).head? with
  | some terminal =>
    rw [hterminal] at hanswer
    simp only at hanswer
    split at hanswer
    · cases hanswer
    · cases hanswer
  | none =>
    refine ⟨List.head?_eq_none_iff.mp hterminal, ?_⟩
    rintro rfl
    rw [hterminal] at hanswer
    simp only [decide_true, Bool.true_and] at hanswer
    split at hanswer
    · cases hanswer
    · rename_i hnone
      rw [withStatus, List.filter_eq_nil_iff]
      simpa using hnone

end Guard

def Admits [Documents N] (before : List (PendingExecutionRecord N))
    (record : PendingExecutionRecord N) : Prop :=
  admission before record.pendingPayloadSha256 record.signalDate record.status record.details = .ok none

/-- What holds of the records of a journal, whatever payloads and dates they are for. -/
structure Protocol [Documents N] (records : List (PendingExecutionRecord N)) : Prop where
  startedOnce : ∀ payload, (withStatus records payload .executionStarted).length ≤ 1
  terminalOnce : ∀ payload, (terminals records payload).length ≤ 1
  noStartAfterTerminal : ∀ before record after, records = before ++ record :: after →
    record.status = .executionStarted → terminals before record.pendingPayloadSha256 = []
  reconciledOnce : ∀ payload, (withStatus records payload .executionReconciled).length ≤ 1
  reconciledNames : ∀ before record after, records = before ++ record :: after →
    record.status = .executionReconciled → ∃ terminal ∈ before,
      terminal.pendingPayloadSha256 = record.pendingPayloadSha256 ∧
        terminal.status = .executionIndeterminate ∧
          Json.textOr (record.details.get? "indeterminate_record_sha256") = terminal.recordSha256
  boundOnce : ∀ payload, (withStatus records payload .legacyTerminalBound).length ≤ 1
  boundFollows : ∀ before record after, records = before ++ record :: after →
    record.status = .legacyTerminalBound → ∃ terminal ∈ before,
      terminal.pendingPayloadSha256 = record.pendingPayloadSha256 ∧
        terminal.status.terminal = true ∧
          present terminal.details "canonical_prefix_receipt" = false
  frozenOnce : ∀ date, (decisions records date).length ≤ 1

section Protocol

variable [Documents N] {records : List (PendingExecutionRecord N)} {payload date : String}
  {details : Dict String (Json N)}

variable {terminal : Option (PendingExecutionRecord N)}

theorem exists_of_checkReconciliation (h : checkReconciliation terminal details = .ok ()) :
    ∃ found, terminal = some found ∧ found.status = .executionIndeterminate ∧
      Json.textOr (details.get? "indeterminate_record_sha256") = found.recordSha256 := by
  cases terminal with
  | none => cases h
  | some found =>
    rw [checkReconciliation] at h
    by_cases hstatus : found.status = .executionIndeterminate
    · rw [if_neg (not_not.mpr hstatus)] at h
      split at h
      · cases h
      · exact ⟨found, rfl, hstatus, not_not.mp ‹_›⟩
    · rw [if_pos hstatus] at h
      cases h

theorem exists_of_checkLegacyBinding (h : checkLegacyBinding terminal details = .ok ()) :
    ∃ found, terminal = some found ∧
      present found.details "canonical_prefix_receipt" = false := by
  cases terminal with
  | none => cases h
  | some found =>
    rw [checkLegacyBinding] at h
    cases hpresent : present found.details "canonical_prefix_receipt" with
    | true =>
      rw [if_pos hpresent] at h
      cases h
    | false => exact ⟨found, rfl, hpresent⟩

/-- A status that the guard lets in once for a payload occurs once for it. -/
theorem withStatus_length_le_one {status : JournalStatus}
    (hfirst : ∀ (before : List (PendingExecutionRecord N)) (record : PendingExecutionRecord N),
      Admits before record → record.status = status →
        withStatus before record.pendingPayloadSha256 status = [])
    (h : Guarded Admits records) (payload : String) :
    (withStatus records payload status).length ≤ 1 := by
  rw [withStatus_eq]
  refine h.length_filter_le_one ?_
  intro before record hadmits hkind earlier hmem
  simp only [Bool.and_eq_true, decide_eq_true_eq] at hkind
  obtain ⟨hstatus, rfl⟩ := hkind
  have hnone := hfirst before record hadmits hstatus
  rw [withStatus_eq, List.filter_eq_nil_iff] at hnone
  simpa using hnone earlier hmem

theorem executes_started : Executes .executionStarted := ⟨nofun, nofun, nofun⟩

/-- Every clause of the protocol is a check of the guard. -/
theorem protocol_of_guarded (h : Guarded Admits records) : Protocol records where
  startedOnce := by
    refine withStatus_length_le_one ?_ h
    intro before record hadmits hstatus
    rw [Admits, hstatus] at hadmits
    exact (admission_executes executes_started hadmits).2 rfl
  terminalOnce payload := by
    rw [terminals_eq]
    refine h.length_filter_le_one ?_
    intro before record hadmits hkind earlier hmem
    simp only [Bool.and_eq_true, decide_eq_true_eq] at hkind
    obtain ⟨hstatus, rfl⟩ := hkind
    have hnone := (admission_executes (executes_of_terminal hstatus) hadmits).1
    rw [terminals_eq, List.filter_eq_nil_iff] at hnone
    simpa using hnone earlier hmem
  noStartAfterTerminal before record after heq hstatus := by
    have hadmits := h before record after heq
    rw [Admits, hstatus] at hadmits
    exact (admission_executes executes_started hadmits).1
  reconciledOnce := by
    refine withStatus_length_le_one ?_ h
    intro before record hadmits hstatus
    rw [Admits, hstatus] at hadmits
    exact (admission_reconciled hadmits).2
  reconciledNames before record after heq hstatus := by
    have hadmits := h before record after heq
    rw [Admits, hstatus] at hadmits
    obtain ⟨terminal, hhead, hindeterminate, hnames⟩ :=
      exists_of_checkReconciliation (admission_reconciled hadmits).1
    obtain ⟨hmem, -, hpayload⟩ := mem_terminals.mp (List.mem_of_head? hhead)
    exact ⟨terminal, hmem, hpayload, hindeterminate, hnames⟩
  boundOnce := by
    refine withStatus_length_le_one ?_ h
    intro before record hadmits hstatus
    rw [Admits, hstatus] at hadmits
    exact (admission_bound hadmits).2
  boundFollows before record after heq hstatus := by
    have hadmits := h before record after heq
    rw [Admits, hstatus] at hadmits
    obtain ⟨terminal, hhead, hreceipt⟩ := exists_of_checkLegacyBinding (admission_bound hadmits).1
    obtain ⟨hmem, hterminal, hpayload⟩ := mem_terminals.mp (List.mem_of_head? hhead)
    exact ⟨terminal, hmem, hpayload, hterminal, hreceipt⟩
  frozenOnce date := by
    refine h.length_filter_le_one ?_
    intro before record hadmits hkind earlier hmem
    simp only [Bool.and_eq_true, decide_eq_true_eq] at hkind
    obtain ⟨hstatus, rfl⟩ := hkind
    rw [Admits, hstatus] at hadmits
    have hnone := (admission_frozen hadmits).2
    rw [decisions, List.filter_eq_nil_iff] at hnone
    simpa using hnone earlier hmem

theorem Protocol.unique (h : Protocol records) (payload date : String) :
    Unique records payload date where
  terminal := h.terminalOnce payload
  reconciliation := h.reconciledOnce payload
  binding := h.boundOnce payload
  decision := h.frozenOnce date

end Protocol

section Replay

variable {records : List (PendingExecutionRecord N)}

end Replay

/-- A call that repeats an outcome, a reconciliation, a binding or a decision. -/
structure Call.Repeats (call : Call N) (record : PendingExecutionRecord N) : Prop where
  kind : record.status.terminal = true ∨ record.status = .executionReconciled ∨
    record.status = .legacyTerminalBound ∨ record.status = .dailyDecisionFrozen
  status : JournalStatus.ofValue call.status = record.status
  payload : call.pendingPayloadSha256 = record.pendingPayloadSha256
  details : call.normalizedDetails = record.details
  signalDate : IsoDate.isExact call.signalDate = true
  executionDate : IsoDate.isExact call.executionDate = true
  sameDate : record.status = .dailyDecisionFrozen → call.signalDate = record.signalDate

section Repeat

variable [Documents N] {records before after : List (PendingExecutionRecord N)}
  {record : PendingExecutionRecord N}

/-- The outcome a record was checked against is still the outcome of its payload. -/
theorem terminal_after (hprotocol : Protocol records) (hsplit : records = before ++ record :: after)
    {payload : String} {terminal : PendingExecutionRecord N}
    (h : (terminals before payload).head? = some terminal) :
    (terminals records payload).head? = some terminal := by
  refine head?_of_mem (hprotocol.terminalOnce payload) ?_
  obtain ⟨hmem, hterminal, hpayload⟩ := mem_terminals.mp (List.mem_of_head? h)
  exact mem_terminals.mpr ⟨by simp [hsplit, hmem], hterminal, hpayload⟩

theorem admission_again (hguarded : Guarded Admits records)
    (hsplit : records = before ++ record :: after)
    (hkind : record.status.terminal = true ∨ record.status = .executionReconciled ∨
      record.status = .legacyTerminalBound ∨ record.status = .dailyDecisionFrozen)
    (hsame : sameDetails record.details record.details = true) {date : String}
    (hdate : record.status = .dailyDecisionFrozen → date = record.signalDate) :
    admission records record.pendingPayloadSha256 date record.status record.details =
      .ok (some record) := by
  have hprotocol := protocol_of_guarded hguarded
  have hadmits := hguarded before record after hsplit
  have hmem : record ∈ records := by simp [hsplit]
  rw [admission_of_unique (hprotocol.unique record.pendingPayloadSha256 date)]
  rw [Admits] at hadmits
  obtain hterminal | hstatus | hstatus | hstatus := hkind
  · have hhead := head?_of_mem (hprotocol.terminalOnce record.pendingPayloadSha256)
      (mem_terminals.mpr ⟨hmem, hterminal, rfl⟩)
    rw [answer_executes (executes_of_terminal hterminal), hhead]
    simp [hsame]
  · rw [hstatus] at hadmits ⊢
    have hcheck := (admission_reconciled hadmits).1
    obtain ⟨terminal, hterminal, -⟩ := exists_of_checkReconciliation hcheck
    have hhead := head?_of_mem (hprotocol.reconciledOnce record.pendingPayloadSha256)
      (mem_withStatus.mpr ⟨hmem, hstatus, rfl⟩)
    rw [hterminal] at hcheck
    simp only [answer, terminal_after hprotocol hsplit hterminal, hcheck, hhead, repeated, hsame,
      if_true]
  · rw [hstatus] at hadmits ⊢
    have hcheck := (admission_bound hadmits).1
    obtain ⟨terminal, hterminal, -⟩ := exists_of_checkLegacyBinding hcheck
    have hhead := head?_of_mem (hprotocol.boundOnce record.pendingPayloadSha256)
      (mem_withStatus.mpr ⟨hmem, hstatus, rfl⟩)
    rw [hterminal] at hcheck
    simp only [answer, terminal_after hprotocol hsplit hterminal, hcheck, hhead, repeated, hsame,
      if_true]
  · obtain rfl := hdate hstatus
    rw [hstatus] at hadmits ⊢
    have hcheck := (admission_frozen hadmits).1
    have hhead := head?_of_mem (hprotocol.frozenOnce record.signalDate)
      (mem_decisions.mpr ⟨hmem, hstatus, rfl⟩)
    simp only [answer, hcheck, hhead, repeated, decide_true, hsame, Bool.true_and, if_true]

end Repeat

section Files

variable [Documents N] [NumText N] [Sha256 N]

variable (N) in
/-- What is promised of a journal file: it reads, the chain verifies, its records keep the protocol,
and a repeated call is answered without a write. -/
def Faithful (file : Option (List Char)) : Prop :=
  ∃ records : List (PendingExecutionRecord N), PendingExecutionJournal.records file = .ok records ∧
    (verify N file) = .ok true ∧ Protocol records ∧
      ∀ record ∈ records, ∀ call : Call N, call.Repeats record →
        append file call = (file, .ok record)

omit [NumText N] in
theorem verifyFrom_append (previous : String) (expected : ℕ)
    (records : List (PendingExecutionRecord N)) (record : PendingExecutionRecord N) :
    verifyFrom previous expected (records ++ [record]) =
      (verifyFrom previous expected records &&
        checkRecord ((records.getLast?.map (·.recordSha256)).getD previous)
          (expected + records.length) record) := by
  induction records generalizing previous expected with
  | nil => simp [verifyFrom]
  | cons first records ih =>
    have hlast : ((first :: records).getLast?.map (·.recordSha256)).getD previous =
        (records.getLast?.map (·.recordSha256)).getD first.recordSha256 := by
      cases records with
      | nil => rfl
      | cons next records => simp [List.getLast?_cons]
    rw [List.cons_append, verifyFrom, ih, hlast, verifyFrom, List.length_cons, Nat.add_assoc,
      Nat.add_comm 1 records.length, Bool.and_assoc]

/-- The file holds these records, each of them let in behind the others, in one chain. -/
structure Intact (file : Option (List Char)) (records : List (PendingExecutionRecord N)) :
    Prop where
  written : Written file records
  readable : ∀ record ∈ records, record.Readable
  chained : verifyFrom "" 1 records = true
  guarded : Guarded Admits records
  named : ∀ record ∈ records, strip record.pendingPayloadSha256.toList ≠ []

theorem intact_none : Intact none ([] : List (PendingExecutionRecord N)) where
  written := .inl ⟨rfl, rfl⟩
  readable := by simp
  chained := rfl
  guarded := .nil
  named := by simp

/-- A new record is due: the arguments are in order, no record answers them, and the details can be
printed. -/
def Due (records : List (PendingExecutionRecord N)) (call : Call N) : Prop :=
  checkCall call = .ok () ∧
    admission records call.pendingPayloadSha256 call.signalDate (.ofValue call.status)
      call.normalizedDetails = .ok none ∧
    (Json.obj call.normalizedDetails.entries).Plain

/-- No string of the call holds a line end that is printed as it is. -/
def Call.LineSafe (call : Call N) : Prop :=
  Domain.LineSafe call.pendingPayloadSha256 ∧ Domain.LineSafe call.stamp ∧
    Json.LineSafe (.obj call.normalizedDetails.entries)

section

variable (records : List (PendingExecutionRecord N)) (call : Call N)

omit [NumText N] in
theorem sealed_plain_iff :
    (sealed records call).toDict.Plain ↔ (Json.obj call.normalizedDetails.entries).Plain := by
  simp [PendingExecutionRecord.toDict, sealed, Json.Plain, Json.PlainMembers]

omit [NumText N] in
theorem sealed_distinct :
    (sealed records call).toDict.Distinct := by
  have hdetails : (Json.obj call.normalizedDetails.entries).Distinct :=
    ⟨call.normalizedDetails.nodup,
      Json.distinctMembers_iff.mpr (call.details.getD .empty).distinct⟩
  simp only [PendingExecutionRecord.toDict, sealed, Json.Distinct, Json.DistinctMembers, and_true]
  refine ⟨?_, hdetails⟩
  simp only [List.map_cons, List.map_nil]
  decide

end

omit [NumText N] [Sha256 N] [Documents N] in
theorem value_lineSafe {status : JournalStatus} (h : status.allowed = true) :
    LineSafe status.value := by
  refine lineSafe_of_ascii (ascii_of_all ?_)
  cases status with
  | unsupported text => cases h
  | _ => decide

omit [Documents N] [NumText N] [Sha256 N] in
theorem checkCall_ok_iff (call : Call N) :
    checkCall call = .ok () ↔
      (JournalStatus.ofValue call.status).allowed = true ∧
        strip call.pendingPayloadSha256.toList ≠ [] ∧
          IsoDate.isExact call.signalDate = true ∧ IsoDate.isExact call.executionDate = true := by
  rw [checkCall]
  cases (JournalStatus.ofValue call.status).allowed with
  | false => simp
  | true =>
    by_cases hempty : strip call.pendingPayloadSha256.toList = []
    · simp [hempty]
    · cases IsoDate.isExact call.signalDate with
      | false => simp [hempty]
      | true =>
        cases IsoDate.isExact call.executionDate with
        | false => simp [hempty]
        | true => simp [hempty]

omit [NumText N] in
/-- What the journal adds to a call never ends a line. -/
theorem sealed_lineSafe_iff {records : List (PendingExecutionRecord N)}
    (hreadable : ∀ record ∈ records, record.Readable) {call : Call N}
    (hcall : checkCall call = .ok ()) :
    Json.LineSafe (sealed records call).toDict ↔ call.LineSafe := by
  obtain ⟨hallowed, -, hsignal, hexecution⟩ := (checkCall_ok_iff call).mp hcall
  have hprevious : LineSafe ((records.getLast?.map (·.recordSha256)).getD "") := by
    cases hlast : records.getLast? with
    | none => simp [LineSafe]
    | some last =>
      have hsafe := (hreadable last (List.mem_of_getLast? hlast)).lineSafe
      simp only [PendingExecutionRecord.toDict, json_lineSafe_cons, json_lineSafe_str] at hsafe
      exact hsafe.2.2.2.2.2.2.2.2.2.1
  have hsignal := lineSafe_of_ascii (IsoDate.isExact_ascii hsignal)
  have hexecution := lineSafe_of_ascii (IsoDate.isExact_ascii hexecution)
  have hhash : LineSafe (sealed records call).recordSha256 :=
    lineSafe_of_ascii (Sha256.sha256_ascii _)
  have hkeys : ∀ key ∈ ["details", "execution_date", "pending_payload_sha256",
      "previous_record_sha256", "record_sha256", "recorded_at", "schema_version", "sequence",
      "signal_date", "status", journalSchema], LineSafe key := by decide
  have hempty : Json.LineSafe (.obj [] : Json N) := by
    simp [Json.LineSafe, Json.strings, Json.stringsMembers]
  simp only [List.forall_mem_cons] at hkeys
  simp only [PendingExecutionRecord.toDict, json_lineSafe_cons, json_lineSafe_str,
    json_lineSafe_num, hkeys, hhash, hempty, true_and, and_true]
  simp only [sealed, hsignal, hexecution, hprevious, hkeys, value_lineSafe hallowed, true_and,
    and_true, Call.LineSafe]
  tauto

omit [NumText N] in
theorem checkRecord_sealed (records : List (PendingExecutionRecord N)) {call : Call N}
    (hcall : checkCall call = .ok ()) :
    checkRecord ((records.getLast?.map (·.recordSha256)).getD "") (1 + records.length)
      (sealed records call) = true := by
  obtain ⟨hallowed, -, hsignal, hexecution⟩ := (checkCall_ok_iff call).mp hcall
  have hsequence : Documents.same (.num (Number.natCast (records.length + 1)) : Json N)
      (.num (Number.natCast (1 + records.length))) = true := by
    rw [Nat.add_comm]
    exact Documents.same_refl _ trivial trivial
  simp only [checkRecord, sealed, hallowed, hsignal, hexecution, hsequence, decide_true,
    Bool.and_true, Bool.true_and]
  exact decide_eq_true rfl

section Steps

variable {file : Option (List Char)} {records : List (PendingExecutionRecord N)} {call : Call N}

section

variable (h : Intact file records)
include h

theorem Intact.records_eq :
    PendingExecutionJournal.records file = .ok records :=
  records_written h.written h.readable

/-- A new record that is due is written behind the others. -/
theorem Intact.append_due (hdue : Due records call) :
    append file call =
      (some (file.getD [] ++ lineOf (sealed records call).toDict), .ok (sealed records call)) := by
  obtain ⟨hcall, hadmission, hplain⟩ := hdue
  rw [append, hcall]
  simp only [h.records_eq, h.chained, hadmission, (sealed_plain_iff records call).mpr hplain,
    Bool.not_true, Bool.false_eq_true, if_false, if_true]

theorem Intact.append_not_due (hdue : ¬ Due records call) :
    (append file call).1 = file := by
  rw [append]
  cases hcall : checkCall call with
  | error error => rfl
  | ok _ =>
    simp only [h.records_eq, h.chained, Bool.not_true, Bool.false_eq_true, if_false]
    cases hadmission : admission records call.pendingPayloadSha256 call.signalDate
        (.ofValue call.status) call.normalizedDetails with
    | error reason => rfl
    | ok result =>
      cases result with
      | some existing => rfl
      | none =>
        have hplain : ¬ (sealed records call).toDict.Plain := by
          rw [sealed_plain_iff]
          exact fun hplain ↦ hdue ⟨hcall, hadmission, hplain⟩
        simp only [if_neg hplain]

/-- A due record without a line end in its strings leaves the journal in order. -/
theorem Intact.extend (hdue : Due records call) (hsafe : call.LineSafe) :
    Intact (some (file.getD [] ++ lineOf (sealed records call).toDict))
      (records ++ [sealed records call]) := by
  obtain ⟨hcall, hadmission, hplain⟩ := hdue
  obtain ⟨hallowed, hnamed, -⟩ := (checkCall_ok_iff call).mp hcall
  have hreadable : (sealed records call).Readable := {
    plain := (sealed_plain_iff records call).mpr hplain
    distinct := sealed_distinct records call
    lineSafe := (sealed_lineSafe_iff h.readable hcall).mpr hsafe
    allowed := hallowed }
  refine ⟨written_append h.written _, ?_, ?_, ?_, ?_⟩
  · exact List.forall_mem_append.mpr ⟨h.readable, List.forall_mem_singleton.mpr hreadable⟩
  · rw [verifyFrom_append, h.chained, checkRecord_sealed records hcall]
    rfl
  · exact Guarded.append_iff.mpr ⟨h.guarded, hadmission⟩
  · exact List.forall_mem_append.mpr ⟨h.named, List.forall_mem_singleton.mpr hnamed⟩

theorem Intact.append_repeats {record : PendingExecutionRecord N} (hmem : record ∈ records)
    (hrepeats : call.Repeats record) :
    append file call = (file, .ok record) := by
  obtain ⟨before, after, hsplit, -⟩ := h.guarded.of_mem hmem
  have hreadable := h.readable record hmem
  have hcall : checkCall call = .ok () := by
    refine (checkCall_ok_iff call).mpr ⟨?_, ?_, hrepeats.signalDate, hrepeats.executionDate⟩
    · rw [hrepeats.status]
      exact hreadable.allowed
    · rw [hrepeats.payload]
      exact h.named record hmem
  have hplain : (Json.obj record.details.entries).Plain := by
    have hall := hreadable.plain
    rw [PendingExecutionRecord.toDict, Json.Plain, Json.PlainMembers] at hall
    exact hall.1
  have hdistinct : (Json.obj record.details.entries).Distinct := by
    have hall := hreadable.distinct
    rw [PendingExecutionRecord.toDict, Json.Distinct, Json.DistinctMembers] at hall
    exact hall.2.1
  have hsame := Documents.same_refl _ hplain hdistinct
  have hagain := admission_again h.guarded hsplit hrepeats.kind hsame hrepeats.sameDate
  rw [append, hcall]
  simp only [h.records_eq, h.chained, hrepeats.payload, hrepeats.status, hrepeats.details, hagain,
    Bool.not_true, Bool.false_eq_true, if_false]

theorem Intact.faithful : Faithful N file := by
  refine ⟨records, h.records_eq, ?_, protocol_of_guarded h.guarded, ?_⟩
  · rw [verify, h.records_eq]
    exact congrArg Except.ok h.chained
  · intro record hmem call hrepeats
    exact h.append_repeats hmem hrepeats

/-- A due record with a line end in one of its strings leaves a file that cannot be read. -/
theorem Intact.not_faithful (hdue : Due records call) (hbroken : ¬ call.LineSafe) :
    ¬ Faithful N (append file call).1 := by
  intro hfaithful
  obtain ⟨later, hread, -⟩ := hfaithful
  have hplain := (sealed_plain_iff records call).mpr hdue.2.2
  have hline := (sealed_lineSafe_iff h.readable hdue.1).not.mpr hbroken
  rw [h.append_due hdue, records_of_broken h.written h.readable hplain hline] at hread
  cases hread

end

end Steps

def step (file : Option (List Char)) (call : Call N) : Option (List Char) :=
  (append file call).1

/-- A call that is about to be recorded has no string that ends its line. -/
def Safe (file : Option (List Char)) (call : Call N) : Prop :=
  ∀ records : List (PendingExecutionRecord N), PendingExecutionJournal.records file = .ok records →
    Due records call → call.LineSafe

variable (N) in
def InOrder (file : Option (List Char)) : Prop :=
  ∃ records : List (PendingExecutionRecord N), Intact file records

/-- Whatever is appended by however many instances, every file reached is a journal that keeps the
protocol, exactly when no record that is appended has a string with a line end in it. -/
theorem faithful_throughout_iff (calls : List (Call N)) :
    Run.Throughout step (Faithful N) none calls ↔ Run.Always step Safe none calls := by
  have hinitial : InOrder N none := ⟨[], intact_none⟩
  refine Run.throughout_iff_always_of_invariant ?_ ?_ ?_ hinitial
  · intro file hfile
    obtain ⟨records, hintact⟩ := hfile
    exact hintact.faithful
  · intro file call hfile hsafe
    obtain ⟨records, hintact⟩ := hfile
    by_cases hdue : Due records call
    · rw [step, hintact.append_due hdue]
      exact ⟨_, hintact.extend hdue (hsafe records hintact.records_eq hdue)⟩
    · rw [step, hintact.append_not_due hdue]
      exact ⟨records, hintact⟩
  · intro file call hfile hbroken
    obtain ⟨records, hintact⟩ := hfile
    obtain ⟨found, hwrong⟩ := not_forall.mp hbroken
    obtain ⟨hfound, hwrong⟩ := Classical.not_imp.mp hwrong
    obtain ⟨hdue, hline⟩ := Classical.not_imp.mp hwrong
    obtain rfl : records = found := by
      rw [hintact.records_eq] at hfound
      exact Except.ok.inj hfound
    exact hintact.not_faithful hdue hline

end Files

def blockedCall (reason : String) : Call PyNumber where
  pendingPayloadSha256 := "5f"
  signalDate := "2026-01-05"
  executionDate := "2026-01-06"
  status := "execution_blocked"
  details := some ⟨⟨[("reason", .str reason)], by simp⟩, by simp [Json.Distinct]⟩
  recordedAt := none
  now := ⟨"2026-01-06T02:00:00+00:00", ascii_of_all (by decide)⟩

/-- A reason with a line separator in it is accepted, and the journal cannot be read again. -/
theorem not_faithful_lineSeparator :
    ¬ Run.Throughout step (Faithful PyNumber) none [blockedCall "left\u2028right"] := by
  intro hall
  have hdue : Due [] (blockedCall "left\u2028right") :=
    ⟨(checkCall_ok_iff _).mpr ⟨by decide, by decide, by decide, by decide⟩, rfl, trivial, trivial⟩
  have hbroken : ¬ (blockedCall "left\u2028right").LineSafe := by
    intro hsafe
    have hdetails : LineSafe "reason" ∧ LineSafe "left\u2028right" ∧
        Json.LineSafe (.obj [] : Json PyNumber) := by
      have hall := (json_lineSafe_cons "reason" _ []).mp hsafe.2.2
      rwa [json_lineSafe_str] at hall
    exact hdetails.2.1 '\u2028' (by decide) (by decide)
  exact intact_none.not_faithful hdue hbroken hall.last

end PendingExecutionJournal

end QuantAgent.Paper
