import QuantAgent.Domain.LedgerRoundTrip
import QuantAgent.Library.HashChain
import QuantAgent.Library.JsonPlain

/-!
# What a verified file says about another one

A file that loads and verifies agrees with the records of any other written file up to some record,
and behind it carries no digest of that file.  A digest needs no secret, so new digests can be
sealed by anyone; without them what verifies is an initial part of the original.  Two lists of
records that verify up to the same head hold the same.
-/

namespace QuantAgent.Domain

open Library

variable {N : Type}

namespace LedgerRecord

/-- A blank mapping counts as none. -/
def normal (record : LedgerRecord N) : LedgerRecord N :=
  { record with
    corporateAction := orNull record.corporateAction
    intent := orNull record.intent }

/-- Two records with the same hashes over the same content, as a printer shows it. -/
structure Agrees [Hashing N] (record other : LedgerRecord N) : Prop where
  recordHash : record.recordHash = other.recordHash
  previousHash : record.previousHash = other.previousHash
  content : shown record.body.toDict = shown other.body.toDict

/-- The record holds nothing that JSON has no form for. -/
def Plain (record : LedgerRecord N) : Prop := record.body.toDict.Plain

end LedgerRecord

section Shown

mutual

theorem shown_of_plain : ∀ {document : Json N}, document.Plain → shown document = document
  | .null, _ => rfl
  | .bool _, _ => rfl
  | .num _, _ => rfl
  | .str _, _ => rfl
  | .arr items, h => by
      rw [shown, shownItems_of_plain h]
  | .obj members, h => by
      rw [shown, shownMembers_of_plain h]
  | .foreign _, h => absurd h (by simp [Json.Plain])

/-- `shown_of_plain` for the items of an array. -/
theorem shownItems_of_plain :
    ∀ {items : List (Json N)}, Json.PlainItems items → shownItems items = items
  | [], _ => rfl
  | item :: rest, h => by
      rw [shownItems, shown_of_plain h.1, shownItems_of_plain h.2]

/-- `shown_of_plain` for the members of an object. -/
theorem shownMembers_of_plain : ∀ {members : List (String × Json N)},
    Json.PlainMembers members → shownMembers members = members
  | [], _ => rfl
  | (key, value) :: rest, h => by
      rw [shownMembers, shown_of_plain h.1, shownMembers_of_plain h.2]

end

theorem optionalNum_injective : Function.Injective (optionalNum : Option N → Json N) := by
  intro left right h
  cases left <;> cases right <;> simp_all [optionalNum]

theorem fillToDict_injective : Function.Injective (fillToDict : Fill N → Json N) := by
  intro left right h
  simp only [fillToDict, Json.obj.injEq, List.cons.injEq, Prod.mk.injEq, Json.num.injEq,
    Json.str.injEq, true_and, and_true] at h
  obtain ⟨hcommission, hexecution, hfilled, hlineage, horder, hprice, hquantity, hreference, hside,
    hstamp, hsymbol, htransfer⟩ := h
  have hside' : left.side = right.side := by
    have hvalue := congrArg Side.ofValue hside
    rw [Side.ofValue_value, Side.ofValue_value] at hvalue
    exact Option.some.inj hvalue
  cases left
  cases right
  simp_all [Lineage.asDict_injective.eq_iff, optionalNum_injective.eq_iff]

theorem riskToDict_injective : Function.Injective (riskToDict : RiskDecision N → Json N) := by
  intro left right h
  cases left
  cases right
  simp_all [riskToDict, Lineage.asDict_injective.eq_iff]

/-- A mapping that is missing or printed by an injective printer is determined by what is
printed. -/
theorem optional_injective {α : Type} {print : α → Json N} (hprint : Function.Injective print)
    (hnull : ∀ value, print value ≠ .null) :
    Function.Injective fun value : Option α ↦ (value.map print).getD .null := by
  intro left right h
  cases left with
  | none =>
    cases right with
    | none => rfl
    | some value => exact absurd h.symm (hnull value)
  | some value =>
    cases right with
    | none => exact absurd h (hnull value)
    | some other => exact congrArg some (hprint h)

theorem eventToDict_injective : Function.Injective (eventToDict : OrderEvent N → Json N) := by
  intro left right h
  simp only [eventToDict, Json.obj.injEq, List.cons.injEq, Prod.mk.injEq, Json.num.injEq,
    Json.str.injEq, true_and, and_true] at h
  obtain ⟨htime, htype, hfill, hlineage, horder, hreason, hrisk, hsequence⟩ := h
  have htype' : left.eventType = right.eventType := by
    have hvalue := congrArg OrderEventType.ofValue htype
    rw [OrderEventType.ofValue_value, OrderEventType.ofValue_value] at hvalue
    exact Option.some.inj hvalue
  have hfill' := optional_injective fillToDict_injective (fun _ ↦ (by rintro ⟨⟩)) hfill
  have hrisk' := optional_injective riskToDict_injective (fun _ ↦ (by rintro ⟨⟩)) hrisk
  have hlineage' := Lineage.asDict_injective hlineage
  have hreason' := optionalStr_injective hreason
  cases left
  cases right
  simp_all

end Shown

namespace LedgerRecord

variable [Hashing N]

/-- The record carries the digest of its content behind its predecessor. -/
def Verified (record : LedgerRecord N) : Prop :=
  record.recordHash = digest record.previousHash record.body.toDict

variable {record other : LedgerRecord N}

/-- Verified records with the same digest have the same content. -/
theorem Verified.agrees (h : record.Verified) (hother : other.Verified)
    (hhash : record.recordHash = other.recordHash) :
    record.Agrees other := by
  rw [Verified] at h hother
  have hdigest : digest record.previousHash record.body.toDict =
      digest other.previousHash other.body.toDict := by rw [← h, ← hother, hhash]
  obtain ⟨hprevious, hcontent⟩ := Hashing.digest_injective hdigest
  exact ⟨hhash, hprevious, hcontent⟩

/-- Records without foreign objects that agree are the same, up to blank mappings. -/
theorem Agrees.normal_eq (h : record.Agrees other) (hplain : record.Plain) (hother : other.Plain) :
    record.normal = other.normal := by
  have hdict : record.body.toDict = other.body.toDict := by
    have hcontent := h.content
    rwa [shown_of_plain hplain, shown_of_plain hother] at hcontent
  simp only [RecordBody.toDict, body, Json.obj.injEq, List.cons.injEq, Prod.mk.injEq,
    Json.num.injEq, Json.str.injEq, true_and, and_true] at hdict
  obtain ⟨haction, hevent, hintent, hrecorded, hsequence, hdate⟩ := hdict
  have hevent' := optional_injective eventToDict_injective (fun _ ↦ (by rintro ⟨⟩)) hevent
  have hdate' := optionalStr_injective hdate
  unfold normal
  rw [haction, hintent, hevent', hrecorded, hsequence, hdate', h.recordHash, h.previousHash]

end LedgerRecord

namespace CanonicalLedger

section Verify

variable [Hashing N]

variable {head : String}

/-- Records that verify form a chain up to the head that is reported. -/
theorem sealed_of_verifyFrom {previous : String} {index : ℕ} {records : List (LedgerRecord N)}
    (h : verifyFrom previous index records = .ok head) :
    Sealed digest (fun record : LedgerRecord N ↦ record.body.toDict) LedgerRecord.recordHash previous
        records ∧
      (∀ record ∈ records, record.Verified) ∧
      Sealed.headOf LedgerRecord.recordHash previous records = head := by
  induction records generalizing previous index with
  | nil => exact ⟨trivial, fun _ hrecord ↦ absurd hrecord List.not_mem_nil, Except.ok.inj h⟩
  | cons record records ih =>
    rw [verifyFrom] at h
    split at h
    · rename_i hrecord
      obtain ⟨hsealed, hverified, hhead⟩ := ih h
      refine ⟨⟨hrecord.2, hsealed⟩, ?_, ?_⟩
      · have hfirst : record.Verified := by
          rw [LedgerRecord.Verified, hrecord.1]
          exact hrecord.2
        exact List.forall_mem_cons.mpr ⟨hfirst, hverified⟩
      · rw [← hhead]
        unfold Sealed.headOf
        rw [List.getLast?_cons]
        cases records.getLast? <;> rfl
    · cases h

def FreshGenesis (N : Type) [Hashing N] : Prop :=
  ∀ (previous : String) (body : Json N), digest previous body ≠ genesisHash

variable (N) in
/-- Equal digests are those of equal shown bodies behind equal digests. -/
theorem shown_of_digest (previous previous' : String) (body body' : Json N)
    (h : digest previous body = digest previous' body') :
    previous = previous' ∧ shown body = shown body' := Hashing.digest_injective h

variable {first second : List (LedgerRecord N)}

section

variable (hgenesis : FreshGenesis N) (hfirst : verifyFrom genesisHash 0 first = .ok head)
include hgenesis hfirst

/-- Two lists of records that verify up to the same head agree record by record. -/
theorem agrees_of_head (hsecond : verifyFrom genesisHash 0 second = .ok head) :
    List.Forall₂ LedgerRecord.Agrees first second := by
  obtain ⟨hsealed, hverified, hhead⟩ := sealed_of_verifyFrom hfirst
  obtain ⟨hsealed', hverified', hhead'⟩ := sealed_of_verifyFrom hsecond
  obtain ⟨hlength, hagree⟩ := Sealed.agree_of_head (shown_of_digest N) hgenesis hsealed hsealed' (hhead.trans hhead'.symm)
  refine List.forall₂_iff_get.mpr ⟨hlength, fun i hi hi' ↦ ?_⟩
  obtain ⟨record, other, hrecord, hother, hhash, -⟩ := hagree i hi
  obtain rfl : first.get ⟨i, hi⟩ = record := by
    rw [List.getElem?_eq_getElem hi] at hrecord
    exact Option.some.inj hrecord
  obtain rfl : second.get ⟨i, hi'⟩ = other := by
    rw [List.getElem?_eq_getElem hi'] at hother
    exact Option.some.inj hother
  exact (hverified _ (List.get_mem ..)).agrees (hverified' _ (List.get_mem ..)) hhash

/-- Two chains that verify agree for some records, and behind these share no digest. -/
theorem exists_common {head' : String} (hsecond : verifyFrom genesisHash 0 second = .ok head') :
    ∃ common, List.Forall₂ LedgerRecord.Agrees (first.take common) (second.take common) ∧
      ∀ record ∈ first.drop common, ∀ other ∈ second, record.recordHash ≠ other.recordHash := by
  obtain ⟨hsealed, hverified, -⟩ := sealed_of_verifyFrom hfirst
  obtain ⟨hsealed', hverified', -⟩ := sealed_of_verifyFrom hsecond
  obtain ⟨common, -, hagree, hdiffer⟩ := Sealed.exists_fork (shown_of_digest N) hgenesis hsealed hsealed'
  refine ⟨common, List.forall₂_iff_get.mpr ⟨?_, fun i hi hi' ↦ ?_⟩, hdiffer⟩
  · -- the last common record is there in both
    rcases Nat.eq_zero_or_pos common with hzero | hpos
    · rw [hzero, List.take_zero, List.take_zero]
    · obtain ⟨record, other, hrecord, hother, -⟩ := hagree (common - 1) (by omega)
      have hleft := (List.getElem?_eq_some_iff.mp hrecord).1
      have hright := (List.getElem?_eq_some_iff.mp hother).1
      rw [List.length_take, List.length_take]
      omega
  · have hcommon := (List.length_take ▸ hi).trans_le (min_le_left ..)
    obtain ⟨record, other, hrecord, hother, hhash, -⟩ := hagree i hcommon
    have hrecord' : (first.take common).get ⟨i, hi⟩ = record := by
      rw [List.get_eq_getElem, List.getElem_take]
      exact (List.getElem?_eq_some_iff.mp hrecord).2
    have hother' : (second.take common).get ⟨i, hi'⟩ = other := by
      rw [List.get_eq_getElem, List.getElem_take]
      exact (List.getElem?_eq_some_iff.mp hother).2
    rw [hrecord', hother']
    exact (hverified record (List.mem_of_getElem? hrecord)).agrees
      (hverified' other (List.mem_of_getElem? hother)) hhash

end

/-- Records that agree and hold no foreign object are the same, up to blank mappings. -/
theorem normal_eq_of_agrees (h : List.Forall₂ LedgerRecord.Agrees first second)
    (hfirst : ∀ record ∈ first, record.Plain) (hsecond : ∀ record ∈ second, record.Plain) :
    first.map LedgerRecord.normal = second.map LedgerRecord.normal := by
  induction h with
  | nil => rfl
  | cons hagrees _ ih =>
    obtain ⟨hplain, hrest⟩ := List.forall_mem_cons.mp hfirst
    obtain ⟨hplain', hrest'⟩ := List.forall_mem_cons.mp hsecond
    rw [List.map_cons, List.map_cons, hagrees.normal_eq hplain hplain', ih hrest hrest']

end Verify

end CanonicalLedger

variable {payload : Json N}

theorem plain_getJson (h : payload.Plain) (key : String) :
    (getJson payload key).Plain := by
  unfold getJson
  cases hfound : payload.get? key with
  | none => trivial
  | some value => exact h.get? hfound

theorem plain_orNull {mapping : Json N} (h : mapping.Plain) : (orNull mapping).Plain := by
  unfold orNull
  split
  · trivial
  · exact h

theorem plain_fillToDict (fill : Fill N) : (fillToDict fill).Plain := by
  simp [fillToDict, Json.Plain, Json.PlainMembers]

theorem decoded_of_optionalMapping {α : Type} {decode : Json N → Option α} {value : α}
    (h : optionalMapping decode payload = some (some value)) :
    decode payload = some value := by
  unfold optionalMapping at h
  split at h
  · cases h
  · cases h
  · obtain ⟨found, hfound, hvalue⟩ := Option.map_eq_some_iff.mp h
    rw [hfound, Option.some.inj hvalue]

section Loaded

variable [Number N]

variable {payload : Json N}

omit [Number N] in
theorem plain_riskFromDict (h : payload.Plain) {decision : RiskDecision N}
    (hdecision : riskFromDict payload = some decision) : (riskToDict decision).Plain := by
  simp only [riskFromDict, Option.bind_eq_bind, Option.bind_eq_some_iff] at hdecision
  obtain ⟨_, _, hrest⟩ := hdecision
  split at hrest
  · simp only [Option.bind_some, Option.bind_eq_some_iff, Option.some.injEq] at hrest
    obtain ⟨_, _, _, _, _, _, _, _, rfl⟩ := hrest
    simp [riskToDict, Json.Plain, Json.PlainMembers, plain_getJson h]
  · cases hrest

theorem plain_eventFromDict (h : payload.Plain) {event : OrderEvent N}
    (hevent : eventFromDict payload = some event) : (eventToDict event).Plain := by
  simp only [eventFromDict, Option.bind_eq_bind, Option.bind_eq_some_iff, Option.some.injEq] at hevent
  obtain ⟨_, _, _, _, _, _, _, _, fill, hfill, _, _, decision, hdecision, rfl⟩ := hevent
  have hfill' : ((fill.map fillToDict).getD .null).Plain := by
    cases fill with
    | none => trivial
    | some fill => exact plain_fillToDict fill
  have hdecision' : ((decision.map riskToDict).getD .null).Plain := by
    cases decision with
    | none => trivial
    | some decision =>
      exact plain_riskFromDict (plain_getJson h _) (decoded_of_optionalMapping hdecision)
  simp [eventToDict, Json.Plain, Json.PlainMembers, hfill', hdecision']

/-- A record that was read from a document holds no foreign object. -/
theorem plain_recordFromDict (h : payload.Plain) {record : LedgerRecord N}
    (hrecord : recordFromDict payload = some record) : record.Plain := by
  simp only [recordFromDict, Option.bind_eq_bind, Option.bind_eq_some_iff, Option.some.injEq] at hrecord
  obtain ⟨event, hevent, _, _, _, _, _, _, _, _, _, _, rfl⟩ := hrecord
  have hevent' : ((event.map eventToDict).getD .null).Plain := by
    cases event with
    | none => trivial
    | some event =>
      exact plain_eventFromDict (plain_getJson h _) (decoded_of_optionalMapping hevent)
  simp [LedgerRecord.Plain, LedgerRecord.body, RecordBody.toDict, Json.Plain, Json.PlainMembers,
    hevent', plain_orNull (plain_getJson h _)]

variable [NumText N]

variable {reader : CanonicalLedger N}

theorem plain_loadLines {lines : List (List Char)} {ledger : CanonicalLedger N}
    (h : ∀ record ∈ ledger.records, record.Plain) (hload : loadLines lines ledger = some reader) :
    ∀ record ∈ reader.records, record.Plain := by
  induction lines generalizing ledger with
  | nil =>
    rw [← Option.some.inj hload]
    exact h
  | cons line lines ih =>
    rw [loadLines] at hload
    split at hload
    · exact ih h hload
    · split at hload
      · rw [← Option.some.inj hload]
        exact h
      · rename_i payload hpayload
        cases hrecord : recordFromDict payload with
        | none =>
          rw [hrecord] at hload
          cases hload
        | some record =>
          rw [hrecord] at hload
          refine ih (fun other hother ↦ ?_) hload
          rcases List.mem_append.mp hother with hold | hnew
          · exact h other hold
          · rw [List.mem_singleton.mp hnew]
            exact plain_recordFromDict (Json.plain_of_loads hpayload) hrecord

/-- A ledger that was loaded holds no foreign object. -/
theorem plain_load {bytes : ByteArray} (h : load bytes = some reader) :
    ∀ record ∈ reader.records, record.Plain := by
  simp only [load, loadText, Option.bind_eq_bind, Option.bind_eq_some_iff] at h
  obtain ⟨chars, -, hchars⟩ := h
  exact plain_loadLines (fun _ hrecord ↦ absurd hrecord List.not_mem_nil) hchars

end Loaded

namespace LedgerFile

variable [Number N] [Hashing N]

/-- The records of a run of appends, with every event as it was given. -/
def given (previous : String) (index : ℕ) : List (Call N) → List (LedgerRecord N)
  | [] => []
  | call :: rest =>
    let recordHash := digest previous (call.entry.body index call.recordedAt.text).toDict
    call.entry.record index call.recordedAt.text previous recordHash call.entry.event ::
      given recordHash (index + 1) rest

omit [Hashing N] in
theorem body_given (call : Call N) (index : ℕ) (previous recordHash : String) :
    (call.entry.record index call.recordedAt.text previous recordHash call.entry.event).body =
      call.entry.body index call.recordedAt.text := by
  rw [Entry.record_body]
  rfl

omit [Number N] [Hashing N] in
theorem map_normal_eq {records : List (LedgerRecord N)}
    (h : ∀ record ∈ records, record.normal = record) :
    records.map LedgerRecord.normal = records := by
  calc
    records.map LedgerRecord.normal = records.map id := List.map_congr_left h
    _ = records := List.map_id records

variable {calls : List (Call N)}

theorem normal_given {previous : String} {index : ℕ} :
    ∀ record ∈ given previous index calls, record.normal = record := by
  induction calls generalizing previous index with
  | nil => exact fun _ hrecord ↦ absurd hrecord List.not_mem_nil
  | cons call rest ih =>
    refine List.forall_mem_cons.mpr ⟨?_, ih⟩
    simp [LedgerRecord.normal, Entry.record]

theorem verifyFrom_given (previous : String) (start index : ℕ) (calls : List (Call N)) :
    ∃ head, CanonicalLedger.verifyFrom previous start (given previous index calls) = .ok head := by
  induction calls generalizing previous start index with
  | nil => exact ⟨previous, rfl⟩
  | cons call rest ih =>
    rw [given, CanonicalLedger.verifyFrom, body_given, if_pos ⟨rfl, rfl⟩]
    exact ih _ _ _

variable [NumText N]

theorem records_appendAll {file writer : LedgerFile N} (h : file.ledger.Healthy)
    (hrun : file.appendAll calls = some writer) :
    ∃ records, writer.ledger.records = file.ledger.records ++ records ∧
      records.map LedgerRecord.recordHash =
        (given file.ledger.head file.ledger.records.length calls).map LedgerRecord.recordHash ∧
      (∀ record ∈ given file.ledger.head file.ledger.records.length calls, record.Plain) ∧
      ((∀ call ∈ calls, call.entry.Storable) →
        records = given file.ledger.head file.ledger.records.length calls) := by
  induction calls generalizing file with
  | nil =>
    cases hrun
    exact ⟨[], (List.append_nil _).symm, rfl, fun _ hrecord ↦ absurd hrecord List.not_mem_nil,
      fun _ ↦ rfl⟩
  | cons call rest ih =>
    obtain ⟨kept, hkept, hplain, hrest⟩ := appendAll_cons h hrun
    obtain ⟨records, hrecords, hhashes, hgiven, hstorable⟩ := ih (healthy_extend h call kept) hrest
    have hlength : (file.extend call kept).ledger.records.length =
        file.ledger.records.length + 1 := List.length_append ..
    rw [hlength] at hhashes hgiven hstorable
    refine ⟨file.ledger.recordOf call.recordedAt.text call.entry kept :: records, ?_, ?_, ?_, ?_⟩
    · rw [hrecords]
      exact List.append_assoc _ [_] _
    · rw [List.map_cons, hhashes]
      rfl
    · refine List.forall_mem_cons.mpr ⟨?_, hgiven⟩
      have hbody := (chained_plain_iff call.entry file.ledger.records.length
        call.recordedAt.text file.ledger.head).mpr hplain
      rw [LedgerRecord.Plain, body_given]
      simp only [RecordBody.chained, RecordBody.payload, RecordBody.toDict, Json.Plain,
        Json.PlainMembers, true_and, and_true] at hbody ⊢
      exact hbody
    · intro hall
      obtain ⟨hfirst, hothers⟩ := List.forall_mem_cons.mp hall
      have hsame := (storedEvent_eq_iff _).mpr hfirst
      rw [hkept] at hsame
      rw [hstorable hothers, Option.some.inj hsame]
      rfl

omit [Number N] [Hashing N] [NumText N] in
/-- A digest in hexadecimal is never the hash a chain starts with: its length is a multiple of
six. -/
theorem freshGenesis_hex : CanonicalLedger.FreshGenesis PyNumber := by
  intro previous body h
  have hlength := congrArg (fun text : String ↦ text.toList.length) h
  have hsix : ∀ chars : List Char, (hexText chars).toList.length = 6 * chars.length := by
    intro chars
    rw [hexText, String.toList_ofList]
    induction chars with
    | nil => rfl
    | cons c chars ih =>
      rw [List.flatMap_cons, List.length_append, ih, List.length_cons]
      simp only [hexOf, List.length_cons, List.length_nil]
      omega
  have hgenesis : genesisHash.toList.length = 64 := by decide
  have hdigest : (digest previous body).toList.length = _ := hsix _
  rw [hdigest, hgenesis] at hlength
  omega

/-- A cancel request stays on its line when its reason does. -/
theorem cancelCall_lineSafe {reason : String} (h : LineSafe reason) :
    (cancelCall reason).entry.LineSafe := by
  have hstrings : Json.strings ((cancelCall reason).entry.body 0 "").toDict =
      ["corporateAction", "event", "eventTime", "2026-01-05T02:00:00+00:00", "eventType",
        OrderEventType.cancelRequested.value, "fill", "lineage", "orderId", "ord_1", "reason"] ++
      reason :: ["riskDecision", "sequence", "intent", "recordedAt", "", "schemaVersion",
        schemaVersion, "sequence", "tradeDate", "2026-01-05"] := rfl
  unfold Entry.LineSafe Json.LineSafe
  rw [hstrings]
  refine List.forall_mem_append.mpr ⟨by decide, List.forall_mem_cons.mpr ⟨h, by decide⟩⟩

/-- Two cancel requests with given reasons. -/
def cancelCalls (first second : String) : List (Call PyNumber) :=
  [cancelCall first, cancelCall second]

/-- A file of two cancel requests loads as it was written, and verifies. -/
theorem exists_cancelFile {first second : String} (hfirst : LineSafe first)
    (hsecond : LineSafe second) :
    ∃ writer : LedgerFile PyNumber, fresh.appendAll (cancelCalls first second) = some writer ∧
      load writer.bytes = some writer.ledger ∧ writer.ledger.Valid ∧
      writer.ledger.records = given genesisHash 0 (cancelCalls first second) := by
  have haccepted : ∀ call ∈ cancelCalls first second, call.entry.Accepted := by
    simp [cancelCalls, cancelCall_accepted]
  have hstorable : ∀ call ∈ cancelCalls first second, call.entry.Storable := by
    simp [cancelCalls, cancelCall_storable]
  have hsafe : ∀ call ∈ cancelCalls first second, call.entry.LineSafe := by
    simp [cancelCalls, cancelCall_lineSafe hfirst, cancelCall_lineSafe hsecond]
  obtain ⟨writer, hrun⟩ := exists_appendAll_fresh _ haccepted
  obtain ⟨chars, hreads, hchars⟩ := reads_appendAll reads_nil fresh_bytes
    CanonicalLedger.healthy_fresh hrun hsafe
  obtain ⟨records, hrecords, -, -, hgiven⟩ := records_appendAll CanonicalLedger.healthy_fresh hrun
  refine ⟨writer, hrun, ?_, ?_, ?_⟩
  · rw [hchars, load_exact hreads]
  · exact (valid_iff CanonicalLedger.healthy_fresh (CanonicalLedger.linked_fresh true) hrun).mpr
      hstorable
  · have hwriter := hrecords
    rw [hwriter, hgiven hstorable]
    rfl

end LedgerFile

end QuantAgent.Domain
