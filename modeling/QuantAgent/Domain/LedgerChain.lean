import QuantAgent.Domain.LedgerCodec

/-!
# Appending to the chain

What one append does to an instance, and what it does to the chain: a ledger whose chain verifies
up to its head still does after the append exactly when the event was kept as it was given.
-/

namespace QuantAgent.Domain

open Library

variable {N : Type}

/-- A lineage holds strings only, so a printer shows it as it is. -/
@[simp]
theorem shown_asDict (lineage : Lineage) : shown (lineage.asDict : Json N) = lineage.asDict := by
  rw [Lineage.asDict, shown, Json.obj.injEq]
  induction LineageField.sorted with
  | nil => simp [shownMembers]
  | cons field fields ih =>
    rw [List.filterMap_cons]
    cases lineage.get field with
    | none => exact ih
    | some value => simp [shownMembers, ih]

variable [Number N]

/-- The entry holds nothing that JSON has no form for. -/
def Entry.Plain (entry : Entry N) : Prop := (entry.body 0 "").toDict.Plain

/-- The record keeps the event of the entry as it was given. -/
def Entry.Storable (entry : Entry N) : Prop :=
  ∀ event, entry.event = some event → event.Storable

theorem Fill.eq_of_shown {fill kept : Fill N} (hkept : fill.stored = some kept)
    (h : shown (fillToDict kept) = shown (fillToDict fill)) : kept = fill := by
  simp only [Fill.stored, Option.bind_eq_bind, Option.bind_eq_some_iff, Option.some.injEq] at hkept
  obtain ⟨price, -, commission, -, stampDuty, -, transferFee, -, rfl⟩ := hkept
  simp only [fillToDict, shown, shownMembers, shown_asDict, Json.obj.injEq, List.cons.injEq,
    Prod.mk.injEq, true_and, and_true, Json.num.injEq] at h
  obtain ⟨rfl, hlineage, rfl, hquantity, rfl, rfl⟩ := h
  rw [hquantity, Lineage.asDict_injective hlineage]

omit [Number N] in
theorem RiskDecision.eq_of_shown {decision : RiskDecision N}
    (h : shown (riskToDict decision.stored) = shown (riskToDict decision)) :
    decision.stored = decision := by
  simp only [riskToDict, RiskDecision.stored, shown, shownMembers, shown_asDict, Json.obj.injEq,
    List.cons.injEq, Prod.mk.injEq, true_and, and_true, Json.str.injEq] at h
  obtain ⟨hby, hlineage⟩ := h
  rw [RiskDecision.stored, hby, Lineage.asDict_injective hlineage]

/-- An event that was changed on the way in looks different to the digest. -/
theorem OrderEvent.eq_of_shown {event kept : OrderEvent N} (hkept : event.stored = some kept)
    (h : shown (eventToDict kept) = shown (eventToDict event)) : kept = event := by
  simp only [OrderEvent.stored, Option.bind_eq_bind, Option.bind_eq_some_iff,
    Option.some.injEq] at hkept
  obtain ⟨fill, hfill, rfl⟩ := hkept
  simp only [eventToDict, shown, shownMembers, shown_asDict, Json.obj.injEq, List.cons.injEq,
    Prod.mk.injEq, true_and, and_true, Json.num.injEq] at h
  obtain ⟨hshown, hlineage, hrisk, hsequence⟩ := h
  have hfill' : fill = event.fill := by
    cases hevent : event.fill with
    | none =>
      rw [hevent] at hfill
      exact (Option.some.inj hfill).symm
    | some given =>
      rw [hevent] at hfill hshown
      obtain ⟨kept, hkept, rfl⟩ := Option.map_eq_some_iff.mp hfill
      exact congrArg some (Fill.eq_of_shown hkept hshown)
  have hrisk' : event.riskDecision.map RiskDecision.stored = event.riskDecision := by
    cases hevent : event.riskDecision with
    | none => rfl
    | some given =>
      rw [hevent] at hrisk
      exact congrArg some (RiskDecision.eq_of_shown hrisk)
  rw [hfill', hrisk', hsequence, Lineage.asDict_injective hlineage]

theorem storedEvent_eq_of_shown {event kept : Option (OrderEvent N)}
    (hkept : storedEvent event = some kept)
    (h : shown ((kept.map eventToDict).getD .null) = shown ((event.map eventToDict).getD .null)) :
    kept = event := by
  cases event with
  | none => exact (Option.some.inj hkept).symm
  | some event =>
    obtain ⟨kept, hstored, rfl⟩ := Option.map_eq_some_iff.mp hkept
    exact congrArg some (OrderEvent.eq_of_shown hstored h)

section

omit [Number N]

@[simp]
theorem orNull_toDict (action : Option (CorporateAction N)) :
    orNull ((action.map CorporateAction.toDict).getD .null) =
      (action.map CorporateAction.toDict).getD .null := by
  cases action <;> rfl

@[simp]
theorem orNull_intentToDict (intent : Option (OrderIntent N)) :
    orNull ((intent.map intentToDict).getD .null) = (intent.map intentToDict).getD .null := by
  cases intent <;> rfl

end

/-- Verification hashes the event that was kept, and otherwise what the append hashed. -/
theorem Entry.record_body (entry : Entry N) (length : ℕ) (recordedAt previous hash : String)
    (kept : Option (OrderEvent N)) :
    (entry.record length recordedAt previous hash kept).body =
      { entry.body length recordedAt with event := (kept.map eventToDict).getD .null } := by
  simp [record, LedgerRecord.body, body]

variable [Hashing N]

/-- The digest of a kept record is the one it was given exactly when the event was kept as it is. -/
theorem Entry.digest_record_iff (entry : Entry N) (length : ℕ) (recordedAt previous hash : String)
    {kept : Option (OrderEvent N)} (hkept : storedEvent entry.event = some kept) :
    digest previous (entry.body length recordedAt).toDict =
        digest previous (entry.record length recordedAt previous hash kept).body.toDict ↔
      kept = entry.event := by
  rw [entry.record_body]
  constructor
  · intro h
    have hshown := (Hashing.digest_injective h).2
    simp only [RecordBody.toDict, body, shown, shownMembers, Json.obj.injEq, List.cons.injEq,
      Prod.mk.injEq, true_and, and_true] at hshown
    exact storedEvent_eq_of_shown hkept hshown.symm
  · rintro rfl
    rfl

theorem chained_plain_iff (entry : Entry N) (length : ℕ) (recordedAt previous : String) :
    ((entry.body length recordedAt).chained previous).Plain ↔ entry.Plain := by
  simp [RecordBody.chained, RecordBody.payload, Entry.Plain, RecordBody.toDict, Json.Plain,
    Json.PlainMembers, Entry.body]

section

omit [Number N] [Hashing N]

@[simp]
theorem plain_asDict (lineage : Lineage) : (lineage.asDict : Json N).Plain := by
  rw [Lineage.asDict, Json.Plain]
  induction LineageField.sorted with
  | nil => trivial
  | cons field fields ih =>
    rw [List.filterMap_cons]
    cases lineage.get field with
    | none => exact ih
    | some value => exact ⟨trivial, ih⟩

@[simp]
theorem plain_optionalStr (value : Option String) : (optionalStr value : Json N).Plain := by
  cases value <;> trivial

@[simp]
theorem plain_optionalNum (value : Option N) : (optionalNum value).Plain := by
  cases value <;> trivial

end

omit [Hashing N] in
/-- Only a risk decision can hold something that JSON has no form for. -/
theorem Entry.plain_of_decision {entry : Entry N}
    (h : ∀ event decision, entry.event = some event → event.riskDecision = some decision →
      decision.threshold.Plain ∧ decision.measured.Plain) : entry.Plain := by
  obtain ⟨event, tradeDate, intent, action⟩ := entry
  have hevent : ((event.map eventToDict).getD .null).Plain := by
    cases event with
    | none => trivial
    | some event =>
      have hfill : ((event.fill.map fillToDict).getD .null).Plain := by
        cases event.fill with
        | none => trivial
        | some fill => simp [fillToDict, Json.Plain, Json.PlainMembers]
      have hrisk : ((event.riskDecision.map riskToDict).getD .null).Plain := by
        cases hdecision : event.riskDecision with
        | none => trivial
        | some decision =>
          obtain ⟨hthreshold, hmeasured⟩ := h event decision rfl hdecision
          simp [riskToDict, Json.Plain, Json.PlainMembers, hthreshold, hmeasured]
      simp [eventToDict, Json.Plain, Json.PlainMembers, hfill, hrisk]
  have hintent : ((intent.map intentToDict).getD .null).Plain := by
    cases intent with
    | none => trivial
    | some intent => simp [intentToDict, Json.Plain, Json.PlainMembers]
  have haction : ((action.map CorporateAction.toDict).getD .null).Plain := by
    cases action with
    | none => trivial
    | some action => simp [CorporateAction.toDict, Json.Plain, Json.PlainMembers]
  simp [Entry.Plain, Entry.body, RecordBody.toDict, Json.Plain, Json.PlainMembers, hevent, hintent,
    haction]

namespace CanonicalLedger

/-- The record an append makes of an entry, before anything is written. -/
def recordOf (ledger : CanonicalLedger N) (recordedAt : String) (entry : Entry N)
    (kept : Option (OrderEvent N)) : LedgerRecord N :=
  entry.record ledger.records.length recordedAt ledger.head
    (digest ledger.head (entry.body ledger.records.length recordedAt).toDict) kept

def push (ledger : CanonicalLedger N) (record : LedgerRecord N) : CanonicalLedger N :=
  { ledger with records := ledger.records ++ [record], head := record.recordHash }

theorem append_cases (ledger : CanonicalLedger N) (recordedAt : String) (write : Write)
    (entry : Entry N) :
    (∃ failure, ledger.writeFailure = some failure ∧
      ledger.append recordedAt write entry = (ledger, .error (.writeUnavailable failure))) ∨
    (ledger.writeFailure = none ∧ storedEvent entry.event = none ∧
      ledger.append recordedAt write entry = (ledger, .error .notRecordable)) ∨
    ∃ kept, ledger.writeFailure = none ∧ storedEvent entry.event = some kept ∧
      ((ledger.durable = true ∧
          ¬ ((entry.body ledger.records.length recordedAt).chained ledger.head).Plain ∧
          ledger.append recordedAt write entry = (ledger, .error .notSerialisable)) ∨
        (∃ error, ledger.durable = true ∧ write = .failed error ∧
          ((entry.body ledger.records.length recordedAt).chained ledger.head).Plain ∧
          ledger.append recordedAt write entry =
            ({ ledger with writeFailure := some error }, .error (.os error))) ∨
        ((ledger.durable = true → write = .landed ∧
            ((entry.body ledger.records.length recordedAt).chained ledger.head).Plain) ∧
          ledger.append recordedAt write entry =
            (ledger.push (ledger.recordOf recordedAt entry kept),
              .ok (ledger.recordOf recordedAt entry kept)))) := by
  have hrecord := recordFromDict_payload entry ledger.records.length recordedAt ledger.head
    (digest ledger.head (entry.body ledger.records.length recordedAt).toDict)
  cases hfailure : ledger.writeFailure with
  | some failure => exact .inl ⟨failure, rfl, by simp [append, hfailure]⟩
  | none =>
    right
    cases hkept : storedEvent entry.event with
    | none =>
      left
      rw [hkept, Option.map_none] at hrecord
      simp [append, hfailure, RecordBody.chained, hrecord]
    | some kept =>
      right
      rw [hkept, Option.map_some] at hrecord
      refine ⟨kept, rfl, rfl, ?_⟩
      by_cases hdurable : ledger.durable = true
      · by_cases hplain :
            ((entry.body ledger.records.length recordedAt).chained ledger.head).Plain
        · right
          cases write with
          | landed =>
            right
            refine ⟨fun _ ↦ ⟨rfl, hplain⟩, ?_⟩
            rw [RecordBody.chained] at hplain
            simp only [append, hfailure, RecordBody.chained, hrecord, hdurable, if_true,
              if_pos hplain]
            simp only [push, recordOf, hfailure, hdurable]
            rfl
          | failed error =>
            left
            refine ⟨error, hdurable, rfl, hplain, ?_⟩
            rw [RecordBody.chained] at hplain
            simp only [append, hfailure, RecordBody.chained, hrecord, hdurable, if_true,
              if_pos hplain]
        · left
          refine ⟨hdurable, hplain, ?_⟩
          rw [RecordBody.chained] at hplain
          simp only [append, hfailure, RecordBody.chained, hrecord, hdurable, if_true,
            if_neg hplain]
      · right
        right
        refine ⟨fun h ↦ absurd h hdurable, ?_⟩
        simp only [append, hfailure, RecordBody.chained, hrecord]
        rw [if_neg hdurable]
        simp only [push, recordOf, hfailure]
        rfl

variable {ledger : CanonicalLedger N} {write : Write} {entry : Entry N}

/-- A storable entry is recorded as it is, unless the writing fails. -/
theorem append_storable (recordedAt : String) (hwritable : ledger.writeFailure = none)
    (hstorable : entry.Storable)
    (hwritten : ledger.durable = true → write = .landed ∧ entry.Plain) :
    ledger.append recordedAt write entry =
      (ledger.push (ledger.recordOf recordedAt entry entry.event),
        .ok (ledger.recordOf recordedAt entry entry.event)) := by
  have hstored := (storedEvent_eq_iff _).mpr hstorable
  rcases ledger.append_cases recordedAt write entry with
    ⟨failure, hfailure, -⟩ | ⟨-, hnone, -⟩ | ⟨kept, -, hkept, hrest⟩
  · rw [hwritable] at hfailure
    cases hfailure
  · rw [hstored] at hnone
    cases hnone
  · obtain rfl : entry.event = kept := Option.some.inj (hstored.symm.trans hkept)
    rcases hrest with ⟨hfile, hplain, -⟩ | ⟨error, hfile, hfailed, -, -⟩ | ⟨-, happend⟩
    · exact absurd ((chained_plain_iff _ _ _ _).mpr (hwritten hfile).2) hplain
    · rw [(hwritten hfile).1] at hfailed
      cases hfailed
    · exact happend

variable {recordedAt : String}

theorem append_ok {record : LedgerRecord N}
    (h : (ledger.append recordedAt write entry).2 = .ok record) :
    ∃ kept, storedEvent entry.event = some kept ∧
      record = ledger.recordOf recordedAt entry kept ∧
      (ledger.append recordedAt write entry).1 = ledger.push record := by
  rcases ledger.append_cases recordedAt write entry with
    ⟨failure, -, heq⟩ | ⟨-, -, heq⟩ | ⟨kept, -, hkept, hrest⟩
  · simp [heq] at h
  · simp [heq] at h
  · rcases hrest with ⟨-, -, heq⟩ | ⟨error, -, -, -, heq⟩ | ⟨-, heq⟩
    · simp [heq] at h
    · simp [heq] at h
    · rw [heq] at h ⊢
      obtain rfl := (Except.ok.inj h).symm
      exact ⟨kept, hkept, rfl, rfl⟩

theorem append_error {error : AppendError}
    (h : (ledger.append recordedAt write entry).2 = .error error) :
    (ledger.append recordedAt write entry).1.records = ledger.records ∧
      (ledger.append recordedAt write entry).1.head = ledger.head := by
  rcases ledger.append_cases recordedAt write entry with
    ⟨failure, -, heq⟩ | ⟨-, -, heq⟩ | ⟨kept, -, -, hrest⟩
  · simp [heq]
  · simp [heq]
  · rcases hrest with ⟨-, -, heq⟩ | ⟨error, -, -, -, heq⟩ | ⟨-, heq⟩
    · simp [heq]
    · simp [heq]
    · simp [heq] at h

omit [Number N] in
theorem verifyFrom_append (previous : String) (index : ℕ) (first second : List (LedgerRecord N)) :
    verifyFrom previous index (first ++ second) =
      match verifyFrom previous index first with
      | .ok head => verifyFrom head (index + first.length) second
      | .error brokenAt => .error brokenAt := by
  induction first generalizing previous index with
  | nil => rfl
  | cons record first ih =>
    simp only [List.cons_append, verifyFrom]
    split
    · rw [ih, List.length_cons, Nat.add_assoc, Nat.add_comm 1]
    · rfl

omit [Number N] in
/-- The chain verifies up to the head of the instance. -/
def Linked (ledger : CanonicalLedger N) : Prop := ledger.verify = .ok ledger.head

section

omit [Number N]

theorem linked_fresh (durable : Bool) : (fresh durable : CanonicalLedger N).Linked := rfl

theorem Linked.valid (h : ledger.Linked) : ledger.Valid := ⟨_, h⟩

end

/-- The chain still verifies after an append exactly when the event was kept as it was given. -/
theorem verify_push_iff (h : ledger.Linked) {kept : Option (OrderEvent N)}
    (hkept : storedEvent entry.event = some kept) :
    (ledger.push (ledger.recordOf recordedAt entry kept)).Valid ↔ kept = entry.event := by
  have hdigest := entry.digest_record_iff ledger.records.length recordedAt ledger.head
    (digest ledger.head (entry.body ledger.records.length recordedAt).toDict) hkept
  rw [Linked, verify] at h
  simp only [Valid, verify, push, verifyFrom_append, h]
  by_cases hsame : kept = entry.event
  · refine iff_of_true ?_ hsame
    simp only [verifyFrom]
    rw [if_pos ⟨rfl, hdigest.mpr hsame⟩]
    exact ⟨_, rfl⟩
  · refine iff_of_false ?_ hsame
    simp only [verifyFrom]
    rw [if_neg fun hboth ↦ hsame (hdigest.mp hboth.2)]
    rintro ⟨head, hhead⟩
    cases hhead

theorem linked_push (h : ledger.Linked) (hkept : storedEvent entry.event = some entry.event) :
    (ledger.push (ledger.recordOf recordedAt entry entry.event)).Linked := by
  have hdigest := entry.digest_record_iff ledger.records.length recordedAt ledger.head
    (digest ledger.head (entry.body ledger.records.length recordedAt).toDict) hkept
  rw [Linked, verify] at h
  simp only [Linked, verify, push, verifyFrom_append, h, verifyFrom]
  rw [if_pos ⟨rfl, hdigest.mpr rfl⟩]

omit [Number N] in
/-- A chain that verifies did so before its last record. -/
theorem Valid.of_append {first second : List (LedgerRecord N)}
    (h : ({ ledger with records := first ++ second } : CanonicalLedger N).Valid) :
    ({ ledger with records := first } : CanonicalLedger N).Valid := by
  obtain ⟨head, hhead⟩ := h
  simp only [verify, verifyFrom_append] at hhead
  cases hfirst : verifyFrom genesisHash 0 first with
  | ok head => exact ⟨head, hfirst⟩
  | error brokenAt =>
    rw [hfirst] at hhead
    cases hhead

end CanonicalLedger

end QuantAgent.Domain
