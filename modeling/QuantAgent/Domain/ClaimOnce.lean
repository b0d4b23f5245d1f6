import QuantAgent.Domain.ClaimFile
import QuantAgent.Library.Run

/-!
# One claim per key across processes

Any number of stores on one file, constructed at any time, that claim and resolve keys in any order.
A key is granted once, later claims see the latest record, and a resolution keeps the instant of the
claim, as long as no claim is for the empty key and every payload that is appended can be printed.
The record of an empty key is written but refused by every later read, and a payload that cannot be
printed is remembered by its store and missing from the file.
-/

namespace QuantAgent.Domain

open Library SharedLog IdempotencyStore

variable {N : Type}

inductive ClaimEvent (N : Type) where
  | claim (key : String) (strict : Bool)
      (answer : Except (IdempotencyError N) (ClaimResult N))
  | resolve (key : String) (answer : Except (IdempotencyError N) (ClaimRecord N))

namespace ClaimEvent

def key : ClaimEvent N → String
  | .claim key _ _ => key
  | .resolve key _ => key

/-- The record a call put in force: a granted claim's or a resolution's. -/
def record? : ClaimEvent N → Option (ClaimRecord N)
  | .claim _ _ (.ok ⟨true, record⟩) => some record
  | .resolve _ (.ok record) => some record
  | _ => none

def grants (key : String) : ClaimEvent N → Bool
  | .claim claimed _ (.ok ⟨true, _⟩) => claimed = key
  | _ => false

end ClaimEvent

/-- The record in force for a key.  The latest call comes first. -/
def latest (key : String) : List (ClaimEvent N) → Option (ClaimRecord N)
  | [] => none
  | event :: earlier =>
    if event.key = key then event.record?.or (latest key earlier) else latest key earlier

/-- A call agrees with the calls before it: a claim of a claimed key is refused with the record in
force, a claim of any other key is not refused, and a resolution keeps the instant of the claim. -/
def ClaimEvent.Follows (earlier : List (ClaimEvent N)) : ClaimEvent N → Prop
  | .claim key strict answer =>
    match latest key earlier with
    | some record =>
      answer = if strict then .error (.duplicateAction key record) else .ok ⟨false, record⟩
    | none => ∀ record,
        answer ≠ .ok ⟨false, record⟩ ∧ answer ≠ .error (.duplicateAction key record)
  | .resolve key (.ok record) =>
    ∃ known, latest key earlier = some known ∧ record.claimedAt = known.claimedAt
  | .resolve _ (.error _) => True

/-- Every call agrees with the calls before it. -/
def Ordered : List (ClaimEvent N) → Prop
  | [] => True
  | event :: earlier => event.Follows earlier ∧ Ordered earlier

/-- A file, the stores on it, and what was called, the latest call first. -/
structure ClaimSystem (N : Type) where
  file : Option (List Char)
  stores : List (IdempotencyStore N)
  history : List (ClaimEvent N)

/-- What may happen next.  Each step holds the file lock from beginning to end. -/
inductive ClaimStep (N : Type) where
  /-- A store is constructed, also by a process that starts again. -/
  | start
  | claim (store : ℕ) (key : String) (outcome : Option String)
      (payload : Option (Mapping N)) (strict : Bool) (now : ClaimTime)
  | resolve (store : ℕ) (key : String) (outcome : String) (payload : Option (Mapping N))

namespace ClaimSystem

def initial : ClaimSystem N := ⟨none, [], []⟩

section Step

variable [Documents N] [NumText N]

def step (s : ClaimSystem N) : ClaimStep N → ClaimSystem N
  | .start =>
    match create s.file with
    | .ok store => { s with stores := s.stores ++ [store] }
    | .error _ => s
  | .claim i key outcome payload strict now =>
    match s.stores[i]? with
    | none => s
    | some store =>
      let (store, file, answer) := store.claim s.file key outcome payload strict now
      { file, stores := s.stores.set i store
        history := .claim key strict answer :: s.history }
  | .resolve i key outcome payload =>
    match s.stores[i]? with
    | none => s
    | some store =>
      let (store, file, answer) := store.resolve s.file key outcome payload
      { file, stores := s.stores.set i store
        history := .resolve key answer :: s.history }

def recordsIn (file : Option (List Char)) :
    Except IdempotencyStoreCorruption (List (ClaimRecord N)) :=
  (((ByteLines.split (file.getD [])).map ByteLines.strip).filter (· ≠ [])).mapM readRecord

/-- What the registry promises of a state: at most one grant for each key, calls that agree with
the calls before them, and stores that load to the fold of the file. -/
structure ClaimOnce (s : ClaimSystem N) : Prop where
  once : ∀ key, (s.history.filter (ClaimEvent.grants key)).length ≤ 1
  ordered : Ordered s.history
  loads : ∃ records, recordsIn s.file = .ok records ∧
    ∀ store ∈ s.stores, ∃ loaded, load store s.file = (loaded, .ok ()) ∧
      loaded.claims = fold foldClaim .empty records

def Printable (payload : Option (Mapping N)) : Prop :=
  (Json.obj (payload.getD .empty).members.entries).Plain

omit [Documents N] [NumText N] in
/-- No claim is for the empty key, and a payload that is about to be appended can be printed. -/
def Admissible (s : ClaimSystem N) : ClaimStep N → Prop
  | .start => True
  | .claim i key _ payload _ _ =>
    i < s.stores.length → key ≠ "" ∧ ((latest key s.history).isSome ∨ Printable payload)
  | .resolve i key _ payload =>
    i < s.stores.length → (latest key s.history).isSome → Printable payload

/-- What holds of a state reached by admissible steps: the file holds the records in force, and
every store reads them. -/
structure Tidy (s : ClaimSystem N) (records : List (ClaimRecord N)) : Prop where
  written : Written s.file records
  sound : ∀ record ∈ records, record.Sound
  reads : ∀ store ∈ s.stores, Reads records store
  inForce : ∀ key, (fold foldClaim .empty records).get? key = latest key s.history
  ordered : Ordered s.history

def InOrder (s : ClaimSystem N) : Prop := ∃ records, Tidy s records

theorem recordsIn_written {file : Option (List Char)} {records : List (ClaimRecord N)}
    (hfile : Written file records) (hsound : ∀ record ∈ records, record.Sound) :
    recordsIn file = .ok records := by
  have hcontent : file.getD [] = textOf records := by
    obtain ⟨rfl, rfl⟩ | rfl := hfile
    · rfl
    · rfl
  rw [recordsIn, hcontent]
  clear hfile hcontent
  induction records with
  | nil => rfl
  | cons record records ih =>
    obtain ⟨hrecord, hrecords⟩ := List.forall_mem_cons.mp hsound
    have hread := readRecord_text hrecord.plain hrecord.distinct
    rw [if_neg (not_or.mpr ⟨hrecord.key_ne, hrecord.claimedAt_ne⟩)] at hread
    rw [textOf, List.flatMap_cons, split_lineOf, List.map_cons,
      List.filter_cons_of_pos (by simpa using strip_lineOf_ne record), List.mapM_cons,
      strip_lineOf, hread]
    have hrest := ih hrecords
    rw [textOf] at hrest
    rw [hrest]
    rfl

omit [Documents N] [NumText N] in
theorem mem_of_get?_fold {records : List (ClaimRecord N)} {key : String} {record : ClaimRecord N}
    (h : (fold foldClaim .empty records).get? key = some record) :
    record ∈ records ∧ record.key = key := by
  induction records using List.reverseRecOn with
  | nil => exact absurd h (by simp [fold])
  | append_singleton records last ih =>
    rw [fold_append, List.foldl_cons, List.foldl_nil, foldClaim, Dict.get?_insert] at h
    split at h
    · rename_i hkey
      cases h
      exact ⟨by simp, hkey.symm⟩
    · obtain ⟨hmem, hkey⟩ := ih h
      exact ⟨List.mem_append_left _ hmem, hkey⟩

section

omit [Documents N]

/-- A record that can be printed goes to the end of the file. -/
theorem put_plain {record : ClaimRecord N} (h : record.toDict.Plain) (store : IdempotencyStore N)
    (file : Option (List Char)) :
    store.put file record =
      ({ store with claims := foldClaim store.claims record },
        some (file.getD [] ++ lineOf record), .ok ()) := by
  rw [put, append, if_pos h]

/-- A record that cannot be printed is remembered, but not written. -/
theorem put_not_plain {record : ClaimRecord N} (h : ¬ record.toDict.Plain)
    (store : IdempotencyStore N) (file : Option (List Char)) :
    store.put file record =
      ({ store with claims := foldClaim store.claims record }, file, .error .notSerializable) := by
  rw [put, append, if_neg h]

end

def claimRecord (key : String) (outcome : Option String) (payload : Option (Mapping N))
    (now : ClaimTime) : ClaimRecord N where
  key
  claimedAt := now.text
  outcome := outcome.elim .null .str
  payload := (payload.getD .empty).members

def resolvedRecord (existing : ClaimRecord N) (key outcome : String)
    (payload : Option (Mapping N)) : ClaimRecord N where
  key
  claimedAt := existing.claimedAt
  outcome := .str outcome
  payload := merge existing.payload (payload.getD .empty)

section

omit [Documents N] [NumText N]

theorem toDict_plain_iff (record : ClaimRecord N) :
    record.toDict.Plain ↔ record.outcome.Plain ∧ (Json.obj record.payload.entries).Plain := by
  simp [ClaimRecord.toDict, Json.Plain, Json.PlainMembers]

theorem toDict_distinct_iff (record : ClaimRecord N) :
    record.toDict.Distinct ↔
      record.outcome.Distinct ∧ ∀ member ∈ record.payload.entries, member.2.Distinct := by
  have hnodup := record.payload.nodup
  have hmembers : Json.DistinctMembers record.payload.entries ↔ _ := Json.distinctMembers_iff
  simp [ClaimRecord.toDict, Json.Distinct, Json.DistinctMembers, hnodup, hmembers]

section

variable (key : String) (outcome : Option String) (payload : Option (Mapping N)) (now : ClaimTime)

theorem claimRecord_plain_iff :
    (claimRecord key outcome payload now).toDict.Plain ↔ Printable payload := by
  rw [toDict_plain_iff]
  refine and_iff_right ?_
  cases outcome with
  | none => trivial
  | some outcome => trivial

theorem claimRecord_distinct :
    (claimRecord key outcome payload now).toDict.Distinct := by
  rw [toDict_distinct_iff]
  refine ⟨?_, (payload.getD .empty).distinct⟩
  cases outcome with
  | none => trivial
  | some outcome => trivial

end

theorem resolvedRecord_plain_iff {existing : ClaimRecord N} (h : existing.toDict.Plain)
    (key outcome : String) (payload : Option (Mapping N)) :
    (resolvedRecord existing key outcome payload).toDict.Plain ↔ Printable payload := by
  rw [toDict_plain_iff] at h ⊢
  rw [Printable]
  simp only [Json.Plain, Json.plainMembers_iff] at h ⊢
  constructor
  · exact fun hplain member hmem ↦ hplain.2 member (Dict.mem_update (payload.getD .empty).members.nodup hmem)
  · intro hplain
    refine ⟨trivial, ?_⟩
    intro member hmem
    exact (Dict.mem_entries_of_update hmem).elim (h.2 member) (hplain member)

theorem resolvedRecord_distinct {existing : ClaimRecord N} (h : existing.toDict.Distinct)
    (key outcome : String) (payload : Option (Mapping N)) :
    (resolvedRecord existing key outcome payload).toDict.Distinct := by
  rw [toDict_distinct_iff] at h ⊢
  refine ⟨trivial, ?_⟩
  intro member hmem
  exact (Dict.mem_entries_of_update hmem).elim (h.2 member) ((payload.getD .empty).distinct member)

end

section Calls

variable {s : ClaimSystem N} {records : List (ClaimRecord N)} {store : IdempotencyStore N}
  {key : String}

section

variable (h : Tidy s records)
include h

theorem Tidy.load (hstore : store ∈ s.stores) :
    store.load s.file = (upToDate records, .ok ()) :=
  load_written h.written h.sound (h.reads store hstore)

omit [Documents N] in
theorem Tidy.get?_latest {found : Option (ClaimRecord N)} (hlatest : latest key s.history = found) :
    (upToDate records).claims.get? key = found :=
  (h.inForce key).trans hlatest

theorem Tidy.claim_claimed (hstore : store ∈ s.stores) {existing : ClaimRecord N}
    (hlatest : latest key s.history = some existing) (outcome : Option String)
    (payload : Option (Mapping N)) (strict : Bool) (now : ClaimTime) :
    store.claim s.file key outcome payload strict now =
      (upToDate records, s.file,
        if strict then .error (.duplicateAction key existing) else .ok ⟨false, existing⟩) := by
  rw [claim, h.load hstore]
  simp only [h.get?_latest hlatest]
  cases strict with
  | false => rfl
  | true => rfl

theorem Tidy.claim_unclaimed (hstore : store ∈ s.stores) (hlatest : latest key s.history = none)
    (outcome : Option String) (payload : Option (Mapping N)) (strict : Bool) (now : ClaimTime) :
    store.claim s.file key outcome payload strict now =
      match (upToDate records).put s.file (claimRecord key outcome payload now) with
      | (store, file, .error error) => (store, file, .error error)
      | (store, file, .ok ()) =>
        (store, file, .ok ⟨true, claimRecord key outcome payload now⟩) := by
  rw [claim, h.load hstore]
  simp only [h.get?_latest hlatest]
  rfl

theorem Tidy.resolve_unclaimed (hstore : store ∈ s.stores) (hlatest : latest key s.history = none)
    (outcome : String) (payload : Option (Mapping N)) :
    store.resolve s.file key outcome payload =
      (upToDate records, s.file, .error (.unclaimedKey key)) := by
  rw [resolve, h.load hstore]
  simp only [h.get?_latest hlatest]

theorem Tidy.resolve_claimed (hstore : store ∈ s.stores) {existing : ClaimRecord N}
    (hlatest : latest key s.history = some existing) (outcome : String)
    (payload : Option (Mapping N)) :
    store.resolve s.file key outcome payload =
      match (upToDate records).put s.file (resolvedRecord existing key outcome payload) with
      | (store, file, .error error) => (store, file, .error error)
      | (store, file, .ok ()) => (store, file, .ok (resolvedRecord existing key outcome payload)) := by
  rw [resolve, h.load hstore]
  simp only [h.get?_latest hlatest]
  rfl

omit [Documents N] in
theorem Tidy.existing {existing : ClaimRecord N} (hlatest : latest key s.history = some existing) :
    existing.Sound ∧ existing.key = key := by
  obtain ⟨hmem, hkey⟩ := mem_of_get?_fold ((h.inForce key).trans hlatest)
  exact ⟨h.sound existing hmem, hkey⟩

end

section

omit [Documents N]

theorem Tidy.observe (h : Tidy s records) (i : ℕ) {event : ClaimEvent N}
    (hrecord : event.record? = none) (hfollows : event.Follows s.history) :
    Tidy ⟨s.file, s.stores.set i (upToDate records), event :: s.history⟩ records where
  written := h.written
  sound := h.sound
  reads := by
    intro store hmem
    rcases List.mem_or_eq_of_mem_set hmem with hold | rfl
    · exact h.reads store hold
    · exact reads_upToDate records
  inForce := by
    intro other
    rw [h.inForce other, latest, hrecord, Option.none_or, ite_self]
  ordered := ⟨hfollows, h.ordered⟩

theorem Tidy.record (h : Tidy s records) (i : ℕ) {event : ClaimEvent N} {record : ClaimRecord N}
    (hsound : record.Sound) (hrecord : event.record? = some record) (hkey : event.key = record.key)
    (hfollows : event.Follows s.history) :
    Tidy ⟨some (s.file.getD [] ++ lineOf record),
        s.stores.set i
          { upToDate records with claims := foldClaim (upToDate records).claims record },
        event :: s.history⟩ (records ++ [record]) where
  written := written_append h.written record
  sound := by
    exact List.forall_mem_append.mpr ⟨h.sound, List.forall_mem_singleton.mpr hsound⟩
  reads := by
    intro store hmem
    rcases List.mem_or_eq_of_mem_set hmem with hold | rfl
    · exact (h.reads store hold).append record
    · exact reads_put records record
  inForce := by
    intro other
    rw [fold_append, List.foldl_cons, List.foldl_nil, foldClaim, Dict.get?_insert, latest, hrecord,
      Option.some_or, hkey, h.inForce other]
    simp only [eq_comm]
  ordered := ⟨hfollows, h.ordered⟩

end

section

omit [Documents N] [NumText N]

theorem follows_claimed {earlier : List (ClaimEvent N)} {existing : ClaimRecord N}
    (hlatest : latest key earlier = some existing) (strict : Bool) :
    (ClaimEvent.claim key strict (if strict then .error (.duplicateAction key existing)
      else .ok ⟨false, existing⟩)).Follows earlier := by
  simp only [ClaimEvent.Follows, hlatest]

theorem follows_granted {earlier : List (ClaimEvent N)} (hlatest : latest key earlier = none)
    (strict : Bool) (record : ClaimRecord N) :
    (ClaimEvent.claim key strict (.ok ⟨true, record⟩)).Follows earlier := by
  simp [ClaimEvent.Follows, hlatest]

end

/-- An admissible step keeps the file and the stores in order. -/
theorem Tidy.step (h : Tidy s records) {action : ClaimStep N} (hadmissible : Admissible s action) :
    ∃ records', Tidy (s.step action) records' := by
  cases action with
  | start =>
    have hcreate : create s.file = .ok (upToDate records) := by
      rw [create, load_written h.written h.sound (reads_fresh records)]
    refine ⟨records, ?_⟩
    simp only [ClaimSystem.step, hcreate]
    refine { h with reads := ?_ }
    exact List.forall_mem_append.mpr
      ⟨h.reads, List.forall_mem_singleton.mpr (reads_upToDate records)⟩
  | claim i key outcome payload strict now =>
    cases hstore : s.stores[i]? with
    | none =>
      refine ⟨records, ?_⟩
      simpa only [ClaimSystem.step, hstore] using h
    | some store =>
      have hmem := List.mem_of_getElem? hstore
      obtain ⟨hkey, hprintable⟩ := hadmissible (List.getElem?_eq_some_iff.mp hstore).1
      cases hlatest : latest key s.history with
      | some existing =>
        refine ⟨records, ?_⟩
        simp only [ClaimSystem.step, hstore, h.claim_claimed hmem hlatest]
        refine h.observe i ?_ (follows_claimed hlatest strict)
        cases strict with
        | false => rfl
        | true => rfl
      | none =>
        have hprint : Printable payload := by simpa [hlatest] using hprintable
        have hplain := (claimRecord_plain_iff key outcome payload now).mpr hprint
        have hsound : (claimRecord key outcome payload now).Sound := {
          plain := hplain
          distinct := claimRecord_distinct key outcome payload now
          key_ne := hkey
          claimedAt_ne := now.printed }
        refine ⟨records ++ [claimRecord key outcome payload now], ?_⟩
        simp only [ClaimSystem.step, hstore, h.claim_unclaimed hmem hlatest, put_plain hplain]
        exact h.record i hsound rfl rfl (follows_granted hlatest strict _)
  | resolve i key outcome payload =>
    cases hstore : s.stores[i]? with
    | none =>
      refine ⟨records, ?_⟩
      simpa only [ClaimSystem.step, hstore] using h
    | some store =>
      have hmem := List.mem_of_getElem? hstore
      cases hlatest : latest key s.history with
      | none =>
        refine ⟨records, ?_⟩
        simp only [ClaimSystem.step, hstore, h.resolve_unclaimed hmem hlatest]
        exact h.observe i rfl trivial
      | some existing =>
        obtain ⟨hexisting, hkey⟩ := h.existing hlatest
        have hprint := hadmissible (List.getElem?_eq_some_iff.mp hstore).1 (by rw [hlatest]; rfl)
        have hplain := (resolvedRecord_plain_iff hexisting.plain key outcome payload).mpr hprint
        have hsound : (resolvedRecord existing key outcome payload).Sound := {
          plain := hplain
          distinct := resolvedRecord_distinct hexisting.distinct key outcome payload
          key_ne := hkey ▸ hexisting.key_ne
          claimedAt_ne := hexisting.claimedAt_ne }
        refine ⟨records ++ [resolvedRecord existing key outcome payload], ?_⟩
        simp only [ClaimSystem.step, hstore, h.resolve_claimed hmem hlatest, put_plain hplain]
        exact h.record i hsound rfl rfl ⟨existing, hlatest, rfl⟩

section

omit [Documents N] [NumText N]

theorem latest_isSome_of_grants {history : List (ClaimEvent N)} {event : ClaimEvent N}
    (hmem : event ∈ history) (hgrants : event.grants key = true) :
    (latest key history).isSome := by
  induction history with
  | nil => cases hmem
  | cons next earlier ih =>
    rw [latest]
    rcases List.mem_cons.mp hmem with rfl | hearlier
    · match event, hgrants with
      | .claim claimed _ (.ok ⟨true, record⟩), hgrants =>
        have hkey : claimed = key := by simpa [ClaimEvent.grants] using hgrants
        simp [ClaimEvent.key, ClaimEvent.record?, hkey]
    · have hsome := ih hearlier
      split
      · simp [hsome]
      · exact hsome

theorem grants_le_one {history : List (ClaimEvent N)} (h : Ordered history) (key : String) :
    (history.filter (ClaimEvent.grants key)).length ≤ 1 := by
  induction history with
  | nil => simp
  | cons event earlier ih =>
    obtain ⟨hfollows, hearlier⟩ := h
    by_cases hgrants : event.grants key = true
    · have hnone : latest key earlier = none := by
        match event, hgrants, hfollows with
        | .claim claimed strict (.ok ⟨true, record⟩), hgrants, hfollows =>
          have hkey : claimed = key := by simpa [ClaimEvent.grants] using hgrants
          subst hkey
          cases hlatest : latest claimed earlier with
          | none => rfl
          | some existing =>
            simp only [ClaimEvent.Follows, hlatest] at hfollows
            cases strict with
            | false => simp at hfollows
            | true => simp at hfollows
      have hempty : earlier.filter (ClaimEvent.grants key) = [] := by
        rw [List.filter_eq_nil_iff]
        intro other hmem hother
        have hsome := latest_isSome_of_grants hmem hother
        rw [hnone] at hsome
        cases hsome
      rw [List.filter_cons_of_pos hgrants, hempty]
      exact le_rfl
    · rw [List.filter_cons_of_neg hgrants]
      exact ih hearlier

end

theorem Tidy.claimOnce (h : Tidy s records) : ClaimOnce s where
  once := grants_le_one h.ordered
  ordered := h.ordered
  loads := by
    refine ⟨records, recordsIn_written h.written h.sound, ?_⟩
    intro store hstore
    exact ⟨upToDate records, h.load hstore, rfl⟩

omit [Documents N] in
theorem tidy_initial : Tidy (initial : ClaimSystem N) [] where
  written := .inl ⟨rfl, rfl⟩
  sound := by simp
  reads := by simp [initial]
  inForce _ := rfl
  ordered := trivial

theorem load_read {file : Option (List Char)} (hfile : Written file records)
    (claims : Dict String (ClaimRecord N)) :
    IdempotencyStore.load ⟨claims, (textOf records).length⟩ file =
      (⟨claims, (textOf records).length⟩, .ok ()) := by
  obtain ⟨rfl, rfl⟩ | rfl := hfile
  · rfl
  · simp only [IdempotencyStore.load, lt_self_iff_false, if_false, List.drop_length, ne_eq,
      not_true_eq_false, false_and]
    rfl

/-- The line of a record without a key is counted as read and refused. -/
theorem load_keyless {record : ClaimRecord N} (hplain : record.toDict.Plain)
    (hdistinct : record.toDict.Distinct) (hkey : record.key = "")
    (claims : Dict String (ClaimRecord N)) :
    IdempotencyStore.load ⟨claims, (textOf records).length⟩
        (some (textOf records ++ lineOf record)) =
      (⟨claims, (textOf records ++ lineOf record).length⟩, .error .incompleteRecord) := by
  have hlong : ¬ (textOf records ++ lineOf record).length < (textOf records).length := by
    rw [List.length_append]
    exact Nat.not_lt.mpr (Nat.le_add_right _ _)
  have hwhole : ¬ (lineOf record ≠ [] ∧ (lineOf record).getLast? ≠ some '\n') := by
    rw [lineOf, List.getLast?_concat]
    exact fun hcut ↦ hcut.2 rfl
  have hsplit : ByteLines.split (lineOf record) = [lineOf record] := by
    simpa [ByteLines.split, ByteLines.splitFrom] using split_lineOf record []
  simp only [IdempotencyStore.load, if_neg hlong, List.drop_left, if_neg hwhole]
  rw [hsplit, readLines_line hplain hdistinct, if_pos (.inl hkey), List.length_append]

/-- A record that is remembered but not written is missing from the fold of the file. -/
theorem Tidy.not_claimOnce_unwritten (h : Tidy s records) {i : ℕ} (hi : i < s.stores.length)
    {record : ClaimRecord N} (hlatest : latest record.key s.history ≠ some record)
    (history : List (ClaimEvent N)) :
    ¬ ClaimOnce ⟨s.file,
      s.stores.set i
        { upToDate records with claims := foldClaim (upToDate records).claims record },
      history⟩ := by
  intro honce
  obtain ⟨records', hrecords', hloads⟩ := honce.loads
  have hwritten := recordsIn_written h.written h.sound
  rw [hwritten] at hrecords'
  cases hrecords'
  obtain ⟨loaded, hload, hclaims⟩ := hloads _ (List.mem_set hi _)
  rw [upToDate, load_read h.written] at hload
  cases hload
  refine hlatest ?_
  calc
    _ = (fold foldClaim .empty records).get? record.key := (h.inForce record.key).symm
    _ = (foldClaim (fold foldClaim .empty records) record).get? record.key :=
      congrArg (fun claims ↦ claims.get? record.key) hclaims.symm
    _ = some record := Dict.get?_insert_self _ _ _

/-- A record without a key stops every load. -/
theorem Tidy.not_claimOnce_keyless (h : Tidy s records) {i : ℕ} (hi : i < s.stores.length)
    {record : ClaimRecord N} (hplain : record.toDict.Plain) (hdistinct : record.toDict.Distinct)
    (hkey : record.key = "") (history : List (ClaimEvent N)) :
    ¬ ClaimOnce ⟨some (s.file.getD [] ++ lineOf record),
      s.stores.set i
        { upToDate records with claims := foldClaim (upToDate records).claims record },
      history⟩ := by
  intro honce
  have hcontent : s.file.getD [] = textOf records := by
    obtain ⟨hfile, rfl⟩ | hfile := h.written
    · rw [hfile]
      rfl
    · rw [hfile]
      rfl
  obtain ⟨_, _, hloads⟩ := honce.loads
  obtain ⟨loaded, hload, _⟩ := hloads _ (List.mem_set hi _)
  rw [hcontent, upToDate, load_keyless hplain hdistinct hkey] at hload
  cases (Prod.mk.inj hload).2

/-- A step that is not admissible breaks what the registry promises. -/
theorem Tidy.not_claimOnce (h : Tidy s records) {action : ClaimStep N}
    (hadmissible : ¬ Admissible s action) : ¬ ClaimOnce (s.step action) := by
  cases action with
  | start => exact absurd trivial hadmissible
  | claim i key outcome payload strict now =>
    obtain ⟨hi, hwrong⟩ := Classical.not_imp.mp hadmissible
    have hstore := List.getElem?_eq_getElem hi
    have hmem := List.getElem_mem hi
    have hnone : latest key s.history = none := by
      cases hlatest : latest key s.history with
      | none => rfl
      | some existing =>
        obtain ⟨hexisting, hkey⟩ := h.existing hlatest
        exact absurd ⟨hkey ▸ hexisting.key_ne, .inl (by rw [hlatest]; rfl)⟩ hwrong
    by_cases hprint : Printable payload
    · have hkey : key = "" := by
        by_contra hne
        exact hwrong ⟨hne, .inr hprint⟩
      have hplain := (claimRecord_plain_iff key outcome payload now).mpr hprint
      simp only [ClaimSystem.step, hstore, h.claim_unclaimed hmem hnone, put_plain hplain]
      exact h.not_claimOnce_keyless hi hplain (claimRecord_distinct key outcome payload now) hkey _
    · have hplain := (claimRecord_plain_iff key outcome payload now).not.mpr hprint
      simp only [ClaimSystem.step, hstore, h.claim_unclaimed hmem hnone, put_not_plain hplain]
      refine h.not_claimOnce_unwritten hi ?_ _
      rw [claimRecord, hnone]
      exact Option.some_ne_none _ |>.symm
  | resolve i key outcome payload =>
    obtain ⟨hi, hwrong⟩ := Classical.not_imp.mp hadmissible
    obtain ⟨hclaimed, hprint⟩ := Classical.not_imp.mp hwrong
    have hstore := List.getElem?_eq_getElem hi
    have hmem := List.getElem_mem hi
    obtain ⟨existing, hlatest⟩ := Option.isSome_iff_exists.mp hclaimed
    have hexisting := (h.existing hlatest).1
    have hplain := (resolvedRecord_plain_iff hexisting.plain key outcome payload).not.mpr hprint
    simp only [ClaimSystem.step, hstore, h.resolve_claimed hmem hlatest, put_not_plain hplain]
    refine h.not_claimOnce_unwritten hi ?_ _
    intro hsame
    have heq := Option.some.inj (hlatest.symm.trans hsame)
    exact hplain (heq ▸ hexisting.plain)

/-- In every history of claims, resolutions and restarts, what the registry promises holds in every
state exactly when no claim is for the empty key and every payload that is appended can be
printed. -/
theorem claimOnce_throughout_iff (steps : List (ClaimStep N)) :
    Run.Throughout step ClaimOnce (initial : ClaimSystem N) steps ↔
      Run.Always step Admissible (initial : ClaimSystem N) steps := by
  have htidy : InOrder (initial : ClaimSystem N) := ⟨[], tidy_initial⟩
  refine Run.throughout_iff_always_of_invariant ?_ ?_ ?_ htidy
  · intro s hs
    obtain ⟨records, hs⟩ := hs
    exact hs.claimOnce
  · intro s action hs hadmissible
    obtain ⟨records, hs⟩ := hs
    exact hs.step hadmissible
  · intro s action hs hadmissible
    obtain ⟨records, hs⟩ := hs
    exact hs.not_claimOnce hadmissible

end Calls

end Step

section EmptyKey

def noon : ClaimTime := ⟨"2024-01-05T12:00:00+00:00", by decide⟩

def keyless : ClaimRecord PyNumber := claimRecord "" none none noon

def claimNothing (store : ℕ) : ClaimStep PyNumber := .claim store "" none none false noon

theorem keyless_plain : keyless.toDict.Plain :=
  (claimRecord_plain_iff "" none none noon).mpr trivial

theorem keyless_distinct : keyless.toDict.Distinct := claimRecord_distinct "" none none noon

/-- The second store refuses the record once, and then does not see it any more. -/
theorem history_of_empty_key :
    (Run.run step initial
      [.start, .start, claimNothing 0, claimNothing 1, claimNothing 1]).history =
      [.claim "" false (.ok ⟨true, keyless⟩),
        .claim "" false (.error (.corruption .incompleteRecord)),
        .claim "" false (.ok ⟨true, keyless⟩)] := by
  have hput (store : IdempotencyStore PyNumber) (file : Option (List Char)) :=
    put_plain keyless_plain store file
  have hfirst : claim fresh none "" none none false noon =
      (⟨foldClaim .empty keyless, 0⟩, some (lineOf keyless), .ok ⟨true, keyless⟩) := by
    have hgranted : claim fresh none "" none none false noon =
        match put fresh none keyless with
        | (store, file, .error error) => (store, file, .error error)
        | (store, file, .ok ()) => (store, file, .ok ⟨true, keyless⟩) := rfl
    rw [hgranted, hput]
    rfl
  have hrefused : (fresh : IdempotencyStore PyNumber).claim (some (lineOf keyless)) "" none none
      false noon =
      (⟨.empty, (lineOf keyless).length⟩, some (lineOf keyless),
        .error (.corruption .incompleteRecord)) := by
    have hload : (fresh : IdempotencyStore PyNumber).load (some (lineOf keyless)) =
        (⟨.empty, (lineOf keyless).length⟩, .error .incompleteRecord) :=
      @load_keyless _ _ _ [] _ keyless_plain keyless_distinct rfl .empty
    rw [claim, hload]
  have hagain : claim ⟨.empty, (lineOf keyless).length⟩ (some (lineOf keyless)) "" none none false
      noon = (⟨foldClaim .empty keyless, (lineOf keyless).length⟩,
        some (lineOf keyless ++ lineOf keyless), .ok ⟨true, keyless⟩) := by
    have hload : (⟨.empty, (lineOf keyless).length⟩ : IdempotencyStore PyNumber).load
        (some (lineOf keyless)) = (⟨.empty, (lineOf keyless).length⟩, .ok ()) := by
      have hwritten : Written (some (lineOf keyless)) [keyless] := .inr (by rw [textOf_singleton])
      have hread := load_read hwritten .empty
      rwa [textOf_singleton] at hread
    have hgranted : claim ⟨.empty, (lineOf keyless).length⟩ (some (lineOf keyless)) "" none none
        false noon =
        match put ⟨.empty, (lineOf keyless).length⟩ (some (lineOf keyless)) keyless with
        | (store, file, .error error) => (store, file, .error error)
        | (store, file, .ok ()) => (store, file, .ok ⟨true, keyless⟩) := by
      rw [claim, hload]
      rfl
    rw [hgranted, hput]
    rfl
  have hstart : step (initial : ClaimSystem PyNumber) .start = ⟨none, [fresh], []⟩ := rfl
  have hnext : step (⟨none, [fresh], []⟩ : ClaimSystem PyNumber) .start =
      ⟨none, [fresh, fresh], []⟩ := rfl
  rw [Run.run_cons, hstart, Run.run_cons, hnext]
  simp only [Run.run_cons, Run.run_nil, step, claimNothing, List.getElem?_cons_zero,
    List.getElem?_cons_succ, hfirst, List.set_cons_zero, hrefused, List.set_cons_succ, hagain]

/-- Two stores are granted the empty key. -/
theorem not_claimOnce_emptyKey :
    ¬ Run.Throughout step ClaimOnce initial
      [.start, .start, claimNothing 0, claimNothing 1, claimNothing 1] := by
  intro honce
  have hcount := honce.last.once ""
  rw [history_of_empty_key] at hcount
  exact absurd hcount (by simp [ClaimEvent.grants])

end EmptyKey

end ClaimSystem

end QuantAgent.Domain
