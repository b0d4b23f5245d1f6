import QuantAgent.Domain.Idempotency
import QuantAgent.Library.SharedLog

/-!
# The file behind the claim stores

Every store is a reader of the log of records the file holds: what it has read lags behind, and
loading brings it up to date.  A printed record is read back from its line, unless it lacks its key:
such a line is counted as read and then refused.
-/

namespace QuantAgent.Domain

open Library SharedLog

variable {N : Type}

structure ClaimRecord.Sound (record : ClaimRecord N) : Prop where
  plain : record.toDict.Plain
  distinct : record.toDict.Distinct
  key_ne : record.key ≠ ""
  claimedAt_ne : record.claimedAt ≠ ""

namespace IdempotencyStore

def textOf [NumText N] (records : List (ClaimRecord N)) : List Char := records.flatMap lineOf

section Read

variable [Documents N] [NumText N]

variable (record : ClaimRecord N)

omit [NumText N] in
theorem fromDict_toDict :
    ClaimRecord.fromDict record.toDict = some record := by
  have hpayload : payloadOf (record.toDict.get? "payload") = some record.payload :=
    dif_pos record.payload.nodup
  have hkey : record.toDict.get? "key" = some (.str record.key) := rfl
  have hclaimedAt : record.toDict.get? "claimedAt" = some (.str record.claimedAt) := rfl
  have houtcome : record.toDict.get? "outcome" = some record.outcome := rfl
  simp [ClaimRecord.fromDict, hpayload, hkey, hclaimedAt, houtcome, Documents.str_str]

/-- A printed record is read back, unless it lacks its key or its instant. -/
theorem readRecord_text {record : ClaimRecord N} (hplain : record.toDict.Plain)
    (hdistinct : record.toDict.Distinct) :
    readRecord record.toDict.text =
      if record.key = "" ∨ record.claimedAt = "" then .error .incompleteRecord
      else .ok record := by
  have hloads : (Json.loads record.toDict.text : Option (Json N)) = some record.toDict :=
    Json.loads_text hplain
  have hschema : record.toDict.get? "schemaVersion" = some (.str idempotencySchema) := rfl
  have hfrom := fromDict_toDict record
  rw [readRecord, hloads]
  simp only [hdistinct, not_true_eq_false, if_false, hschema]
  rw [ClaimRecord.toDict] at hfrom ⊢
  simp [hfrom]

section

omit [Documents N]

theorem lineOf_visible :
    ∀ c ∈ record.toDict.text, c ≠ '\n' ∧ c ≠ '\r' := by
  intro c hc
  have hrange := (Json.mem_text record.toDict hc).1
  constructor
  · intro heq
    exact absurd (heq ▸ hrange) (by decide)
  · intro heq
    exact absurd (heq ▸ hrange) (by decide)

theorem strip_lineOf :
    ByteLines.strip (lineOf record) = record.toDict.text := by
  have hfirst : ByteLines.isBlank '{' = false := by decide
  have hlast : ByteLines.isBlank '}' = false := by decide
  simp only [lineOf, ClaimRecord.toDict, Json.text, List.cons_append]
  exact ByteLines.strip_line hfirst hlast (by rw [← List.cons_append])

theorem split_lineOf (rest : List Char) :
    ByteLines.split (lineOf record ++ rest) = lineOf record :: ByteLines.split rest :=
  ByteLines.split_line (lineOf_visible record) rest

theorem strip_lineOf_ne : ByteLines.strip (lineOf record) ≠ [] := by
  rw [strip_lineOf]
  simp [ClaimRecord.toDict, Json.text]

end

theorem readLines_line {record : ClaimRecord N} (hplain : record.toDict.Plain)
    (hdistinct : record.toDict.Distinct) (rest : List (List Char)) (store : IdempotencyStore N) :
    readLines (lineOf record :: rest) store =
      if record.key = "" ∨ record.claimedAt = "" then
        ({ store with readOffset := store.readOffset + (lineOf record).length },
          .error .incompleteRecord)
      else readLines rest {
        claims := foldClaim store.claims record
        readOffset := store.readOffset + (lineOf record).length } := by
  rw [readLines, if_neg (strip_lineOf_ne record), strip_lineOf, readRecord_text hplain hdistinct]
  by_cases h : record.key = "" ∨ record.claimedAt = ""
  · rw [if_pos h, if_pos h]
  · rw [if_neg h, if_neg h]

theorem readLines_sound {record : ClaimRecord N} (h : record.Sound) (rest : List (List Char))
    (store : IdempotencyStore N) :
    readLines (lineOf record :: rest) store = readLines rest {
      claims := foldClaim store.claims record
      readOffset := store.readOffset + (lineOf record).length } := by
  rw [readLines_line h.plain h.distinct, if_neg (not_or.mpr ⟨h.key_ne, h.claimedAt_ne⟩)]

theorem readLines_textOf {records : List (ClaimRecord N)} (h : ∀ record ∈ records, record.Sound)
    (store : IdempotencyStore N) :
    readLines (ByteLines.split (textOf records)) store =
      ({ claims := records.foldl foldClaim store.claims
         readOffset := store.readOffset + (textOf records).length }, .ok ()) := by
  induction records generalizing store with
  | nil => rfl
  | cons record records ih =>
    obtain ⟨hrecord, hrecords⟩ := List.forall_mem_cons.mp h
    rw [textOf, List.flatMap_cons, split_lineOf, readLines_sound hrecord]
    have hrest := ih hrecords {
      claims := foldClaim store.claims record
      readOffset := store.readOffset + (lineOf record).length }
    rw [textOf] at hrest
    rw [hrest, List.foldl_cons, List.length_append, Nat.add_assoc]

end Read

section Log

variable [NumText N]

/-- A file that holds these records and nothing else. -/
def Written (file : Option (List Char)) (records : List (ClaimRecord N)) : Prop :=
  (file = none ∧ records = []) ∨ file = some (textOf records)

def Reads (records : List (ClaimRecord N)) (store : IdempotencyStore N) : Prop :=
  ∃ reader : Reader (Dict String (ClaimRecord N)),
    Tracks foldClaim .empty records reader ∧ store.claims = reader.view ∧
      store.readOffset = (textOf (records.take reader.offset)).length

def upToDate (records : List (ClaimRecord N)) : IdempotencyStore N where
  claims := fold foldClaim .empty records
  readOffset := (textOf records).length

omit [NumText N] in
theorem foldClaim_again (claims : Dict String (ClaimRecord N)) (record : ClaimRecord N) :
    foldClaim (foldClaim claims record) record = foldClaim claims record :=
  Dict.insert_insert claims record.key record record

theorem textOf_append (first second : List (ClaimRecord N)) :
    textOf (first ++ second) = textOf first ++ textOf second := by
  simp [textOf]

theorem textOf_singleton (record : ClaimRecord N) : textOf [record] = lineOf record := by
  simp [textOf]

theorem written_append {file : Option (List Char)} {records : List (ClaimRecord N)}
    (h : Written file records) (record : ClaimRecord N) :
    Written (some (file.getD [] ++ lineOf record)) (records ++ [record]) := by
  right
  rw [textOf_append, textOf_singleton]
  obtain ⟨rfl, rfl⟩ | rfl := h
  · rfl
  · rfl

theorem textOf_getLast? {records : List (ClaimRecord N)} (h : records ≠ []) :
    (textOf records).getLast? = some '\n' := by
  obtain ⟨first, last, rfl⟩ := (List.eq_nil_or_concat' records).resolve_left h
  rw [textOf_append, textOf_singleton, lineOf, ← List.append_assoc, List.getLast?_concat]

variable (records : List (ClaimRecord N))

theorem reads_fresh : Reads records (fresh : IdempotencyStore N) :=
  ⟨⟨0, .empty⟩, tracks_start records, rfl, by simp [fresh, textOf]⟩

theorem reads_upToDate : Reads records (upToDate records) :=
  ⟨_, tracks_fold records, rfl, by rw [List.take_length, upToDate]⟩

theorem Reads.append {records : List (ClaimRecord N)} {store : IdempotencyStore N}
    (h : Reads records store) (record : ClaimRecord N) : Reads (records ++ [record]) store := by
  obtain ⟨reader, htracks, hclaims, hoffset⟩ := h
  refine ⟨reader, htracks.append record, hclaims, ?_⟩
  rw [List.take_append_of_le_length htracks.1, hoffset]

/-- The own append of a store that has read everything. -/
theorem reads_put (record : ClaimRecord N) :
    Reads (records ++ [record])
      { upToDate records with claims := foldClaim (upToDate records).claims record } := by
  refine ⟨_, tracks_record records record, rfl, ?_⟩
  have htake : (records ++ [record]).take records.length = records := by simp
  rw [htake, upToDate]

theorem load_written [Documents N] {file : Option (List Char)} {records : List (ClaimRecord N)}
    (hfile : Written file records) (hsound : ∀ record ∈ records, record.Sound)
    {store : IdempotencyStore N} (h : Reads records store) :
    load store file = (upToDate records, .ok ()) := by
  obtain ⟨reader, htracks, hclaims, hoffset⟩ := h
  have hview := sync_view foldClaim_again htracks
  obtain ⟨rfl, rfl⟩ | rfl := hfile
  · obtain ⟨hle, -⟩ := htracks
    have hzero : store.readOffset = 0 := by simpa [textOf] using hoffset
    have hempty : store.claims = .empty := by
      rw [sync, List.drop_nil] at hview
      exact hclaims.trans hview
    rw [load, upToDate]
    cases store
    simp only at hzero hempty
    rw [hzero, hempty]
    rfl
  · have hsplit : textOf records =
        textOf (records.take reader.offset) ++ textOf (records.drop reader.offset) := by
      rw [← textOf_append, List.take_append_drop]
    have hunread : (textOf records).drop store.readOffset =
        textOf (records.drop reader.offset) := by
      rw [hoffset, hsplit, List.drop_left]
    have hlong : ¬ (textOf records).length < store.readOffset := by
      rw [hoffset, hsplit, List.length_append]
      exact Nat.not_lt.mpr (Nat.le_add_right _ _)
    have hwhole : ¬ (textOf (records.drop reader.offset) ≠ [] ∧
        (textOf (records.drop reader.offset)).getLast? ≠ some '\n') := by
      intro hcut
      refine hcut.2 (textOf_getLast? ?_)
      intro hnil
      exact hcut.1 (by rw [hnil]; rfl)
    have hunreadSound : ∀ record ∈ records.drop reader.offset, record.Sound :=
      fun record hmem ↦ hsound record (List.mem_of_mem_drop hmem)
    simp only [load, if_neg hlong, hunread, if_neg hwhole]
    rw [readLines_textOf hunreadSound, hclaims, upToDate, ← hview, hoffset]
    simp only [sync]
    rw [hsplit, List.length_append]

end Log

end IdempotencyStore

end QuantAgent.Domain
