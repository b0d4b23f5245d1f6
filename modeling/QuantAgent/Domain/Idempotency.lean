import QuantAgent.Domain.Documents
import QuantAgent.Library.ByteLines
import QuantAgent.Library.JsonText

/-!
# Claim-once protection for economic actions

A durable registry of claimed keys, kept in an append-only file of one JSON record per line.  Every
store folds the lines it has not read yet before it decides, so it sees what other processes wrote;
its own append is in its map at once and is read again later.  A store counts what it has read in
characters here: the file is only ever written as encoded text.
-/

namespace QuantAgent.Domain

open Library

variable {N : Type}

/-- `SCHEMA_VERSION`. -/
def idempotencySchema : String := "quantagent.idempotency.v1"

/-- One claimed key and whatever the winning caller recorded against it. -/
structure ClaimRecord (N : Type) where
  key : String
  claimedAt : String
  /-- A string or `null` wherever a store wrote it. -/
  outcome : Json N
  payload : Dict String (Json N)

structure ClaimTime where
  text : String
  printed : text ≠ ""

/-- Durable claim evidence that cannot be trusted. -/
inductive IdempotencyStoreCorruption where
  /-- The file is shorter than what was read of it. -/
  | truncated
  | tornTrailingRecord
  | duplicateKey
  | unsupportedSchema
  | malformedRecord
  | incompleteRecord
  deriving DecidableEq, Repr

inductive IdempotencyError (N : Type) where
  | duplicateAction (key : String) (existing : ClaimRecord N)
  | corruption (reason : IdempotencyStoreCorruption)
  | unclaimedKey (key : String)
  /-- A payload that JSON has no form for. -/
  | notSerializable

structure ClaimResult (N : Type) where
  granted : Bool
  record : ClaimRecord N

structure IdempotencyStore (N : Type) where
  claims : Dict String (ClaimRecord N)
  readOffset : ℕ

/-- `ClaimRecord.to_dict`. -/
def ClaimRecord.toDict (record : ClaimRecord N) : Json N :=
  .obj [
    ("claimedAt", .str record.claimedAt),
    ("key", .str record.key),
    ("outcome", record.outcome),
    ("payload", .obj record.payload.entries),
    ("schemaVersion", .str idempotencySchema)]

/-- `dict(payload.get("payload") or {})`. -/
def payloadOf [Number N] : Option (Json N) → Option (Dict String (Json N))
  | none => some .empty
  | some (.obj members) =>
    if h : (members.map Prod.fst).Nodup then some ⟨members, h⟩ else none
  | some value => if Json.truthy value then none else some .empty

/-- `ClaimRecord.from_dict`. -/
def ClaimRecord.fromDict [Documents N] (document : Json N) : Option (ClaimRecord N) := do
  let key ← document.get? "key"
  let payload ← payloadOf (document.get? "payload")
  some {
    key := Documents.str key
    claimedAt := Json.textOr (document.get? "claimedAt")
    outcome := (document.get? "outcome").getD .null
    payload }

def readRecord [Documents N] [NumText N] (line : List Char) :
    Except IdempotencyStoreCorruption (ClaimRecord N) :=
  match Json.loads line with
  | none => .error .malformedRecord
  | some document =>
    if ¬ document.Distinct then .error .duplicateKey
    else match document, document.get? "schemaVersion" with
      | .obj _, some (.str schema) =>
        if schema ≠ idempotencySchema then .error .unsupportedSchema
        else match ClaimRecord.fromDict document with
          | none => .error .malformedRecord
          | some record =>
            if record.key = "" ∨ record.claimedAt = "" then .error .incompleteRecord
            else .ok record
      | .obj _, _ => .error .unsupportedSchema
      | _, _ => .error .malformedRecord

/-- Later records of a key replace earlier ones. -/
def foldClaim (claims : Dict String (ClaimRecord N)) (record : ClaimRecord N) :
    Dict String (ClaimRecord N) :=
  claims.insert record.key record

namespace IdempotencyStore

section Load

variable [Documents N] [NumText N]

/-- Fold lines one by one.  A line counts as read before it is looked at. -/
def readLines : List (List Char) → IdempotencyStore N →
    IdempotencyStore N × Except IdempotencyStoreCorruption Unit
  | [], store => (store, .ok ())
  | line :: rest, store =>
    let store := { store with readOffset := store.readOffset + line.length }
    if ByteLines.strip line = [] then readLines rest store
    else match readRecord (ByteLines.strip line) with
      | .error reason => (store, .error reason)
      | .ok record => readLines rest { store with claims := foldClaim store.claims record }

/-- `_load`: fold any complete records appended since the previous read. -/
def load (store : IdempotencyStore N) (file : Option (List Char)) :
    IdempotencyStore N × Except IdempotencyStoreCorruption Unit :=
  match file with
  | none => (store, .ok ())
  | some content =>
    if content.length < store.readOffset then (store, .error .truncated)
    else
      let unread := content.drop store.readOffset
      if unread ≠ [] ∧ unread.getLast? ≠ some '\n' then (store, .error .tornTrailingRecord)
      else readLines (ByteLines.split unread) store

def fresh : IdempotencyStore N := ⟨.empty, 0⟩

/-- `__init__`: no store when the file cannot be read. -/
def create (file : Option (List Char)) :
    Except IdempotencyStoreCorruption (IdempotencyStore N) :=
  match load fresh file with
  | (store, .ok ()) => .ok store
  | (_, .error reason) => .error reason

end Load

section Append

variable [NumText N]

def lineOf (record : ClaimRecord N) : List Char := record.toDict.text ++ ['\n']

/-- `_append`: the record is printed before the file is opened. -/
def append (record : ClaimRecord N) (file : Option (List Char)) :
    Except (IdempotencyError N) (List Char) :=
  if record.toDict.Plain then .ok (file.getD [] ++ lineOf record) else .error .notSerializable

end Append

section Claim

variable [Documents N] [NumText N]

def put (store : IdempotencyStore N) (file : Option (List Char)) (record : ClaimRecord N) :
    IdempotencyStore N × Option (List Char) × Except (IdempotencyError N) Unit :=
  let store := { store with claims := foldClaim store.claims record }
  match append record file with
  | .error error => (store, file, .error error)
  | .ok file => (store, some file, .ok ())

/-- `claim`: attempt to claim a key exactly once across process restarts. -/
def claim (store : IdempotencyStore N) (file : Option (List Char)) (key : String)
    (outcome : Option String) (payload : Option (Mapping N)) (strict : Bool)
    (now : ClaimTime) :
    IdempotencyStore N × Option (List Char) × Except (IdempotencyError N) (ClaimResult N) :=
  match store.load file with
  | (store, .error reason) => (store, file, .error (.corruption reason))
  | (store, .ok ()) =>
    match store.claims.get? key with
    | some existing =>
      if strict then (store, file, .error (.duplicateAction key existing))
      else (store, file, .ok ⟨false, existing⟩)
    | none =>
      let record : ClaimRecord N := {
        key
        claimedAt := now.text
        outcome := outcome.elim .null .str
        payload := (payload.getD .empty).members }
      match store.put file record with
      | (store, file, .error error) => (store, file, .error error)
      | (store, file, .ok ()) => (store, file, .ok ⟨true, record⟩)

/-- `merged = dict(existing.payload)`, then `merged.update(payload)`. -/
def merge (known : Dict String (Json N)) (payload : Mapping N) : Dict String (Json N) :=
  known.update payload.members.entries

/-- `resolve`: record what the winning caller produced as a second append. -/
def resolve (store : IdempotencyStore N) (file : Option (List Char)) (key : String)
    (outcome : String) (payload : Option (Mapping N)) :
    IdempotencyStore N × Option (List Char) × Except (IdempotencyError N) (ClaimRecord N) :=
  match store.load file with
  | (store, .error reason) => (store, file, .error (.corruption reason))
  | (store, .ok ()) =>
    match store.claims.get? key with
    | none => (store, file, .error (.unclaimedKey key))
    | some existing =>
      let record : ClaimRecord N := {
        key
        claimedAt := existing.claimedAt
        outcome := .str outcome
        payload := merge existing.payload (payload.getD .empty) }
      match store.put file record with
      | (store, file, .error error) => (store, file, .error error)
      | (store, file, .ok ()) => (store, file, .ok record)

end Claim

end IdempotencyStore

end QuantAgent.Domain
