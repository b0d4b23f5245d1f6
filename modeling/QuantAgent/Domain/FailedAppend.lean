import QuantAgent.Domain.ClaimOnce

/-!
# Appends that fail

A claim or a resolution goes into the map of its store first and to the end of the file second.
Where the append raises, the map holds a record that the file may lack, and a retried claim takes it
for a duplicate.  The map and the file agree after such a call only if the whole line had reached
the file before the error, or if the record says what is in force already.
-/

namespace QuantAgent.Domain

open Library SharedLog IdempotencyStore

variable {N : Type}

/-! ## A disk that may fail -/

/-- What the disk does with an append: the file cannot be opened, or an error is raised after some
of the line has reached the file. -/
inductive Disk where
  | works
  | closed
  | breaks (reached : ℕ)

inductive CallError (N : Type) where
  | refused (error : IdempotencyError N)
  | writeFailed

/-- The error comes out of `_append`: the record cannot be printed, or the write failed. -/
def CallError.byAppend : CallError N → Bool
  | .refused .notSerializable => true
  | .refused _ => false
  | .writeFailed => true

inductive ClaimCall (N : Type) where
  | claim (key : String) (outcome : Option String) (payload : Option (Mapping N)) (strict : Bool)
      (now : ClaimTime)
  | resolve (key outcome : String) (payload : Option (Mapping N))

namespace ClaimCall

def key : ClaimCall N → String
  | .claim key _ _ _ _ => key
  | .resolve key _ _ => key

/-- The record that a call appends, from the claims its store has loaded. -/
def recordOf (claims : Dict String (ClaimRecord N)) : ClaimCall N → Option (ClaimRecord N)
  | .claim key outcome payload _ now =>
    match claims.get? key with
    | some _ => none
    | none => some (ClaimSystem.claimRecord key outcome payload now)
  | .resolve key outcome payload =>
    (claims.get? key).map fun existing ↦ ClaimSystem.resolvedRecord existing key outcome payload

end ClaimCall

namespace IdempotencyStore

section Calls

variable [NumText N]

/-- `_append`. -/
def appendOn (disk : Disk) (record : ClaimRecord N) (file : Option (List Char)) :
    Option (List Char) × Except (CallError N) Unit :=
  if record.toDict.Plain then
    match disk with
    | .works => (some (file.getD [] ++ lineOf record), .ok ())
    | .closed => (file, .error .writeFailed)
    | .breaks reached =>
      (some (file.getD [] ++ (lineOf record).take reached), .error .writeFailed)
  else (file, .error (.refused .notSerializable))

def putOn (disk : Disk) (store : IdempotencyStore N) (file : Option (List Char))
    (record : ClaimRecord N) :
    IdempotencyStore N × Option (List Char) × Except (CallError N) Unit :=
  ({ store with claims := foldClaim store.claims record }, appendOn disk record file)

variable [Documents N]

/-- `claim`. -/
def claimOn (disk : Disk) (store : IdempotencyStore N) (file : Option (List Char)) (key : String)
    (outcome : Option String) (payload : Option (Mapping N)) (strict : Bool) (now : ClaimTime) :
    IdempotencyStore N × Option (List Char) × Except (CallError N) (ClaimResult N) :=
  match store.load file with
  | (store, .error reason) => (store, file, .error (.refused (.corruption reason)))
  | (store, .ok ()) =>
    match store.claims.get? key with
    | some existing =>
      if strict then (store, file, .error (.refused (.duplicateAction key existing)))
      else (store, file, .ok ⟨false, existing⟩)
    | none =>
      let record : ClaimRecord N := {
        key
        claimedAt := now.text
        outcome := outcome.elim .null .str
        payload := (payload.getD .empty).members }
      match store.putOn disk file record with
      | (store, file, .error error) => (store, file, .error error)
      | (store, file, .ok ()) => (store, file, .ok ⟨true, record⟩)

/-- `resolve`. -/
def resolveOn (disk : Disk) (store : IdempotencyStore N) (file : Option (List Char)) (key : String)
    (outcome : String) (payload : Option (Mapping N)) :
    IdempotencyStore N × Option (List Char) × Except (CallError N) (ClaimRecord N) :=
  match store.load file with
  | (store, .error reason) => (store, file, .error (.refused (.corruption reason)))
  | (store, .ok ()) =>
    match store.claims.get? key with
    | none => (store, file, .error (.refused (.unclaimedKey key)))
    | some existing =>
      let record : ClaimRecord N := {
        key
        claimedAt := existing.claimedAt
        outcome := .str outcome
        payload := merge existing.payload (payload.getD .empty) }
      match store.putOn disk file record with
      | (store, file, .error error) => (store, file, .error error)
      | (store, file, .ok ()) => (store, file, .ok record)

def raised {A : Type} : Except (CallError N) A → Option (CallError N)
  | .error error => some error
  | .ok _ => none

def perform (disk : Disk) (store : IdempotencyStore N) (file : Option (List Char)) :
    ClaimCall N → IdempotencyStore N × Option (List Char) × Option (CallError N)
  | .claim key outcome payload strict now =>
    let (store, file, answer) := store.claimOn disk file key outcome payload strict now
    (store, file, raised answer)
  | .resolve key outcome payload =>
    let (store, file, answer) := store.resolveOn disk file key outcome payload
    (store, file, raised answer)

section

variable (store : IdempotencyStore N) (file : Option (List Char))

omit [Documents N] in
theorem putOn_works (record : ClaimRecord N) :
    store.putOn .works file record =
      ((store.put file record).1, (store.put file record).2.1,
        (store.put file record).2.2.mapError .refused) := by
  rw [putOn, appendOn, put, append]
  by_cases hplain : record.toDict.Plain
  · simp only [if_pos hplain]
    rfl
  · simp only [if_neg hplain]
    rfl

theorem claimOn_works (key : String) (outcome : Option String) (payload : Option (Mapping N))
    (strict : Bool) (now : ClaimTime) :
    store.claimOn .works file key outcome payload strict now =
      ((store.claim file key outcome payload strict now).1,
        (store.claim file key outcome payload strict now).2.1,
        (store.claim file key outcome payload strict now).2.2.mapError .refused) := by
  rw [claimOn, claim]
  rcases store.load file with ⟨loaded, reason | _⟩
  · rfl
  · dsimp only
    cases loaded.claims.get? key with
    | some existing =>
      cases strict with
      | false => rfl
      | true => rfl
    | none =>
      dsimp only
      rw [putOn_works]
      rcases loaded.put file _ with ⟨kept, written, error | _⟩
      · rfl
      · rfl

theorem resolveOn_works (key : String) (outcome : String) (payload : Option (Mapping N)) :
    store.resolveOn .works file key outcome payload =
      ((store.resolve file key outcome payload).1, (store.resolve file key outcome payload).2.1,
        (store.resolve file key outcome payload).2.2.mapError .refused) := by
  rw [resolveOn, resolve]
  rcases store.load file with ⟨loaded, reason | _⟩
  · rfl
  · dsimp only
    cases loaded.claims.get? key with
    | none => rfl
    | some existing =>
      dsimp only
      rw [putOn_works]
      rcases loaded.put file _ with ⟨kept, written, error | _⟩
      · rfl
      · rfl

end

variable {store loaded : IdempotencyStore N} {file : Option (List Char)}

/-- A store that cannot load raises and writes nothing. -/
theorem perform_unloaded {reason : IdempotencyStoreCorruption}
    (h : store.load file = (loaded, .error reason)) (disk : Disk) (call : ClaimCall N) :
    store.perform disk file call = (loaded, file, some (.refused (.corruption reason))) := by
  cases call with
  | claim key outcome payload strict now => rw [perform, claimOn, h]; rfl
  | resolve key outcome payload => rw [perform, resolveOn, h]; rfl

variable {call : ClaimCall N}

theorem perform_silent (h : store.load file = (loaded, .ok ())) (disk : Disk)
    (hrecord : call.recordOf loaded.claims = none) :
    ∃ error, store.perform disk file call = (loaded, file, error) ∧
      error.any CallError.byAppend = false := by
  cases call with
  | claim key outcome payload strict now =>
    rw [perform, claimOn, h]
    rw [ClaimCall.recordOf] at hrecord
    dsimp only
    cases hknown : loaded.claims.get? key with
    | none => simp [hknown] at hrecord
    | some existing =>
      cases strict with
      | false => exact ⟨_, rfl, rfl⟩
      | true => exact ⟨_, rfl, rfl⟩
  | resolve key outcome payload =>
    rw [perform, resolveOn, h]
    rw [ClaimCall.recordOf, Option.map_eq_none_iff] at hrecord
    dsimp only
    rw [hrecord]
    exact ⟨_, rfl, rfl⟩

theorem perform_record (h : store.load file = (loaded, .ok ())) (disk : Disk)
    {record : ClaimRecord N} (hrecord : call.recordOf loaded.claims = some record) :
    store.perform disk file call =
      ({ loaded with claims := foldClaim loaded.claims record },
        (appendOn disk record file).1, raised (appendOn disk record file).2) := by
  cases call with
  | claim key outcome payload strict now =>
    rw [perform, claimOn, h]
    rw [ClaimCall.recordOf] at hrecord
    dsimp only
    cases hknown : loaded.claims.get? key with
    | some existing => simp [hknown] at hrecord
    | none =>
      simp only [hknown, Option.some.injEq, ClaimSystem.claimRecord] at hrecord
      subst hrecord
      dsimp only [putOn]
      rcases appendOn disk _ file with ⟨written, error | _⟩
      · rfl
      · rfl
  | resolve key outcome payload =>
    rw [perform, resolveOn, h]
    rw [ClaimCall.recordOf, Option.map_eq_some_iff] at hrecord
    obtain ⟨existing, hknown, hrecord⟩ := hrecord
    rw [ClaimSystem.resolvedRecord] at hrecord
    subst hrecord
    dsimp only
    rw [hknown]
    dsimp only [putOn]
    rcases appendOn disk _ file with ⟨written, error | _⟩
    · rfl
    · rfl

def Grants (store : IdempotencyStore N) (file : Option (List Char)) (key : String)
    (outcome : Option String) (payload : Option (Mapping N)) (strict : Bool) (now : ClaimTime) :
    Prop :=
  ∃ record, (store.claim file key outcome payload strict now).2.2 = .ok ⟨true, record⟩

/-- What a store shows is what the file holds: its map is the fold of the records on the lines that
are over, and a claim of the key is granted exactly when a fresh store would grant it. -/
structure ShowsFile (store : IdempotencyStore N) (file : Option (List Char)) (key : String) :
    Prop where
  records : ∃ records,
    ClaimSystem.recordsIn (some (ByteLines.terminated (file.getD []))) = .ok records ∧
      store.claims = fold foldClaim .empty records
  retry : ∀ outcome payload strict now,
    store.Grants file key outcome payload strict now ↔
      ∃ fresh, create file = .ok fresh ∧ fresh.Grants file key outcome payload strict now

def Reaches (record : ClaimRecord N) : Disk → Prop
  | .works => True
  | .closed => False
  | .breaks reached => (lineOf record).length ≤ reached

/-- An append leaves the file with the record in force: it succeeds; or every line of the file can
be read and either the whole line reaches it, with its key, or the record is in force already. -/
def Kept (disk : Disk) (file : Option (List Char)) (record : ClaimRecord N) : Prop :=
  (disk = .works ∧ record.toDict.Plain) ∨
    ∃ records, ClaimSystem.recordsIn file = .ok records ∧
      ((record.toDict.Plain ∧ record.key ≠ "" ∧ Reaches record disk) ∨
        (fold foldClaim .empty records).get? record.key = some record)

end Calls

end IdempotencyStore

/-! ## Stores on a file -/

structure Registry (N : Type) where
  file : Option (List Char)
  stores : List (IdempotencyStore N)

/-- What may happen next: a store is constructed, or one of them is called. -/
inductive RegistryStep (N : Type) where
  | start
  | call (store : ℕ) (call : ClaimCall N) (disk : Disk)

namespace Registry

def initial : Registry N := ⟨none, []⟩

section Step

variable [Documents N] [NumText N]

def step (s : Registry N) : RegistryStep N → Registry N
  | .start =>
    match create s.file with
    | .ok store => { s with stores := s.stores ++ [store] }
    | .error _ => s
  | .call i call disk =>
    match s.stores[i]? with
    | none => s
    | some store =>
      let (store, file, _) := store.perform disk s.file call
      { file, stores := s.stores.set i store }

/-- After a call that raises because its append failed, the store shows what the file holds. -/
def DurableFirst (s : Registry N) : RegistryStep N → Prop
  | .start => True
  | .call i call disk => ∀ store, s.stores[i]? = some store →
      (store.perform disk s.file call).2.2.any CallError.byAppend = true →
        ShowsFile (store.perform disk s.file call).1 (store.perform disk s.file call).2.1 call.key

def Recorded (s : Registry N) : RegistryStep N → Prop
  | .start => True
  | .call i call disk => ∀ store, s.stores[i]? = some store →
      ∀ loaded, store.load s.file = (loaded, .ok ()) →
        ∀ record, call.recordOf loaded.claims = some record → Kept disk s.file record

/-! ## The states of the file -/

structure Tidy (s : Registry N) (records : List (ClaimRecord N)) : Prop where
  written : Written s.file records
  sound : ∀ record ∈ records, record.Sound
  reads : ∀ store ∈ s.stores, Reads records store

structure Torn (s : Registry N) (records : List (ClaimRecord N)) (cut : List Char) : Prop where
  file : s.file = some (textOf records ++ cut)
  cut_ne : cut ≠ []
  within : '\n' ∉ cut
  reads : ∀ store ∈ s.stores, Reads records store

structure Spoiled (s : Registry N) (records : List (ClaimRecord N)) (keyless : ClaimRecord N)
    (rest : List Char) : Prop where
  file : s.file = some (textOf records ++ lineOf keyless ++ rest)
  sound : ∀ record ∈ records, record.Sound
  plain : keyless.toDict.Plain
  distinct : keyless.toDict.Distinct
  key_eq : keyless.key = ""

/-- What holds of every state reached by steps that keep their records. -/
def Known (s : Registry N) : Prop :=
  (∃ records, Tidy s records) ∨ (∃ records cut, Torn s records cut) ∨
    ∃ records keyless rest, Spoiled s records keyless rest

/-! ## What the lines of a file hold -/

omit [Documents N] in
theorem terminated_textOf (records : List (ClaimRecord N)) (rest : List Char) :
    ByteLines.terminated (textOf records ++ rest) = textOf records ++ ByteLines.terminated rest := by
  rcases List.eq_nil_or_concat' records with rfl | ⟨first, last, rfl⟩
  · rfl
  · rw [textOf_append, textOf_singleton, lineOf, ← List.append_assoc, ByteLines.terminated_line]

variable {records : List (ClaimRecord N)}

variable {file : Option (List Char)}

omit [Documents N] in
theorem written_terminated (h : Written file records) :
    Written (some (ByteLines.terminated (file.getD []))) records := by
  have hcontent : file.getD [] = textOf records := by
    rcases h with ⟨rfl, rfl⟩ | rfl
    · rfl
    · rfl
  right
  rw [hcontent]
  simpa [ByteLines.terminated] using terminated_textOf records []

variable {cut : List Char}

omit [Documents N] in
theorem terminated_cut (records : List (ClaimRecord N)) (hwithin : '\n' ∉ cut) :
    ByteLines.terminated (textOf records ++ cut) = textOf records := by
  rw [terminated_textOf, ByteLines.terminated_of_notMem hwithin, List.append_nil]

/-- The line of a record without a key is refused, whatever stands around it. -/
theorem recordsIn_keyless {keyless : ClaimRecord N} (hsound : ∀ record ∈ records, record.Sound)
    (hplain : keyless.toDict.Plain) (hdistinct : keyless.toDict.Distinct) (hkey : keyless.key = "")
    (rest : List Char) :
    (ClaimSystem.recordsIn (some (textOf records ++ lineOf keyless ++ rest)) :
      Except IdempotencyStoreCorruption (List (ClaimRecord N))) = .error .incompleteRecord := by
  rw [ClaimSystem.recordsIn, Option.getD_some, List.append_assoc]
  induction records with
  | nil =>
    have hread := readRecord_text hplain hdistinct
    rw [if_pos (.inl hkey)] at hread
    rw [textOf, List.flatMap_nil, List.nil_append, split_lineOf, List.map_cons,
      List.filter_cons_of_pos (by simpa using strip_lineOf_ne keyless), List.mapM_cons,
      strip_lineOf, hread]
    rfl
  | cons record records ih =>
    obtain ⟨hrecord, hrecords⟩ := List.forall_mem_cons.mp hsound
    have hread := readRecord_text hrecord.plain hrecord.distinct
    rw [if_neg (not_or.mpr ⟨hrecord.key_ne, hrecord.claimedAt_ne⟩)] at hread
    have hrest := ih hrecords
    rw [textOf] at hrest
    rw [textOf, List.flatMap_cons, List.append_assoc, split_lineOf, List.map_cons,
      List.filter_cons_of_pos (by simpa using strip_lineOf_ne record), List.mapM_cons,
      strip_lineOf, hread, hrest]
    rfl

/-- A store on a file that ends within a line cannot load. -/
theorem load_torn (hne : cut ≠ []) (hwithin : '\n' ∉ cut) {store : IdempotencyStore N}
    (h : Reads records store) :
    store.load (some (textOf records ++ cut)) = (store, .error .tornTrailingRecord) := by
  obtain ⟨reader, -, -, hoffset⟩ := h
  have hsplit : textOf records =
      textOf (records.take reader.offset) ++ textOf (records.drop reader.offset) := by
    rw [← textOf_append, List.take_append_drop]
  have hunread : (textOf records ++ cut).drop store.readOffset =
      textOf (records.drop reader.offset) ++ cut := by
    rw [hoffset, hsplit, List.append_assoc, List.drop_left]
  have hlong : ¬ (textOf records ++ cut).length < store.readOffset := by
    rw [hoffset, hsplit, List.append_assoc, List.length_append]
    exact Nat.not_lt.mpr (Nat.le_add_right _ _)
  have hlast : (textOf (records.drop reader.offset) ++ cut).getLast? ≠ some '\n' := by
    intro hlast
    rw [List.getLast?_append_of_ne_nil _ hne] at hlast
    exact hwithin (List.mem_of_getLast? hlast)
  have hcut : textOf (records.drop reader.offset) ++ cut ≠ [] := by simp [hne]
  simp only [IdempotencyStore.load, if_neg hlong, hunread, if_pos (And.intro hcut hlast)]

/-! ## What an append leaves -/

section

omit [Documents N]

theorem appendOn_raised (disk : Disk) (record : ClaimRecord N) (file : Option (List Char)) :
    (raised (appendOn disk record file).2).any CallError.byAppend = true ↔
      ¬ (disk = .works ∧ record.toDict.Plain) := by
  by_cases hplain : record.toDict.Plain
  · cases disk with
    | works => simp [appendOn, hplain, raised]
    | closed => simp [appendOn, hplain, raised, CallError.byAppend]
    | breaks reached => simp [appendOn, hplain, raised, CallError.byAppend]
  · simp [appendOn, hplain, raised, CallError.byAppend]

/-- An append only ever adds to the end of the file. -/
theorem appendOn_adds (disk : Disk) (record : ClaimRecord N) (content : List Char) :
    ∃ more, (appendOn disk record (some content)).1 = some (content ++ more) := by
  by_cases hplain : record.toDict.Plain
  · simp only [appendOn, if_pos hplain]
    cases disk with
    | works => exact ⟨_, rfl⟩
    | closed => exact ⟨[], by rw [List.append_nil]⟩
    | breaks reached => exact ⟨_, rfl⟩
  · simp only [appendOn, if_neg hplain]
    exact ⟨[], by rw [List.append_nil]⟩

/-- The whole line reaches the file, or nothing does, or the file ends within the line. -/
theorem appendOn_cases (h : Written file records) (disk : Disk) (record : ClaimRecord N) :
    (record.toDict.Plain ∧ Reaches record disk ∧
        (appendOn disk record file).1 = some (textOf records ++ lineOf record)) ∨
      ¬ (record.toDict.Plain ∧ Reaches record disk) ∧
        (Written (appendOn disk record file).1 records ∨
          ∃ cut, cut ≠ [] ∧ '\n' ∉ cut ∧
            (appendOn disk record file).1 = some (textOf records ++ cut)) := by
  have hcontent : file.getD [] = textOf records := by
    rcases h with ⟨rfl, rfl⟩ | rfl
    · rfl
    · rfl
  by_cases hplain : record.toDict.Plain
  · simp only [appendOn, if_pos hplain, hcontent]
    cases disk with
    | works => exact .inl ⟨hplain, trivial, rfl⟩
    | closed => exact .inr ⟨fun hboth ↦ hboth.2, .inl h⟩
    | breaks reached =>
      by_cases hreaches : (lineOf record).length ≤ reached
      · have hwhole := List.take_of_length_le hreaches
        exact .inl ⟨hplain, hreaches, by dsimp only; rw [hwhole]⟩
      · refine .inr ⟨fun hboth ↦ hreaches hboth.2, ?_⟩
        cases reached with
        | zero => exact .inl (.inr (by simp))
        | succ reached =>
          have hshort : reached + 1 ≤ record.toDict.text.length := by
            rw [lineOf, List.length_append, List.length_singleton] at hreaches
            omega
          have htake : (lineOf record).take (reached + 1) =
              record.toDict.text.take (reached + 1) := by
            rw [lineOf, List.take_append_of_le_length hshort]
          refine .inr ⟨(lineOf record).take (reached + 1), by simp [lineOf], ?_, rfl⟩
          rw [htake]
          intro hmem
          exact (lineOf_visible record _ (List.mem_of_mem_take hmem)).1 rfl
  · simp only [appendOn, if_neg hplain]
    exact .inr ⟨fun hboth ↦ hplain hboth.1, .inl h⟩

end

/-! ## What a store shows -/

section Shows

variable {records : List (ClaimRecord N)} {store : IdempotencyStore N} {file : Option (List Char)}

theorem showsFile_written (hfile : Written file records) (hsound : ∀ record ∈ records, record.Sound)
    (hreads : Reads records store) (hclaims : store.claims = fold foldClaim .empty records)
    (key : String) : ShowsFile store file key where
  records := ⟨records, ClaimSystem.recordsIn_written (written_terminated hfile) hsound, hclaims⟩
  retry := by
    intro outcome payload strict now
    have hload := load_written hfile hsound hreads
    have hfresh := load_written hfile hsound (reads_upToDate records)
    have hcreate : create file = .ok (upToDate records) := by
      rw [create, load_written hfile hsound (reads_fresh records)]
    have hsame : store.claim file key outcome payload strict now =
        (upToDate records).claim file key outcome payload strict now := by
      rw [claim, claim, hload, hfresh]
    rw [Grants, hsame]
    constructor
    · exact fun hgrants ↦ ⟨_, hcreate, hgrants⟩
    · rintro ⟨fresh, hfresh, hgrants⟩
      rw [hcreate] at hfresh
      exact Except.ok.inj hfresh ▸ hgrants

/-- A store that has read all records, on a file that ends within the line after them. -/
theorem showsFile_torn {cut : List Char} (hne : cut ≠ []) (hwithin : '\n' ∉ cut)
    (hsound : ∀ record ∈ records, record.Sound) (hreads : Reads records store)
    (hclaims : store.claims = fold foldClaim .empty records) (key : String) :
    ShowsFile store (some (textOf records ++ cut)) key where
  records := by
    refine ⟨records, ?_, hclaims⟩
    rw [Option.getD_some, terminated_cut records hwithin]
    exact ClaimSystem.recordsIn_written (.inr rfl) hsound
  retry := by
    intro outcome payload strict now
    have hload := load_torn hne hwithin hreads
    have hcreate := load_torn hne hwithin (reads_fresh records)
    constructor
    · rintro ⟨record, hgranted⟩
      rw [claim, hload] at hgranted
      exact absurd hgranted (by simp)
    · rintro ⟨fresh, hfresh, -⟩
      rw [create, hcreate] at hfresh
      exact absurd hfresh (by simp)

theorem not_showsFile_keyless {keyless : ClaimRecord N} {rest : List Char}
    (hfile : file = some (textOf records ++ lineOf keyless ++ rest))
    (hsound : ∀ record ∈ records, record.Sound) (hplain : keyless.toDict.Plain)
    (hdistinct : keyless.toDict.Distinct) (hkey : keyless.key = "") (key : String) :
    ¬ ShowsFile store file key := by
  intro hshows
  obtain ⟨found, hfound, -⟩ := hshows.records
  have hterminated : ByteLines.terminated (file.getD []) =
      textOf records ++ lineOf keyless ++ ByteLines.terminated rest := by
    rw [hfile, Option.getD_some, ← textOf_singleton, ← textOf_append, terminated_textOf]
  rw [hterminated, recordsIn_keyless hsound hplain hdistinct hkey] at hfound
  exact absurd hfound (by simp)

end Shows

/-! ## Calls -/

section Calls

variable {s : Registry N} {records : List (ClaimRecord N)} {store loaded : IdempotencyStore N}
  {i : ℕ} {call : ClaimCall N} {disk : Disk} {record : ClaimRecord N}

section

omit [Documents N] [NumText N]

theorem recordOf_key {claims : Dict String (ClaimRecord N)}
    (h : call.recordOf claims = some record) : record.key = call.key := by
  cases call with
  | claim key outcome payload strict now =>
    rw [ClaimCall.recordOf] at h
    split at h
    · exact absurd h (by simp)
    · rw [← Option.some.inj h]
      rfl
  | resolve key outcome payload =>
    obtain ⟨existing, -, rfl⟩ := Option.map_eq_some_iff.mp h
    rfl

/-- What is appended to sound records has an instant, and no key of it appears twice. -/
theorem recordOf_sound (hsound : ∀ record ∈ records, record.Sound)
    (h : call.recordOf (fold foldClaim .empty records) = some record) :
    record.toDict.Distinct ∧ record.claimedAt ≠ "" := by
  cases call with
  | claim key outcome payload strict now =>
    rw [ClaimCall.recordOf] at h
    split at h
    · exact absurd h (by simp)
    · rw [← Option.some.inj h]
      exact ⟨ClaimSystem.claimRecord_distinct key outcome payload now, now.printed⟩
  | resolve key outcome payload =>
    obtain ⟨existing, hknown, rfl⟩ := Option.map_eq_some_iff.mp h
    have hexisting := hsound existing (ClaimSystem.mem_of_get?_fold hknown).1
    exact ⟨ClaimSystem.resolvedRecord_distinct hexisting.distinct key outcome payload,
      hexisting.claimedAt_ne⟩

end

/-- What decides about a call: nothing, where it appends no record, and else whether the map shows
the file after an append that raises. -/
theorem durableFirst_call_iff (hstore : s.stores[i]? = some store)
    (happend : ∀ loaded, store.load s.file = (loaded, .ok ()) →
      ∀ record, call.recordOf loaded.claims = some record →
        ¬ (disk = .works ∧ record.toDict.Plain) →
          (ShowsFile { loaded with claims := foldClaim loaded.claims record }
            (appendOn disk record s.file).1 record.key ↔ Kept disk s.file record)) :
    DurableFirst s (.call i call disk) ↔ Recorded s (.call i call disk) := by
  simp only [DurableFirst, Recorded, hstore, Option.some.injEq, forall_eq']
  rcases hload : store.load s.file with ⟨loaded, reason | _⟩
  · rw [perform_unloaded hload]
    simp [CallError.byAppend]
  · cases hrecord : call.recordOf loaded.claims with
    | none =>
      obtain ⟨error, hperform, hquiet⟩ := perform_silent hload disk hrecord
      rw [hperform]
      simp [hquiet, hrecord]
    | some record =>
      have hboth := happend loaded hload record hrecord
      rw [perform_record hload disk hrecord, appendOn_raised, ← recordOf_key hrecord]
      constructor
      · intro hshows other hother found hfound
        obtain rfl := (Prod.mk.inj hother).1
        cases hrecord.symm.trans hfound
        by_cases hwritten : disk = .works ∧ record.toDict.Plain
        · exact .inl hwritten
        · exact (hboth hwritten).mp (hshows hwritten)
      · intro hkept hraised
        exact (hboth hraised).mpr (hkept loaded rfl record hrecord)

omit [Documents N] in
theorem remember_inForce (hforce : (fold foldClaim .empty records).get? record.key = some record) :
    { upToDate records with claims := foldClaim (upToDate records).claims record } =
      upToDate records := by
  have hsame : foldClaim (fold foldClaim .empty records) record = fold foldClaim .empty records :=
    Dict.insert_of_get? hforce
  rw [upToDate, hsame]

/-- On a tidy file an append that raises shows the file exactly when its record is kept. -/
theorem Tidy.shows_iff (h : Tidy s records)
    (hrecord : call.recordOf (upToDate records).claims = some record)
    (hraised : ¬ (disk = .works ∧ record.toDict.Plain)) :
    ShowsFile { upToDate records with claims := foldClaim (upToDate records).claims record }
      (appendOn disk record s.file).1 record.key ↔ Kept disk s.file record := by
  have hreadable := ClaimSystem.recordsIn_written h.written h.sound
  obtain ⟨hdistinct, hclaimedAt⟩ := recordOf_sound h.sound hrecord
  -- a map that differs from the file differs at the key of the record
  have hforce : (∃ found,
      ClaimSystem.recordsIn
        (some (ByteLines.terminated ((appendOn disk record s.file).1.getD []))) = .ok found ∧
      foldClaim (upToDate records).claims record = fold foldClaim .empty found) →
      ClaimSystem.recordsIn
        (some (ByteLines.terminated ((appendOn disk record s.file).1.getD []))) = .ok records →
      (fold foldClaim .empty records).get? record.key = some record := by
    rintro ⟨found, hfound, hclaims⟩ hlost
    cases hlost.symm.trans hfound
    rw [← hclaims]
    exact Dict.get?_insert_self _ _ _
  rcases appendOn_cases h.written disk record with
    ⟨hplain, hreaches, hfile⟩ | ⟨hlost, hfile | ⟨cut, hne, hwithin, hfile⟩⟩
  · by_cases hkey : record.key = ""
    · have hspoiled : (appendOn disk record s.file).1 =
          some (textOf records ++ lineOf record ++ []) := by rw [hfile, List.append_nil]
      refine iff_of_false (not_showsFile_keyless hspoiled h.sound hplain hdistinct hkey _) ?_
      rintro (hwritten | ⟨found, hfound, ⟨-, hne, -⟩ | hknown⟩)
      · exact hraised hwritten
      · exact hne hkey
      · cases hreadable.symm.trans hfound
        exact (h.sound _ (ClaimSystem.mem_of_get?_fold hknown).1).key_ne hkey
    · refine iff_of_true ?_ (.inr ⟨records, hreadable, .inl ⟨hplain, hkey, hreaches⟩⟩)
      rw [hfile]
      have hwritten : Written (some (textOf records ++ lineOf record)) (records ++ [record]) :=
        .inr (by rw [textOf_append, textOf_singleton])
      have hsound : ∀ other ∈ records ++ [record], other.Sound := by
        exact List.forall_mem_append.mpr
          ⟨h.sound, List.forall_mem_singleton.mpr ⟨hplain, hdistinct, hkey, hclaimedAt⟩⟩
      exact showsFile_written hwritten hsound (reads_put records record)
        (by rw [fold_append]; rfl) record.key
  · constructor
    · intro hshows
      exact .inr ⟨records, hreadable, .inr (hforce hshows.records
        (ClaimSystem.recordsIn_written (written_terminated hfile) h.sound))⟩
    · rintro (hwritten | ⟨found, hfound, ⟨hplain, -, hreaches⟩ | hknown⟩)
      · exact absurd hwritten hraised
      · exact absurd ⟨hplain, hreaches⟩ hlost
      · cases hreadable.symm.trans hfound
        rw [remember_inForce hknown]
        exact showsFile_written hfile h.sound (reads_upToDate records) rfl record.key
  · have hlines : ClaimSystem.recordsIn
        (some (ByteLines.terminated ((appendOn disk record s.file).1.getD []))) = .ok records := by
      rw [hfile, Option.getD_some, terminated_cut records hwithin]
      exact ClaimSystem.recordsIn_written (.inr rfl) h.sound
    constructor
    · intro hshows
      exact .inr ⟨records, hreadable, .inr (hforce hshows.records hlines)⟩
    · rintro (hwritten | ⟨found, hfound, ⟨hplain, -, hreaches⟩ | hknown⟩)
      · exact absurd hwritten hraised
      · exact absurd ⟨hplain, hreaches⟩ hlost
      · cases hreadable.symm.trans hfound
        rw [remember_inForce hknown, hfile]
        exact showsFile_torn hne hwithin h.sound (reads_upToDate records) rfl record.key

theorem perform_adds (store : IdempotencyStore N) (call : ClaimCall N) (disk : Disk)
    (content : List Char) :
    ∃ more, (store.perform disk (some content) call).2.1 = some (content ++ more) := by
  rcases hload : store.load (some content) with ⟨loaded, reason | _⟩
  · rw [perform_unloaded hload]
    exact ⟨[], by rw [List.append_nil]⟩
  · cases hrecord : call.recordOf loaded.claims with
    | none =>
      obtain ⟨error, hperform, -⟩ := perform_silent hload disk hrecord
      rw [hperform]
      exact ⟨[], by rw [List.append_nil]⟩
    | some record =>
      rw [perform_record hload disk hrecord]
      exact appendOn_adds disk record content

omit [Documents N] in
theorem reads_set (hreads : ∀ store ∈ s.stores, Reads records store) (hstore : Reads records store)
    (i : ℕ) : ∀ other ∈ s.stores.set i store, Reads records other := by
  intro other hmem
  rcases List.mem_or_eq_of_mem_set hmem with hold | rfl
  · exact hreads other hold
  · exact hstore

/-! ## Steps -/

/-- A call on a tidy file that keeps its record leaves a known state. -/
theorem Tidy.performed (h : Tidy s records) (hstore : s.stores[i]? = some store)
    (hrecorded : Recorded s (.call i call disk)) : Known (s.step (.call i call disk)) := by
  have hload := load_written h.written h.sound (h.reads store (List.mem_of_getElem? hstore))
  cases hrecord : call.recordOf (upToDate records).claims with
  | none =>
    obtain ⟨error, hperform, -⟩ := perform_silent hload disk hrecord
    refine .inl ⟨records, ?_⟩
    simp only [Registry.step, hstore, hperform]
    exact { h with reads := reads_set h.reads (reads_upToDate records) i }
  | some record =>
    have hkept := hrecorded store hstore _ hload record hrecord
    obtain ⟨hdistinct, hclaimedAt⟩ := recordOf_sound h.sound hrecord
    simp only [Registry.step, hstore, perform_record hload disk hrecord]
    -- a record that did not reach the file was in force
    have hforce (hlost : ¬ (record.toDict.Plain ∧ Reaches record disk)) :
        (fold foldClaim .empty records).get? record.key = some record := by
      rcases hkept with ⟨rfl, hplain⟩ | ⟨found, hfound, ⟨hplain, -, hreaches⟩ | hknown⟩
      · exact absurd ⟨hplain, trivial⟩ hlost
      · exact absurd ⟨hplain, hreaches⟩ hlost
      · have hreadable := ClaimSystem.recordsIn_written h.written h.sound
        cases hreadable.symm.trans hfound
        exact hknown
    rcases appendOn_cases h.written disk record with
      ⟨hplain, -, hfile⟩ | ⟨hlost, hfile | ⟨cut, hne, hwithin, hfile⟩⟩
    · rw [hfile]
      by_cases hkey : record.key = ""
      · refine .inr (.inr ⟨records, record, [], ?_⟩)
        exact ⟨by rw [List.append_nil], h.sound, hplain, hdistinct, hkey⟩
      · refine .inl ⟨records ++ [record], ?_, ?_, ?_⟩
        · exact .inr (by rw [textOf_append, textOf_singleton])
        · exact List.forall_mem_append.mpr
            ⟨h.sound, List.forall_mem_singleton.mpr ⟨hplain, hdistinct, hkey, hclaimedAt⟩⟩
        · exact reads_set (fun other hmem ↦ (h.reads other hmem).append record)
            (reads_put records record) i
    · rw [remember_inForce (hforce hlost)]
      exact .inl ⟨records, hfile, h.sound, reads_set h.reads (reads_upToDate records) i⟩
    · rw [remember_inForce (hforce hlost), hfile]
      exact .inr (.inl ⟨records, cut, rfl, hne, hwithin,
        reads_set h.reads (reads_upToDate records) i⟩)

/-- Steps that keep their records lead from known states to known states. -/
theorem Known.step (h : Known s) {action : RegistryStep N} (hrecorded : Recorded s action) :
    Known (s.step action) := by
  cases action with
  | start =>
    rcases h with ⟨records, h⟩ | ⟨records, cut, h⟩ | ⟨records, keyless, rest, h⟩
    · have hcreate : create s.file = .ok (upToDate records) := by
        rw [create, load_written h.written h.sound (reads_fresh records)]
      refine .inl ⟨records, ?_⟩
      simp only [Registry.step, hcreate]
      refine { h with reads := ?_ }
      exact List.forall_mem_append.mpr
        ⟨h.reads, List.forall_mem_singleton.mpr (reads_upToDate records)⟩
    · have hcreate : (create s.file : Except _ (IdempotencyStore N)) =
          .error .tornTrailingRecord := by
        rw [create, h.file, load_torn h.cut_ne h.within (reads_fresh records)]
      simp only [Registry.step, hcreate]
      exact .inr (.inl ⟨records, cut, h⟩)
    · refine .inr (.inr ⟨records, keyless, rest, ?_⟩)
      rw [Registry.step]
      split
      · exact ⟨h.file, h.sound, h.plain, h.distinct, h.key_eq⟩
      · exact h
  | call i call disk =>
    cases hstore : s.stores[i]? with
    | none => simpa only [Registry.step, hstore] using h
    | some store =>
      rcases h with ⟨records, h⟩ | ⟨records, cut, h⟩ | ⟨records, keyless, rest, h⟩
      · exact h.performed hstore hrecorded
      · have hreads := h.reads store (List.mem_of_getElem? hstore)
        have hload : store.load s.file = (store, .error .tornTrailingRecord) := by
          rw [h.file, load_torn h.cut_ne h.within hreads]
        refine .inr (.inl ⟨records, cut, ?_⟩)
        simp only [Registry.step, hstore, perform_unloaded hload]
        exact { h with reads := reads_set h.reads hreads i }
      · obtain ⟨more, hmore⟩ := perform_adds store call disk
          (textOf records ++ lineOf keyless ++ rest)
        refine .inr (.inr ⟨records, keyless, rest ++ more, ?_⟩)
        simp only [Registry.step, hstore, h.file]
        exact { h with file := by rw [hmore, List.append_assoc _ rest more] }

/-- In a known state a call is durable first exactly when its record is kept. -/
theorem Known.durableFirst_iff (h : Known s) (action : RegistryStep N) :
    DurableFirst s action ↔ Recorded s action := by
  cases action with
  | start => exact Iff.rfl
  | call i call disk =>
    cases hstore : s.stores[i]? with
    | none => simp [DurableFirst, Recorded, hstore]
    | some store =>
      refine durableFirst_call_iff hstore ?_
      intro loaded hload record hrecord hraised
      rcases h with ⟨records, h⟩ | ⟨records, cut, h⟩ | ⟨records, keyless, rest, h⟩
      · have hread := load_written h.written h.sound (h.reads store (List.mem_of_getElem? hstore))
        obtain rfl := (Prod.mk.inj (hread.symm.trans hload)).1
        exact h.shows_iff hrecord hraised
      · have htorn := load_torn h.cut_ne h.within (h.reads store (List.mem_of_getElem? hstore))
        rw [← h.file, hload] at htorn
        exact absurd (Prod.mk.inj htorn).2 (by simp)
      · obtain ⟨more, hmore⟩ := appendOn_adds disk record (textOf records ++ lineOf keyless ++ rest)
        rw [← h.file, List.append_assoc _ rest more] at hmore
        refine iff_of_false
          (not_showsFile_keyless hmore h.sound h.plain h.distinct h.key_eq record.key) ?_
        rintro (hwritten | ⟨found, hfound, -⟩)
        · exact hraised hwritten
        · rw [h.file, recordsIn_keyless h.sound h.plain h.distinct h.key_eq] at hfound
          exact absurd hfound (by simp)

/-- In every history in which any append may fail, claims are durable before they are visible exactly
when every record that is about to be appended is kept. -/
theorem durableFirst_always_iff (steps : List (RegistryStep N)) :
    Run.Always step DurableFirst (initial : Registry N) steps ↔
      Run.Always step Recorded (initial : Registry N) steps := by
  have hknown : Known (initial : Registry N) :=
    .inl ⟨[], .inl ⟨rfl, rfl⟩, by simp, by simp [initial]⟩
  refine (Run.always_congr ?_ ?_ hknown).symm
  · exact fun s action h ↦ (h.durableFirst_iff action).symm
  · exact fun s action h hrecorded ↦ h.step hrecorded

end Calls

end Step

/-! ## An order that is a duplicate of nothing -/

section NothingWritten

def claimOrder : ClaimCall PyNumber := .claim "order" none none false ClaimSystem.noon

def unwritten : ClaimRecord PyNumber := ClaimSystem.claimRecord "order" none none ClaimSystem.noon

/-- The file cannot be opened, and the store keeps the record. -/
theorem perform_claimOrder :
    (fresh : IdempotencyStore PyNumber).perform .closed none claimOrder =
      (⟨foldClaim .empty unwritten, 0⟩, none, some .writeFailed) := by
  have hplain : unwritten.toDict.Plain :=
    (ClaimSystem.claimRecord_plain_iff "order" none none ClaimSystem.noon).mpr trivial
  have hload : (fresh : IdempotencyStore PyNumber).load none = (fresh, .ok ()) := rfl
  have happend : appendOn .closed unwritten none = (none, .error .writeFailed) := by
    simp only [appendOn, if_pos hplain]
  have hrecord : claimOrder.recordOf (fresh : IdempotencyStore PyNumber).claims = some unwritten :=
    rfl
  rw [perform_record hload .closed hrecord, happend]
  rfl

/-- A claim whose append fails is refused when it is retried, and a fresh store would grant it. -/
theorem not_durableFirst_closed :
    ¬ Run.Always step DurableFirst initial [.start, .call 0 claimOrder .closed] := by
  intro halways
  have hstart : step (initial : Registry PyNumber) .start = ⟨none, [fresh]⟩ := rfl
  obtain ⟨-, hcall, -⟩ := halways
  rw [hstart] at hcall
  have hshows := hcall fresh rfl
  rw [perform_claimOrder] at hshows
  have hretry := (hshows rfl).retry none none false ClaimSystem.noon
  have hgranted : (fresh : IdempotencyStore PyNumber).Grants none "order" none none false
      ClaimSystem.noon := by
    refine ⟨unwritten, ?_⟩
    have hplain : unwritten.toDict.Plain :=
      (ClaimSystem.claimRecord_plain_iff "order" none none ClaimSystem.noon).mpr trivial
    have hclaim : claim (fresh : IdempotencyStore PyNumber) none "order" none none false
        ClaimSystem.noon =
        match put fresh none unwritten with
        | (store, file, .error error) => (store, file, .error error)
        | (store, file, .ok ()) => (store, file, .ok ⟨true, unwritten⟩) := rfl
    rw [hclaim, ClaimSystem.put_plain hplain]
  obtain ⟨record, hrefused⟩ := hretry.mpr ⟨fresh, rfl, hgranted⟩
  have hduplicate : (claim ⟨foldClaim .empty unwritten, 0⟩ none "order" none none false
      ClaimSystem.noon).2.2 = .ok ⟨false, unwritten⟩ := rfl
  have hkey : claimOrder.key = "order" := rfl
  rw [hkey, hduplicate] at hrefused
  exact absurd hrefused (by simp)

end NothingWritten

end Registry

end QuantAgent.Domain
