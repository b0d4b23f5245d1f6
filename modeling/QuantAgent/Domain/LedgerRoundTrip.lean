import QuantAgent.Domain.HexHashing
import QuantAgent.Domain.LedgerFile
import QuantAgent.Domain.PyNumber

/-!
# Writing a ledger and reading it back

A fresh durable ledger, any number of successful appends, and a second instance on the same bytes.
The round trip is exact precisely when every event was storable and no string of any entry holds a
line end that the printer leaves alone: the first kind of entry breaks the chain of the writer, the
second kind cuts the file for the reader.
-/

namespace QuantAgent.Domain

open Library TextFile

variable {N : Type}

/-- The printed instant of an append, which is plain ASCII. -/
structure Timestamp where
  text : String
  ascii : ∀ c ∈ text.toList, c.toNat < 128

/-- One call of `append`: what the clock shows, and what is recorded. -/
structure Call (N : Type) where
  recordedAt : Timestamp
  entry : Entry N

section Conditions

variable [Number N]

/-- No string of the entry, keys included, ends a line when it is printed. -/
def Entry.LineSafe (entry : Entry N) : Prop := Json.LineSafe (entry.body 0 "").toDict

/-- An append of this entry to a healthy durable ledger succeeds. -/
def Entry.Accepted (entry : Entry N) : Prop :=
  (storedEvent entry.event).isSome ∧ entry.Plain

variable [Hashing N]

section

omit [Number N] [Hashing N]

theorem json_lineSafe_cons (key : String) (value : Json N) (members : List (String × Json N)) :
    Json.LineSafe (.obj ((key, value) :: members)) ↔
      LineSafe key ∧ Json.LineSafe value ∧ Json.LineSafe (.obj members) := by
  simp only [Json.LineSafe, Json.strings, Json.stringsMembers, List.cons_append, List.mem_cons,
    List.mem_append, forall_eq_or_imp]
  constructor
  · rintro ⟨hkey, hrest⟩
    exact ⟨hkey, fun s hs ↦ hrest s (.inl hs), fun s hs ↦ hrest s (.inr hs)⟩
  · rintro ⟨hkey, hvalue, hmembers⟩
    exact ⟨hkey, fun s hs ↦ hs.elim (hvalue s) (hmembers s)⟩

theorem json_lineSafe_str (value : String) :
    Json.LineSafe (.str value : Json N) ↔ LineSafe value := by
  simp [Json.LineSafe, Json.strings]

theorem json_lineSafe_num (value : N) : Json.LineSafe (.num value) := by
  simp [Json.LineSafe, Json.strings]

end

/-- What the ledger adds to an entry never ends a line. -/
theorem chained_lineSafe_iff (entry : Entry N) (length : ℕ) (recordedAt : Timestamp)
    {previous : String} (hprevious : ∀ c ∈ previous.toList, c.toNat < 128) :
    Json.LineSafe ((entry.body length recordedAt.text).chained previous) ↔ entry.LineSafe := by
  have hhash := lineSafe_of_ascii
    (Hashing.digest_ascii previous (entry.body length recordedAt.text).toDict)
  have hprev := lineSafe_of_ascii hprevious
  have hat := lineSafe_of_ascii recordedAt.ascii
  have hempty : LineSafe "" := by simp [LineSafe]
  have hpreviousKey : LineSafe "previousHash" := by decide
  have hrecordKey : LineSafe "recordHash" := by decide
  simp only [RecordBody.chained, RecordBody.payload, Entry.LineSafe, RecordBody.toDict, Entry.body,
    json_lineSafe_cons, json_lineSafe_str, json_lineSafe_num, true_and]
  simp only [Entry.body] at hhash
  simp only [RecordBody.toDict] at hhash
  simp only [hprev, hhash, hat, hempty, hpreviousKey, hrecordKey, true_and]

omit [Number N] in
/-- A record's line is an opening brace and something behind it. -/
theorem exists_lineOf_chained [NumText N] (body : RecordBody N) (previous : String) :
    ∃ tail, tail ≠ [] ∧ lineOf (body.chained previous) = '{' :: tail := by
  simp [lineOf, RecordBody.chained, RecordBody.payload, Json.text]

end Conditions

variable [Number N] [Hashing N] [NumText N]

omit [Number N] [Hashing N] [NumText N] in
/-- A durable instance that can write, behind a head that is plain ASCII. -/
structure CanonicalLedger.Healthy (ledger : CanonicalLedger N) : Prop where
  writable : ledger.writeFailure = none
  durable : ledger.durable = true
  head : ∀ c ∈ ledger.head.toList, c.toNat < 128

section

omit [Number N] [Hashing N] [NumText N]

theorem CanonicalLedger.healthy_fresh : (fresh true : CanonicalLedger N).Healthy where
  writable := rfl
  durable := rfl
  head := ascii_of_all (by decide : (genesisHash.toList.all fun c ↦ decide (c.toNat < 128)) = true)

theorem CanonicalLedger.Healthy.torn {ledger : CanonicalLedger N} (h : ledger.Healthy)
    (tornTail : Bool) : ({ ledger with tornTail } : CanonicalLedger N).Healthy :=
  ⟨h.writable, h.durable, h.head⟩

end

structure LedgerFile (N : Type) where
  ledger : CanonicalLedger N
  bytes : ByteArray

namespace LedgerFile

omit [Number N] [Hashing N] [NumText N] in
def fresh : LedgerFile N := ⟨.fresh true, .empty⟩

omit [Number N] [Hashing N] [NumText N] in
theorem fresh_bytes : (fresh : LedgerFile N).bytes = encodeUtf8 [] := by
  simp [fresh, encodeUtf8]

def append (file : LedgerFile N) (call : Call N) :
    LedgerFile N × Except AppendError (LedgerRecord N) :=
  let line := lineOf
    ((call.entry.body file.ledger.records.length call.recordedAt.text).chained file.ledger.head)
  match file.ledger.append call.recordedAt.text .landed call.entry with
  | (ledger, .ok record) => (⟨ledger, file.bytes ++ encodeUtf8 line⟩, .ok record)
  | (ledger, .error error) => (⟨ledger, file.bytes⟩, .error error)

/-- Append a list of entries; `none` when one of the appends raises. -/
def appendAll (file : LedgerFile N) : List (Call N) → Option (LedgerFile N)
  | [] => some file
  | call :: rest =>
    match file.append call with
    | (file, .ok _) => appendAll file rest
    | (_, .error _) => none


/-- The file after one accepted entry, of whose event `kept` is recorded. -/
def extend (file : LedgerFile N) (call : Call N) (kept : Option (OrderEvent N)) : LedgerFile N where
  ledger := file.ledger.push (file.ledger.recordOf call.recordedAt.text call.entry kept)
  bytes := file.bytes ++ encodeUtf8 (lineOf
    ((call.entry.body file.ledger.records.length call.recordedAt.text).chained file.ledger.head))

variable {file writer : LedgerFile N}

theorem healthy_extend (h : file.ledger.Healthy) (call : Call N) (kept : Option (OrderEvent N)) :
    (file.extend call kept).ledger.Healthy where
  writable := h.writable
  durable := h.durable
  head := Hashing.digest_ascii _ _

/-- On a healthy file exactly the accepted entries are appended. -/
theorem append_ok_iff (h : file.ledger.Healthy) (call : Call N) (after : LedgerFile N) :
    (∃ record, file.append call = (after, .ok record)) ↔
      ∃ kept, storedEvent call.entry.event = some kept ∧ call.entry.Plain ∧
        after = file.extend call kept := by
  rcases file.ledger.append_cases call.recordedAt.text .landed call.entry with
    ⟨failure, hfailure, -⟩ | ⟨-, hnone, heq⟩ | ⟨kept, -, hkept, hrest⟩
  · rw [h.writable] at hfailure
    cases hfailure
  · refine iff_of_false ?_ ?_
    · rintro ⟨record, hrecord⟩
      simp [append, heq] at hrecord
    · rintro ⟨kept, hkept, -, -⟩
      rw [hnone] at hkept
      cases hkept
  · rcases hrest with ⟨-, hplain, heq⟩ | ⟨error, -, herror, -, -⟩ | ⟨hplain, heq⟩
    · rw [chained_plain_iff] at hplain
      refine iff_of_false ?_ ?_
      · rintro ⟨record, hrecord⟩
        simp [append, heq] at hrecord
      · rintro ⟨_, -, hplain', -⟩
        exact hplain hplain'
    · cases herror
    · have hplain' := (chained_plain_iff _ _ _ _).mp (hplain h.durable).2
      constructor
      · rintro ⟨record, hrecord⟩
        refine ⟨kept, hkept, hplain', ?_⟩
        simp only [append, heq, Prod.mk.injEq] at hrecord
        exact hrecord.1.symm
      · rintro ⟨kept', hkept', -, rfl⟩
        rw [hkept] at hkept'
        cases hkept'
        exact ⟨_, by rw [append, heq]; rfl⟩

variable {call : Call N}

theorem appendAll_cons (h : file.ledger.Healthy) {rest : List (Call N)}
    (hrun : file.appendAll (call :: rest) = some writer) :
    ∃ kept, storedEvent call.entry.event = some kept ∧ call.entry.Plain ∧
      (file.extend call kept).appendAll rest = some writer := by
  rw [appendAll] at hrun
  cases happend : file.append call with
  | mk after result =>
    cases result with
    | error error => simp [happend] at hrun
    | ok record =>
      rw [happend] at hrun
      obtain ⟨kept, hkept, hplain, rfl⟩ := (append_ok_iff h call after).mp ⟨record, happend⟩
      exact ⟨kept, hkept, hplain, hrun⟩

variable {calls : List (Call N)}

theorem exists_appendAll (h : file.ledger.Healthy)
    (haccepted : ∀ call ∈ calls, call.entry.Accepted) :
    ∃ writer, file.appendAll calls = some writer := by
  induction calls generalizing file with
  | nil => exact ⟨file, rfl⟩
  | cons call rest ih =>
    obtain ⟨hsome, hplain⟩ := haccepted call (by simp)
    obtain ⟨kept, hkept⟩ := Option.isSome_iff_exists.mp hsome
    obtain ⟨record, happend⟩ :=
      (append_ok_iff h call (file.extend call kept)).mpr ⟨kept, hkept, hplain, rfl⟩
    rw [appendAll, happend]
    exact ih (healthy_extend h call kept) fun other hother ↦
      haccepted other (List.mem_cons_of_mem _ hother)

theorem exists_appendAll_fresh (calls : List (Call N))
    (haccepted : ∀ call ∈ calls, call.entry.Accepted) :
    ∃ writer, (fresh : LedgerFile N).appendAll calls = some writer :=
  exists_appendAll CanonicalLedger.healthy_fresh haccepted

section

variable (h : file.ledger.Healthy) (hrun : file.appendAll calls = some writer)
include h hrun

/-- Appending only adds records to the instance and whole lines to the file. -/
theorem appendAll_extends :
    (∃ records, records.length = calls.length ∧
        writer.ledger.records = file.ledger.records ++ records) ∧
      ∃ more, '\r' ∉ more ∧ writer.bytes = file.bytes ++ encodeUtf8 more := by
  induction calls generalizing file with
  | nil =>
    cases hrun
    exact ⟨⟨[], rfl, by simp⟩, [], by simp, by simp [encodeUtf8]⟩
  | cons call rest ih =>
    obtain ⟨kept, -, -, hrest⟩ := appendAll_cons h hrun
    obtain ⟨⟨records, hlength, hrecords⟩, more, hmore, hbytes⟩ := ih (healthy_extend h call kept) hrest
    let line := lineOf ((call.entry.body file.ledger.records.length
      call.recordedAt.text).chained file.ledger.head)
    let record := file.ledger.recordOf call.recordedAt.text call.entry kept
    have hline : '\r' ∉ line := no_return_in_line _
    refine ⟨⟨record :: records, by simp [hlength], ?_⟩, line ++ more, ?_, ?_⟩
    · rw [hrecords]
      simp [extend, CanonicalLedger.push, record]
    · rw [List.mem_append, not_or]
      exact ⟨hline, hmore⟩
    · rw [hbytes, encodeUtf8_append, ← ByteArray.append_assoc]
      rfl

theorem appendAll_tornTail :
    writer.ledger.tornTail = file.ledger.tornTail := by
  induction calls generalizing file with
  | nil =>
    cases hrun
    rfl
  | cons call rest ih =>
    obtain ⟨kept, -, -, hrest⟩ := appendAll_cons h hrun
    have htail := ih (healthy_extend h call kept) hrest
    exact htail

end

/-- The writer's chain verifies exactly when every event was storable. -/
theorem valid_iff (h : file.ledger.Healthy) (hlinked : file.ledger.Linked)
    (hrun : file.appendAll calls = some writer) :
    writer.ledger.Valid ↔ ∀ call ∈ calls, call.entry.Storable := by
  induction calls generalizing file with
  | nil =>
    cases hrun
    simp [hlinked.valid]
  | cons call rest ih =>
    obtain ⟨kept, hkept, -, hrest⟩ := appendAll_cons h hrun
    have hhealthy := healthy_extend h call kept
    by_cases hsame : kept = call.entry.event
    · subst hsame
      have hstorable : call.entry.Storable := (storedEvent_eq_iff _).mp hkept
      rw [ih hhealthy (CanonicalLedger.linked_push hlinked hkept) hrest]
      simp [hstorable]
    · refine iff_of_false ?_ ?_
      · intro hvalid
        obtain ⟨⟨records, -, hrecords⟩, -⟩ := appendAll_extends hhealthy hrest
        have hprefix : (file.extend call kept).ledger.Valid := by
          obtain ⟨head, hhead⟩ := hvalid
          have hboth : ({ (file.extend call kept).ledger with
              records := (file.extend call kept).ledger.records ++ records } :
              CanonicalLedger N).Valid := ⟨head, by rw [← hrecords]; exact hhead⟩
          exact hboth.of_append
        exact hsame ((CanonicalLedger.verify_push_iff hlinked hkept).mp hprefix)
      · intro hall
        have hstored := (storedEvent_eq_iff _).mpr (hall call (by simp))
        rw [hkept] at hstored
        exact hsame (Option.some.inj hstored)

theorem healthy_appendAll (h : file.ledger.Healthy) (hrun : file.appendAll calls = some writer) :
    writer.ledger.Healthy := by
  induction calls generalizing file with
  | nil =>
    cases hrun
    exact h
  | cons call rest ih =>
    obtain ⟨kept, -, -, hrest⟩ := appendAll_cons h hrun
    exact ih (healthy_extend h call kept) hrest

theorem linked_appendAll (h : file.ledger.Healthy) (hlinked : file.ledger.Linked)
    (hrun : file.appendAll calls = some writer) (hall : ∀ call ∈ calls, call.entry.Storable) :
    writer.ledger.Linked := by
  induction calls generalizing file with
  | nil =>
    cases hrun
    exact hlinked
  | cons call rest ih =>
    obtain ⟨kept, hkept, -, hrest⟩ := appendAll_cons h hrun
    have hstored := (storedEvent_eq_iff _).mpr (hall call (by simp))
    obtain rfl : call.entry.event = kept := by
      rw [hkept] at hstored
      exact (Option.some.inj hstored).symm
    exact ih (healthy_extend h call _) (CanonicalLedger.linked_push hlinked hkept) hrest
      fun other hother ↦ hall other (List.mem_cons_of_mem _ hother)

/-- A text that brings a fresh reader to an instance, whatever follows. -/
structure Reads (chars : List Char) (ledger : CanonicalLedger N) : Prop where
  no_return : '\r' ∉ chars
  load : ∀ rest, loadText (chars ++ rest) (.fresh true) = loadText rest ledger

omit [Hashing N] in
theorem reads_nil : Reads [] (.fresh true : CanonicalLedger N) :=
  ⟨by simp, fun _ ↦ rfl⟩

variable {chars rest : List Char} {ledger : CanonicalLedger N}

section

omit [Hashing N]

/-- The bytes of a text that a reader understands are loaded. -/
theorem load_encodeUtf8 (h : Reads chars ledger) (hrest : '\r' ∉ rest) :
    load (encodeUtf8 (chars ++ rest)) = loadText rest ledger := by
  have hreturn : '\r' ∉ chars ++ rest := by
    rw [List.mem_append, not_or]
    exact ⟨h.no_return, hrest⟩
  rw [load, decodeUtf8_encodeUtf8]
  simp only [Option.bind_eq_bind, Option.bind_some, universalNewlines_of_no_return hreturn]
  exact h.load rest

theorem load_exact (h : Reads chars ledger) :
    load (encodeUtf8 chars) = some ledger := by
  have hload := load_encodeUtf8 h List.not_mem_nil
  rwa [List.append_nil] at hload

end

/-- One more line of a storable, line-safe entry is understood too. -/
theorem Reads.line (h : Reads chars file.ledger) (hhealthy : file.ledger.Healthy)
    {kept : Option (OrderEvent N)} (hkept : storedEvent call.entry.event = some kept)
    (hplain : call.entry.Plain) (hsafe : call.entry.LineSafe) :
    Reads (chars ++ lineOf ((call.entry.body file.ledger.records.length
      call.recordedAt.text).chained file.ledger.head)) (file.extend call kept).ledger := by
  have hrecord := recordFromDict_payload call.entry file.ledger.records.length
    call.recordedAt.text file.ledger.head
    (digest file.ledger.head
      (call.entry.body file.ledger.records.length call.recordedAt.text).toDict)
  rw [hkept, Option.map_some] at hrecord
  constructor
  · rw [List.mem_append, not_or]
    exact ⟨h.no_return, no_return_in_line _⟩
  · intro rest
    rw [List.append_assoc, h.load]
    have hline := loadText_line
      ((chained_plain_iff call.entry file.ledger.records.length call.recordedAt.text
        file.ledger.head).mpr hplain)
      ((chained_lineSafe_iff call.entry file.ledger.records.length call.recordedAt
        hhealthy.head).mpr hsafe) rest file.ledger
    rw [RecordBody.payload] at hrecord
    exact hline.trans (by rw [hrecord]; rfl)

/-- Line-safe entries are all understood, in the order they were appended. -/
theorem reads_appendAll (h : Reads chars file.ledger) (hbytes : file.bytes = encodeUtf8 chars)
    (hhealthy : file.ledger.Healthy) (hrun : file.appendAll calls = some writer)
    (hsafe : ∀ call ∈ calls, call.entry.LineSafe) :
    ∃ chars', Reads chars' writer.ledger ∧ writer.bytes = encodeUtf8 chars' := by
  induction calls generalizing file chars with
  | nil =>
    cases hrun
    exact ⟨chars, h, hbytes⟩
  | cons call rest ih =>
    obtain ⟨kept, hkept, hplain, hrest⟩ := appendAll_cons hhealthy hrun
    refine ih (h.line hhealthy hkept hplain (hsafe call (by simp))) ?_
      (healthy_extend hhealthy call kept) hrest fun other hother ↦
        hsafe other (List.mem_cons_of_mem _ hother)
    rw [encodeUtf8_append, ← hbytes]
    rfl

/-- A text that ends the loading in an instance, whatever follows. -/
structure Cuts (chars : List Char) (ledger : CanonicalLedger N) : Prop where
  no_return : '\r' ∉ chars
  load : ∀ rest, loadText (chars ++ rest) (.fresh true) = some ledger
  torn : ledger.tornTail = true
  healthy : ledger.Healthy

omit [Hashing N] in
theorem load_of_cuts (h : Cuts chars ledger) (hrest : '\r' ∉ rest) :
    load (encodeUtf8 (chars ++ rest)) = some ledger := by
  have hreturn : '\r' ∉ chars ++ rest := by
    rw [List.mem_append, not_or]
    exact ⟨h.no_return, hrest⟩
  rw [load, decodeUtf8_encodeUtf8]
  simp only [Option.bind_eq_bind, Option.bind_some, universalNewlines_of_no_return hreturn]
  exact h.load rest

/-- A line that is not one line ends the loading before its own record. -/
theorem Reads.cut (h : Reads chars file.ledger) (hhealthy : file.ledger.Healthy)
    (hplain : call.entry.Plain) (hsafe : ¬ call.entry.LineSafe) {more : List Char}
    (hmore : '\r' ∉ more) :
    Cuts (chars ++ (lineOf ((call.entry.body file.ledger.records.length
      call.recordedAt.text).chained file.ledger.head) ++ more))
      { file.ledger with tornTail := true } := by
  let payload := (call.entry.body file.ledger.records.length
    call.recordedAt.text).chained file.ledger.head
  have hpayload : payload.Plain := (chained_plain_iff _ _ _ _).mpr hplain
  have hsplit : ∃ c ∈ payload.text, isLineBoundary c = true := by
    by_contra hnone
    refine hsafe ((chained_lineSafe_iff call.entry file.ledger.records.length
      call.recordedAt hhealthy.head).mp ((text_boundary_iff payload).mp ?_))
    intro c hc
    rw [Bool.eq_false_iff]
    exact fun htrue ↦ hnone ⟨c, hc, htrue⟩
  refine ⟨?_, fun rest ↦ ?_, rfl, hhealthy.torn true⟩
  · rw [List.mem_append, List.mem_append, not_or, not_or]
    exact ⟨h.no_return, no_return_in_line payload, hmore⟩
  · rw [List.append_assoc, h.load, List.append_assoc, lineOf, List.append_assoc]
    exact loadText_split hpayload (List.append_nil _) hsplit _ _

theorem exists_cuts (h : Reads chars file.ledger) (hbytes : file.bytes = encodeUtf8 chars)
    (hhealthy : file.ledger.Healthy) (hrun : file.appendAll calls = some writer)
    (hsafe : ¬ ∀ call ∈ calls, call.entry.LineSafe) :
    ∃ (chars' : List Char) (ledger : CanonicalLedger N), Cuts chars' ledger ∧
      writer.bytes = encodeUtf8 chars' ∧
      ledger.records.length < writer.ledger.records.length := by
  induction calls generalizing file chars with
  | nil => exact absurd (by simp) hsafe
  | cons call rest ih =>
    obtain ⟨kept, hkept, hplain, hrest⟩ := appendAll_cons hhealthy hrun
    by_cases hfirst : call.entry.LineSafe
    · refine ih (h.line hhealthy hkept hplain hfirst) ?_ (healthy_extend hhealthy call kept)
        hrest ?_
      · rw [encodeUtf8_append, ← hbytes]
        rfl
      · intro hall
        exact hsafe (List.forall_mem_cons.mpr ⟨hfirst, hall⟩)
    · obtain ⟨⟨records, hlength, hrecords⟩, -⟩ := appendAll_extends hhealthy hrun
      obtain ⟨-, more, hmore, hmoreBytes⟩ :=
        appendAll_extends (healthy_extend hhealthy call kept) hrest
      refine ⟨_, _, h.cut hhealthy hplain hfirst hmore, ?_, ?_⟩
      · rw [hmoreBytes, encodeUtf8_append, encodeUtf8_append, ← hbytes, ← ByteArray.append_assoc]
        rfl
      · have hlonger : file.ledger.records.length < writer.ledger.records.length := by
          rw [hrecords, List.length_append, hlength, List.length_cons]
          omega
        exact hlonger

/-- The writer's chain verifies, and a second instance on the same bytes is the same ledger. -/
def RoundTrips (writer : LedgerFile N) : Prop :=
  writer.ledger.Valid ∧
    ∃ reader : CanonicalLedger N, load writer.bytes = some reader ∧
      reader.records = writer.ledger.records ∧ reader.tornTail = false ∧
      reader.head = writer.ledger.head ∧ reader.Valid

/-- A file that round-trips holds line-safe entries only. -/
theorem lineSafe_of_roundTrips (hrun : fresh.appendAll calls = some writer)
    (h : RoundTrips writer) :
    ∀ call ∈ calls, call.entry.LineSafe := by
  obtain ⟨-, reader, hload, -, htorn, -, -⟩ := h
  by_contra hcut
  obtain ⟨chars, ledger, hcuts, hchars, -⟩ :=
    exists_cuts reads_nil fresh_bytes CanonicalLedger.healthy_fresh hrun hcut
  have hload' := load_of_cuts hcuts List.not_mem_nil
  rw [List.append_nil, ← hchars, hload] at hload'
  have htorn' := hcuts.torn
  rw [← Option.some.inj hload', htorn] at htorn'
  cases htorn'

/-- Any successful appends on a fresh file round-trip exactly when every event is storable and
every entry line-safe. -/
theorem roundTrips_iff {calls : List (Call N)} {writer : LedgerFile N}
    (hrun : fresh.appendAll calls = some writer) :
    RoundTrips writer ↔ ∀ call ∈ calls, call.entry.Storable ∧ call.entry.LineSafe := by
  have hvalid := valid_iff CanonicalLedger.healthy_fresh (CanonicalLedger.linked_fresh true) hrun
  constructor
  · intro h call hcall
    exact ⟨hvalid.mp h.1 call hcall, lineSafe_of_roundTrips hrun h call hcall⟩
  · intro hall
    have hwriter := hvalid.mpr fun call hcall ↦ (hall call hcall).1
    obtain ⟨chars, hreads, hchars⟩ := reads_appendAll reads_nil fresh_bytes
      CanonicalLedger.healthy_fresh hrun fun call hcall ↦ (hall call hcall).2
    refine ⟨hwriter, writer.ledger, ?_, rfl, ?_, rfl, hwriter⟩
    · rw [hchars, load_exact hreads]
    · exact appendAll_tornTail CanonicalLedger.healthy_fresh hrun

def cancelCall (reason : String) : Call PyNumber where
  recordedAt := ⟨"2026-01-05T02:00:00+00:00", ascii_of_all (by decide)⟩
  entry := {
    event := some {
      eventType := .cancelRequested
      orderId := "ord_1"
      sequence := .int 3
      eventTime := "2026-01-05T02:00:00+00:00"
      fill := none
      reason := some reason
      riskDecision := none
      lineage := .empty }
    tradeDate := some "2026-01-05"
    intent := none
    corporateAction := none }

theorem cancelCall_accepted (reason : String) : (cancelCall reason).entry.Accepted := by
  refine ⟨rfl, ?_⟩
  simp [cancelCall, Entry.Plain, Entry.body, RecordBody.toDict, eventToDict, Lineage.asDict,
    Lineage.empty, optionalStr, Json.Plain, Json.PlainMembers]

theorem cancelCall_storable (reason : String) : (cancelCall reason).entry.Storable := by
  intro event h
  cases h
  exact ⟨rfl, by simp, by simp, Lineage.noEmptyLink_empty⟩

/-- The condition of the round trip at one recorded cancel request. -/
theorem roundTrips_iff_cancel :
    ∃ writer, fresh.appendAll [cancelCall "operator"] = some writer ∧
      (RoundTrips writer ↔ ∀ call ∈ [cancelCall "operator"],
        call.entry.Storable ∧ call.entry.LineSafe) := by
  obtain ⟨writer, hrun⟩ := exists_appendAll_fresh [cancelCall "operator"]
    (by simp [cancelCall_accepted])
  exact ⟨writer, hrun, roundTrips_iff hrun⟩

/-- A reason with a line separator in it is recorded, and the file is cut at it. -/
theorem not_roundTrips_lineSeparator :
    ∃ writer, fresh.appendAll [cancelCall "left\u2028right"] = some writer ∧
      ¬ RoundTrips writer := by
  obtain ⟨writer, hrun⟩ := exists_appendAll_fresh [cancelCall "left\u2028right"]
    (by simp [cancelCall_accepted])
  refine ⟨writer, hrun, fun h ↦ ?_⟩
  have hsafe := lineSafe_of_roundTrips hrun h _ List.mem_cons_self
  have hreason : "left\u2028right" ∈ Json.strings
      ((cancelCall "left\u2028right").entry.body 0 "").toDict := by
    simp [cancelCall, Entry.body, RecordBody.toDict, eventToDict, optionalStr, Json.strings,
      Json.stringsMembers]
  exact hsafe _ hreason '\u2028' (by decide) (by decide)

end LedgerFile

end QuantAgent.Domain
