import QuantAgent.Domain.LedgerRoundTrip

/-!
# Restarting on a torn file

A process killed inside an append leaves the whole lines of the chain and an initial part of one
more.  The reader skips that part, but nothing removes it from the file: the next record is written
right behind it, and the two share a line that no later reader understands.
-/

namespace QuantAgent.Domain

open Library TextFile

variable {N : Type} [Number N] [Hashing N] [NumText N]

namespace LedgerFile

/-- The bytes one more record would add to a file. -/
def recordLine (file : LedgerFile N) (call : Call N) : ByteArray :=
  encodeUtf8 (lineOf
    ((call.entry.body file.ledger.records.length call.recordedAt.text).chained file.ledger.head))

/-- Restart on the chain and the torn bytes, append, restart again: the second instance holds the
chain and everything appended, and verifies. -/
def Recovers (chain : LedgerFile N) (torn : ByteArray) (calls : List (Call N)) : Prop :=
  ∃ (first second : CanonicalLedger N) (written : LedgerFile N) (appended : List (LedgerRecord N)),
    load (chain.bytes ++ torn) = some first ∧
      (LedgerFile.mk first (chain.bytes ++ torn)).appendAll calls = some written ∧
      written.ledger.records = first.records ++ appended ∧
      load written.bytes = some second ∧
      second.records = chain.ledger.records ++ appended ∧ second.Valid

variable {calls : List (Call N)}

/-- The records of a successful run of appends are as many as its calls. -/
theorem appended_length {file writer : LedgerFile N} (h : file.ledger.Healthy)
    (hrun : file.appendAll calls = some writer) {appended : List (LedgerRecord N)}
    (happended : writer.ledger.records = file.ledger.records ++ appended) :
    appended.length = calls.length := by
  obtain ⟨⟨records, hlength, hrecords⟩, -⟩ := appendAll_extends h hrun
  rw [hrecords] at happended
  rw [← List.append_cancel_left happended, hlength]

variable {chain : LedgerFile N} {chars : List Char} {torn : ByteArray}

omit [Hashing N] in
theorem decodes_of_load {ledger : CanonicalLedger N} (hbytes : chain.bytes = encodeUtf8 chars)
    (h : load (chain.bytes ++ torn) = some ledger) : ∃ t, decodeUtf8 torn = some t := by
  cases hdecode : decodeUtf8 torn with
  | some t => exact ⟨t, rfl⟩
  | none =>
    rw [load, hbytes, decodeUtf8_encodeUtf8_append, hdecode] at h
    simp at h

/-- A chain one of whose own lines is cut is never read to its end. -/
theorem not_recovers_of_cuts {ledger : CanonicalLedger N} (h : Cuts chars ledger)
    (hbytes : chain.bytes = encodeUtf8 chars)
    (hshort : ledger.records.length < chain.ledger.records.length)
    (hreturn : ∀ t, decodeUtf8 torn = some t → '\r' ∉ t) :
    ¬ Recovers chain torn calls := by
  rintro ⟨first, second, written, appended, hfirst, hrun, -, hsecond, hrecords, -⟩
  -- the torn bytes decode, since the first instance was constructed
  obtain ⟨t, ht⟩ := decodes_of_load hbytes hfirst
  have htbytes := encodeUtf8_of_decodeUtf8 ht
  have hloaded : load (chain.bytes ++ torn) = some ledger := by
    rw [hbytes, ← htbytes, ← encodeUtf8_append]
    exact load_of_cuts h (hreturn t ht)
  rw [hfirst] at hloaded
  obtain rfl := Option.some.inj hloaded
  obtain ⟨-, more, hmore, hwritten⟩ := appendAll_extends h.healthy hrun
  have hagain : load written.bytes = some first := by
    rw [hwritten, hbytes, ← htbytes, ← encodeUtf8_append, ← encodeUtf8_append, List.append_assoc]
    refine load_of_cuts h ?_
    rw [List.mem_append, not_or]
    exact ⟨hreturn t ht, hmore⟩
  rw [hsecond] at hagain
  obtain rfl := Option.some.inj hagain
  rw [hrecords, List.length_append] at hshort
  omega

variable {lost : Call N}

/-- What the first restart makes of the torn bytes: a healthy instance. -/
theorem healthy_load_torn (hhealthy : chain.ledger.Healthy) (hlost : lost.entry.Accepted)
    {torn missing : List Char}
    (htorn : torn ++ missing = ((lost.entry.body chain.ledger.records.length
      lost.recordedAt.text).chained chain.ledger.head).text) (hne : torn ≠ [])
    {first : CanonicalLedger N} (hfirst : loadText torn chain.ledger = some first) :
    first.Healthy := by
  obtain ⟨hsome, hplain⟩ := hlost
  obtain ⟨kept, hkept⟩ := Option.isSome_iff_exists.mp hsome
  have hpayload := (chained_plain_iff lost.entry chain.ledger.records.length
    lost.recordedAt.text chain.ledger.head).mpr hplain
  by_cases hmissing : missing = []
  · -- only the newline is missing
    rw [hmissing, List.append_nil] at htorn
    by_cases hboundary : ∃ c ∈ torn, isLineBoundary c = true
    · have hsplit := loadText_split hpayload (by rw [List.append_nil, htorn]; rfl) hboundary []
        chain.ledger
      rw [List.append_nil, hfirst] at hsplit
      rw [Option.some.inj hsplit]
      exact hhealthy.torn true
    · have hsafe : ∀ c ∈ torn, isLineBoundary c = false := by
        intro c hc
        rw [Bool.eq_false_iff]
        exact fun htrue ↦ hboundary ⟨c, hc, htrue⟩
      have hrecord := recordFromDict_payload lost.entry chain.ledger.records.length
        lost.recordedAt.text chain.ledger.head
        (digest chain.ledger.head
          (lost.entry.body chain.ledger.records.length lost.recordedAt.text).toDict)
      rw [hkept, Option.map_some] at hrecord
      have hstrip : strip torn = torn := by
        rw [htorn]
        exact strip_text _
      have hloads : (Json.loads torn : Option (Json N)) = some
          ((lost.entry.body chain.ledger.records.length
            lost.recordedAt.text).chained chain.ledger.head) := by
        rw [htorn]
        exact Json.loads_text hpayload
      rw [loadText, splitLines_last hsafe hne, loadLines, hstrip, if_neg hne, hloads] at hfirst
      simp only [RecordBody.chained, hrecord, loadLines, Option.some.injEq] at hfirst
      rw [← hfirst]
      exact ⟨hhealthy.writable, hhealthy.durable, Hashing.digest_ascii _ _⟩
  · have hload := loadText_torn hpayload htorn hne hmissing chain.ledger
    rw [hfirst] at hload
    rw [Option.some.inj hload]
    exact hhealthy.torn true

/-- Whatever is appended behind torn bytes is lost to the second restart. -/
theorem not_recovers_of_torn (hreads : Reads chars chain.ledger)
    (hbytes : chain.bytes = encodeUtf8 chars) (hhealthy : chain.ledger.Healthy)
    (hlost : lost.entry.Accepted) {missing : ByteArray}
    (htorn : torn ++ missing = chain.recordLine lost) (hmissing : missing ≠ .empty)
    (hne : torn ≠ .empty) (hcalls : calls ≠ []) : ¬ Recovers chain torn calls := by
  rintro ⟨first, second, written, appended, hfirst, hrun, happended, hsecond, hrecords, -⟩
  let payload := (lost.entry.body chain.ledger.records.length
    lost.recordedAt.text).chained chain.ledger.head
  have hpayload : payload.Plain := (chained_plain_iff _ _ _ _).mpr hlost.2
  obtain ⟨t, ht⟩ := decodes_of_load hbytes hfirst
  have htbytes := encodeUtf8_of_decodeUtf8 ht
  obtain ⟨m, hm⟩ := exists_append_of_decodeUtf8 ht htorn
  have htne : t ≠ [] := by
    rintro rfl
    exact hne (by rw [← htbytes]; simp [encodeUtf8])
  have hmne : m ≠ [] := by
    rintro rfl
    rw [List.append_nil] at hm
    have hall : torn ++ missing = torn ++ .empty := by
      rw [htorn, recordLine, ← hm, htbytes, ByteArray.append_empty]
    exact hmissing (ByteArray.append_right_inj torn |>.mp hall)
  -- the cut leaves at least the newline out
  obtain ⟨cut, hcut⟩ : ∃ cut, t ++ cut = payload.text := by
    obtain ⟨cut, last, rfl⟩ := List.eq_nil_or_concat' m |>.resolve_left hmne
    refine ⟨cut, ?_⟩
    rw [lineOf, ← List.append_assoc] at hm
    exact (List.append_inj' hm rfl).1
  have hreturn : '\r' ∉ t := fun hmem ↦
    no_return_in_text payload (hcut ▸ List.mem_append_left _ hmem)
  have hfirstText : loadText t chain.ledger = some first := by
    rw [← load_encodeUtf8 hreads hreturn, encodeUtf8_append, ← hbytes, htbytes]
    exact hfirst
  have hfirstHealthy := healthy_load_torn hhealthy hlost hcut htne hfirstText
  obtain ⟨call, rest, rfl⟩ := List.exists_cons_of_ne_nil hcalls
  obtain ⟨kept, hkept, hplain, hrest⟩ := appendAll_cons hfirstHealthy hrun
  obtain ⟨-, more, hmore, hwritten⟩ :=
    appendAll_extends (healthy_extend hfirstHealthy call kept) hrest
  let next := (call.entry.body first.records.length call.recordedAt.text).chained first.head
  have hnext : next.Plain := (chained_plain_iff _ _ _ _).mpr hplain
  have hwhole : written.bytes = encodeUtf8 (chars ++ (t ++ (lineOf next ++ more))) := by
    rw [hwritten, encodeUtf8_append, encodeUtf8_append, encodeUtf8_append, ← hbytes, htbytes,
      ← ByteArray.append_assoc, ← ByteArray.append_assoc]
    rfl
  have hreturns : '\r' ∉ t ++ (lineOf next ++ more) := by
    rw [List.mem_append, List.mem_append, not_or, not_or]
    exact ⟨hreturn, no_return_in_line next, hmore⟩
  have hglued : loadText (t ++ (lineOf next ++ more)) chain.ledger =
      some { chain.ledger with tornTail := true } :=
    loadText_glued hpayload hnext hcut htne rfl more chain.ledger
  rw [hwhole, load_encodeUtf8 hreads hreturns, hglued] at hsecond
  cases hsecond
  have hlength := appended_length hfirstHealthy hrun happended
  have hnil : appended = [] := by
    have hsame : chain.ledger.records ++ [] = chain.ledger.records ++ appended := by
      rw [List.append_nil]
      exact hrecords
    exact (List.append_cancel_left hsame).symm
  rw [hnil] at hlength
  cases hlength

/-- A restart loses nothing exactly when nothing was torn, every event appended afterwards is
storable, and no entry of the file holds a line end that the printer leaves alone. -/
theorem recovers_iff {history : List (Call N)} {chain : LedgerFile N}
    (hchain : fresh.appendAll history = some chain) (hvalid : chain.ledger.Valid)
    {lost : Call N} (hlost : lost.entry.Accepted) {torn missing : ByteArray}
    (htorn : torn ++ missing = chain.recordLine lost) (hmissing : missing ≠ .empty)
    {calls : List (Call N)} (hcalls : calls ≠ [])
    (haccepted : ∀ call ∈ calls, call.entry.Accepted) :
    Recovers chain torn calls ↔
      torn = .empty ∧ (∀ call ∈ calls, call.entry.Storable) ∧
        ∀ call ∈ history ++ calls, call.entry.LineSafe := by
  have hfresh := CanonicalLedger.healthy_fresh (N := N)
  have hstorable := (valid_iff hfresh (CanonicalLedger.linked_fresh true) hchain).mp hvalid
  have hlinked := linked_appendAll hfresh (CanonicalLedger.linked_fresh true) hchain hstorable
  have hhealthy := healthy_appendAll hfresh hchain
  have hreturn : ∀ t, decodeUtf8 torn = some t → '\r' ∉ t := by
    intro t ht hmem
    obtain ⟨m, hm⟩ := exists_append_of_decodeUtf8 ht htorn
    exact no_return_in_line _ (hm ▸ List.mem_append_left _ hmem)
  by_cases hhistory : ∀ call ∈ history, call.entry.LineSafe
  swap
  · obtain ⟨chars, ledger, hcuts, hchars, hshort⟩ :=
      exists_cuts reads_nil fresh_bytes hfresh hchain hhistory
    refine iff_of_false (not_recovers_of_cuts hcuts hchars hshort hreturn) ?_
    rintro ⟨-, -, hsafe⟩
    exact hhistory fun call hcall ↦ hsafe call (List.mem_append_left _ hcall)
  obtain ⟨chars, hreads, hchars⟩ := reads_appendAll reads_nil fresh_bytes hfresh hchain hhistory
  by_cases hne : torn = .empty
  swap
  · exact iff_of_false
      (not_recovers_of_torn hreads hchars hhealthy hlost htorn hmissing hne hcalls)
      fun h ↦ hne h.1
  -- nothing was torn: the first restart holds the chain
  have hbytes : chain.bytes ++ torn = chain.bytes := by rw [hne, ByteArray.append_empty]
  have hload : load chain.bytes = some chain.ledger := by rw [hchars, load_exact hreads]
  constructor
  · rintro ⟨first, second, written, appended, hfirst, hrun, happended, hsecond, hrecords, hok⟩
    rw [hbytes, hload] at hfirst
    cases hfirst
    rw [hbytes] at hrun
    have hrun' := hrun
    have hsafe : ∀ call ∈ calls, call.entry.LineSafe := by
      by_contra hcut
      obtain ⟨chars', ledger, hcuts, hchars', hshort⟩ :=
        exists_cuts hreads hchars hhealthy hrun' hcut
      have hload' := load_of_cuts hcuts List.not_mem_nil
      rw [List.append_nil, ← hchars', hsecond] at hload'
      rw [← Option.some.inj hload', hrecords, happended] at hshort
      omega
    obtain ⟨chars', hreads', hchars'⟩ := reads_appendAll hreads hchars hhealthy hrun' hsafe
    have hload' : load written.bytes = some written.ledger := by
      rw [hchars', load_exact hreads']
    rw [hsecond] at hload'
    cases hload'
    refine ⟨hne, (valid_iff hhealthy hlinked hrun').mp hok, fun call hcall ↦ ?_⟩
    exact (List.mem_append.mp hcall).elim (hhistory call) (hsafe call)
  · rintro ⟨-, hstorableCalls, hsafe⟩
    obtain ⟨written, hrun⟩ := exists_appendAll hhealthy haccepted
    obtain ⟨⟨appended, -, happended⟩, -⟩ := appendAll_extends hhealthy hrun
    obtain ⟨chars', hreads', hchars'⟩ := reads_appendAll hreads hchars hhealthy hrun
      fun call hcall ↦ hsafe call (List.mem_append_right _ hcall)
    refine ⟨chain.ledger, written.ledger, written, appended, by rw [hbytes, hload], ?_, happended,
      by rw [hchars', load_exact hreads'], happended,
      (valid_iff hhealthy hlinked hrun).mpr hstorableCalls⟩
    rw [hbytes]
    exact hrun

/-- The condition of the restart at a file of one whole record and one more append. -/
theorem recovers_iff_cancel :
    ∃ chain, fresh.appendAll [cancelCall "first"] = some chain ∧
      (Recovers chain .empty [cancelCall "second"] ↔
        (ByteArray.empty = .empty) ∧
          (∀ call ∈ [cancelCall "second"], call.entry.Storable) ∧
          ∀ call ∈ [cancelCall "first"] ++ [cancelCall "second"], call.entry.LineSafe) := by
  obtain ⟨chain, hrun⟩ := exists_appendAll_fresh [cancelCall "first"]
    (by simp [cancelCall_accepted])
  have hvalid := (valid_iff CanonicalLedger.healthy_fresh (CanonicalLedger.linked_fresh true)
    hrun).mpr (by simp [cancelCall_storable])
  have hline : lineOf (((cancelCall "lost").entry.body chain.ledger.records.length
      (cancelCall "lost").recordedAt.text).chained chain.ledger.head) ≠ [] := by simp [lineOf]
  refine ⟨chain, hrun, recovers_iff hrun hvalid (cancelCall_accepted "lost") ?_
    (encodeUtf8_ne_empty hline) (by simp) (by simp [cancelCall_accepted])⟩
  rw [ByteArray.empty_append]
  rfl

/-- One torn byte on an otherwise empty file, and the first record appended behind it is lost. -/
theorem not_recovers_torn_brace :
    (∃ missing, missing ≠ ByteArray.empty ∧
      encodeUtf8 ['{'] ++ missing = fresh.recordLine (cancelCall "lost")) ∧
      ¬ Recovers fresh (encodeUtf8 ['{']) [cancelCall "next"] := by
  obtain ⟨tail, hne, htail⟩ := exists_lineOf_chained
    ((cancelCall "lost").entry.body 0 (cancelCall "lost").recordedAt.text) genesisHash
  have hsplit : encodeUtf8 ['{'] ++ encodeUtf8 tail = fresh.recordLine (cancelCall "lost") := by
    rw [← encodeUtf8_append]
    exact congrArg encodeUtf8 htail.symm
  refine ⟨⟨encodeUtf8 tail, encodeUtf8_ne_empty hne, hsplit⟩, ?_⟩
  exact not_recovers_of_torn reads_nil fresh_bytes CanonicalLedger.healthy_fresh
    (cancelCall_accepted "lost") hsplit (encodeUtf8_ne_empty hne)
    (encodeUtf8_ne_empty (List.cons_ne_nil _ _)) (List.cons_ne_nil _ _)

end LedgerFile

end QuantAgent.Domain
