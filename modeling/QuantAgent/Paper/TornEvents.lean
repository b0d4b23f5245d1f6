import QuantAgent.Domain.TamperEvidence
import QuantAgent.Paper.EventFile

/-!
# Torn events

The operational ledger survives a failed append exactly if what was written in vain is nothing, or
the last thing written and an event to its last brace.  A part of a line that stays in the file is
an error for every reader, and so is an event behind one without a line end.
-/

namespace QuantAgent.Paper.EventFile

open Library TextFile Domain TornLines

variable {N : Type}

theorem shown_shown (document : Json N) : shown (shown document) = shown document :=
  shown_of_plain (plain_shown document)

namespace Event

theorem shown_bodyMembers (event : Event N) :
    shown (.obj event.bodyMembers) = .obj event.printed.bodyMembers := by
  simp only [bodyMembers, shown, shownMembers, printed]

theorem shown_members (event : Event N) :
    shown (.obj event.members) = .obj event.printed.members := by
  simp only [members, bodyMembers, shown, shownMembers, printed]

theorem plain_printed (event : Event N) : (Json.obj event.printed.members).Plain := by
  rw [← shown_members]
  exact plain_shown _

theorem computeHash_printed [Sha256 N] (event : Event N) :
    event.printed.computeHash = event.computeHash := by
  rw [computeHash, computeHash, ← shown_bodyMembers, shown_shown]

theorem ofDict_members (event : Event N) : ofDict (.obj event.members) = some event := by
  have hnames : ∀ member ∈ event.members, member.1 ∈ fieldNames := by
    simp [members, bodyMembers, fieldNames]
  rw [ofDict, if_pos hnames]
  rfl

theorem text_printed [NumText N] (event : Event N) :
    ∃ tail, (Json.obj event.printed.members).text = '{' :: '"' :: 'e' :: tail :=
  ⟨_, rfl⟩

end Event

theorem keyLetter_e : Json.KeyLetter 'e' := ⟨rfl, by decide, by decide, by decide, by decide⟩

section Chains

variable [NumText N] [LedgerNumbers N] [Sha256 N]

variable {attempt : Attempt N}

omit [LedgerNumbers N] [Sha256 N] in
theorem Attempt.legible (h : attempt.reached ≠ some 0) :
    attempt.piece.Legible 'e' where
  plain := attempt.event.plain_printed
  starts := attempt.event.text_printed
  arrived := h

omit [NumText N] [LedgerNumbers N] [Sha256 N] in
theorem mapM_ofDict (events : List (Event N)) :
    (events.map fun event ↦ Json.obj event.members).mapM Event.ofDict = some events := by
  induction events with
  | nil => rfl
  | cons event rest ih =>
    rw [List.map_cons, List.mapM_cons, Event.ofDict_members, ih]
    rfl

inductive Chain : List (Event N) → Json N → Prop where
  | nil : Chain [] (.str genesisHash)
  | concat {events : List (Event N)} {head : Json N} {event : Event N} (before : Chain events head)
      (numbered : event.sequence = .num (Number.natCast events.length))
      (chained : event.previousHash = head) (digested : event.eventHash = .str event.computeHash) :
      Chain (events ++ [event]) event.eventHash

variable {events : List (Event N)} {head : Json N}

omit [NumText N] in
theorem Chain.exists_str (h : Chain events head) : ∃ text, head = .str text := by
  cases h with
  | nil => exact ⟨_, rfl⟩
  | concat _ _ _ digested => exact ⟨_, digested⟩

variable {before : List (Event N)}

omit [NumText N] in
theorem verifyFrom_append {previous : Json N} {checked count : ℕ}
    (h : verifyFrom previous checked before = .valid count head) (after : List (Event N)) :
    verifyFrom previous checked (before ++ after) = verifyFrom head count after := by
  induction before generalizing previous checked with
  | nil =>
    cases h
    rfl
  | cons event rest ih =>
    rw [verifyFrom] at h
    rw [List.cons_append, verifyFrom]
    split at h
    · cases h
    · rename_i hsequence
      rw [if_neg hsequence]
      split at h
      · cases h
      · rename_i hprevious
        rw [if_neg hprevious]
        split at h
        · cases h
        · rename_i hhash
          rw [if_neg hhash]
          exact ih h

omit [NumText N] [Sha256 N] in
theorem same_str (text : String) : Documents.same (.str text : Json N) (.str text) = true :=
  Documents.same_refl _ (by simp [Json.Plain]) (by simp [Json.Distinct])

omit [NumText N] [Sha256 N] in
theorem same_num (value : N) : Documents.same (.num value) (.num value) = true :=
  Documents.same_refl _ (by simp [Json.Plain]) (by simp [Json.Distinct])

omit [NumText N] in
theorem Chain.verify_eq (h : Chain events head) :
    verifyFrom (.str genesisHash) 0 events = .valid events.length head := by
  induction h with
  | nil => rfl
  | concat before numbered chained digested ih =>
    obtain ⟨text, htext⟩ := before.exists_str
    rw [verifyFrom_append ih, verifyFrom, numbered, chained, digested, htext]
    simp [same_str, same_num, verifyFrom]

omit [NumText N] [Sha256 N] in
theorem resumeFrom_append {first second : EventLedger N} (h : resumeFrom first before = some second)
    (after : List (Event N)) :
    resumeFrom first (before ++ after) = resumeFrom second after := by
  induction before generalizing first with
  | nil =>
    rw [resumeFrom] at h
    rw [List.nil_append, Option.some.inj h]
  | cons event rest ih =>
    rw [resumeFrom] at h
    obtain ⟨sequence, hsequence, hrest⟩ := Option.bind_eq_some_iff.mp h
    rw [List.cons_append, resumeFrom, hsequence]
    exact ih hrest

omit [NumText N] in
theorem Chain.resume_eq (h : Chain events head) :
    resumeFrom fresh events =
      some { sequence := .num (Number.natCast events.length), head } := by
  induction h with
  | nil => rfl
  | concat before numbered chained digested ih =>
    rw [resumeFrom_append ih, resumeFrom, numbered, LedgerNumbers.succ_natCast]
    simp [resumeFrom]

/-- What every history keeps: the file holds what arrived; and as long as it is tidy it holds a
chain, behind which the instance goes on while every line is whole. -/
structure Kept (world : World N) : Prop where
  file_eq : world.file.getD .empty = content (world.arrived.map Attempt.piece)
  absent : world.file = none → world.arrived = []
  chained : world.Tidy → ∃ head,
    Chain (world.arrived.map fun attempt ↦ attempt.event.printed) head ∧
    ∀ ledger ∈ world.ledger, (∀ attempt ∈ world.arrived, attempt.reached = none) →
      ledger = { sequence := .num (Number.natCast world.arrived.length), head }
  kept : (world.returned.map Event.printed).Sublist
    (world.arrived.map fun attempt ↦ attempt.event.printed)

variable {world later : World N}

omit [LedgerNumbers N] [Sha256 N] in
theorem legible_arrived :
    ∀ piece ∈ world.arrived.map Attempt.piece, piece.Legible 'e' := by
  intro piece hpiece
  obtain ⟨attempt, hattempt, rfl⟩ := List.mem_map.mp hpiece
  exact Attempt.legible (by simpa using (List.mem_filter.mp hattempt).2)

theorem Kept.read_eq (h : Kept world) (htidy : world.Tidy) :
    read world.file = some (world.arrived.map fun attempt ↦ attempt.event.printed) := by
  cases hfile : world.file with
  | none => rw [h.absent hfile, read, List.map_nil]
  | some bytes =>
    have hbytes : bytes = content (world.arrived.map Attempt.piece) := by
      have hcontent := h.file_eq
      rw [hfile, Option.getD_some] at hcontent
      exact hcontent
    have hobjects : (world.arrived.map Attempt.piece).map Piece.object =
        (world.arrived.map fun attempt ↦ attempt.event.printed).map
          fun event ↦ Json.obj event.members := by
      rw [List.map_map, List.map_map]
      rfl
    rw [read, hbytes, documents_of_sound legible_arrived htidy, hobjects, Option.bind_eq_bind,
      Option.bind_some, mapM_ofDict]

theorem Kept.read_eq_none (h : Kept world) (htidy : ¬ world.Tidy) :
    read world.file = (none : Option (List (Event N))) := by
  cases hfile : world.file with
  | none =>
    rw [World.Tidy, h.absent hfile] at htidy
    exact absurd trivial htidy
  | some bytes =>
    have hbytes : bytes = content (world.arrived.map Attempt.piece) := by
      have hcontent := h.file_eq
      rw [hfile, Option.getD_some] at hcontent
      exact hcontent
    rw [read, hbytes, documents_of_not_sound keyLetter_e legible_arrived htidy]
    rfl

theorem kept_empty : Kept (.empty : World N) where
  file_eq := rfl
  absent _ := rfl
  chained _ := ⟨_, .nil, fun ledger hledger ↦ by cases hledger⟩
  kept := List.Sublist.refl _

theorem Kept.reopen (h : Kept world) : Kept (world.step .reopen) where
  file_eq := h.file_eq
  absent := h.absent
  chained htidy := by
    obtain ⟨head, hchain, -⟩ := h.chained htidy
    refine ⟨head, hchain, ?_⟩
    intro ledger hledger _
    have hopened : openLedger world.file = some ledger := hledger
    rw [openLedger, h.read_eq htidy, Option.bind_some, hchain.resume_eq, List.length_map] at hopened
    exact (Option.some.inj hopened).symm
  kept := h.kept

variable {ledger : EventLedger N}

omit [NumText N] in
/-- The event an instance appends behind a chain goes on with it. -/
theorem Chain.next {events : List (Event N)} {head : Json N} (h : Chain events head)
    (request : Request N)
    (hledger : ledger = { sequence := .num (Number.natCast events.length), head }) :
    Chain (events ++ [(ledger.nextEvent request).printed])
      (ledger.nextEvent request).eventHash := by
  obtain ⟨text, htext⟩ := h.exists_str
  have hhash : (ledger.nextEvent request).printed.eventHash =
      (ledger.nextEvent request).eventHash := shown_str _
  rw [← hhash]
  refine h.concat ?_ ?_ ?_
  · rw [hledger]
    exact shown_num _
  · rw [hledger, htext]
    exact shown_str _
  · rw [Event.computeHash_printed, hhash]
    rfl

/-- The world behind an append that came to its write. -/
structure Written (world later : World N) (ledger : EventLedger N) (attempt : Attempt N) :
    Prop where
  file_eq : later.file = some (world.file.getD .empty ++ attempt.piece.bytes)
  attempts_eq : later.attempts = world.attempts ++ [attempt]
  stopped : attempt.reached ≠ none →
    later.returned = world.returned ∧ ∀ after ∈ later.ledger, after = ledger
  whole : attempt.reached = none → later.returned = world.returned ++ [attempt.event] ∨
    later.returned = world.returned
  moved : attempt.reached = none → ∀ count, ledger.sequence = .num (Number.natCast count) →
    ∀ after ∈ later.ledger,
      after = { sequence := .num (Number.natCast (count + 1)), head := attempt.event.eventHash }

theorem step_append_cases (world : World N) (request : Request N) (disk : Disk) :
    (∀ ledger ∈ (world.step (.append request disk)).ledger, ledger ∈ world.ledger) ∧
        (world.step (.append request disk)).file = world.file ∧
        (world.step (.append request disk)).attempts = world.attempts ∧
        (world.step (.append request disk)).returned = world.returned ∨
      ∃ ledger ∈ world.ledger,
        Written world (world.step (.append request disk)) ledger
          { event := ledger.nextEvent request, reached := disk.reached } := by
  cases hledger : world.ledger with
  | none =>
    have hstep : world.step (.append request disk) = world := by rw [World.step, hledger]
    rw [hstep, hledger]
    exact Or.inl ⟨fun _ h ↦ h, rfl, rfl, rfl⟩
  | some ledger =>
    by_cases hknown : request.eventType ∈ eventTypes
    · refine Or.inr ⟨ledger, rfl, ?_⟩
      have hnot := not_not.mpr hknown
      cases disk with
      | breaks reached survives =>
        have hstep : world.step (.append request (.breaks reached survives)) =
            { file := some (world.file.getD .empty ++ (Attempt.piece
                { event := ledger.nextEvent request, reached := some reached }).bytes)
              ledger := if survives then some ledger else none
              attempts := world.attempts ++
                [{ event := ledger.nextEvent request, reached := some reached }]
              returned := world.returned } := by
          simp only [World.step, hledger, append, if_neg hnot, Disk.reached, Disk.keeps]
          simp [Except.toOption]
        rw [hstep]
        refine ⟨rfl, rfl, fun _ ↦ ⟨rfl, ?_⟩, fun h ↦ absurd h (Option.some_ne_none _),
          fun h ↦ absurd h (Option.some_ne_none _)⟩
        intro after hafter
        cases survives with
        | true => exact (Option.some.inj hafter).symm
        | false => cases hafter
      | works =>
        cases hsucc : LedgerNumbers.succ ledger.sequence with
        | none =>
          have hstep : world.step (.append request .works) =
              { file := some (world.file.getD .empty ++ (Attempt.piece
                  { event := ledger.nextEvent request, reached := none }).bytes)
                ledger := some ledger
                attempts := world.attempts ++
                  [{ event := ledger.nextEvent request, reached := none }]
                returned := world.returned } := by
            simp only [World.step, hledger, append, if_neg hnot, Disk.reached, Disk.keeps, hsucc]
            simp [Except.toOption]
          rw [hstep]
          refine ⟨rfl, rfl, fun h ↦ absurd rfl h, fun _ ↦ Or.inr rfl, ?_⟩
          intro _ count hcount
          rw [hcount, LedgerNumbers.succ_natCast] at hsucc
          cases hsucc
        | some sequence =>
          have hstep : world.step (.append request .works) =
              { file := some (world.file.getD .empty ++ (Attempt.piece
                  { event := ledger.nextEvent request, reached := none }).bytes)
                ledger := some
                  { sequence, head := (ledger.nextEvent request).eventHash }
                attempts := world.attempts ++
                  [{ event := ledger.nextEvent request, reached := none }]
                returned := world.returned ++ [ledger.nextEvent request] } := by
            simp only [World.step, hledger, append, if_neg hnot, Disk.reached, Disk.keeps, hsucc]
            simp [Except.toOption]
          rw [hstep]
          refine ⟨rfl, rfl, fun h ↦ absurd rfl h, fun _ ↦ Or.inl rfl, ?_⟩
          intro _ count hcount after hafter
          rw [hcount, LedgerNumbers.succ_natCast] at hsucc
          rw [← Option.some.inj hafter, Option.some.inj hsucc]
    · have hstep : world.step (.append request disk) =
          { world with ledger := if disk.keeps then some ledger else none } := by
        simp only [World.step, hledger, append, if_pos hknown]
        simp [Except.toOption]
      rw [hstep]
      refine Or.inl ⟨?_, rfl, rfl, rfl⟩
      intro after hafter
      cases hkeeps : disk.keeps with
      | true => simpa [hkeeps] using hafter
      | false => simp [hkeeps] at hafter

/-- A write of which nothing arrived leaves everything as it was. -/
theorem Kept.silent (h : Kept world) (hledger : ledger ∈ world.ledger)
    (hwritten : Written world later ledger attempt) (hnothing : attempt.reached = some 0) :
    Kept later := by
  have harrived : later.arrived = world.arrived := by
    rw [World.arrived, hwritten.attempts_eq, List.filter_append]
    simp [World.arrived, hnothing]
  have hbytes : attempt.piece.bytes = .empty := by
    have hreached : attempt.piece.reached = some 0 := hnothing
    rw [Piece.bytes, hreached]
    exact ByteArray.extract_same
  obtain ⟨hreturned, hsame⟩ := hwritten.stopped (by rw [hnothing]; exact Option.some_ne_none 0)
  refine ⟨?_, ?_, ?_, ?_⟩
  · rw [hwritten.file_eq, harrived, Option.getD_some, hbytes, ByteArray.append_empty]
    exact h.file_eq
  · intro hfile
    rw [hwritten.file_eq] at hfile
    cases hfile
  · intro htidy
    rw [World.Tidy, harrived] at htidy
    obtain ⟨head, hchain, hnext⟩ := h.chained htidy
    rw [harrived]
    refine ⟨head, hchain, ?_⟩
    intro after hafter hwhole
    rw [hsame after hafter]
    exact hnext ledger hledger hwhole
  · rw [hreturned, harrived]
    exact h.kept

/-- A write of which something arrived, behind whole lines only or never read again. -/
theorem Kept.written {request : Request N} {reached : Option ℕ} (h : Kept world)
    (hledger : ledger ∈ world.ledger)
    (hwritten : Written world later ledger { event := ledger.nextEvent request, reached })
    (hsomething : reached ≠ some 0) : Kept later := by
  have harrived : later.arrived =
      world.arrived ++ [{ event := ledger.nextEvent request, reached }] := by
    rw [World.arrived, hwritten.attempts_eq, List.filter_append]
    simp [World.arrived, hsomething]
  refine ⟨?_, ?_, ?_, ?_⟩
  · rw [hwritten.file_eq, harrived, Option.getD_some, List.map_append, content_append, h.file_eq]
    simp [content]
  · intro hfile
    rw [hwritten.file_eq] at hfile
    cases hfile
  · intro htidy
    rw [World.Tidy, harrived, List.map_append, List.map_singleton, sound_concat] at htidy
    have hwhole : ∀ attempt ∈ world.arrived, attempt.reached = none := by
      intro attempt hattempt
      exact htidy.1 _ (List.mem_map_of_mem hattempt)
    have hbefore := sound_of_whole htidy.1
    obtain ⟨head, hchain, hnext⟩ := h.chained hbefore
    have hstate := hnext ledger hledger hwhole
    have hlength : (world.arrived.map fun attempt ↦ attempt.event.printed).length =
      world.arrived.length := List.length_map _
    refine ⟨(ledger.nextEvent request).eventHash, ?_, ?_⟩
    · rw [harrived, List.map_append, List.map_singleton]
      exact hchain.next request (hlength ▸ hstate)
    · intro after hafter hall
      have hlast : { event := ledger.nextEvent request, reached } ∈ later.arrived := by
        rw [harrived]
        exact List.mem_append_right _ (List.mem_singleton_self _)
      have hnone := hall _ hlast
      have hsequence : ledger.sequence = .num (Number.natCast world.arrived.length) := by
        rw [hstate]
      rw [hwritten.moved hnone _ hsequence after hafter, harrived, List.length_append,
        List.length_singleton]
  · rw [harrived, List.map_append, List.map_singleton]
    cases reached with
    | none =>
      rcases hwritten.whole rfl with hreturned | hreturned
      · rw [hreturned, List.map_append, List.map_singleton]
        exact h.kept.append (List.Sublist.refl _)
      · rw [hreturned]
        exact h.kept.trans (List.sublist_append_left _ _)
    | some reached =>
      rw [(hwritten.stopped (Option.some_ne_none _)).1]
      exact h.kept.trans (List.sublist_append_left _ _)

/-- Every step keeps the file and the instance together. -/
theorem Kept.step (h : Kept world) (step : Step N) : Kept (world.step step) := by
  cases step with
  | reopen => exact h.reopen
  | append request disk =>
    rcases step_append_cases world request disk with
      ⟨hledger, hfile, hattempts, hreturned⟩ | ⟨ledger, hledger, hwritten⟩
    · have harrived : (world.step (.append request disk)).arrived = world.arrived := by
        rw [World.arrived, World.arrived, hattempts]
      refine ⟨?_, ?_, ?_, ?_⟩
      · rw [hfile, harrived]
        exact h.file_eq
      · rw [hfile, harrived]
        exact h.absent
      · intro htidy
        rw [World.Tidy, harrived] at htidy
        obtain ⟨head, hchain, hnext⟩ := h.chained htidy
        rw [harrived]
        exact ⟨head, hchain, fun after hafter ↦ hnext after (hledger after hafter)⟩
      · rw [hreturned, harrived]
        exact h.kept
    · by_cases hnothing : disk.reached = some 0
      · exact h.silent hledger hwritten hnothing
      · exact h.written hledger hwritten hnothing

theorem kept_run (steps : List (Step N)) : Kept (run steps) := by
  have hfold : ∀ world : World N, Kept world → Kept (steps.foldl World.step world) := by
    induction steps with
    | nil => exact fun world h ↦ h
    | cons step rest ih => exact fun world h ↦ ih _ (h.step step)
  exact hfold _ kept_empty

/-- The ledger survives a history exactly if every line that arrived is whole, but that the last may
lack its line end. -/
theorem survives_iff (steps : List (Step N)) : (run steps).Survives ↔ (run steps).Tidy := by
  have h := kept_run steps
  constructor
  · rintro ⟨-, events, hread, -⟩
    by_contra htidy
    rw [h.read_eq_none htidy] at hread
    cases hread
  · intro htidy
    obtain ⟨head, hchain, -⟩ := h.chained htidy
    have hread := h.read_eq htidy
    refine ⟨?_, _, hread, h.kept, ?_⟩
    · rw [openLedger, hread, Option.bind_some, hchain.resume_eq]
      rfl
    · rw [verify, hread, Option.map_some, hchain.verify_eq]
      exact ⟨_, head, rfl⟩

end Chains

/-- The kill switch is triggered, and the next append breaks off behind one byte. -/
def tornKillSwitch : List (Step PyNumber) :=
  let request (eventType eventId : String) : Request PyNumber := {
    eventType
    runId := "run"
    portfolioId := "portfolio"
    payload := none
    symbol := none
    strategyId := none
    marketTime := none
    eventId
    eventTime := "2024-01-02T01:30:00.000000+00:00" }
  [.reopen, .append (request "KILL_SWITCH_TRIGGERED" "first") .works,
    .append (request "ORDER_CREATED" "second") (.breaks 1 true)]

theorem not_printed_of_byte [NumText N] (event : Event N) :
    ¬ (Attempt.piece { event, reached := some 1 }).Printed := by
  intro h
  obtain ⟨tail, htail⟩ := event.text_printed
  have hsize := h 1 rfl
  have hstart : encodeUtf8 (Attempt.piece { event, reached := some 1 }).object.text =
      encodeUtf8 ['{', '"'] ++ encodeUtf8 ('e' :: tail) := by
    rw [← encodeUtf8_append]
    exact congrArg encodeUtf8 htail
  have htwo : (encodeUtf8 ['{', '"']).size = 2 := by decide
  rw [hstart, ByteArray.size_append] at hsize
  omega

theorem not_survives : ¬ ∀ steps : List (Step PyNumber), (run steps).Survives := by
  intro h
  obtain ⟨-, events, hread, -⟩ := h tornKillSwitch
  have harrived : ∃ first second : Event PyNumber, (run tornKillSwitch).arrived =
      [{ event := first, reached := none }, { event := second, reached := some 1 }] :=
    ⟨_, _, rfl⟩
  have htidy : ¬ (run tornKillSwitch).Tidy := by
    obtain ⟨first, second, harrived⟩ := harrived
    rw [World.Tidy, harrived]
    rintro ⟨-, ⟨hnone | ⟨-, hprinted⟩, -⟩⟩
    · cases hnone
    · exact not_printed_of_byte second hprinted
  rw [(kept_run tornKillSwitch).read_eq_none htidy] at hread
  cases hread

end QuantAgent.Paper.EventFile
