import QuantAgent.Library.Outcome
import QuantAgent.Services.JobLog

/-!
# Polled and fed logs

The record after successive readings of a log against the record after its complete lines one by
one.  A reading goes by the events of its lines: the last verdict and the last progress replace what
the record had, and the stages are entered as the places a walk is seen at.
-/

namespace QuantAgent.Services

open Library Library.TextFile
open Domain (Number)

variable {N : Type} [LogNumber N]

def lineEvent (line : List Char) : Except LineError (Option (LogEvent N)) :=
  if strip line = [] then .ok none else parseEventLine (strip line)

def lineEvents : List (List Char) → Except LineError (List (LogEvent N))
  | [] => .ok []
  | line :: rest => do
      let event ← lineEvent line
      let events ← lineEvents rest
      return event.toList ++ events

def chunkEvents : List (List Char) → Except LineError (List (List (LogEvent N)))
  | [] => .ok []
  | chunk :: rest => do
      let events ← lineEvents (splitLines (universalNewlines chunk))
      let later ← chunkEvents rest
      return events :: later

def stageNames (events : List (LogEvent N)) : List String :=
  events.filterMap LogEvent.named

def lastVerdict (events : List (LogEvent N)) : Option (Json N) :=
  (events.filterMap LogEvent.verdict).getLast?

def lastProgress (events : List (LogEvent N)) : Option N :=
  (events.filterMap LogEvent.progress).getLast?

def declaredVerdict (line : List Char) : Option (Json N) :=
  match (Json.loads (strip line) : Option (Json N)) with
  | some (.obj members) =>
    if hasTerminalVerdict (.obj members : Json N) = .ok true then some (.obj members) else none
  | _ => none

/-- The payload of the last line that carries a terminal verdict. -/
def lastDeclared (lines : List (List Char)) : Option (Json N) :=
  (lines.filterMap declaredVerdict).getLast?

theorem getLast?_filterMap_concat {α β : Type} (f : α → Option β) (earlier : List α) (last : α) :
    ((earlier ++ [last]).filterMap f).getLast? =
      (f last).or (earlier.filterMap f).getLast? := by
  rw [List.filterMap_append]
  cases h : f last <;> simp [h]

variable {line chunk : List Char} {rest lines : List (List Char)}

variable {events : List (LogEvent N)}

theorem lineEvents_cons_ok (h : lineEvents (line :: rest) = .ok events) :
    ∃ event later, lineEvent line = .ok event ∧ lineEvents rest = .ok later ∧
      events = event.toList ++ later := by
  obtain ⟨event, hevent, h⟩ := exists_of_bind_ok h
  obtain ⟨later, hlater, h⟩ := exists_of_bind_ok h
  exact ⟨event, later, hevent, hlater, (Except.ok.inj h).symm⟩

variable {error : LineError}

/-- The first of some lines raises, or a later one does. -/
theorem lineEvents_cons_error
    (h : (lineEvents (line :: rest) : Except LineError (List (LogEvent N))) = .error error) :
    (lineEvent line : Except LineError (Option (LogEvent N))) = .error error ∨
      ∃ event : Option (LogEvent N), lineEvent line = .ok event ∧
        (lineEvents rest : Except LineError (List (LogEvent N))) = .error error := by
  refine (exists_of_bind_error h).imp_right fun hrest ↦ ?_
  obtain ⟨event, hevent, h⟩ := hrest
  rcases exists_of_bind_error h with hlater | ⟨later, hlater, h⟩
  · exact ⟨event, hevent, hlater⟩
  · cases h

/-- What naming places does to the entries before it puts a new one forward. -/
def touched (book : List (String × Bool)) (names : List String) : List (String × Bool) :=
  match book.getLast? with
  | none => book
  | some (last, left) => book.dropLast ++ [(last, left || names.any fun name ↦ name ≠ last)]

theorem touched_nil (book : List (String × Bool)) : touched book [] = book := by
  unfold touched
  cases h : book.getLast? with
  | none => rfl
  | some entry =>
    obtain ⟨earlier, rfl⟩ := List.getLast?_eq_some_iff.mp h
    simp

/-- The stages in order, each with whether it is marked completed. -/
def marksOf (stages : List (Stage N)) : List (String × Bool) :=
  stages.map fun stage ↦ (stage.id, stage.completedAt.isSome)

omit [LogNumber N] in
/-- One more stage that the events of a reading name. -/
theorem marksOf_advanceStage {stages : List (Stage N)} {book : List (String × Bool)}
    {names : List String} (h : marksOf stages = touched book names) (now stage message : String)
    (progress : Option N) :
    marksOf (advanceStage stages now stage message progress).1 = touched book (names ++ [stage]) ∧
      marksOf (advanceStage stages now stage message progress).2 =
        enter book (names ++ [stage]) := by
  cases book using List.reverseRecOn with
  | nil =>
    obtain rfl := List.map_eq_nil_iff.mp h
    simp [advanceStage, marksOf, touched, enter]
  | append_singleton earlier entry =>
    obtain ⟨last, left⟩ := entry
    have htouched : marksOf stages =
        earlier ++ [(last, left || names.any fun name ↦ name ≠ last)] := by
      rw [h]
      simp [touched]
    obtain ⟨before, current, rfl, hbefore, hcurrent⟩ := List.map_eq_append_iff.mp htouched
    obtain ⟨row, rfl, hrow⟩ := List.map_eq_singleton_iff.mp hcurrent
    obtain ⟨hid, hmark⟩ := Prod.mk.inj hrow
    have hearlier := hbefore
    by_cases hstage : row.id = stage
    · have hlast := hid ▸ hstage
      simp [advanceStage, marksOf, touched, enter, hstage, hlast] at hmark hearlier ⊢
      simp [hmark, hearlier]
    · have hlast : last ≠ stage := hid ▸ hstage
      have hlast' := hlast.symm
      simp [advanceStage, marksOf, touched, enter, hlast, hlast', hid] at hearlier ⊢
      simp [hearlier]

/-- A reading of a record that has come past some events. -/
structure Past (record : JobRecord N) (events : List (LogEvent N))
    (state : JobRecord N × Changes N) : Prop where
  oldVerdict : state.1.verdict = record.verdict
  oldProgress : state.1.progress = record.progress
  verdict : state.2.verdict = lastVerdict events
  progress : state.2.progress = lastProgress events
  touched : marksOf state.1.stages = touched (marksOf record.stages) (stageNames events)
  stages : marksOf (state.2.stages.getD state.1.stages) =
    enter (marksOf record.stages) (stageNames events)

omit [LogNumber N] in
theorem past_start (record : JobRecord N) : Past record [] (record, .empty) where
  oldVerdict := rfl
  oldProgress := rfl
  verdict := rfl
  progress := rfl
  touched := (touched_nil _).symm
  stages := (enter_nil _).symm

namespace Past

variable {record : JobRecord N} {events : List (LogEvent N)} {state : JobRecord N × Changes N}

section

omit [LogNumber N]

theorem lastText (h : Past record events state) (text : List Char) :
    Past record events (state.1, { state.2 with lastText := text }) :=
  ⟨h.oldVerdict, h.oldProgress, h.verdict, h.progress, h.touched, h.stages⟩

theorem takeEvent (h : Past record events state) (now : String) (event : LogEvent N) :
    Past record (events ++ [event]) (JobRecord.takeEvent now state event) := by
  have hverdict : lastVerdict (events ++ [event]) = event.verdict.or state.2.verdict := by
    rw [lastVerdict, getLast?_filterMap_concat, h.verdict]
    rfl
  have hprogress : lastProgress (events ++ [event]) = event.progress.or state.2.progress := by
    rw [lastProgress, getLast?_filterMap_concat, h.progress]
    rfl
  unfold JobRecord.takeEvent
  cases hnamed : event.named with
  | none =>
    have hnames : stageNames (events ++ [event]) = stageNames events := by
      simp [stageNames, hnamed]
    exact ⟨h.oldVerdict, h.oldProgress, hverdict.symm, hprogress.symm, hnames ▸ h.touched,
      hnames ▸ h.stages⟩
  | some stage =>
    have hnames : stageNames (events ++ [event]) = stageNames events ++ [stage] := by
      simp [stageNames, hnamed]
    obtain ⟨htouched, hstages⟩ := marksOf_advanceStage h.touched now stage
      (event.message.getD "") event.progress
    exact ⟨h.oldVerdict, h.oldProgress, hverdict.symm, hprogress.symm, hnames ▸ htouched,
      hnames ▸ hstages⟩

end

theorem drainLines (h : Past record events state) (now : String) {lines : List (List Char)}
    {more : List (LogEvent N)} (hlines : lineEvents lines = .ok more) :
    ∃ after, JobRecord.drainLines now state lines = (after, .ok ()) ∧
      Past record (events ++ more) after := by
  induction lines generalizing events state more with
  | nil =>
    cases hlines
    exact ⟨state, rfl, by rwa [List.append_nil]⟩
  | cons line rest ih =>
    obtain ⟨event, later, hevent, hrest, rfl⟩ := lineEvents_cons_ok hlines
    unfold lineEvent at hevent
    unfold JobRecord.drainLines
    split at hevent
    · rename_i hblank
      cases hevent
      rw [if_pos hblank]
      exact ih h hrest
    · rename_i hblank
      rw [if_neg hblank, hevent]
      cases event with
      | none => exact ih (h.lastText _) hrest
      | some event =>
        rw [← List.append_assoc]
        exact ih ((h.lastText _).takeEvent now event) hrest

end Past

theorem drainLines_error (now : String) (state : JobRecord N × Changes N)
    (hlines : (lineEvents lines : Except LineError (List (LogEvent N))) = .error error) :
    (JobRecord.drainLines now state lines).2 = .error error := by
  induction lines generalizing state with
  | nil => cases hlines
  | cons line rest ih =>
    unfold JobRecord.drainLines
    rcases lineEvents_cons_error hlines with hevent | ⟨event, hevent, hrest⟩
    · unfold lineEvent at hevent
      split at hevent
      · cases hevent
      · rename_i hblank
        rw [if_neg hblank, hevent]
    · unfold lineEvent at hevent
      split at hevent
      · rename_i hblank
        rw [if_pos hblank]
        exact ih _ hrest
      · rename_i hblank
        rw [if_neg hblank, hevent]
        cases event with
        | none => exact ih _ hrest
        | some event => exact ih _ hrest

structure Shows (record : JobRecord N) (verdict : Option (Json N)) (progress : Option N)
    (marks : List (String × Bool)) : Prop where
  verdict : record.verdict = verdict
  progress : record.progress = progress
  marks : marksOf record.stages = marks

variable {record : JobRecord N}

variable {verdict : Option (Json N)} {progress : Option N} {marks : List (String × Bool)}

theorem drainLog_of_events (h : Shows record verdict progress marks) (now : String)
    (hevents : lineEvents (splitLines (universalNewlines chunk)) = .ok events) :
    ∃ after, record.drainLog now chunk = (after, .ok ()) ∧
      Shows after ((lastVerdict events).or verdict) ((lastProgress events).or progress)
        (enter marks (stageNames events)) := by
  unfold JobRecord.drainLog
  split
  · rename_i hchunk
    subst hchunk
    obtain rfl : [] = events := Except.ok.inj hevents
    exact ⟨record, rfl, h⟩
  · obtain ⟨⟨before, changes⟩, hdrain, hpast⟩ := (past_start record).drainLines now hevents
    rw [hdrain]
    refine ⟨before.found now changes, rfl, ?_, ?_, ?_⟩
    · simp only [JobRecord.found]
      rw [hpast.verdict, hpast.oldVerdict, h.verdict]
      rfl
    · simp only [JobRecord.found]
      rw [hpast.progress, hpast.oldProgress, h.progress]
      rfl
    · rw [← h.marks]
      exact hpast.stages

theorem drainLog_error (record : JobRecord N) (now : String)
    (h : (lineEvents (splitLines (universalNewlines chunk)) : Except LineError (List (LogEvent N)))
      = .error error) :
    (record.drainLog now chunk).2 = .error error := by
  have hdrain := drainLines_error now (record, .empty) h
  unfold JobRecord.drainLog
  split
  · rename_i hchunk
    subst hchunk
    cases h
  · split
    · rename_i hlines
      rw [hlines] at hdrain
      exact hdrain
    · rename_i hlines
      rw [hlines] at hdrain
      cases hdrain

section

omit [LogNumber N]

theorem lastVerdict_append (earlier later : List (LogEvent N)) :
    lastVerdict (earlier ++ later) = (lastVerdict later).or (lastVerdict earlier) := by
  simp [lastVerdict, List.getLast?_append]

theorem lastProgress_append (earlier later : List (LogEvent N)) :
    lastProgress (earlier ++ later) = (lastProgress later).or (lastProgress earlier) := by
  simp [lastProgress, List.getLast?_append]

end

variable {polled single : List (List (LogEvent N))}

theorem chunkEvents_cons_ok (h : chunkEvents (chunk :: rest) = .ok polled) :
    ∃ events later, lineEvents (splitLines (universalNewlines chunk)) = .ok events ∧
      chunkEvents rest = .ok later ∧ polled = events :: later := by
  obtain ⟨events, hevents, h⟩ := exists_of_bind_ok h
  obtain ⟨later, hlater, h⟩ := exists_of_bind_ok h
  exact ⟨events, later, hevents, hlater, (Except.ok.inj h).symm⟩

variable {readings : List Reading}

theorem readAll_of_events (h : Shows record verdict progress marks)
    (hpolled : chunkEvents (readings.map Reading.chunk) = .ok polled) :
    ∃ after, record.readAll readings = (after, .ok ()) ∧
      Shows after ((lastVerdict polled.flatten).or verdict)
        ((lastProgress polled.flatten).or progress)
        ((polled.map stageNames).foldl enter marks) := by
  induction readings generalizing record verdict progress marks polled with
  | nil =>
    cases hpolled
    exact ⟨record, rfl, h⟩
  | cons reading rest ih =>
    obtain ⟨events, later, hevents, hlater, rfl⟩ := chunkEvents_cons_ok hpolled
    obtain ⟨between, hdrain, hbetween⟩ := drainLog_of_events h reading.now hevents
    obtain ⟨after, hread, hafter⟩ := ih hbetween hlater
    refine ⟨after, ?_, ?_⟩
    · rw [JobRecord.readAll, hdrain]
      exact hread
    · rw [List.flatten_cons, lastVerdict_append, lastProgress_append, Option.or_assoc,
        Option.or_assoc]
      exact hafter

theorem exists_chunkEvents {after : JobRecord N} (h : record.readAll readings = (after, .ok ())) :
    ∃ polled : List (List (LogEvent N)), chunkEvents (readings.map Reading.chunk) = .ok polled := by
  induction readings generalizing record with
  | nil => exact ⟨[], rfl⟩
  | cons reading rest ih =>
    unfold JobRecord.readAll at h
    cases hevents : (lineEvents (splitLines (universalNewlines reading.chunk)) :
        Except LineError (List (LogEvent N))) with
    | error error =>
      have herror := drainLog_error record reading.now hevents
      split at h
      · rename_i hdrain
        rw [hdrain] at herror
        cases herror
      · cases h
    | ok events =>
      split at h
      · obtain ⟨polled, hpolled⟩ := ih h
        refine ⟨events :: polled, ?_⟩
        rw [List.map_cons, chunkEvents, hevents, hpolled]
        rfl
      · cases h

theorem no_boundary_of_mem_completeLines {text : List Char} (h : line ∈ completeLines text) :
    ∀ c ∈ line, isLineBoundary c = false := by
  have hmem : line ∈ splitLines (universalNewlines text) := by
    simp only [completeLines] at h
    split at h
    · exact h
    · exact List.dropLast_subset _ h
  exact no_boundary_of_mem_splitLinesFrom (by simp) line hmem

theorem splitLines_fed (h : ∀ c ∈ line, isLineBoundary c = false) :
    splitLines (universalNewlines (line ++ ['\n'])) = [line] := by
  have hreturn : '\r' ∉ line ++ ['\n'] := by
    intro hmem
    rcases List.mem_append.mp hmem with hmem | hmem
    · exact absurd (h _ hmem) (by decide)
    · exact absurd hmem (by decide)
  rw [universalNewlines_of_no_return hreturn, splitLines_boundary h (by decide) (by decide)]
  rfl

def feed (now : String) (lines : List (List Char)) : List Reading :=
  lines.map fun line ↦ ⟨now, line ++ ['\n']⟩

theorem chunkEvents_feed {fed : List (LogEvent N)} (now : String)
    (hlines : ∀ line ∈ lines, ∀ c ∈ line, isLineBoundary c = false)
    (h : lineEvents lines = .ok fed) :
    ∃ single : List (List (LogEvent N)), chunkEvents ((feed now lines).map Reading.chunk) =
        .ok single ∧ single.flatten = fed ∧ ∀ events ∈ single, events.length ≤ 1 := by
  induction lines generalizing fed with
  | nil =>
    cases h
    exact ⟨[], rfl, rfl, by simp⟩
  | cons line rest ih =>
    obtain ⟨event, later, hevent, hrest, rfl⟩ := lineEvents_cons_ok h
    obtain ⟨single, hsingle, rfl, hshort⟩ :=
      ih (fun other hother ↦ hlines other (List.mem_cons_of_mem _ hother)) hrest
    have hone : lineEvents [line] = .ok event.toList := by
      simp only [lineEvents, hevent]
      exact congrArg Except.ok (List.append_nil _)
    refine ⟨event.toList :: single, ?_, rfl, ?_⟩
    · rw [feed, List.map_cons, List.map_cons, chunkEvents,
        splitLines_fed (hlines line List.mem_cons_self), hone]
      exact congrArg (fun later ↦ later.bind fun later ↦ .ok (event.toList :: later)) hsingle
    · intro events hevents
      rcases List.mem_cons.mp hevents with rfl | hevents
      · cases event <;> simp
      · exact hshort events hevents

theorem exists_lineEvents {now : String}
    (hlines : ∀ line ∈ lines, ∀ c ∈ line, isLineBoundary c = false)
    (h : chunkEvents ((feed now lines).map Reading.chunk) = .ok single) :
    ∃ fed : List (LogEvent N), lineEvents lines = .ok fed := by
  induction lines generalizing single with
  | nil => exact ⟨[], rfl⟩
  | cons line rest ih =>
    obtain ⟨events, later, hevents, hlater, rfl⟩ := chunkEvents_cons_ok h
    obtain ⟨fed, hfed⟩ := ih (fun other hother ↦ hlines other (List.mem_cons_of_mem _ hother)) hlater
    rw [splitLines_fed (hlines line List.mem_cons_self)] at hevents
    obtain ⟨event, none, hevent, -, rfl⟩ := lineEvents_cons_ok hevents
    refine ⟨event.toList ++ fed, ?_⟩
    rw [lineEvents, hevent, hfed]
    rfl

def logText (readings : List Reading) : List Char :=
  (readings.map Reading.chunk).flatten

variable (N) in
/-- The record of a job whose process runs and whose log is still empty. -/
def launched (startedAt : String) (pid : ℤ) : JobRecord N :=
  (JobRecord.submitted.starting startedAt).running startedAt pid

/-- The readings leave the record with what its complete lines leave it with one by one, and with
the verdict that the last of them that carries one declares. -/
def PolledAsFed (record : JobRecord N) (readings : List Reading) (now : String) : Prop :=
  ∃ polled fed, record.readAll readings = (polled, .ok ()) ∧
    record.readAll (feed now (completeLines (logText readings))) = (fed, .ok ()) ∧
    polled.verdict = fed.verdict ∧
    polled.verdict = lastDeclared (completeLines (logText readings)) ∧
    polled.progress = fed.progress ∧ marksOf polled.stages = marksOf fed.stages

/-- The events `polled` of the readings tell what the events `fed` of the complete lines tell: the
last verdict is the one that is declared, the last progress is the same, and the stages at which the
readings end are, stays counted once, all the stages, none of them left and come back to at last. -/
structure Tells (readings : List Reading) (polled : List (List (LogEvent N)))
    (fed : List (LogEvent N)) : Prop where
  read : chunkEvents (readings.map Reading.chunk) = .ok polled
  written : lineEvents (completeLines (logText readings)) = .ok fed
  verdict : lastVerdict polled.flatten = lastDeclared (completeLines (logText readings))
  declared : lastVerdict fed = lastDeclared (completeLines (logText readings))
  progress : (lastProgress polled.flatten).getD Number.zero =
    (lastProgress fed).getD Number.zero
  trail : trail (sightings (polled.map stageNames)) = trail (stageNames fed)
  settled : Settled (polled.map stageNames)

theorem shows_launched (startedAt : String) (pid : ℤ) :
    Shows (launched N startedAt pid) none (some Number.zero) [] :=
  ⟨rfl, rfl, rfl⟩

section

omit [LogNumber N]

theorem or_some_eq (found : Option N) (zero : N) : found.or (some zero) = some (found.getD zero) := by
  cases found <;> rfl

theorem stageNames_flatten (single : List (List (LogEvent N))) :
    (single.map stageNames).flatten = stageNames single.flatten := by
  induction single with
  | nil => rfl
  | cons events single ih =>
    rw [List.map_cons, List.flatten_cons, ih, List.flatten_cons, stageNames, stageNames,
      stageNames, List.filterMap_append]

/-- What is entered line by line is the trail of the stages, the last one open. -/
theorem foldl_enter_single (h : ∀ events ∈ single, events.length ≤ 1) :
    (single.map stageNames).foldl enter [] =
      entries (trail (stageNames single.flatten)) false := by
  have hshort : ∀ names ∈ single.map stageNames, names.length ≤ 1 := by
    intro names hnames
    obtain ⟨events, hevents, rfl⟩ := List.mem_map.mp hnames
    exact (List.length_filterMap_le _ _).trans (h events hevents)
  obtain ⟨left, hbook, hleft⟩ := exists_foldl_enter (single.map stageNames)
  rw [hbook, hleft.mpr (settled_of_singletons hshort), sightings_of_singletons hshort,
    stageNames_flatten]

end

def twoStages : List Reading :=
  [⟨"2026-01-05T09:00:01+00:00",
    "\x7b\"stage\": \"dataset\"\x7d\n\x7b\"stage\": \"training\"\x7d\n".toList⟩]

end QuantAgent.Services
