import Mathlib.Data.List.Induction
import Mathlib.Tactic.NormNum
import QuantAgent.Library.DictSteps
import QuantAgent.Library.Run

/-!
# Ages of positions

The registry that says since when a name is held and for how many sessions, and that locks a name
until its horizon is over.  It agrees with the runs of sessions in which the name was really held
as long as every name it holds is listed in each session, no weight is lost in the tolerance, and
the days since the entry reach a horizon exactly when the sessions do.
-/

namespace QuantAgent.Portfolio

open Library

/-- `MAX_EXPECTED_HORIZON_DAYS`. -/
def maxExpectedHorizonDays : ℤ := 126

/-- A horizon that `_validated_horizon_days` lets through. -/
structure HorizonDays where
  days : ℤ
  inContract : 1 ≤ days ∧ days ≤ maxExpectedHorizonDays

def dayLength : ℤ := 86400 * 10 ^ 9

/-- `(last - first).days` of two timestamps in nanoseconds. -/
def daysBetween (first last : ℤ) : ℤ := (last - first) / dayLength

/-- A weight below which a position counts as closed. -/
def closedWeight : ℚ := 1 / 10 ^ 9

theorem closedWeight_pos : 0 < closedWeight := by norm_num [closedWeight]

structure PositionRecord where
  symbol : String
  entryDate : Option ℤ
  lastSeen : Option ℤ
  weight : ℚ
  expectedHorizonDays : Option ℤ
  daysHeld : ℤ

/-- The arguments of `record_session`. -/
structure Session where
  date : ℤ
  weights : Dict String ℚ
  expectedHorizons : Dict String HorizonDays

def Session.weight (session : Session) (symbol : String) : ℚ :=
  (session.weights.get? symbol).getD 0

def Session.horizon (session : Session) (symbol : String) : Option ℤ :=
  (session.expectedHorizons.get? symbol).map HorizonDays.days

/-- `PositionAgeTracker`. -/
abbrev PositionAgeTracker := Dict String PositionRecord

namespace PositionAgeTracker

def openedRecord (session : Session) (symbol : String) (weight : ℚ) : PositionRecord where
  symbol
  entryDate := some session.date
  lastSeen := some session.date
  weight
  expectedHorizonDays := session.horizon symbol
  daysHeld := 0

def keptRecord (session : Session) (symbol : String) (weight : ℚ) (record : PositionRecord) :
    PositionRecord :=
  { record with
    entryDate := some (record.entryDate.getD session.date)
    lastSeen := some session.date
    weight
    expectedHorizonDays := (session.horizon symbol).or record.expectedHorizonDays
    daysHeld :=
      if record.lastSeen.all (· < session.date) then record.daysHeld + 1 else record.daysHeld }

/-- The loop body of `record_session`. -/
def observe (session : Session) (tracker : PositionAgeTracker) (entry : String × ℚ) :
    PositionAgeTracker :=
  match tracker.get? entry.1 with
  | none =>
    if |entry.2| < closedWeight then tracker
    else tracker.insert entry.1 (openedRecord session entry.1 entry.2)
  | some record =>
    if |entry.2| < closedWeight then tracker.erase entry.1
    else tracker.insert entry.1 (keptRecord session entry.1 entry.2 record)

/-- A record whose symbol the session does not list keeps everything but its weight. -/
def unlisted (session : Session) (symbol : String) (record : PositionRecord) : PositionRecord :=
  if symbol ∈ session.weights.keys then record else { record with weight := 0 }

/-- `record_session`. -/
def recordSession (tracker : PositionAgeTracker) (session : Session) : PositionAgeTracker :=
  (session.weights.entries.foldl (observe session) tracker).mapKeyed (unlisted session)

/-- `age_for`. -/
def ageFor (tracker : PositionAgeTracker) (symbol : String) (today : ℤ) : ℤ :=
  match tracker.get? symbol with
  | none => 0
  | some record =>
    match record.entryDate with
    | none => 0
    | some entry => max (daysBetween entry today) record.daysHeld

/-- `is_locked`. -/
def isLocked (tracker : PositionAgeTracker) (symbol : String) (today : ℤ) (forceClose : Bool) :
    Bool :=
  if forceClose then false
  else match (tracker.get? symbol).bind PositionRecord.expectedHorizonDays with
    | none => false
    | some horizon => tracker.ageFor symbol today < horizon

variable {tracker : PositionAgeTracker} {session : Session} {sessions : List Session}

def observed (session : Session) (symbol : String) (weight : ℚ) :
    Option PositionRecord → Option PositionRecord
  | none => if |weight| < closedWeight then none else some (openedRecord session symbol weight)
  | some record =>
    if |weight| < closedWeight then none else some (keptRecord session symbol weight record)

theorem get?_observe (session : Session) (tracker : PositionAgeTracker) (entry : String × ℚ)
    (symbol : String) : (observe session tracker entry).get? symbol =
      if symbol = entry.1 then observed session entry.1 entry.2 (tracker.get? symbol)
      else tracker.get? symbol := by
  unfold observe
  by_cases hsymbol : symbol = entry.1
  · subst hsymbol
    rw [if_pos rfl]
    cases hfound : tracker.get? entry.1 with
    | none =>
      by_cases hclosed : |entry.2| < closedWeight
      · simp only [observed, if_pos hclosed, hfound]
      · simp only [observed, if_neg hclosed, Dict.get?_insert_self]
    | some record =>
      by_cases hclosed : |entry.2| < closedWeight
      · simp only [observed, if_pos hclosed, Dict.get?_erase, if_true]
      · simp only [observed, if_neg hclosed, Dict.get?_insert_self]
  · rw [if_neg hsymbol]
    cases tracker.get? entry.1 with
    | none =>
      by_cases hclosed : |entry.2| < closedWeight
      · simp only [if_pos hclosed]
      · simp only [if_neg hclosed, Dict.get?_insert, if_neg hsymbol]
    | some record =>
      by_cases hclosed : |entry.2| < closedWeight
      · simp only [if_pos hclosed, Dict.get?_erase, if_neg hsymbol]
      · simp only [if_neg hclosed, Dict.get?_insert, if_neg hsymbol]

variable {symbol : String}

/-- A symbol that a session does not list stays in the registry. -/
theorem get?_recordSession_of_notMem (h : symbol ∉ session.weights.keys) :
    (tracker.recordSession session).get? symbol =
      (tracker.get? symbol).map fun record ↦ { record with weight := 0 } := by
  have hlisted : session.weights.entries.lookup symbol = none := Dict.get?_eq_none_iff.mpr h
  have hunlisted : unlisted session symbol = fun record ↦ { record with weight := 0 } := by
    funext record
    rw [unlisted, if_neg h]
  rw [recordSession, Dict.get?_mapKeyed, Dict.get?_foldl (get?_observe session) tracker
    session.weights.nodup, hlisted, hunlisted, Option.elim_none]

theorem get?_recordSession {weight : ℚ} (h : session.weights.get? symbol = some weight) :
    (tracker.recordSession session).get? symbol =
      observed session symbol weight (tracker.get? symbol) := by
  have hlisted : session.weights.entries.lookup symbol = some weight := h
  have hunlisted : unlisted session symbol = id := by
    funext record
    rw [unlisted, if_pos (Dict.mem_keys_of_get? h), id]
  rw [recordSession, Dict.get?_mapKeyed, Dict.get?_foldl (get?_observe session) tracker
    session.weights.nodup, hlisted, hunlisted, Option.map_id, id, Option.elim_some]

/-- The sessions of the run in which a symbol is held, the last one first. -/
def currentRun (symbol : String) (sessions : List Session) : List Session :=
  sessions.reverse.takeWhile fun session ↦ session.weight symbol ≠ 0

def runHorizon (symbol : String) (run : List Session) : Option ℤ :=
  run.findSome? fun session ↦ session.horizon symbol

theorem currentRun_append (symbol : String) (sessions : List Session) (session : Session) :
    currentRun symbol (sessions ++ [session]) =
      if session.weight symbol = 0 then [] else session :: currentRun symbol sessions := by
  rw [currentRun, List.reverse_append, List.reverse_singleton, List.singleton_append,
    List.takeWhile_cons]
  by_cases hweight : session.weight symbol = 0
  · rw [if_pos hweight, if_neg (by simpa using hweight)]
  · rw [if_neg hweight, if_pos (by simpa using hweight), currentRun]

def registryAfter (sessions : List Session) : PositionAgeTracker :=
  Run.run recordSession Dict.empty sessions

theorem registryAfter_append (sessions : List Session) (session : Session) :
    registryAfter (sessions ++ [session]) = (registryAfter sessions).recordSession session := by
  rw [registryAfter, Run.run_append]
  rfl

/-- The registry holds what weighed something in the last session, each name with the first session
of its run and with the number of those after it. -/
structure Tracks (tracker : PositionAgeTracker) (sessions : List Session) : Prop where
  held : ∀ symbol, symbol ∈ tracker.keys ↔ ∃ last ∈ sessions.getLast?, last.weight symbol ≠ 0
  entered : ∀ symbol record, tracker.get? symbol = some record →
    record.entryDate = (currentRun symbol sessions).getLast?.map Session.date
  counted : ∀ symbol record, tracker.get? symbol = some record →
    record.daysHeld + 1 = (currentRun symbol sessions).length

/-- A name is locked exactly while it has a horizon and was held for fewer sessions than that. -/
def LocksAt (tracker : PositionAgeTracker) (sessions : List Session) (today : ℤ) : Prop :=
  ∀ symbol, tracker.isLocked symbol today false = true ↔
    ∃ horizon, runHorizon symbol (currentRun symbol sessions) = some horizon ∧
      (currentRun symbol sessions).length < horizon

def FollowsRuns (sessions : List Session) : Prop :=
  ∀ before after, sessions = before ++ after → Tracks (registryAfter before) before ∧
    ∀ next ∈ after.head?, LocksAt (registryAfter before) before next.date

theorem followsRuns_append (sessions : List Session) (session : Session) :
    FollowsRuns (sessions ++ [session]) ↔
      FollowsRuns sessions ∧ LocksAt (registryAfter sessions) sessions session.date ∧
        Tracks (registryAfter (sessions ++ [session])) (sessions ++ [session]) := by
  constructor
  · intro h
    refine ⟨fun before after heq ↦ ?_, ?_, ?_⟩
    · obtain ⟨htracks, hlocks⟩ := h before (after ++ [session]) (by rw [heq, List.append_assoc])
      refine ⟨htracks, fun next hnext ↦ hlocks next ?_⟩
      cases after with
      | nil => cases hnext
      | cons first rest => exact hnext
    · exact (h sessions [session] rfl).2 session rfl
    · exact (h (sessions ++ [session]) [] (by simp)).1
  · intro h before after heq
    obtain ⟨hbefore, hlocks, htracks⟩ := h
    rcases List.eq_nil_or_concat after with rfl | ⟨rest, last, rfl⟩
    · rw [List.append_nil] at heq
      rw [← heq]
      exact ⟨htracks, fun next hnext ↦ by cases hnext⟩
    · rw [List.concat_eq_append, ← List.append_assoc] at heq
      obtain ⟨rfl, hlast⟩ := List.append_inj' heq rfl
      obtain rfl := List.singleton_injective hlast
      obtain ⟨hearlier, hnext⟩ := hbefore before rest rfl
      refine ⟨hearlier, fun next hfirst ↦ ?_⟩
      cases rest with
      | nil =>
        cases hfirst
        rw [List.append_nil] at hlocks
        exact hlocks
      | cons first rest => exact hnext next hfirst

/-- A session lists every name that is held, with no weight in the tolerance, and the days since an
entry reach a horizon exactly when the sessions do. -/
structure Agrees (tracker : PositionAgeTracker) (session : Session) : Prop where
  listed : ∀ symbol ∈ tracker.keys, symbol ∈ session.weights.keys
  weighed : ∀ symbol, |session.weight symbol| < closedWeight → session.weight symbol = 0
  aged : ∀ symbol record, tracker.get? symbol = some record →
    ∀ entry ∈ record.entryDate, ∀ horizon ∈ record.expectedHorizonDays,
      (horizon ≤ max (daysBetween entry session.date) record.daysHeld ↔
        horizon ≤ record.daysHeld + 1)

/-- A record says what there is to say of a run, and no record says that there is none. -/
def Records (symbol : String) : Option PositionRecord → List Session → Prop
  | none, run => run = []
  | some record, run => ∃ last earlier, run = last :: earlier ∧
      record.entryDate = run.getLast?.map Session.date ∧ record.lastSeen = some last.date ∧
      record.expectedHorizonDays = runHorizon symbol run ∧ record.daysHeld = earlier.length

/-- A name that is new, or that is held on, is recorded with the session it is seen in. -/
theorem records_observed {run : List Session} {record? : Option PositionRecord}
    (h : Records symbol record? run) (hlast : ∀ last ∈ run.head?, last.date < session.date)
    (hopen : ¬ |session.weight symbol| < closedWeight) :
    Records symbol (observed session symbol (session.weight symbol) record?) (session :: run) := by
  cases record? with
  | none =>
    obtain rfl : run = [] := h
    rw [observed, if_neg hopen]
    refine ⟨session, [], rfl, rfl, rfl, ?_, rfl⟩
    simp only [openedRecord, runHorizon, List.findSome?_cons, List.findSome?_nil]
    cases session.horizon symbol <;> rfl
  | some record =>
    obtain ⟨last, earlier, rfl, hentry, hseen, hhorizon, hheld⟩ := h
    rw [observed, if_neg hopen]
    refine ⟨session, last :: earlier, rfl, ?_, rfl, ?_, ?_⟩
    · rw [List.getLast?_cons_cons, ← hentry, keptRecord]
      have hsome : record.entryDate.isSome := by simp [hentry, List.getLast?_cons]
      obtain ⟨entry, hfound⟩ := Option.isSome_iff_exists.mp hsome
      rw [hfound, Option.getD_some]
    · simp only [keptRecord, hhorizon, runHorizon, List.findSome?_cons]
      cases session.horizon symbol <;> rfl
    · have hlater : record.lastSeen.all (· < session.date) = true := by
        rw [hseen]
        exact decide_eq_true (hlast last rfl)
      simp only [keptRecord, if_pos hlater, hheld, List.length_cons, Nat.cast_add, Nat.cast_one]

def Exact (tracker : PositionAgeTracker) (sessions : List Session) : Prop :=
  ∀ symbol, Records symbol (tracker.get? symbol) (currentRun symbol sessions)

theorem mem_of_mem_currentRun (h : session ∈ currentRun symbol sessions) :
    session ∈ sessions :=
  List.mem_reverse.mp ((List.takeWhile_sublist _).subset h)

/-- A session that lists what is held, with no weight in the tolerance, is recorded exactly. -/
theorem Exact.recordSession (h : Exact tracker sessions)
    (hdates : ∀ earlier ∈ sessions, earlier.date < session.date)
    (hlisted : ∀ symbol ∈ tracker.keys, symbol ∈ session.weights.keys)
    (hweighed : ∀ symbol, |session.weight symbol| < closedWeight → session.weight symbol = 0) :
    Exact (tracker.recordSession session) (sessions ++ [session]) := by
  intro symbol
  rw [currentRun_append]
  cases hfound : session.weights.get? symbol with
  | none =>
    have hout := Dict.get?_eq_none_iff.mp hfound
    have habsent := Dict.get?_eq_none_iff.mpr fun hkey ↦ hout (hlisted symbol hkey)
    have hnothing : session.weight symbol = 0 := by rw [Session.weight, hfound, Option.getD_none]
    rw [get?_recordSession_of_notMem hout, habsent, if_pos hnothing]
    rfl
  | some weight =>
    have hweight : session.weight symbol = weight := by
      rw [Session.weight, hfound, Option.getD_some]
    rw [get?_recordSession hfound, ← hweight]
    by_cases hnothing : session.weight symbol = 0
    · have hclosed : |session.weight symbol| < closedWeight := by
        rw [hnothing, abs_zero]
        exact closedWeight_pos
      rw [if_pos hnothing]
      cases tracker.get? symbol with
      | none => rw [observed, if_pos hclosed]; rfl
      | some record => rw [observed, if_pos hclosed]; rfl
    · rw [if_neg hnothing]
      apply records_observed (h symbol)
      · intro last hlast
        exact hdates last (mem_of_mem_currentRun (List.mem_of_mem_head? hlast))
      · exact fun hclosed ↦ hnothing (hweighed symbol hclosed)

theorem Exact.tracks (h : Exact tracker sessions) : Tracks tracker sessions := by
  refine ⟨fun symbol ↦ ?_, fun symbol record hfound ↦ ?_, fun symbol record hfound ↦ ?_⟩
  · have hkey : symbol ∈ tracker.keys ↔ currentRun symbol sessions ≠ [] := by
      have hrecords := h symbol
      cases hfound : tracker.get? symbol with
      | none =>
        rw [hfound] at hrecords
        exact iff_of_false (Dict.get?_eq_none_iff.mp hfound) (not_not.mpr hrecords)
      | some record =>
        rw [hfound] at hrecords
        obtain ⟨last, earlier, hrun, -⟩ := hrecords
        exact iff_of_true (Dict.mem_keys_of_get? hfound) (by simp [hrun])
    rw [hkey]
    rcases List.eq_nil_or_concat sessions with rfl | ⟨earlier, last, rfl⟩
    · simp [currentRun]
    · rw [List.concat_eq_append, currentRun_append, List.getLast?_append]
      by_cases hweight : last.weight symbol = 0
      · simp [hweight]
      · simp [hweight]
  · have hrecords := h symbol
    rw [hfound] at hrecords
    obtain ⟨last, earlier, -, hentry, -⟩ := hrecords
    exact hentry
  · have hrecords := h symbol
    rw [hfound] at hrecords
    obtain ⟨last, earlier, hrun, -, -, -, hheld⟩ := hrecords
    rw [hrun, hheld, List.length_cons, Nat.cast_add, Nat.cast_one]

/-- The locks of an exact registry are right at a date exactly when the days reach the horizons with
the sessions. -/
theorem Exact.locksAt_iff (h : Exact tracker sessions) (today : ℤ) :
    LocksAt tracker sessions today ↔ ∀ symbol record, tracker.get? symbol = some record →
      ∀ entry ∈ record.entryDate, ∀ horizon ∈ record.expectedHorizonDays,
        (horizon ≤ max (daysBetween entry today) record.daysHeld ↔
          horizon ≤ record.daysHeld + 1) := by
  refine forall_congr' fun symbol ↦ ?_
  have hrecords := h symbol
  cases hfound : tracker.get? symbol with
  | none =>
    rw [hfound] at hrecords
    have hrun : currentRun symbol sessions = [] := hrecords
    simp [isLocked, hfound, hrun, runHorizon]
  | some record =>
    rw [hfound] at hrecords
    obtain ⟨last, earlier, hrun, hentry, -, hhorizon, hheld⟩ := hrecords
    obtain ⟨entry, hentered⟩ : ∃ entry, record.entryDate = some entry := by
      rw [hentry, hrun, List.getLast?_cons, Option.map_some]
      exact ⟨_, rfl⟩
    have hlength : ((currentRun symbol sessions).length : ℤ) = record.daysHeld + 1 := by
      rw [hrun, hheld, List.length_cons, Nat.cast_add, Nat.cast_one]
    rw [← hhorizon, hlength]
    cases hexpected : record.expectedHorizonDays with
    | none => simp [isLocked, hfound, hexpected]
    | some horizon =>
      have hlocked : isLocked tracker symbol today false = true ↔
          max (daysBetween entry today) record.daysHeld < horizon := by
        simp [isLocked, ageFor, hfound, hexpected, hentered]
      have hfewer : (∃ other, some horizon = some other ∧ record.daysHeld + 1 < other) ↔
          record.daysHeld + 1 < horizon := by simp
      rw [hlocked, hfewer, ← not_le, ← not_le, not_iff_not]
      constructor
      · intro hiff other hother entry' hentry' horizon' hhorizon'
        cases hother
        cases hentered.symm.trans hentry'
        cases hexpected.symm.trans hhorizon'
        exact hiff
      · intro hall
        exact hall record rfl entry hentered horizon hexpected

/-- A session that leaves the registry on the runs lists what was held, with no weight in the
tolerance. -/
theorem listed_of_tracks
    (h : Tracks (tracker.recordSession session) (sessions ++ [session])) :
    (∀ symbol ∈ tracker.keys, symbol ∈ session.weights.keys) ∧
      ∀ symbol, |session.weight symbol| < closedWeight → session.weight symbol = 0 := by
  have hheld : ∀ symbol, symbol ∈ (tracker.recordSession session).keys ↔
      session.weight symbol ≠ 0 := by
    intro symbol
    rw [h.held symbol, List.getLast?_append]
    simp
  constructor
  · intro symbol hkey
    by_contra hout
    have hnothing : session.weight symbol = 0 := by
      rw [Session.weight, Dict.get?_eq_none_iff.mpr hout, Option.getD_none]
    have hstays : symbol ∈ (tracker.recordSession session).keys := by
      by_contra hgone
      rw [← Dict.get?_eq_none_iff, get?_recordSession_of_notMem hout, Option.map_eq_none_iff,
        Dict.get?_eq_none_iff] at hgone
      exact hgone hkey
    exact (hheld symbol).mp hstays hnothing
  · intro symbol hclosed
    by_contra hweight
    cases hfound : session.weights.get? symbol with
    | none => exact hweight (by rw [Session.weight, hfound, Option.getD_none])
    | some weight =>
      have heq : session.weight symbol = weight := by
        rw [Session.weight, hfound, Option.getD_some]
      have hgone : (tracker.recordSession session).get? symbol = none := by
        rw [get?_recordSession hfound, ← heq]
        cases tracker.get? symbol with
        | none => rw [observed, if_pos hclosed]
        | some record => rw [observed, if_pos hclosed]
      exact Dict.get?_eq_none_iff.mp hgone ((hheld symbol).mpr hweight)

theorem exact_empty : Exact Dict.empty [] := fun _ ↦ rfl

theorem exact_of_always (hdates : (sessions.map Session.date).Pairwise (· < ·))
    (h : Run.Always recordSession Agrees Dict.empty sessions) :
    Exact (registryAfter sessions) sessions := by
  induction sessions using List.reverseRecOn with
  | nil => exact exact_empty
  | append_singleton earlier session ih =>
    rw [Run.always_append] at h
    rw [List.map_append, List.pairwise_append] at hdates
    rw [registryAfter_append]
    refine (ih hdates.1 h.1).recordSession (fun before hbefore ↦ ?_) h.2.1.listed h.2.1.weighed
    exact hdates.2.2 _ (List.mem_map_of_mem hbefore) _ (List.mem_singleton_self _)

/-- With increasing dates the registry and its locks follow the runs of holding throughout exactly
when every session agrees with the registry it comes to. -/
theorem followsRuns_iff (sessions : List Session)
    (hdates : (sessions.map Session.date).Pairwise (· < ·)) :
    FollowsRuns sessions ↔ Run.Always recordSession Agrees Dict.empty sessions := by
  induction sessions using List.reverseRecOn with
  | nil =>
    refine iff_of_true ?_ trivial
    intro before after heq
    obtain ⟨rfl, rfl⟩ := List.nil_eq_append_iff.mp heq
    exact ⟨exact_empty.tracks, fun next hnext ↦ by cases hnext⟩
  | append_singleton earlier session ih =>
    have hsplit := hdates
    rw [List.map_append, List.pairwise_append] at hsplit
    rw [followsRuns_append, Run.always_append, ih hsplit.1]
    refine and_congr_right fun hbefore ↦ ?_
    have hexact := exact_of_always hsplit.1 hbefore
    constructor
    · intro hafter
      have htracks := registryAfter_append earlier session ▸ hafter.2
      obtain ⟨hlisted, hweighed⟩ := listed_of_tracks htracks
      exact ⟨⟨hlisted, hweighed, (hexact.locksAt_iff _).mp hafter.1⟩, trivial⟩
    · intro hagrees
      refine ⟨(hexact.locksAt_iff _).mpr hagrees.1.aged, Exact.tracks ?_⟩
      apply exact_of_always hdates
      rw [Run.always_append]
      exact ⟨hbefore, hagrees⟩

def sessionOn (day : ℤ) (weights : Dict String ℚ) : Session :=
  ⟨day * dayLength, weights, Dict.empty.insert "600000.SH" ⟨3, by decide⟩⟩

def halfHeld : Dict String ℚ := Dict.empty.insert "600000.SH" (1 / 2)

/-- A name is held for two days in a row and closed on the third. -/
def closedRun : List Session :=
  [sessionOn 0 halfHeld, sessionOn 1 halfHeld, sessionOn 2 (Dict.empty.insert "600000.SH" 0)]

/-- A name is held for a day and left out on the next. -/
def omittedRun : List Session := [sessionOn 0 halfHeld, sessionOn 1 Dict.empty]

/-- A name is entered on a Friday and still held on Monday. -/
def weekendRun : List Session := [sessionOn 4 halfHeld, sessionOn 7 halfHeld]

theorem followsRuns_closedRun :
    FollowsRuns closedRun ↔ Run.Always recordSession Agrees Dict.empty closedRun :=
  followsRuns_iff closedRun (by decide)

/-- A name that is left out stays in the registry, and a weekend takes two days off a horizon. -/
theorem not_followsRuns :
    ((omittedRun.map Session.date).Pairwise (· < ·) ∧ ¬ FollowsRuns omittedRun) ∧
      (weekendRun.map Session.date).Pairwise (· < ·) ∧ ¬ FollowsRuns weekendRun := by
  refine ⟨⟨by decide, fun h ↦ ?_⟩, by decide, fun h ↦ ?_⟩
  · have hheld := ((h omittedRun [] (by simp)).1.held "600000.SH").mp (by decide +kernel)
    obtain ⟨last, hlast, hweight⟩ := hheld
    cases hlast
    exact hweight rfl
  · let friday := [sessionOn 4 halfHeld]
    have hmonday : runHorizon "600000.SH" (currentRun "600000.SH" friday) = some 3 ∧
        (currentRun "600000.SH" friday).length < (3 : ℤ) ∧
        ¬ isLocked (registryAfter friday) "600000.SH" (7 * dayLength) false = true := by
      decide +kernel
    have hlocks := (h friday [sessionOn 7 halfHeld] rfl).2 _ rfl "600000.SH"
    exact hmonday.2.2 (hlocks.mpr ⟨3, hmonday.1, hmonday.2.1⟩)

end PositionAgeTracker

end QuantAgent.Portfolio
