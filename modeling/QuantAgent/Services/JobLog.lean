import QuantAgent.Domain.RatText
import QuantAgent.Library.TextFile
import QuantAgent.Library.Trail

/-!
# What a job's log says

A job writes its log itself; the supervisor reads what is new of it now and then and turns the
structured lines of a reading into the record's verdict, progress and stages.  A stage line looks
at the stages of the record, not at those that an earlier line of the same reading put forward, so
what the record shows depends on where the readings end.
-/

namespace QuantAgent.Services

open Library Library.TextFile
open Domain (Arithmetic Number)

inductive JobStatus where
  | queued | starting | running | paused | cancelling
  | succeeded | failed | cancelled | rejected | blocked
  deriving DecidableEq, Repr

/-- `TERMINAL_STATUSES`. -/
def JobStatus.terminal (status : JobStatus) : Bool :=
  status ∈ [succeeded, failed, cancelled, rejected, blocked]

inductive StageStatus where
  | running | completed | stopped
  deriving DecidableEq, Repr

structure Stage (N : Type) where
  id : String
  label : String
  startedAt : String
  completedAt : Option String
  status : StageStatus
  message : String
  progress : Option N

/-- What the supervisor and the operator write of a job. -/
structure JobRecord (N : Type) where
  status : JobStatus
  startedAt : Option String
  finishedAt : Option String
  progress : Option N
  message : Option String
  error : Option String
  stage : Option String
  stages : List (Stage N)
  lastOutputAt : Option String
  exitCode : Option ℤ
  exitStatusObserved : Bool
  /-- The code of the failure. -/
  failure : Option String
  verdict : Option (Json N)
  pid : Option ℤ
  workerPid : Option ℤ

def JobRecord.submitted {N : Type} : JobRecord N where
  status := .queued
  startedAt := none
  finishedAt := none
  progress := none
  message := some "queued"
  error := none
  stage := none
  stages := []
  lastOutputAt := none
  exitCode := none
  exitStatusObserved := false
  failure := none
  verdict := none
  pid := none
  workerPid := none

/-- `STAGE_LABELS`. -/
def stageLabels : List (String × String) :=
  [("contract", "研究契约校验"), ("dataset", "PIT 数据集构建"), ("factor_screening", "因子筛选"),
    ("training", "滚动样本外训练"), ("prediction", "样本外预测"), ("portfolio", "组合与目标权重"),
    ("portfolio_selection", "组合候选选择"), ("backtest", "A 股回测"), ("risk", "风控与验收闸门"),
    ("evidence", "证据归档"), ("verdict", "研究结论")]

/-- `STAGE_LABELS.get(stage, stage)`. -/
def stageLabel (stage : String) : String :=
  ((stageLabels.find? fun entry ↦ entry.1 = stage).map Prod.snd).getD stage

/-- Numbers as a log line holds them, and the digits and quotients of a bracketed counter. -/
class LogNumber (N : Type) extends Arithmetic N, NumText N where
  /-- `\d` -/
  isDigit : Char → Bool
  /-- `int(digits)`; `none` is a raised error. -/
  int : List Char → Option ℕ
  /-- `left / right` of two integers; `none` is a raised error. -/
  quotient : ℕ → ℕ → Option N
  /-- `left / right` of two floats. -/
  divide : N → N → N
  /-- The literal `1.0`. -/
  one : N
  /-- The literal `0.99`. -/
  nearlyOne : N

instance : LogNumber ℚ where
  isDigit := Char.isDigit
  int digits := some (ofDecimal digits)
  quotient left right := some (left / right)
  divide := (· / ·)
  one := 1
  nearlyOne := 99 / 100

inductive LineError where
  | unhashable
  | outOfRange
  deriving DecidableEq, Repr

/-- What is made of a structured line; `verdict` is the payload of a terminal verdict. -/
structure LogEvent (N : Type) where
  progress : Option N
  stage : Option String
  message : Option String
  verdict : Option (Json N)

/-- `TERMINAL_VERDICTS`. -/
def terminalVerdicts : List String := ["rejected", "blocked"]

variable {N : Type}

/-- `payload.get("verdict") in TERMINAL_VERDICTS`. -/
def hasTerminalVerdict (payload : Json N) : Except LineError Bool :=
  match payload.get? "verdict" with
  | some (.str text) => .ok (text ∈ terminalVerdicts)
  | some (.arr _) | some (.obj _) => .error .unhashable
  | _ => .ok false

def textMember (payload : Json N) (key : String) : Option String :=
  match payload.get? key with
  | some (.str text) => some text
  | _ => none

variable [LogNumber N]

/-- `min(bound, value)`. -/
def atMost (bound value : N) : N :=
  if Arithmetic.less value bound then value else bound

/-- `max(0.0, value)`. -/
def atLeastZero (value : N) : N :=
  if Arithmetic.less Number.zero value then value else Number.zero

/-- The value of a member that is an `int` or a `float`. -/
def numberMember (payload : Json N) (key : String) : Option N :=
  match payload.get? key with
  | some (.num value) => some value
  | some (.bool value) => some (Number.natCast value.toNat)
  | _ => none

/-- The pairs of counters that stand for progress. -/
def counterKeys : List (String × String) :=
  [("batch", "total_batches"), ("iteration", "total_iterations"), ("rows_written", "total_rows"),
    ("fold", "total_folds")]

def countedProgress (payload : Json N) : List (String × String) → Except LineError (Option N)
  | [] => .ok none
  | (currentKey, totalKey) :: rest =>
    match numberMember payload currentKey, numberMember payload totalKey with
    | some current, some total =>
      if Arithmetic.less Number.zero total then
        match Number.toFloat current, Number.toFloat total with
        | some current, some total =>
          .ok (some (atMost LogNumber.nearlyOne
            (atLeastZero (LogNumber.divide current total))))
        | _, _ => .error .outOfRange
      else countedProgress payload rest
    | _, _ => countedProgress payload rest

def payloadProgress (payload : Json N) : Except LineError (Option N) :=
  match numberMember payload "progress" with
  | some value =>
    match Number.toFloat value with
    | some value => .ok (some (atMost LogNumber.one (atLeastZero value)))
    | none => .error .outOfRange
  | none => countedProgress payload counterKeys

variable (N) in
/-- The counter `[current / total]` at the start of a text. -/
def counterAt : List Char → Option (List Char × List Char)
  | '[' :: text =>
    let current := text.takeWhile (LogNumber.isDigit N)
    match (text.dropWhile (LogNumber.isDigit N)).dropWhile isSpace with
    | '/' :: behind =>
      let total := (behind.dropWhile isSpace).takeWhile (LogNumber.isDigit N)
      match (behind.dropWhile isSpace).dropWhile (LogNumber.isDigit N) with
      | ']' :: _ => if current = [] ∨ total = [] then none else some (current, total)
      | _ => none
    | _ => none
  | _ => none

variable (N) in
def searchCounter : List Char → Option (List Char × List Char)
  | [] => none
  | c :: text => (counterAt N (c :: text)).or (searchCounter text)

def parsePayload (text : List Char) : Except LineError (Option (LogEvent N)) :=
  if text.head? ≠ some '\x7b' then .ok none
  else match (Json.loads text : Option (Json N)) with
    | some (.obj members) => do
        let payload : Json N := .obj members
        let terminal ← hasTerminalVerdict payload
        let progress ← payloadProgress payload
        let stage := textMember payload "stage"
        let message := textMember payload "message"
        if progress.isNone ∧ stage.isNone ∧ message.isNone then return none
        return some ⟨progress, stage, message, if terminal then some payload else none⟩
    | _ => .ok none

/-- `_parse_event_line`. -/
def parseEventLine (line : List Char) : Except LineError (Option (LogEvent N)) :=
  let text := strip line
  match searchCounter N text with
  | none => parsePayload text
  | some (currentDigits, totalDigits) =>
    match LogNumber.int N totalDigits with
    | none => .error .outOfRange
    | some 0 => parsePayload text
    | some total =>
      match (LogNumber.int N currentDigits).bind fun current ↦
          LogNumber.quotient current total with
      | none => .error .outOfRange
      | some progress => .ok (some
          ⟨some (atMost LogNumber.nearlyOne progress), none,
            some (String.ofList (text.take 240)), none⟩)

def LogEvent.named (event : LogEvent N) : Option String :=
  event.stage.filter (· ≠ "")

/-- `_advance_stage`: the record's stages as the call leaves them, and the list it returns. -/
def advanceStage (stages : List (Stage N)) (now stage message : String) (progress : Option N) :
    List (Stage N) × List (Stage N) :=
  let opened : Stage N := ⟨stage, stageLabel stage, now, none, .running, message, progress⟩
  match stages.getLast? with
  | none => (stages, [opened])
  | some last =>
    if last.id = stage then
      let told := stages.dropLast ++
        [{ last with message := if message ≠ "" then message else last.message, progress }]
      (told, told)
    else
      let closed := stages.dropLast ++
        [{ last with completedAt := some now, status := .completed }]
      (closed, closed ++ [opened])

structure Changes (N : Type) where
  lastText : List Char
  message : Option String
  verdict : Option (Json N)
  progress : Option N
  stage : Option String
  stages : Option (List (Stage N))

def Changes.empty : Changes N where
  lastText := []
  message := none
  verdict := none
  progress := none
  stage := none
  stages := none

namespace JobRecord

/-- One event of a reading.  The last stage of the record is written in place, while the list that
is put forward replaces the one an earlier event put forward. -/
def takeEvent (now : String) (state : JobRecord N × Changes N) (event : LogEvent N) :
    JobRecord N × Changes N :=
  let told : Changes N := { state.2 with
    verdict := event.verdict.or state.2.verdict
    progress := event.progress.or state.2.progress
    message := ((event.message.filter (· ≠ "")).map fun message ↦
      String.ofList (message.toList.take 240)).or state.2.message }
  match event.named with
  | none => (state.1, told)
  | some stage =>
    let advanced := advanceStage state.1.stages now stage (event.message.getD "") event.progress
    ({ state.1 with stages := advanced.1 },
      { told with stage := some stage, stages := some advanced.2 })

/-- The lines of a reading, up to one that raises. -/
def drainLines (now : String) (state : JobRecord N × Changes N) :
    List (List Char) → (JobRecord N × Changes N) × Except LineError Unit
  | [] => (state, .ok ())
  | line :: rest =>
    if strip line = [] then drainLines now state rest
    else
      let seen := (state.1, { state.2 with lastText := strip line })
      match (parseEventLine (strip line) : Except LineError (Option (LogEvent N))) with
      | .error error => (seen, .error error)
      | .ok none => drainLines now seen rest
      | .ok (some event) => drainLines now (takeEvent now seen event) rest

/-- `_update` with what a reading has found. -/
def found (record : JobRecord N) (now : String) (changes : Changes N) : JobRecord N :=
  { record with
    lastOutputAt := some now
    verdict := changes.verdict.or record.verdict
    progress := changes.progress.or record.progress
    stage := changes.stage.or record.stage
    stages := changes.stages.getD record.stages
    message := changes.message.or
      (some (if changes.lastText = [] then "running" else String.ofList (changes.lastText.take 240))) }

/-- `_drain_log`, where `chunk` is what the log holds behind the last position. -/
def drainLog (record : JobRecord N) (now : String) (chunk : List Char) :
    JobRecord N × Except LineError Unit :=
  if chunk = [] then (record, .ok ())
  else match drainLines now (record, .empty) (splitLines (universalNewlines chunk)) with
    | ((record, _), .error error) => (record, .error error)
    | ((record, changes), .ok ()) => (record.found now changes, .ok ())

end JobRecord

/-- Reading a log leaves the status and the processes of a job alone. -/
structure JobRecord.SameProcess (before after : JobRecord N) : Prop where
  status : after.status = before.status
  pid : after.pid = before.pid
  workerPid : after.workerPid = before.workerPid

variable {record : JobRecord N} {now : String} {state : JobRecord N × Changes N}

omit [LogNumber N] in
theorem JobRecord.sameProcess_takeEvent (h : record.SameProcess state.1) (event : LogEvent N) :
    record.SameProcess (takeEvent now state event).1 := by
  unfold takeEvent
  cases event.named <;> exact ⟨h.status, h.pid, h.workerPid⟩

theorem JobRecord.sameProcess_drainLines (h : record.SameProcess state.1)
    (lines : List (List Char)) :
    record.SameProcess (drainLines now state lines).1.1 := by
  induction lines generalizing state with
  | nil => exact h
  | cons line rest ih =>
    unfold drainLines
    split
    · exact ih h
    · simp only
      split
      · exact h
      · exact ih h
      · refine ih (sameProcess_takeEvent ?_ _)
        exact h

theorem JobRecord.sameProcess_drainLog (record : JobRecord N) (now : String) (chunk : List Char) :
    record.SameProcess (record.drainLog now chunk).1 := by
  have hstart : record.SameProcess (record, (Changes.empty : Changes N)).1 := ⟨rfl, rfl, rfl⟩
  have hlines := @sameProcess_drainLines _ _ record now _ hstart
    (splitLines (universalNewlines chunk))
  unfold drainLog
  split
  · exact ⟨rfl, rfl, rfl⟩
  · split
    · rename_i hdrain
      rw [hdrain] at hlines
      exact hlines
    · rename_i hdrain
      rw [hdrain] at hlines
      exact ⟨hlines.status, hlines.pid, hlines.workerPid⟩

/-- `_update` when the thread of a job has started. -/
def JobRecord.starting (record : JobRecord N) (now : String) : JobRecord N :=
  { record with
    status := .starting, startedAt := some now, progress := some Number.zero
    message := some "starting" }

/-- `_update` when the process of a job has been spawned. -/
def JobRecord.running (record : JobRecord N) (now : String) (pid : ℤ) : JobRecord N :=
  { record with
    status := .running, message := some "running", pid := some pid, lastOutputAt := some now }

/-- One reading of the log: when it is made and what it finds behind the last position. -/
structure Reading where
  now : String
  chunk : List Char

/-- Successive readings of a log, up to one that raises. -/
def JobRecord.readAll (record : JobRecord N) : List Reading → JobRecord N × Except LineError Unit
  | [] => (record, .ok ())
  | reading :: rest =>
    match record.drainLog reading.now reading.chunk with
    | (after, .ok ()) => after.readAll rest
    | (after, .error error) => (after, .error error)

/-- The lines of a log that have ended; what is behind the last line end is carried over. -/
def completeLines (text : List Char) : List (List Char) :=
  let translated := universalNewlines text
  if translated.getLast? = some '\n' then splitLines translated
  else (splitLines translated).dropLast

end QuantAgent.Services
