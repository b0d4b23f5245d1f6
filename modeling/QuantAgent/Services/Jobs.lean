import QuantAgent.Library.Run
import QuantAgent.Services.JobLog

/-!
# Jobs and their threads

One job of the manager: its record, the sets it may be in, and the thread that starts, follows and
finishes its process.  A step is what one lock-protected block does, so the operator's calls fall
between any two steps of the thread.  A job that has ended stays as it ended as long as no
cancellation arrives between the thread's look at the cancellations and the process identifier that
it records.
-/

namespace QuantAgent.Services

open Library
open Domain (Number)

/-- `JobFailure`, as far as the record keeps it. -/
structure JobFailure where
  code : String
  title : String
  detail : String

/-- What is found of the declared outputs of a run that exits with zero. -/
inductive Evidence where
  | missing (detail : String)
  | freshnessUnknown (detail : String)
  | stale (detail : String)
  | fresh

inductive Worker (N : Type) where
  | created
  | admitted
  | starting
  | prepared
  | spawnError (error : String)
  | spawnFailed (error : String)
  | spawned (pid : ℤ) (cancelRequested : Bool)
  | watching (workerPid : Option ℤ)
  | polling (workerPid : Option ℤ)
  | draining (workerPid : Option ℤ)
  | sampled (workerPid : Option ℤ)
  | exited
  | collecting
  | finalizing (cancelled : Bool)
  | concluding (cancelled : Bool) (exitCode : Option ℤ) (observed : Bool)
      (verdict : Option (Json N))
  | ended

structure JobSurroundings where
  now : String
  /-- The code between two blocks raises. -/
  raises : Bool
  /-- The log cannot be opened. -/
  logError : Option String
  /-- What spawning the process comes to. -/
  spawn : Except String ℤ
  /-- What the status file tells of the worker. -/
  workerPid : Option ℤ
  /-- What the log holds behind the last position. -/
  chunk : List Char
  alive : Bool
  exitCode : Option ℤ
  observed : Bool
  evidence : Evidence
  /-- What is made of the end of the log. -/
  diagnosis : JobFailure

/-- One job of a `JobManager`. -/
structure JobDesk (N : Type) where
  /-- `_jobs.get(job_id)` -/
  record : Option (JobRecord N)
  /-- `job_id in _cancel_requested` -/
  cancelRequested : Bool
  /-- `job_id in _purged` -/
  purged : Bool
  /-- `_processes.get(job_id)` -/
  process : Option ℤ
  worker : Worker N
  /-- A process was spawned for the job. -/
  spawned : Bool

inductive JobError where
  | unknownJob
  | alreadyFinished (status : JobStatus)
  | notRunning (status : JobStatus)
  | notPaused (status : JobStatus)
  | noProcess
  | notSignalled

variable {N : Type}

namespace JobRecord

/-- `record.workerPid or record.pid`. -/
def target (record : JobRecord N) : Option ℤ :=
  (record.workerPid.filter (· ≠ 0)).or record.pid

/-- The stages that are still open are closed, in place. -/
def closeStages (record : JobRecord N) (now : String) (exitCode : Option ℤ) : JobRecord N :=
  { record with stages := record.stages.map fun stage ↦
      if stage.completedAt = none then
        { stage with
          completedAt := some now
          status := if exitCode = some 0 then .completed else .stopped }
      else stage }

def stopLast (record : JobRecord N) (message : String) : JobRecord N :=
  match record.stages.getLast? with
  | none => record
  | some last =>
    { record with
      stages := record.stages.dropLast ++ [{ last with status := .stopped, message }] }

def finish (record : JobRecord N) (now : String) (status : JobStatus) (message : String)
    (exitCode : Option ℤ) (observed : Bool) : JobRecord N :=
  { record with
    status, finishedAt := some now, message := some message, exitCode,
    exitStatusObserved := observed }

def fail (record : JobRecord N) (now : String) (failure : JobFailure) (exitCode : Option ℤ)
    (observed : Bool) : JobRecord N :=
  { record.finish now .failed failure.title exitCode observed with
    error := some failure.detail, failure := some failure.code }

/-- `_update` when the process could not be spawned. -/
def failToStart (record : JobRecord N) (now error : String) : JobRecord N :=
  { record with
    status := .failed, finishedAt := some now, message := some "failed to start"
    error := some error, failure := some "spawn_failed" }

/-- `(verdict or {}).get("title") or title`. -/
def verdictTitle (verdict : Option (Json N)) (title : String) : String :=
  ((verdict.bind fun payload ↦ textMember payload "title").filter (· ≠ "")).getD title

/-- The verdict that is kept when the log told none. -/
def verdictOr (verdict : Option (Json N)) (name title : String) : Json N :=
  verdict.getD (.obj [("verdict", .str name), ("title", .str title), ("reasons", .arr [])])

variable [LogNumber N]

/-- The end of a job that reached a conclusion of its own. -/
def conclude (record : JobRecord N) (now : String) (status : JobStatus) (message : String)
    (exitCode : Option ℤ) (observed : Bool) (verdict : Option (Json N)) : JobRecord N :=
  { record.finish now status message exitCode observed with
    progress := some LogNumber.one, verdict, failure := none }

/-- What `_finalize` writes. -/
def finalize (record : JobRecord N) (s : JobSurroundings) (cancelled : Bool) (exitCode : Option ℤ)
    (observed : Bool) (verdict : Option (Json N)) : JobRecord N :=
  if cancelled then record.finish s.now .cancelled "cancelled by operator" exitCode observed
  else if exitCode = some 0 then
    match s.evidence with
    | .missing detail =>
      (record.stopLast "declared output evidence missing").fail s.now
        ⟨"output_evidence_missing", "任务退出为 0，但未产出声明的证据", detail⟩ exitCode observed
    | .freshnessUnknown detail =>
      (record.stopLast "output freshness baseline unavailable").fail s.now
        ⟨"output_freshness_unknown", "任务退出为 0，但无法证明产物属于本次尝试", detail⟩ exitCode
        observed
    | .stale detail =>
      (record.stopLast "declared output evidence is stale").fail s.now
        ⟨"output_evidence_stale", "任务退出为 0，但没有本次尝试的新证据", detail⟩ exitCode observed
    | .fresh =>
      record.conclude s.now .succeeded "completed; runtime catalog invalidated" exitCode observed
        record.verdict
  else if exitCode = some 4 then
    record.conclude s.now .blocked (verdictTitle verdict "配置无法执行该研究协议") exitCode observed
      (some (verdictOr verdict "blocked" "配置无法执行该研究协议"))
  else if exitCode = some 3 then
    record.conclude s.now .rejected (verdictTitle verdict "研究闸门否决了该候选") exitCode observed
      (some (verdictOr verdict "rejected" "研究闸门否决了该候选"))
  else if observed then record.fail s.now s.diagnosis exitCode observed
  else record.fail s.now
    ⟨"exit_status_unknown", "任务在服务重启期间结束，退出状态未知",
      "进程在本 API 进程之外结束，没有留下退出码。下方日志尾部是它最后写出的内容。"⟩ exitCode observed

end JobRecord

namespace JobDesk

def submitted : JobDesk N where
  record := some .submitted
  cancelRequested := false
  purged := false
  process := none
  worker := .created
  spawned := false

def status (desk : JobDesk N) : Option JobStatus :=
  desk.record.map JobRecord.status

def target (desk : JobDesk N) : Option ℤ :=
  desk.record.bind JobRecord.target

/-- `_update`. -/
def update (desk : JobDesk N) (change : JobRecord N → JobRecord N) : JobDesk N :=
  if desk.purged then desk else { desk with record := desk.record.map change }

def cancel (desk : JobDesk N) (now : String) : JobDesk N × Except JobError Unit :=
  match desk.record with
  | none => (desk, .error .unknownJob)
  | some record =>
    if record.status.terminal then (desk, .error (.alreadyFinished record.status))
    else match record.target with
      | none =>
        ({ desk with
            cancelRequested := true
            record := some { record with
              status := .cancelled, message := some "cancelled before process start"
              finishedAt := some now } }, .ok ())
      | some _ =>
        ({ desk with
            cancelRequested := true
            record := some { record with
              status := .cancelling, message := some "termination requested" } }, .ok ())

/-- `pause`; `signalled` is whether the processes could be stopped. -/
def pause (desk : JobDesk N) (signalled : Bool) : JobDesk N × Except JobError Unit :=
  match desk.record with
  | none => (desk, .error .unknownJob)
  | some record =>
    if record.status ≠ .running then (desk, .error (.notRunning record.status))
    else if record.target = none then (desk, .error .noProcess)
    else if signalled then
      ({ desk with record := some { record with
          status := .paused
          message := some "paused by operator; process suspended, memory retained" } }, .ok ())
    else (desk, .error .notSignalled)

/-- `resume`; `signalled` is whether the processes could be continued. -/
def resume (desk : JobDesk N) (signalled : Bool) : JobDesk N × Except JobError Unit :=
  match desk.record with
  | none => (desk, .error .unknownJob)
  | some record =>
    if record.status ≠ .paused then (desk, .error (.notPaused record.status))
    else if record.target = none then (desk, .error .noProcess)
    else if signalled then
      ({ desk with record := some { record with
          status := .running, message := some "resumed by operator" } }, .ok ())
    else (desk, .error .notSignalled)

def purge (desk : JobDesk N) : JobDesk N × Except JobError Unit :=
  match desk.record with
  | none => (desk, .error .unknownJob)
  | some _ =>
    ({ desk with record := none, process := none, cancelRequested := true, purged := true },
      .ok ())

variable [LogNumber N]

/-- `_drain_log`; a line that raises ends the thread. -/
def drain (desk : JobDesk N) (s : JobSurroundings) (next : Worker N) : JobDesk N :=
  { desk.update fun record ↦ (record.drainLog s.now s.chunk).1 with
    worker := match ((desk.record.getD .submitted).drainLog s.now s.chunk).2 with
      | .ok () => next
      | .error _ => .ended }

/-- The next block of `_run`, `_supervise` and `_finalize`. -/
def work (desk : JobDesk N) (s : JobSurroundings) : JobDesk N :=
  match desk.worker with
  | .created =>
    if desk.record.isNone ∨ desk.cancelRequested ∨ desk.status = some .cancelled then
      { desk with worker := .ended }
    else { desk with worker := .admitted }
  | .admitted => { desk.update (·.starting s.now) with worker := .starting }
  | .starting => { desk with worker := if s.raises then .ended else .prepared }
  | .prepared =>
    match s.logError with
    | some error => { desk with worker := .spawnError error }
    | none =>
      if desk.purged ∨ desk.record.isNone then { desk with worker := .ended }
      else match s.spawn with
        | .error error => { desk with worker := .spawnError error }
        | .ok pid =>
          { desk with
            spawned := true, process := some pid
            worker := .spawned pid desk.cancelRequested }
  | .spawnError error =>
    { desk with worker := if desk.purged then .ended else .spawnFailed error }
  | .spawnFailed error => { desk.update (·.failToStart s.now error) with worker := .ended }
  -- A cancellation that was captured only sends the termination signal.
  | .spawned pid _ => { desk.update (·.running s.now pid) with worker := .watching none }
  | .watching workerPid =>
    { desk with worker := if desk.purged ∨ desk.record.isNone then .ended else .polling workerPid }
  | .polling (some workerPid) => { desk with worker := .draining (some workerPid) }
  | .polling none =>
    match s.workerPid with
    | none => { desk with worker := .draining none }
    | some workerPid =>
      { desk.update fun record ↦ { record with workerPid := some workerPid } with
        worker := .draining (some workerPid) }
  | .draining workerPid => desk.drain s (.sampled workerPid)
  | .sampled workerPid => { desk with worker := if s.alive then .watching workerPid else .exited }
  | .exited => desk.drain s .collecting
  | .collecting =>
    { desk with
      process := none
      worker := if desk.purged then .ended else .finalizing desk.cancelRequested }
  | .finalizing cancelled =>
    if s.raises then { desk with worker := .ended }
    else
      { desk.update (·.closeStages s.now s.exitCode) with
        worker := .concluding cancelled s.exitCode s.observed
          (desk.record.bind JobRecord.verdict) }
  | .concluding cancelled exitCode observed verdict =>
    if s.raises then { desk with worker := .ended }
    else
      { desk.update (·.finalize s cancelled exitCode observed verdict) with worker := .ended }
  | .ended => desk

end JobDesk

end QuantAgent.Services
