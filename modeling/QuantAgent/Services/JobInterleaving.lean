import QuantAgent.Services.Jobs

/-!
# Finished jobs

Every interleaving of the thread of a job with the calls of the operator, also of a job that is
followed again after a restart.  A job that has ended stays as it ended, and one that was cancelled
before its process was spawned spawns none, in every run in which a cancellation finds the thread
before its look at the cancellations, at its end, or with a process to signal.
-/

namespace QuantAgent.Services

open Library

inductive JobInput where
  | work (surroundings : JobSurroundings)
  | cancel (now : String)
  | pause (signalled : Bool)
  | resume (signalled : Bool)
  | purge

variable {N : Type}

def Worker.followed : Worker N → Bool
  | .created | .admitted | .starting | .prepared | .spawnError _ | .spawnFailed _ | .ended => false
  | _ => true

namespace JobDesk

def step [LogNumber N] (desk : JobDesk N) : JobInput → JobDesk N
  | .work surroundings => desk.work surroundings
  | .cancel now => (desk.cancel now).1
  | .pause signalled => (desk.pause signalled).1
  | .resume signalled => (desk.resume signalled).1
  | .purge => desk.purge.1

/-- A job as it is submitted, or an unfinished one that a restarted manager follows or finishes. -/
inductive Begun : JobDesk N → Prop where
  | submitted : Begun .submitted
  | adopted (record : JobRecord N) (hactive : record.status.terminal = false)
      (hknown : record.target ≠ none) : Begun ⟨some record, false, false, none, .watching none, true⟩
  | left (record : JobRecord N) (hrunning : record.status = .running) :
      Begun ⟨some record, false, false, none, .finalizing false, true⟩

/-- A terminal status stays while there is a record, a job that is gone stays away, and one that was
cancelled before its process was spawned has none. -/
structure Stands (before after : JobDesk N) : Prop where
  finished : ∀ status, before.status = some status → status.terminal = true →
    after.status = some status ∨ after.record = none
  gone : before.record = none → after.record = none
  unspawned : before.cancelRequested = true → before.spawned = false →
    after.cancelRequested = true ∧ after.spawned = false

/-- A cancellation finds the thread before its look at the cancellations, at its end, or a process
to signal, or it is refused. -/
def Timely (desk : JobDesk N) : JobInput → Prop
  | .cancel _ => desk.worker = .created ∨ desk.worker = .ended ∨ desk.target ≠ none ∨
      ∀ status, desk.status = some status → status.terminal = true
  | _ => True

theorem Stands.refl (desk : JobDesk N) : Stands desk desk :=
  ⟨fun _ h _ ↦ .inl h, id, fun h h' ↦ ⟨h, h'⟩⟩

theorem Stands.trans {first second third : JobDesk N} (h : Stands first second)
    (h' : Stands second third) : Stands first third where
  finished status hstatus hterminal := by
    rcases h.finished status hstatus hterminal with hsame | hnone
    · exact h'.finished status hsame hterminal
    · exact .inr (h'.gone hnone)
  gone hnone := h'.gone (h.gone hnone)
  unspawned hcancelled hnone := by
    obtain ⟨hcancelled', hnone'⟩ := h.unspawned hcancelled hnone
    exact h'.unspawned hcancelled' hnone'

/-- A thread that has nothing more to write: it has ended, or will find the job cancelled. -/
def AtRest (desk : JobDesk N) : Prop :=
  desk.worker = .ended ∨ desk.worker = .created ∧ desk.cancelRequested = true

/-- What holds between two steps. -/
structure Orderly (desk : JobDesk N) : Prop where
  rest : ∀ status, desk.status = some status → status.terminal = true → desk.AtRest
  cancelled : desk.cancelRequested = true → desk.spawned = false →
    desk.AtRest ∨ desk.record = none
  known : desk.target ≠ none ∨ desk.worker.followed = true → desk.spawned = true

variable {desk : JobDesk N}

theorem Begun.orderly (h : Begun desk) : Orderly desk := by
  cases h with
  | submitted =>
    refine ⟨?_, ?_, ?_⟩
    · rintro status ⟨⟩ hterminal
      cases hterminal
    · intro h
      cases h
    · rintro (h | h)
      · exact absurd rfl h
      · cases h
  | adopted record hactive hknown =>
    refine ⟨?_, ?_, fun _ ↦ rfl⟩
    · rintro status ⟨⟩ hterminal
      rw [hactive] at hterminal
      cases hterminal
    · intro h
      cases h
  | left record hrunning =>
    refine ⟨?_, ?_, fun _ ↦ rfl⟩
    · rintro status ⟨⟩ hterminal
      rw [hrunning] at hterminal
      cases hterminal
    · intro h
      cases h

def Lively (change : JobRecord N → JobRecord N) : Prop :=
  ∀ record, (change record).status = record.status ∨ (change record).status.terminal = false

theorem update_gone (h : desk.record = none) (change : JobRecord N → JobRecord N) :
    (desk.update change).record = none := by
  unfold update
  split
  · exact h
  · rw [h]
    rfl

section

variable (desk : JobDesk N) (change : JobRecord N → JobRecord N)

@[simp]
theorem cancelRequested_update :
    (desk.update change).cancelRequested = desk.cancelRequested := by
  unfold update
  split <;> rfl

@[simp]
theorem spawned_update :
    (desk.update change).spawned = desk.spawned := by
  unfold update
  split <;> rfl

end

variable {change : JobRecord N → JobRecord N}

theorem status_update (h : Lively change) {status : JobStatus}
    (hstatus : (desk.update change).status = some status) :
    desk.status = some status ∨ status.terminal = false := by
  unfold update at hstatus
  split at hstatus
  · exact .inl hstatus
  · unfold JobDesk.status at hstatus ⊢
    cases hrecord : desk.record with
    | none =>
      rw [hrecord] at hstatus
      cases hstatus
    | some record =>
      rw [hrecord] at hstatus
      cases hstatus
      rcases h record with hsame | hactive
      · exact .inl (congrArg some hsame.symm)
      · exact .inr hactive

theorem target_update (h : ∀ record, (change record).target = record.target)
    (htarget : (desk.update change).target ≠ none) : desk.target ≠ none := by
  unfold update at htarget
  split at htarget
  · exact htarget
  · unfold target at htarget ⊢
    cases hrecord : desk.record with
    | none =>
      rw [hrecord] at htarget
      exact htarget
    | some record =>
      rw [hrecord] at htarget
      exact fun hnone ↦ htarget ((h record).trans hnone)

/-- What a step of the thread can do. -/
structure Moves (desk after : JobDesk N) : Prop where
  cancelRequested : after.cancelRequested = desk.cancelRequested
  gone : desk.record = none → after.record = none
  spawned : after.spawned = desk.spawned ∨ desk.worker = .prepared ∧ desk.record ≠ none ∧
    after.spawned = true
  status : after.worker = .ended ∨ ∀ status, after.status = some status →
    desk.status = some status ∨ status.terminal = false
  known : after.target ≠ none → desk.target ≠ none ∨ desk.worker.followed = true
  followed : after.worker.followed = true → desk.worker.followed = true ∨ after.spawned = true

variable {next : Worker N}

theorem moves_worker (desk : JobDesk N)
    (hnext : next.followed = true → desk.worker.followed = true) :
    Moves desk { desk with worker := next } where
  cancelRequested := rfl
  gone h := h
  spawned := .inl rfl
  status := .inr fun _ h ↦ .inl h
  known h := .inl h
  followed h := .inl (hnext h)

theorem moves_update (desk : JobDesk N) (hstatus : next = .ended ∨ Lively change)
    (htarget : desk.worker.followed = true ∨ ∀ record, (change record).target = record.target)
    (hnext : next.followed = true → desk.worker.followed = true) :
    Moves desk { desk.update change with worker := next } where
  cancelRequested := cancelRequested_update desk change
  gone h := update_gone h change
  spawned := .inl (spawned_update desk change)
  status := hstatus.imp_right fun hlively _ h ↦ status_update hlively h
  known h := htarget.elim .inr fun hsame ↦ .inl (target_update hsame h)
  followed h := .inl (hnext h)

variable [LogNumber N]

theorem lively_drainLog (now : String) (chunk : List Char) :
    Lively fun record : JobRecord N ↦ (record.drainLog now chunk).1 :=
  fun record ↦ .inl (record.sameProcess_drainLog now chunk).status

theorem moves_drain (desk : JobDesk N) (s : JobSurroundings)
    (hfollowed : desk.worker.followed = true) : Moves desk (desk.drain s next) :=
  moves_update desk (.inr (lively_drainLog s.now s.chunk)) (.inl hfollowed) fun _ ↦ hfollowed

theorem moves_work (desk : JobDesk N) (s : JobSurroundings) : Moves desk (desk.work s) := by
  unfold work
  cases hworker : desk.worker with
  | created =>
    simp only
    split <;> exact moves_worker desk fun h ↦ by cases h
  | admitted =>
    exact moves_update desk (.inr fun _ ↦ .inr rfl) (.inr fun _ ↦ rfl) fun h ↦ by cases h
  | starting =>
    refine moves_worker desk fun h ↦ ?_
    split at h <;> cases h
  | prepared =>
    simp only
    split
    · exact moves_worker desk fun h ↦ by cases h
    split
    · exact moves_worker desk fun h ↦ by cases h
    · rename_i hpresent
      split
      · exact moves_worker desk fun h ↦ by cases h
      · refine ⟨rfl, id, .inr ⟨hworker, ?_, rfl⟩, .inr fun _ h ↦ .inl h, .inl, fun _ ↦ .inr rfl⟩
        intro hnone
        exact hpresent (.inr (by rw [hnone]; rfl))
  | spawnError error =>
    refine moves_worker desk fun h ↦ ?_
    split at h <;> cases h
  | spawnFailed error =>
    exact moves_update desk (.inl rfl) (.inr fun _ ↦ rfl) fun h ↦ by cases h
  | spawned pid cancelRequested =>
    exact moves_update desk (.inr fun _ ↦ .inr rfl) (.inl (by rw [hworker]; rfl)) fun _ ↦ by
      rw [hworker]
      rfl
  | watching workerPid =>
    exact moves_worker desk fun _ ↦ by rw [hworker]; rfl
  | polling workerPid =>
    have hfollowed : desk.worker.followed = true := by rw [hworker]; rfl
    cases workerPid with
    | some workerPid => exact moves_worker desk fun _ ↦ hfollowed
    | none =>
      simp only
      split
      · exact moves_worker desk fun _ ↦ hfollowed
      · exact moves_update desk (.inr fun _ ↦ .inl rfl) (.inl hfollowed) fun _ ↦ hfollowed
  | draining workerPid => exact moves_drain desk s (by rw [hworker]; rfl)
  | sampled workerPid =>
    exact moves_worker desk fun _ ↦ by rw [hworker]; rfl
  | exited => exact moves_drain desk s (by rw [hworker]; rfl)
  | collecting =>
    have hfollowed : desk.worker.followed = true := by rw [hworker]; rfl
    exact ⟨rfl, id, .inl rfl, .inr fun _ h ↦ .inl h, .inl, fun _ ↦ .inl hfollowed⟩
  | finalizing cancelled =>
    have hfollowed : desk.worker.followed = true := by rw [hworker]; rfl
    simp only
    split
    · exact moves_worker desk fun _ ↦ hfollowed
    · exact moves_update desk (.inr fun _ ↦ .inl rfl) (.inl hfollowed) fun _ ↦ hfollowed
  | concluding cancelled exitCode observed verdict =>
    have hfollowed : desk.worker.followed = true := by rw [hworker]; rfl
    simp only
    split
    · exact moves_worker desk fun _ ↦ hfollowed
    · exact moves_update desk (.inl rfl) (.inl hfollowed) fun _ ↦ hfollowed
  | ended => exact ⟨rfl, id, .inl rfl, .inl hworker, .inl, .inl⟩

/-- A thread that has nothing more to write writes nothing more. -/
theorem work_of_atRest (h : desk.AtRest) (s : JobSurroundings) :
    (desk.work s).worker = .ended ∧ (desk.work s).record = desk.record ∧
      (desk.work s).spawned = desk.spawned := by
  unfold work
  rcases h with hended | ⟨hcreated, hcancelled⟩
  · rw [hended]
    exact ⟨hended, rfl, rfl⟩
  · rw [hcreated]
    simp [hcancelled]

theorem Orderly.work (h : Orderly desk) (s : JobSurroundings) :
    Orderly (desk.work s) ∧ Stands desk (desk.work s) := by
  have hmoves := moves_work desk s
  have hrest : desk.AtRest → (desk.work s).AtRest := fun hatRest ↦
    .inl (work_of_atRest hatRest s).1
  have hunspawned : desk.cancelRequested = true → desk.spawned = false →
      (desk.work s).spawned = false := by
    intro hcancelled hnone
    rcases h.cancelled hcancelled hnone with hatRest | hgone
    · exact (work_of_atRest hatRest s).2.2.trans hnone
    · rcases hmoves.spawned with hsame | ⟨-, hpresent, -⟩
      · exact hsame.trans hnone
      · exact absurd hgone hpresent
  refine ⟨⟨?_, ?_, ?_⟩, ⟨?_, hmoves.gone, ?_⟩⟩
  · intro status hstatus hterminal
    rcases hmoves.status with hended | hsame
    · exact .inl hended
    · rcases hsame status hstatus with hbefore | hactive
      · exact hrest (h.rest status hbefore hterminal)
      · rw [hactive] at hterminal
        cases hterminal
  · intro hcancelled hnone
    rw [hmoves.cancelRequested] at hcancelled
    have hbefore : desk.spawned = false := by
      rcases hmoves.spawned with hsame | ⟨-, -, hspawned⟩
      · exact hsame ▸ hnone
      · rw [hspawned] at hnone
        cases hnone
    exact (h.cancelled hcancelled hbefore).imp hrest hmoves.gone
  · intro hknown
    have hkept : desk.spawned = true → (desk.work s).spawned = true := fun hspawned ↦
      hmoves.spawned.elim (fun hsame ↦ hsame.trans hspawned) fun hnew ↦ hnew.2.2
    rcases hknown with htarget | hfollowed
    · exact hkept (h.known (hmoves.known htarget))
    · rcases hmoves.followed hfollowed with hbefore | hspawned
      · exact hkept (h.known (.inr hbefore))
      · exact hspawned
  · intro status hstatus hterminal
    have hsame := (work_of_atRest (h.rest status hstatus hterminal) s).2.1
    refine .inl ?_
    rw [JobDesk.status, hsame]
    exact hstatus
  · intro hcancelled hnone
    exact ⟨hmoves.cancelRequested.trans hcancelled, hunspawned hcancelled hnone⟩

section

omit [LogNumber N]

section

variable (h : Orderly desk)
include h

/-- A call that sets a status that is not terminal on a record that has none. -/
theorem Orderly.mark {record marked : JobRecord N} (hrecord : desk.record = some record)
    (hactive : record.status.terminal = false) (hmarked : marked.status.terminal = false)
    (htarget : marked.target = record.target) :
    Orderly { desk with record := some marked } ∧
      Stands desk { desk with record := some marked } := by
  have hnone : ¬ desk.record = none := by rw [hrecord]; exact Option.some_ne_none record
  refine ⟨⟨?_, ?_, ?_⟩, ⟨?_, fun hgone ↦ absurd hgone hnone, fun h h' ↦ ⟨h, h'⟩⟩⟩
  · rintro status ⟨⟩ hterminal
    rw [hmarked] at hterminal
    cases hterminal
  · intro hcancelled hunspawned
    exact .inl ((h.cancelled hcancelled hunspawned).resolve_right hnone)
  · rintro (hknown | hfollowed)
    · refine h.known (.inl ?_)
      rw [target, hrecord]
      exact fun hnone ↦ hknown (htarget.trans hnone)
    · exact h.known (.inr hfollowed)
  · intro status hstatus hterminal
    rw [JobDesk.status, hrecord] at hstatus
    cases hstatus
    rw [hactive] at hterminal
    cases hterminal

theorem Orderly.cancel {now : String} (htimely : Timely desk (.cancel now)) :
    Orderly (desk.cancel now).1 ∧ Stands desk (desk.cancel now).1 := by
  unfold JobDesk.cancel
  cases hrecord : desk.record with
  | none => exact ⟨h, .refl desk⟩
  | some record =>
  simp only
  split
  · exact ⟨h, .refl desk⟩
  rename_i hactive
  have hlive := Bool.eq_false_iff.mpr hactive
  have hstatus : desk.status = some record.status := by rw [JobDesk.status, hrecord]; rfl
  have hfinished : ∀ after : JobDesk N, ∀ status, desk.status = some status →
      status.terminal = true → after.status = some status ∨ after.record = none := by
    intro after status hsame hterminal
    rw [hstatus] at hsame
    cases hsame
    exact absurd hterminal hactive
  have hpresent : ¬ desk.record = none := by rw [hrecord]; exact Option.some_ne_none record
  split
  · rename_i hnone
    have hworker : desk.worker = .created ∨ desk.worker = .ended := by
      rcases htimely with hcreated | hended | htarget | hterminal
      · exact .inl hcreated
      · exact .inr hended
      · rw [target, hrecord] at htarget
        exact absurd hnone htarget
      · exact absurd (hterminal _ hstatus) hactive
    refine ⟨⟨fun _ _ _ ↦ ?_, fun _ _ ↦ .inl ?_, ?_⟩, ⟨hfinished _, ?_, ?_⟩⟩
    · exact hworker.symm.imp_right fun hcreated ↦ ⟨hcreated, rfl⟩
    · exact hworker.symm.imp_right fun hcreated ↦ ⟨hcreated, rfl⟩
    · rintro (htarget | hfollowed)
      · exact absurd hnone htarget
      · exact h.known (.inr hfollowed)
    · exact fun hgone ↦ absurd hgone hpresent
    · exact fun _ hunspawned ↦ ⟨rfl, hunspawned⟩
  · rename_i pid htarget
    have hspawned : desk.spawned = true := by
      refine h.known (.inl ?_)
      rw [target, hrecord]
      exact fun hnone ↦ Option.some_ne_none pid (htarget.symm.trans hnone)
    refine ⟨⟨?_, ?_, fun _ ↦ hspawned⟩, ⟨hfinished _, fun hgone ↦ absurd hgone hpresent, ?_⟩⟩
    · rintro status ⟨⟩ hterminal
      cases hterminal
    · intro _ hunspawned
      exact absurd (hspawned.symm.trans hunspawned) (by decide)
    · exact fun _ hunspawned ↦ ⟨rfl, hunspawned⟩

theorem Orderly.pause (signalled : Bool) :
    Orderly (desk.pause signalled).1 ∧ Stands desk (desk.pause signalled).1 := by
  unfold JobDesk.pause
  cases hrecord : desk.record with
  | none => exact ⟨h, .refl desk⟩
  | some record =>
  simp only
  split
  · exact ⟨h, .refl desk⟩
  rename_i hrunning
  split
  · exact ⟨h, .refl desk⟩
  split
  · exact h.mark hrecord (by rw [not_not.mp hrunning]; rfl) rfl rfl
  · exact ⟨h, .refl desk⟩

theorem Orderly.resume (signalled : Bool) :
    Orderly (desk.resume signalled).1 ∧ Stands desk (desk.resume signalled).1 := by
  unfold JobDesk.resume
  cases hrecord : desk.record with
  | none => exact ⟨h, .refl desk⟩
  | some record =>
  simp only
  split
  · exact ⟨h, .refl desk⟩
  rename_i hpaused
  split
  · exact ⟨h, .refl desk⟩
  split
  · exact h.mark hrecord (by rw [not_not.mp hpaused]; rfl) rfl rfl
  · exact ⟨h, .refl desk⟩

theorem Orderly.purge :
    Orderly desk.purge.1 ∧ Stands desk desk.purge.1 := by
  unfold JobDesk.purge
  cases hrecord : desk.record with
  | none => exact ⟨h, .refl desk⟩
  | some record =>
    refine ⟨⟨?_, fun _ _ ↦ .inr rfl, ?_⟩, ⟨fun _ _ _ ↦ .inr rfl, fun _ ↦ rfl, ?_⟩⟩
    · intro status hstatus
      cases hstatus
    · rintro (htarget | hfollowed)
      · exact absurd rfl htarget
      · exact h.known (.inr hfollowed)
    · exact fun _ hunspawned ↦ ⟨rfl, hunspawned⟩

end

end

theorem Orderly.step (h : Orderly desk) {input : JobInput} (htimely : Timely desk input) :
    Orderly (desk.step input) ∧ Stands desk (desk.step input) := by
  cases input with
  | work surroundings => exact h.work surroundings
  | cancel now => exact h.cancel htimely
  | pause signalled => exact h.pause signalled
  | resume signalled => exact h.resume signalled
  | purge => exact h.purge

/-- In every interleaving whose cancellations are timely, a job that has ended stays as it ended,
and a job that was cancelled before its process was spawned spawns none. -/
theorem ascends_stands {desk : JobDesk N} (hbegun : Begun desk) {inputs : List JobInput}
    (htimely : Run.Always step Timely desk inputs) : Run.Ascends step Stands desk inputs := by
  refine (Run.ascends_iff_always Stands.refl fun _ _ _ ↦ Stands.trans).mpr ?_
  exact Run.always_of_step (fun _ _ h htimely ↦ h.step htimely) hbegun.orderly htimely

def runsWell : JobSurroundings where
  now := "2026-01-05T09:00:00+00:00"
  raises := false
  logError := none
  spawn := .ok 4711
  workerPid := none
  chunk := []
  alive := true
  exitCode := none
  observed := false
  evidence := .fresh
  diagnosis := ⟨"process_failed", "", ""⟩

/-- A job that is cancelled while its process runs. -/
theorem ascends_stands_running : Run.Ascends step Stands (submitted : JobDesk ℚ)
    [.work runsWell, .work runsWell, .work runsWell, .work runsWell, .work runsWell,
      .cancel "2026-01-05T09:05:00+00:00", .work runsWell] :=
  ascends_stands .submitted
    ⟨trivial, trivial, trivial, trivial, trivial, .inr (.inr (.inl (by decide +kernel))), trivial,
      trivial⟩

/-- A cancellation behind the thread's look at the cancellations: the job is cancelled, starts, and
spawns its process. -/
theorem not_ascends_stands_late : ¬ Run.Ascends step Stands (submitted : JobDesk ℚ)
    [.work runsWell, .cancel "2026-01-05T09:00:00+00:00", .work runsWell, .work runsWell,
      .work runsWell] := by
  intro h
  have hstands := h [.work runsWell, .cancel "2026-01-05T09:00:00+00:00"]
    [.work runsWell, .work runsWell, .work runsWell] [] rfl
  have hspawned := (hstands.unspawned rfl rfl).2
  cases hspawned

end JobDesk

end QuantAgent.Services
