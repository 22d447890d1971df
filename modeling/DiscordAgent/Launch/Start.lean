import DiscordAgent.System.Footprint

/-!
# A start that fails

`run_job` commits five writes before it calls `Popen`: the attempt, `starting`,
the session `busy`, `running`. When `ClaudeProcess.start` raises a `RunnerError`
it undoes them by hand; `ClaudeProcess.start` turns only a `FileNotFoundError`
into one.

* `eval_runJob`: `run_job` alone, up to its `try` block.
* `CleanFailure`: nothing is half-started.
* `failedStart_iff`: a start that fails ends so exactly if it raises a
  `RunnerError`.
* `failedStart_leaves`: a start that fails with a `PermissionError`.
-/

namespace DiscordAgent

open Interleave Sql

/-! ## The writes before the start -/

theorem starting_mem_iff {s : JobState} : .starting ∈ s.validTransitions ↔ s = .queued := by
  cases s <;> decide

namespace Runner

variable {w : World} {ω : ℕ → Inputs} {jobId sessionId : ℕ} {model : String}

/-- The world in which `run_job` calls `ClaudeProcess.start` for the new
    attempt. -/
def launched (jobId sessionId : ℕ) (ω : ℕ → Inputs) (w : World) : World :=
  let w := (exec (.insertAttempt jobId (some sessionId) (w.db.maxAttemptNum jobId + 1)) (ω 3) w).2
  let w := (exec (.updateJobState jobId .queued .starting none) (ω 5) w).2
  let w := (exec (.updateSession sessionId
    { state := some .busy, heartbeat := true, currentAttemptId := some w.db.attempts.seq })
    (ω 7) w).2
  (exec (.updateJobState jobId .starting .running none) (ω 9) w).2

/-- The end of `run_job` alone, for a job in `starting`. -/
theorem eval_launch {job r : Job} {repo : Repo} {attemptId : ℕ}
    (hj : w.db.getJob jobId = some r) (hst : r.state = .starting) :
    (launch jobId job repo sessionId model attemptId).eval exec ω w =
      (tryStart jobId job repo sessionId model attemptId (ω 0).systemPrompt).eval exec
        (fun n => ω (n + 4))
        (exec (.updateJobState jobId .starting .running none) (ω 3)
          (exec (.updateSession sessionId
            { state := some .busy, heartbeat := true, currentAttemptId := some attemptId })
            (ω 1) w).2).2 := by
  simp only [launch, Prog.bind_eq, Prog.perform_bind, Prog.eval]
  rw [eval_transitionJob (r := r), hst]
  · rfl
  · exact hj
  · rw [hst]
    decide

/-- `run_job` alone, on a job that it moves to `starting`. -/
theorem eval_runJob {job : Job} {repo : Repo} (hj : w.db.getJob jobId = some job)
    (hst : job.state = .queued) (hrepo : w.db.getRepoById job.repoId = some repo) :
    (runJob jobId sessionId model).eval exec ω w =
      (tryStart jobId job repo sessionId model (w.db.attempts.seq + 1)
        (ω 6).systemPrompt).eval exec (fun n => ω (n + 10)) (launched jobId sessionId ω w) := by
  simp only [runJob, createAttempt, Prog.bind_eq, Prog.perform_bind, Prog.call_bind,
    Prog.eval, exec, hj, hrepo]
  rw [eval_transitionJob (r := job), eval_launch (r := job.transition .starting none (ω 5).now)]
  · rw [hst]
    rfl
  · rw [exec_update, if_pos rfl]
    exact congrArg _ hj
  · rfl
  · exact hj
  · rw [hst]
    decide

/-! ## Specification -/

end Runner

/-- What `Popen` raises. -/
def PopenOutcome.error : PopenOutcome → Option PyErr
  | started _ => none
  | fileNotFound => some .claudeNotFound
  | osError => some .osError

/-- The attempt, the session and the job as a failed start has to leave them. -/
structure CleanFailure (jobId sessionId attemptId : ℕ) (w : World) : Prop where
  attempt : ∃ a, w.db.attempts.get? attemptId = some a ∧ a.jobId = jobId ∧ a.finishedAt.isSome
  session : ∃ s, w.db.sessions.get? sessionId = some s ∧ s.state = .idle
  job : ∃ r, w.db.getJob jobId = some r ∧ r.state = .failedRetryable
  process : attemptId ∉ w.processes

/-- The attempt, the session and the job as they are during the start. -/
structure HalfStarted (jobId sessionId attemptId : ℕ) (w : World) : Prop where
  attempt : ∃ a, w.db.attempts.get? attemptId = some a ∧ a.jobId = jobId ∧ a.finishedAt = none
  session : ∃ s, w.db.sessions.get? sessionId = some s ∧ s.state = .busy
  job : ∃ r, w.db.getJob jobId = some r ∧ r.state = .running
  process : attemptId ∉ w.processes

/-- Nothing can be both. -/
theorem CleanFailure.not_halfStarted {jobId sessionId attemptId : ℕ} {w : World}
    (h : CleanFailure jobId sessionId attemptId w) :
    ¬ HalfStarted jobId sessionId attemptId w := by
  intro h'
  obtain ⟨r, hr, hst⟩ := h.job
  obtain ⟨r', hr', hst'⟩ := h'.job
  rw [hr] at hr'
  cases hr'
  rw [hst] at hst'
  cases hst'

namespace Runner

variable {w : World} {ω : ℕ → Inputs} {jobId sessionId attemptId : ℕ} {model : String}

theorem halfStarted_launched (ω : ℕ → Inputs) {job : Job} {s : Session}
    (hj : w.db.getJob jobId = some job) (hs : w.db.sessions.get? sessionId = some s)
    (hp : w.db.attempts.seq + 1 ∉ w.processes) :
    HalfStarted jobId sessionId (w.db.attempts.seq + 1) (launched jobId sessionId ω w) := by
  refine ⟨⟨_, (w.db.attempt_insertAttempt _ _ _ _ _).trans (if_pos rfl), rfl, rfl⟩, ?_, ?_, hp⟩
  · have hget : (launched jobId sessionId ω w).db.sessions.get? sessionId = _ :=
      Db.session_updateSession _ _ _ _ _
    rw [if_pos rfl] at hget
    refine ⟨_, hget.trans (congrArg _ hs), rfl⟩
  · have hstarting : (exec (.updateJobState jobId .queued .starting none) (ω 5)
        (exec (.insertAttempt jobId (some sessionId) (w.db.maxAttemptNum jobId + 1)) (ω 3)
          w).2).2.db.getJob jobId = some (job.transition .starting none (ω 5).now) := by
      rw [exec_update, if_pos rfl]
      exact congrArg _ hj
    have hrunning : (launched jobId sessionId ω w).db.getJob jobId = _ :=
      exec_update.trans (if_pos rfl)
    exact ⟨_, hrunning.trans (congrArg _ hstarting), rfl⟩

/-! ## The `try` block -/

variable {job : Job} {repo : Repo} {prompt : Option String}

/-- An exception that is not a `RunnerError` leaves everything as it is. -/
theorem eval_tryStart_osError (hp : (ω 0).popen = .osError) :
    (tryStart jobId job repo sessionId model attemptId prompt).eval exec ω w =
      (.error .osError, w) := by
  simp only [tryStart, startProcess, Prog.bind_eq, Prog.perform_bind, Prog.call_bind,
    Prog.tryCatch, Prog.eval, exec, hp, ofExcept, Prog.raise_bind, PyErr.isRunnerError,
    Bool.false_eq_true, if_false]

/-- The world after the `except RunnerError` branch. -/
def undone (jobId sessionId attemptId : ℕ) (ω : ℕ → Inputs) (w : World) : World :=
  let w := (exec (.finishAttempt attemptId (some (-1)) (some "Failed to start claude process"))
    (ω 1) w).2
  let w := (exec (.updateSession sessionId { state := some .idle }) (ω 2) w).2
  (exec (.updateJobState jobId .running .failedRetryable none) (ω 4) w).2

/-- A `RunnerError` is undone and raised again. -/
theorem eval_tryStart_fileNotFound {r : Job} (hp : (ω 0).popen = .fileNotFound)
    (hr : w.db.getJob jobId = some r) (hst : r.state = .running) :
    (tryStart jobId job repo sessionId model attemptId prompt).eval exec ω w =
      (.error .claudeNotFound, undone jobId sessionId attemptId ω w) := by
  have hpopen : ∀ argv cwd env cb, exec (.popen argv cwd env cb) (ω 0) w =
      (.error .claudeNotFound, w) := by
    intro argv cwd env cb
    simp only [exec, hp]
  simp only [tryStart, startProcess, Prog.bind_eq, Prog.perform_bind, Prog.call_bind,
    Prog.tryCatch, Prog.eval]
  rw [hpopen]
  simp only [ofExcept, Prog.raise_bind, Prog.tryCatch, PyErr.isRunnerError, if_true, Prog.eval]
  rw [eval_transitionJob (r := r), hst]
  · rfl
  · exact hr
  · rw [hst]
    decide

theorem cleanFailure_undone (ω : ℕ → Inputs) (h : HalfStarted jobId sessionId attemptId w) :
    CleanFailure jobId sessionId attemptId (undone jobId sessionId attemptId ω w) := by
  obtain ⟨⟨a, ha, haj, -⟩, ⟨s, hs, -⟩, ⟨r, hr, -⟩, hproc⟩ := h
  refine ⟨?_, ?_, ?_, hproc⟩
  · have hget : (undone jobId sessionId attemptId ω w).db.attempts.get? attemptId = _ :=
      (Db.attempt_finishAttempt _ _ _ _ _ _).trans (if_pos rfl)
    exact ⟨_, hget.trans (congrArg _ ha), haj, rfl⟩
  · have hget : (undone jobId sessionId attemptId ω w).db.sessions.get? sessionId = _ :=
      (Db.session_updateSession _ _ _ _ _).trans (if_pos rfl)
    exact ⟨_, hget.trans (congrArg _ hs), rfl⟩
  · have hget : (undone jobId sessionId attemptId ω w).db.getJob jobId = _ :=
      exec_update.trans (if_pos rfl)
    exact ⟨_, hget.trans (congrArg _ hr), rfl⟩

/-- A start that fails leaves nothing half-started exactly if the exception is a
    `RunnerError`, which `run_job` raises again in any case. -/
theorem failedStart_iff {e : PyErr} {s : Session} (hj : w.db.getJob jobId = some job)
    (hst : job.state = .queued) (hrepo : w.db.getRepoById job.repoId = some repo)
    (hs : w.db.sessions.get? sessionId = some s) (hproc : ∀ a ∈ w.processes, a ≤ w.db.attempts.seq)
    (he : (ω 10).popen.error = some e) :
    ((runJob jobId sessionId model).eval exec ω w).1 = .error e ∧
      (CleanFailure jobId sessionId (w.db.attempts.seq + 1)
        ((runJob jobId sessionId model).eval exec ω w).2 ↔ e.isRunnerError = true) := by
  have hnew : w.db.attempts.seq + 1 ∉ w.processes := by
    intro h
    have := hproc _ h
    omega
  have hhalf := halfStarted_launched ω hj hs hnew
  rw [eval_runJob hj hst hrepo]
  generalize launched jobId sessionId ω w = w' at hhalf ⊢
  cases hp : (ω 10).popen with
  | started pid =>
    rw [hp] at he
    cases he
  | fileNotFound =>
    rw [hp] at he
    cases he
    obtain ⟨r, hr, hrun⟩ := hhalf.job
    rw [eval_tryStart_fileNotFound hp hr hrun]
    have hclean := cleanFailure_undone (fun n => ω (n + 10)) hhalf
    exact ⟨rfl, fun _ => rfl, fun _ => hclean⟩
  | osError =>
    rw [hp] at he
    cases he
    rw [eval_tryStart_osError hp]
    refine ⟨rfl, ?_, fun h => by cases h⟩
    intro hclean
    exact absurd hhalf hclean.not_halfStarted

end Runner

/-- A repo with one queued job. -/
def oneQueued : Db := (((default : Db).createRepo Sys.oneRepo 0).2.createJob Sys.oneJob 0).2

namespace Runner

/-- A new session for the job and no worker. -/
def readyToStart : World := (Sys.boot (oneQueued.createSession 1 0).2 fun _ => none).shared

theorem failedStart_clean : CleanFailure 1 1 1 ((runJob 1 1 "sonnet").eval exec
    (fun _ => { popen := .fileNotFound }) readyToStart).2 :=
  ((@failedStart_iff readyToStart (fun _ => { popen := .fileNotFound }) 1 1 "sonnet" _ _ _ _
    rfl rfl rfl rfl (by decide) rfl).2).mpr rfl

/-- Python's `PermissionError` of `Popen` leaves job 1 `running`. -/
theorem failedStart_leaves : ¬ ∀ (jobId sessionId : ℕ) (model : String) (ω : ℕ → Inputs)
    (w : World) (e : PyErr), (ω 10).popen.error = some e →
    ((runJob jobId sessionId model).eval exec ω w).1 = .error e →
    CleanFailure jobId sessionId (w.db.attempts.seq + 1)
      ((runJob jobId sessionId model).eval exec ω w).2 := by
  intro h
  obtain ⟨r, hr, hst⟩ := (h 1 1 "sonnet" (fun _ => { popen := .osError }) readyToStart .osError
    rfl rfl).job
  have hrun : ((((runJob 1 1 "sonnet").eval exec (fun _ => { popen := .osError })
      readyToStart).2.db.getJob 1).any fun r => r.state == .running) = true := by decide +kernel
  rw [hr, Option.any_some, hst] at hrun
  cases hrun

end Runner

end DiscordAgent
