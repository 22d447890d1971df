import DiscordAgent.Model.Scheduler

/-!
# Runner and Watchdog

`Runner.run_job` with its `on_complete` callback (`lib/runner.py`) and the
recovery code of `lib/watchdog.py`.

The Runner of the daemon always has a Scheduler (`Daemon.__init__`), so the
branches of `on_complete` for `self._scheduler is None` are left out. The
`on_event` callback only writes the `events` table and is left out too.
-/

namespace DiscordAgent

open Interleave

namespace Runner

/-- The command line of `ClaudeProcess.start` (lines 106–118). -/
def claudeCmd (task model : String) (systemPrompt : Option String) : List String :=
  ["claude", "-p", task, "--output-format", "stream-json", "--verbose", "--model", model] ++
    match systemPrompt.filter (· ≠ "") with
    | some prompt => ["--append-system-prompt", prompt]
    | none => []

/-- `ClaudeProcess.start` (lines 104–140): `Popen` gets no `env=`. -/
def startProcess (task workingDir model : String) (systemPrompt : Option String)
    (callback : Callback) : Py ℕ := do
  let r ← op (.popen (claudeCmd task model systemPrompt) workingDir none callback)
  ofExcept r

/-- The `try` block of `run_job` (lines 356–368). -/
def tryStart (jobId : ℕ) (job : Job) (repo : Repo) (sessionId : ℕ) (model : String)
    (attemptId : ℕ) (systemPrompt : Option String) : Py ℕ :=
  Prog.tryCatch
    (do
      let pid ← startProcess job.task repo.path model systemPrompt
        { attemptId := attemptId, jobId := jobId, sessionId := sessionId, repoId := job.repoId }
      op (.updateSession sessionId { pid := some pid })
      op (.registerProcess attemptId)
      .ret attemptId)
    fun e => if e.isRunnerError then do
        op (.finishAttempt attemptId (some (-1)) (some "Failed to start claude process"))
        op (.updateSession sessionId { state := some .idle })
        transitionJob jobId .failedRetryable
        .raise e
      else .raise e

/-- The end of `run_job` (lines 340–368): the session, the transition to
    `running`, and the start of the process. -/
def launch (jobId : ℕ) (job : Job) (repo : Repo) (sessionId : ℕ) (model : String)
    (attemptId : ℕ) : Py ℕ := do
  let systemPrompt ← op .loadSystemPrompt
  op (.updateSession sessionId
    { state := some .busy, heartbeat := true, currentAttemptId := some attemptId })
  transitionJob jobId .running
  tryStart jobId job repo sessionId model attemptId systemPrompt

/-- `run_job` (lines 255–368). -/
def runJob (jobId sessionId : ℕ) (model : String) : Py ℕ := do
  match ← op (.getJob jobId) with
  | none => .raise (.runnerJobNotFound jobId)
  | some job =>
    match ← op (.getRepoById job.repoId) with
    | none => .raise (.runnerRepoNotFound job.repoId)
    | some repo =>
      let attemptId ← createAttempt jobId (some sessionId)
      transitionJob jobId .starting
      launch jobId job repo sessionId model attemptId

/-- `on_complete` of `run_job` (lines 291–338). -/
def onComplete (cfg : Settings) (cb : Callback) (exitCode : ℤ) (result : Option String)
    (isRateLimited : Bool) : Py Unit := do
  let currentAttempts ← op (.getAttempts cb.jobId)
  if currentAttempts.getLast?.any (·.id ≠ cb.attemptId) then op (.popProcess cb.attemptId)
  else
    let errorMsg := if exitCode = 0 then none
      else some ((result.filter (· ≠ "")).getD "Unknown error")
    op (.finishAttempt cb.attemptId (some exitCode) errorMsg)
    op (.casUpdateSession cb.sessionId cb.attemptId { state := some .idle, heartbeat := true })
    op (.popProcess cb.attemptId)
    match ← op (.getJob cb.jobId) with
    | none => .ret ()
    | some job =>
      if !job.state.active then .ret ()
      else if exitCode = 0 then Scheduler.onSuccess cfg cb.repoId cb.jobId result
      else if isRateLimited then do
        let _ ← Scheduler.onRateLimit cfg cb.repoId cb.jobId
        .ret ()
      else if exitCode = 143 ∨ exitCode = -15 then
        ignoreValueError
          (transitionJob cb.jobId .failedPermanent (some "Killed by SIGTERM (no retry)"))
      else transitionJob cb.jobId .failedRetryable

/-- `stop_job` (lines 374–381). -/
def stopJob (attemptId : ℕ) : Py Bool := do
  if ← op (.getProcess attemptId) then
    op (.stopProcess attemptId)
    .ret true
  else .ret false

/-- The loop of `stop_all` (lines 392–396). -/
def stopEach : List ℕ → ℕ → Py ℕ
  | [], count => .ret count
  | aid :: aids, count => do
    if ← stopJob aid then stopEach aids (count + 1) else stopEach aids count

/-- `stop_all` (lines 388–396), from the keys that it has read under the lock. -/
def stopAll (aids : List ℕ) : Py ℕ := stopEach aids 0

end Runner

namespace Watchdog

/-- `_handle_timeout` (lines 107–135). -/
def handleTimeout (jobId : ℕ) : Py RecoveryAction := do
  let attempts ← op (.getAttempts jobId)
  let attemptCount := attempts.length
  if attemptCount ≤ 1 then
    ignoreValueError (transitionJob jobId .timedOut)
    .ret ⟨.retrySameSession, jobId,
      s!"Timed out after {attemptCount} attempt(s), will retry on same session"⟩
  else
    ignoreValueError (transitionJob jobId .timedOut)
    .ret ⟨.forkSession, jobId,
      s!"Timed out after {attemptCount} attempt(s), will fork to new session"⟩

/-- `_handle_lost` (lines 137–149). -/
def handleLost (jobId : ℕ) (latest : Attempt) : Py RecoveryAction := do
  ignoreValueError (transitionJob jobId .lost)
  let num := latest.attemptNum
  .ret ⟨.reportLost, jobId, s!"Process lost (attempt {num}), reporting to controller"⟩

/-- `_check_job` (lines 70–105). -/
def checkJob (cfg : Settings) (job : Job) : Py (Option RecoveryAction) := do
  let now ← op .time
  let attempts ← op (.getAttempts job.id)
  match attempts.getLast? with
  | none => .ret none
  | some latest =>
    if now - latest.startedAt > cfg.jobTimeout then
      let a ← handleTimeout job.id
      .ret (some a)
    else
      match ← op (.probe latest) with
      | none =>
        if latest.finishedAt.isNone then
          let a ← handleLost job.id latest
          .ret (some a)
        else .ret none
      | some proc =>
        if !proc.isAlive then .ret none
        else if proc.idleSeconds > cfg.heartbeatTimeout then
          let a ← handleTimeout job.id
          .ret (some a)
        else .ret none

/-- `check_all` (lines 56–68). -/
def checkAll (cfg : Settings) : Py (List RecoveryAction) := do
  let runningJobs ← op (.listJobs none (some .running) 50 none)
  let startingJobs ← op (.listJobs none (some .starting) 50 none)
  Prog.collect (runningJobs ++ startingJobs) [] (checkJob cfg)

/-- `_cleanup_running_process` (lines 151–182). -/
def cleanupRunningProcess (jobId : ℕ) : Py Unit := do
  let attempts ← op (.getAttempts jobId)
  match attempts.getLast? with
  | none => .ret ()
  | some latest =>
    let found ← op (.getProcess latest.id)
    Prog.runIf found do
      op (.stopProcess latest.id)
      op (.joinReader latest.id)
    let fresh ← op (.getAttempts jobId)
    Prog.runIf (fresh.getLast?.any fun a => a.finishedAt.isNone)
      (op (.finishAttempt latest.id (some (-1)) (some "Stopped by watchdog")))
    match (fresh.getLast?.getD latest).sessionId with
    | some sessionId => op (.updateSession sessionId { state := some .idle })
    | none => .ret ()

/-- `_mark_old_session_dead` (lines 262–271). -/
def markOldSessionDead (jobId : ℕ) : Py (Option ℕ) := do
  let attempts ← op (.getAttempts jobId)
  match attempts.getLast?.bind Attempt.sessionId with
  | some sessionId =>
    op (.updateSession sessionId { state := some .dead })
    .ret (some sessionId)
  | none => .ret none

/-- `apply_recovery` (lines 184–260). -/
def applyRecovery (a : RecoveryAction) : Py RecoveryResult := do
  match ← op (.getJob a.jobId) with
  | none => .ret (.jobNotFound a.jobId)
  | some job =>
    Prog.runIf (job.state.active || job.state.limbo) (cleanupRunningProcess a.jobId)
    match a.action with
    | .retrySameSession =>
      Prog.tryCatch (do transitionJob a.jobId .queued; .ret (.requeued a.jobId))
        (onValueError fun e => .ret (.error e))
    | .forkSession =>
      let oldSessionId ← markOldSessionDead a.jobId
      let newSessionId ← op (.createSession job.repoId)
      Prog.tryCatch
        (do
          transitionJob a.jobId .queued
          .ret (.requeuedForNewSession a.jobId oldSessionId newSessionId))
        (onValueError fun e => do
          ignoreValueError (transitionJob a.jobId .failedPermanent
            (some "Max retries exceeded after fork"))
          .ret (.failedPermanent a.jobId e))
    | .reportLost =>
      ignoreValueError (transitionJob a.jobId .needsController
        (some "Process lost, needs manual intervention"))
      .ret (.needsController a.jobId)
    | .backoff =>
      Prog.tryCatch (do transitionJob a.jobId .queued; .ret (.requeuedWithBackoff a.jobId))
        (onValueError fun e => .ret (.error e))
    | .escalate =>
      ignoreValueError (transitionJob a.jobId .failedPermanent (some ("Escalated: " ++ a.detail)))
      .ret (.escalated a.jobId)
    | .unknown name => .ret (.unknownAction (.unknown name))

end Watchdog

end DiscordAgent
