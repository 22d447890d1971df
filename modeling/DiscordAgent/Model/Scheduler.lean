import DiscordAgent.Model.World

/-!
# Scheduler

`lib/scheduler.py`, and the methods of `Database` that are more than one SQL
statement (`transition_job`, `create_attempt`, `get_repo_by_alias`). Every
method is a program over the atomic operations of `Model/World.lean`, statement
by statement in the order of the source, so other threads can run between any
two of its statements.
-/

namespace DiscordAgent

open Interleave

/-- The configuration of the daemon, with the constructor defaults of the
    source, and the library functions the code calls. -/
structure Settings where
  py : PyLib
  /-- `parse_enqueue_at(expr, now)`; `none` where it raises `ValueError`. -/
  parseEnqueueAt : String → ℚ → Option (WithTop ℚ)
  /-- `_redact_result_preview`. -/
  redactResultPreview : String → String
  backoff : BackoffTracker := {}
  globalMaxConcurrency : ℤ := 2
  watchdogInterval : ℚ := 30
  heartbeatTimeout : ℚ := 600
  jobTimeout : ℚ := 3600
  wakeGraceSeconds : ℚ := 90
  maxWakeAttempts : ℤ := 1
  autoWake : Bool := false
  fallbackResultPreview : Bool := false

/-- One atomic operation. -/
abbrev op (o : Op) : Py o.Res := Prog.perform o

/-- Raise what a library call raised. -/
def ofExcept {α : Type} : Except PyErr α → Py α
  | .ok a => .ret a
  | .error e => .raise e

/-- `except ValueError as e: h`. -/
def onValueError {α : Type} (h : PyErr → Py α) (e : PyErr) : Py α :=
  if e.isValueError then h e else .raise e

/-- `try: p` / `except ValueError: pass`. -/
def ignoreValueError (p : Py Unit) : Py Unit := p.tryCatch (onValueError fun _ => .ret ())

/-! ## Methods of `Database` with several statements -/

/-- `transition_job` (`lib/db.py` lines 440–471): the `SELECT`, the check
    against `VALID_TRANSITIONS`, and a separate `UPDATE`. -/
def transitionJob (jobId : ℕ) (new : JobState) (result : Option String := none) : Py Unit := do
  match ← op (.getJob jobId) with
  | none => .raise (.jobNotFound jobId)
  | some job =>
    if new ∈ job.state.validTransitions then op (.updateJobState jobId job.state new result)
    else .raise (.invalidTransition job.state.text new.text)

/-- `create_attempt` (`lib/db.py` lines 511–526). -/
def createAttempt (jobId : ℕ) (sessionId : Option ℕ) : Py ℕ := do
  let num ← op (.maxAttemptNum jobId)
  op (.insertAttempt jobId sessionId (num + 1))

/-- `get_repo` (`lib/db.py` lines 273–279); no name equals `NULL`. -/
def getRepo : Option String → Py (Option Repo)
  | some name => op (.getRepo name)
  | none => .ret none

/-- `get_repo_by_alias` (`lib/db.py` lines 281–293). -/
def getRepoByAlias (py : PyLib) (name : Json) : Py (Option Repo) := do
  let text ← ofExcept (py.bindText name)
  match ← getRepo text with
  | some r => .ret (some r)
  | none =>
    let rows ← op .allRepos
    .ret (rows.find? fun r => match name with
      | .str s => r.aliases.contains s
      | _ => false)

namespace Scheduler

/-- `MAX_CHAIN_DEPTH`. -/
def maxChainDepth : ℕ := 50

/-- `BackoffTracker.is_backed_off` (lines 61–64). -/
def isBackedOff (repoId : ℕ) : Py Bool := do
  let backoff ← op (.getBackoff repoId)
  let now ← op .time
  .ret (decide (now < backoff.1))

/-- `can_run` (lines 105–119). -/
def canRun (cfg : Settings) (repoId : ℕ) : Py Bool := do
  if ← isBackedOff repoId then .ret false
  else
    let globalRunning ← op (.countRunningJobs none)
    if (globalRunning : ℤ) ≥ cfg.globalMaxConcurrency then .ret false
    else
      match ← op (.getRepoById repoId) with
      | none => .ret false
      | some repo =>
        let repoRunning ← op (.countRunningJobs (some repoId))
        .ret (decide ((repoRunning : ℤ) < repo.maxConcurrency))

/-- `next_job` (lines 121–133). -/
def nextJob (cfg : Settings) (repoId : Option ℕ) : Py (Option Job) := do
  let now ← op .time
  match repoId with
  | some r =>
    if ← canRun cfg r then
      let jobs ← op (.listJobs (some r) (some .queued) 1 (some now))
      .ret jobs.head?
    else .ret none
  | none =>
    let jobs ← op (.listJobs none (some .queued) 50 (some now))
    let jobs ← Prog.collect jobs [] fun j => do
      if ← canRun cfg j.repoId then .ret (some j) else .ret none
    .ret jobs.head?

/-- `on_rate_limit` (lines 135–166). -/
def onRateLimit (cfg : Settings) (repoId jobId : ℕ) : Py ℚ := do
  let r ← op (.onRateLimit cfg.backoff repoId jobId)
  ofExcept r

/-- The `enqueue_at` of a chain payload (lines 255–269); `none` where it does
    not parse. -/
def chainEnqueueAt (cfg : Settings) (raw : Json) : Py (Option (WithTop ℚ)) :=
  if raw.truthy then do
    let now ← op .time
    .ret (cfg.parseEnqueueAt (cfg.py.str raw) now)
  else .ret (some ((0 : ℚ) : WithTop ℚ))

/-- `_dispatch_chain_next` (lines 210–291). The branches that only log return. -/
def dispatchChainNext (cfg : Settings) (payloadStr : String) (currentDepth : ℕ)
    (fallbackNotifyChatId : Option String) : Py Unit := do
  match cfg.py.loads payloadStr with
  | none => .ret ()
  | some payload =>
    if currentDepth + 1 > maxChainDepth then .ret ()
    else
      let repoName ← ofExcept (payload.get "repo")
      let task ← ofExcept (payload.get "task")
      let notify ← ofExcept (payload.get "notify_chat_id")
      let notify := if notify.truthy then notify
        else (fallbackNotifyChatId.map Json.str).getD .null
      let nextNext ← ofExcept (payload.get "next_dispatch_payload")
      if !repoName.truthy || !task.truthy then .ret ()
      else
        match ← getRepoByAlias cfg.py repoName with
        | none => .ret ()
        | some repo =>
          let raw ← ofExcept (payload.get "enqueue_at")
          match ← chainEnqueueAt cfg raw, cfg.py.bindText task, cfg.py.bindText notify with
          | some at_, .ok (some task), .ok notify => do
            let _ ← op (.createJob
              { repoId := repo.id, task := task, priority := 0, maxRetries := 2,
                notifyChatId := notify,
                nextDispatchPayload :=
                  if nextNext.truthy then some (cfg.py.dumps nextNext) else none,
                chainDepth := currentDepth + 1, enqueueAt := at_ })
            .ret ()
          -- an unparsable `enqueue_at`, or `create_job` raised: logged only
          | _, _, _ => .ret ()

/-- `on_success` (lines 168–208). -/
def onSuccess (cfg : Settings) (repoId jobId : ℕ) (result : Option String) : Py Unit := do
  match ← op (.onSuccess repoId jobId result) with
  | none => .ret ()
  | some info =>
    match info.nextDispatchPayload.filter (· ≠ "") with
    | none => .ret ()
    | some payload => dispatchChainNext cfg payload info.chainDepth info.notifyChatId

/-- `requeue_job` (lines 293–307). -/
def requeueJob (jobId : ℕ) : Py Bool := do
  match ← op (.getJob jobId) with
  | none => .ret false
  | some job =>
    let attempts ← op (.getAttempts jobId)
    if (attempts.length : ℤ) ≥ job.maxRetries then
      transitionJob jobId .failedPermanent (some "Max retries exceeded")
      .ret false
    else if .queued ∈ job.state.validTransitions then
      transitionJob jobId .queued
      .ret true
    else .ret false

/-- `drive_recovery` (lines 309–344), returning the `job_id` of each action. -/
def driveRecovery : Py (List ℕ) := do
  let rateLimited ← op (.listJobs none (some .rateLimited) 50 none)
  let actions ← Prog.collect rateLimited [] fun job => do
    if ← isBackedOff job.repoId then .ret none
    else
      let ok ← requeueJob job.id
      .ret (if ok then some job.id else none)
  Prog.forEach (rateLimited.map Job.repoId).dedup fun repoId => op (.clearBackoffIfRecovered repoId)
  let failed ← op (.listJobs none (some .failedRetryable) 50 none)
  Prog.collect failed actions fun job => do
    let ok ← requeueJob job.id
    .ret (if ok then some job.id else none)

end Scheduler

end DiscordAgent
