import DiscordAgent.Interleave.Pool
import DiscordAgent.Model.Backoff
import DiscordAgent.Model.Notifier

/-!
# The shared world and its atomic operations

The threads of the system are the daemon's main thread, one reader thread per
started worker and any number of CLI processes. They share the database, the
process table of the `Runner` and the outside world. `Op` lists the operations
that are one atomic step: one committed SQL statement, one `BEGIN IMMEDIATE`
transaction, one access to the process table under its lock, or one interaction
with the operating system. `exec` is what each of them does.

What the operation learns from outside (the clock, a random draw, whether a
process is alive, an HTTP response) comes in through `Inputs`, which are free at
every step. `World.journal` records, newest first, the events that the
properties speak about; no operation reads it.
-/

namespace DiscordAgent

open Interleave

/-! ## The data of the world -/

/-- The action of a `RecoveryAction` (`lib/watchdog.py` lines 12–24). -/
inductive RecoveryKind where
  | retrySameSession
  | forkSession
  | reportLost
  | backoff
  | escalate
  | unknown (action : String)
  deriving DecidableEq

/-- `RecoveryAction`. -/
structure RecoveryAction where
  action : RecoveryKind
  jobId : ℕ
  detail : String
  deriving DecidableEq

/-- The dict that `apply_recovery` returns: an `error`, or a `status` with its
    fields. `reason` and `error` texts are kept as the exception. -/
inductive RecoveryResult where
  | jobNotFound (jobId : ℕ)
  | error (e : PyErr)
  | unknownAction (action : RecoveryKind)
  | requeued (jobId : ℕ)
  | requeuedForNewSession (jobId : ℕ) (oldSessionId : Option ℕ) (newSessionId : ℕ)
  | failedPermanent (jobId : ℕ) (reason : PyErr)
  | needsController (jobId : ℕ)
  | requeuedWithBackoff (jobId : ℕ)
  | escalated (jobId : ℕ)
  deriving DecidableEq

/-- Who calls `mark_reported`. -/
inductive Reporter where
  | reportDone
  | supervisor
  deriving DecidableEq

/-- The `tmux` commands of the Supervisor. -/
inductive TmuxCmd where
  | listPanes
  | displayMode (pane : String)
  | capturePane (pane : String)
  | sendText (pane : String) (jobId : ℕ) (msg : String)
  | sendEnter (pane : String)
  deriving DecidableEq

/-- The outcome of `subprocess.run(..., check=True, timeout=5)`. -/
inductive TmuxResult where
  | ok (stdout : String)
  | raised (e : PyErr)

/-- What a child process is started with. -/
structure Launch where
  argv : List String
  cwd : String
  env : Environ

/-- What the callbacks of `run_job` capture. -/
structure Callback where
  attemptId : ℕ
  jobId : ℕ
  sessionId : ℕ
  repoId : ℕ
  deriving DecidableEq

/-- A started worker whose reader thread has not called `on_complete` yet. -/
structure Worker where
  callback : Callback
  launch : Launch

/-- An event of the run. -/
inductive Entry where
  /-- `transition_job(job, "queued")` committed: a new episode of the job. -/
  | requeued (jobId : ℕ)
  /-- The Supervisor listed the undelivered jobs, with their `wake_state`. -/
  | listed (jobs : List (ℕ × Option WakeState))
  | claimed (jobId : ℕ)
  | postBegin (jobId : ℕ)
  | postEnd (jobId : ℕ) (result : NotifyResult)
  | reported (by_ : Reporter) (jobId : ℕ)
  | undeliverable (jobId : ℕ)
  /-- The wake text of the job was handed to `tmux send-keys`. -/
  | typed (jobId : ℕ)
  | recovery (action : RecoveryAction)
  | recovered (action : RecoveryAction) (result : RecoveryResult)
  | stopped (attemptId : ℕ)
  deriving DecidableEq

/-- Where the daemon's main thread is in its loop (`Daemon._run`, `_tick`). -/
inductive Phase where
  | idle
  | commands
  | recovery
  | dispatch
  | watchdog
  | supervisor
  deriving DecidableEq

/-- The shared world. `processes` are the keys of `Runner._processes`. -/
structure World where
  db : Db
  processes : List ℕ
  workers : List Worker
  phase : Phase
  lastWatchdogCheck : ℚ
  running : Bool
  environ : Environ
  journal : List Entry

/-- The outcome of `subprocess.Popen`. -/
inductive PopenOutcome where
  | started (pid : ℕ)
  | fileNotFound
  | osError

/-- What an operation learns from outside. -/
structure Inputs where
  now : ℚ := 0
  rand : ℚ := 0
  popen : PopenOutcome := .started 1
  alive : Bool := true
  idleSeconds : ℚ := 0
  systemPrompt : Option String := none
  envFile : Option String := none
  http : HttpOutcome := .response 200
  paneFile : Except PyErr String := .error .osError
  tmux : TmuxResult := .ok ""

/-! ## Operations -/

/-- The atomic operations. -/
inductive Op where
  | time
  -- jobs
  | createJob (n : NewJob)
  | getJob (jobId : ℕ)
  /-- The `UPDATE` of `transition_job`; `current` is the state that its
      `SELECT` read, which the statement itself does not mention. -/
  | updateJobState (jobId : ℕ) (current new : JobState) (result : Option String)
  | listJobs (repoId : Option ℕ) (state : Option JobState) (limit : ℕ) (now : Option ℚ)
  | countRunningJobs (repoId : Option ℕ)
  | onRateLimit (t : BackoffTracker) (repoId jobId : ℕ)
  | onSuccess (repoId jobId : ℕ) (result : Option String)
  -- delivery
  | markReported (by_ : Reporter) (jobId : ℕ)
  | claimForFallback (jobId : ℕ)
  | markWoken (jobId : ℕ)
  | incrWakeAttempts (jobId : ℕ)
  | setUndeliverable (jobId : ℕ)
  | listUndeliveredTerminalJobs
  -- attempts
  | maxAttemptNum (jobId : ℕ)
  | insertAttempt (jobId : ℕ) (sessionId : Option ℕ) (attemptNum : ℕ)
  | finishAttempt (attemptId : ℕ) (exitCode : Option ℤ) (error : Option String)
  | getAttempts (jobId : ℕ)
  -- sessions
  | createSession (repoId : ℕ)
  | listSessions (repoId : Option ℕ) (state : Option SessionState)
  | updateSession (sessionId : ℕ) (u : Db.SessionPatch)
  | casUpdateSession (sessionId expectedAttemptId : ℕ) (u : Db.SessionPatch)
  -- repos
  | getRepo (name : String)
  | allRepos
  | getRepoById (repoId : ℕ)
  | getBackoff (repoId : ℕ)
  | clearBackoffIfRecovered (repoId : ℕ)
  | createRepo (n : Db.NewRepo)
  | updateRepo (name : String) (u : Db.RepoPatch)
  -- daemon commands
  | enqueueCommand (c : Command)
  | pollCommands (limit : ℕ)
  -- the runner and its processes
  | loadSystemPrompt
  | popen (argv : List String) (cwd : String) (env : Option Environ) (callback : Callback)
  | registerProcess (attemptId : ℕ)
  | popProcess (attemptId : ℕ)
  | getProcess (attemptId : ℕ)
  /-- `get_process` of the health check, with `is_alive` and `idle_seconds` of
      the process it finds; `latest` is the attempt row it was called for. -/
  | probe (latest : Attempt)
  | stopProcess (attemptId : ℕ)
  | joinReader (attemptId : ℕ)
  -- the daemon object and its log
  | getLastWatchdogCheck
  | setLastWatchdogCheck (t : ℚ)
  | setNotRunning
  | logRecovery (action : RecoveryAction)
  | logRecoveryResult (action : RecoveryAction) (result : RecoveryResult)
  -- the Supervisor and the outside
  | loadToken
  | postBegin (jobId : ℕ) (chatId text : String)
  | postEnd (jobId : ℕ)
  | readPaneFile
  | tmux (cmd : TmuxCmd)

/-- What `probe` reports of a process in the table. -/
structure ProbeResult where
  isAlive : Bool
  idleSeconds : ℚ

/-- The answers of the operations. -/
@[reducible] def Op.Res : Op → Type
  | time => ℚ
  | createJob _ => ℕ
  | getJob _ => Option Job
  | updateJobState .. => Unit
  | listJobs .. => List Job
  | countRunningJobs _ => ℕ
  | onRateLimit .. => Except PyErr ℚ
  | onSuccess .. => Option ChainInfo
  | markReported .. => Bool
  | claimForFallback _ => Bool
  | markWoken _ => Unit
  | incrWakeAttempts _ => Unit
  | setUndeliverable _ => Unit
  | listUndeliveredTerminalJobs => List Job
  | maxAttemptNum _ => ℕ
  | insertAttempt .. => ℕ
  | finishAttempt .. => Unit
  | getAttempts _ => List Attempt
  | createSession _ => ℕ
  | listSessions .. => List Session
  | updateSession .. => Unit
  | casUpdateSession .. => Unit
  | getRepo _ => Option Repo
  | allRepos => List Repo
  | getRepoById _ => Option Repo
  | getBackoff _ => ℚ × ℕ
  | clearBackoffIfRecovered _ => Unit
  | createRepo _ => Option ℕ
  | updateRepo .. => Unit
  | enqueueCommand _ => Unit
  | pollCommands _ => List Command
  | loadSystemPrompt => Option String
  | popen .. => Except PyErr ℕ
  | registerProcess _ => Unit
  | popProcess _ => Unit
  | getProcess _ => Bool
  | probe _ => Option ProbeResult
  | stopProcess _ => Unit
  | joinReader _ => Unit
  | getLastWatchdogCheck => ℚ
  | setLastWatchdogCheck _ => Unit
  | setNotRunning => Unit
  | logRecovery _ => Unit
  | logRecoveryResult .. => Unit
  | loadToken => Option String
  | postBegin .. => Unit
  | postEnd _ => NotifyResult
  | readPaneFile => Except PyErr String
  | tmux _ => TmuxResult

namespace World

/-- Replace the database. -/
def setDb (w : World) (db : Db) : World := { w with db := db }

/-- Append to the journal. -/
def log (w : World) (e : Entry) : World := { w with journal := e :: w.journal }

@[simp] theorem setDb_db (w : World) (db : Db) : (w.setDb db).db = db := rfl
@[simp] theorem setDb_journal (w : World) (db : Db) : (w.setDb db).journal = w.journal := rfl
@[simp] theorem setDb_workers (w : World) (db : Db) : (w.setDb db).workers = w.workers := rfl
@[simp] theorem setDb_phase (w : World) (db : Db) : (w.setDb db).phase = w.phase := rfl
@[simp] theorem log_journal (w : World) (e : Entry) : (w.log e).journal = e :: w.journal := rfl

/-- Append to the journal if the condition holds. -/
def logIf (w : World) (b : Bool) (e : Entry) : World := if b then w.log e else w

end World

/-- What each operation does to the world. -/
def exec : (o : Op) → Inputs → World → o.Res × World
  | .time, i, w => (i.now, w)
  | .createJob n, i, w =>
    let r := w.db.createJob n i.now
    (r.1, w.setDb r.2)
  | .getJob jobId, _, w => (w.db.getJob jobId, w)
  | .updateJobState jobId _ new result, i, w =>
    ((), (w.setDb (w.db.updateJobState jobId new result i.now)).logIf (new == .queued)
      (.requeued jobId))
  | .listJobs repoId state limit now, _, w => (w.db.listJobs repoId state limit now, w)
  | .countRunningJobs repoId, _, w => (w.db.countRunningJobs repoId, w)
  | .onRateLimit t repoId jobId, i, w =>
    let r := w.db.onRateLimit t repoId jobId i.now i.rand
    (r.1, w.setDb r.2)
  | .onSuccess repoId jobId result, i, w =>
    let r := w.db.onSuccess repoId jobId result i.now
    (r.1, w.setDb r.2)
  | .markReported by_ jobId, i, w =>
    let r := w.db.markReported jobId i.now
    (r.1, (w.setDb r.2).logIf r.1 (.reported by_ jobId))
  | .claimForFallback jobId, _, w =>
    let r := w.db.claimForFallback jobId
    (r.1, (w.setDb r.2).logIf r.1 (.claimed jobId))
  | .markWoken jobId, _, w => ((), w.setDb (w.db.markWoken jobId))
  | .incrWakeAttempts jobId, _, w => ((), w.setDb (w.db.incrWakeAttempts jobId))
  | .setUndeliverable jobId, _, w =>
    ((), (w.setDb (w.db.setUndeliverable jobId)).log (.undeliverable jobId))
  | .listUndeliveredTerminalJobs, _, w =>
    let jobs := w.db.listUndeliveredTerminalJobs
    (jobs, w.log (.listed (jobs.map fun j => (j.id, j.wakeState))))
  | .maxAttemptNum jobId, _, w => (w.db.maxAttemptNum jobId, w)
  | .insertAttempt jobId sessionId num, i, w =>
    let r := w.db.insertAttempt jobId sessionId num i.now
    (r.1, w.setDb r.2)
  | .finishAttempt attemptId exitCode error, i, w =>
    ((), w.setDb (w.db.finishAttempt attemptId exitCode error i.now))
  | .getAttempts jobId, _, w => (w.db.getAttempts jobId, w)
  | .createSession repoId, i, w =>
    let r := w.db.createSession repoId i.now
    (r.1, w.setDb r.2)
  | .listSessions repoId state, _, w => (w.db.listSessions repoId state, w)
  | .updateSession sessionId u, i, w => ((), w.setDb (w.db.updateSession sessionId u i.now))
  | .casUpdateSession sessionId expected u, i, w =>
    ((), w.setDb (w.db.casUpdateSession sessionId expected u i.now))
  | .getRepo name, _, w => (w.db.getRepo name, w)
  | .allRepos, _, w => (w.db.repos.rows, w)
  | .getRepoById repoId, _, w => (w.db.getRepoById repoId, w)
  | .getBackoff repoId, _, w => (w.db.getBackoff repoId, w)
  | .clearBackoffIfRecovered repoId, _, w => ((), w.setDb (w.db.clearBackoffIfRecovered repoId))
  | .createRepo n, i, w =>
    let r := w.db.createRepo n i.now
    (r.1, w.setDb r.2)
  | .updateRepo name u, _, w => ((), w.setDb (w.db.updateRepo name u))
  | .enqueueCommand c, i, w => ((), w.setDb (w.db.enqueueCommand c i.now))
  | .pollCommands limit, _, w =>
    let r := w.db.pollCommands limit
    (r.1, w.setDb r.2)
  | .loadSystemPrompt, i, w => (i.systemPrompt, w)
  | .popen argv cwd env callback, i, w =>
    match i.popen with
    -- without `env=` the child gets the environment of the daemon
    | .started pid => (.ok pid,
        { w with workers := ⟨callback, argv, cwd, env.getD w.environ⟩ :: w.workers })
    | .fileNotFound => (.error .claudeNotFound, w)
    | .osError => (.error .osError, w)
  | .registerProcess attemptId, _, w =>
    ((), { w with processes := attemptId :: w.processes.filter (· ≠ attemptId) })
  | .popProcess attemptId, _, w =>
    ((), { w with processes := w.processes.filter (· ≠ attemptId) })
  | .getProcess attemptId, _, w => (decide (attemptId ∈ w.processes), w)
  | .probe latest, i, w =>
    (if latest.id ∈ w.processes then some ⟨i.alive, i.idleSeconds⟩ else none, w)
  | .stopProcess attemptId, _, w => ((), w.log (.stopped attemptId))
  -- `join(timeout=5.0)` returns whether or not the reader has finished
  | .joinReader _, _, w => ((), w)
  | .getLastWatchdogCheck, _, w => (w.lastWatchdogCheck, w)
  | .setLastWatchdogCheck t, _, w => ((), { w with lastWatchdogCheck := t })
  | .setNotRunning, _, w => ((), { w with running := false })
  | .logRecovery action, _, w => ((), w.log (.recovery action))
  | .logRecoveryResult action result, _, w => ((), w.log (.recovered action result))
  | .loadToken, i, w => (DiscordAgent.loadToken w.environ i.envFile, w)
  | .postBegin jobId _ _, _, w => ((), w.log (.postBegin jobId))
  | .postEnd jobId, i, w =>
    let r := NotifyResult.ofHttp i.http
    (r, w.log (.postEnd jobId r))
  | .readPaneFile, i, w => (i.paneFile, w)
  | .tmux cmd, i, w =>
    (i.tmux, match cmd with
      | .sendText _ jobId _ => w.log (.typed jobId)
      | _ => w)

/-- The programs of the threads. -/
abbrev Py (α : Type) := Prog Op Op.Res PyErr α

end DiscordAgent
