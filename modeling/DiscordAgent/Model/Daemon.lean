import DiscordAgent.Model.Runner
import DiscordAgent.Model.Supervisor

/-!
# Daemon and command line

`Daemon._tick` (`lib/daemon.py`) as five phase programs, and the command line
tools of `orchestrator.py` as programs of their own processes. A phase returns
the phase that follows it; the dispatch loop returns itself while it finds
jobs.
-/

namespace DiscordAgent

open Interleave

namespace Daemon

/-- `for attempt in reversed(attempts): if stop_job(...): break`. -/
def stopFirst : List Attempt → Py Unit
  | [] => .ret ()
  | a :: as => do
    if ← Runner.stopJob a.id then .ret () else stopFirst as

/-- `_cmd_kill_job` (lines 286–297). -/
def cmdKillJob : Option ℕ → Py Unit
  | none => .ret ()
  | some jobId => do
    let attempts ← op (.getAttempts jobId)
    stopFirst attempts.reverse
    ignoreValueError (transitionJob jobId .failedPermanent (some "Killed by user"))

/-- `_cmd_kill_repo` (lines 299–305). -/
def cmdKillRepo : Option ℕ → Py Unit
  | none => .ret ()
  | some repoId => do
    let jobs ← op (.listJobs (some repoId) none 50 none)
    Prog.forEach jobs fun job =>
      Prog.runIf (job.state == .queued || job.state.active) (cmdKillJob (some job.id))

/-- `_process_commands` (lines 269–284). -/
def processCommands : Py Unit := do
  let commands ← op (.pollCommands 10)
  Prog.forEach commands fun
    | .killJob jobId => cmdKillJob jobId
    | .killRepo repoId => cmdKillRepo repoId
    | .shutdown => op .setNotRunning
    | .unknown _ => .ret ()

/-- The session of a new attempt (lines 241–245). -/
def sessionFor (repoId : ℕ) : Py ℕ := do
  let sessions ← op (.listSessions (some repoId) (some .idle))
  match sessions.head? with
  | none => op (.createSession repoId)
  | some s => .ret s.id

/-- One round of `_dispatch_queued_jobs` (lines 233–259): `false` ends the
    loop. -/
def dispatchOne (cfg : Settings) : Py Bool := do
  match ← Scheduler.nextJob cfg none with
  | none => .ret false
  | some job =>
    let sessionId ← sessionFor job.repoId
    let repo ← op (.getRepoById job.repoId)
    let model := (repo.map Repo.model).getD "sonnet"
    Prog.tryCatch
      (do
        let _ ← Runner.runJob job.id sessionId model
        .ret true)
      fun _ => .ret true

/-- `_run_watchdog` (lines 261–267). -/
def runWatchdog (cfg : Settings) : Py Unit := do
  let actions ← Watchdog.checkAll cfg
  Prog.forEach actions fun action => do
    op (.logRecovery action)
    let result ← Watchdog.applyRecovery action
    op (.logRecoveryResult action result)

/-- The watchdog step of `_tick` (lines 224–228). -/
def watchdogStep (cfg : Settings) : Py Unit := do
  let now ← op .time
  let last ← op .getLastWatchdogCheck
  Prog.runIf (decide (now - last ≥ cfg.watchdogInterval)) do
    runWatchdog cfg
    op (.setLastWatchdogCheck now)

/-- `_tick` (lines 213–231), cut into its phases; from `idle` the loop of `_run`
    enters the next tick. -/
def phaseProg (cfg : Settings) : Phase → Py Phase
  | .idle => .ret .commands
  | .commands => do processCommands; .ret .recovery
  | .recovery => do
    let _ ← Scheduler.driveRecovery
    .ret .dispatch
  | .dispatch => do
    let more ← dispatchOne cfg
    .ret (if more then .dispatch else .watchdog)
  | .watchdog => do watchdogStep cfg; .ret .supervisor
  | .supervisor => do Supervisor.tick cfg; .ret .idle

end Daemon

namespace Orchestrator

/-- What `report-done` prints. -/
inductive ReportDone where
  | reported
  | notFound
  | alreadyReported
  | noOp (state : JobState)
  deriving DecidableEq

/-- `cmd_report_done` (`orchestrator.py` lines 880–906). -/
def cmdReportDone (jobId : ℕ) : Py ReportDone := do
  if ← op (.markReported .reportDone jobId) then .ret .reported
  else
    match ← op (.getJob jobId) with
    | none => .ret .notFound
    | some job => .ret (if job.reportedAt.isSome then .alreadyReported else .noOp job.state)

/-- The commands that write to the database. For `dispatch`, `kill` and the
    repo commands it is the statement that they end in, with any arguments. -/
inductive CliCmd where
  | reportDone (jobId : ℕ)
  | dispatch (n : NewJob)
  | kill (c : Command)
  | createRepo (n : Db.NewRepo)
  | updateRepo (name : String) (u : Db.RepoPatch)

/-- The program of a command. -/
def CliCmd.prog : CliCmd → Py Unit
  | .reportDone jobId => do
    let _ ← cmdReportDone jobId
    .ret ()
  | .dispatch n => do
    let _ ← op (.createJob n)
    .ret ()
  | .kill c => op (.enqueueCommand c)
  | .createRepo n => do
    let _ ← op (.createRepo n)
    .ret ()
  | .updateRepo name u => op (.updateRepo name u)

end Orchestrator

end DiscordAgent
