import Mathlib.Algebra.Order.Ring.Rat
import Mathlib.Order.WithBot
import DiscordAgent.Sql.Table

/-!
# The state plane: rows and the job lifecycle

The tables of `lib/db.py` (`SCHEMA_SQL`, lines 22–95) and the job state machine
(`DELIVERY_TERMINAL_STATES`, `JOB_STATES`, `VALID_TRANSITIONS`, lines 129–170).

Times are `REAL` columns filled from `time.time()`; they are modelled by `ℚ`.
`enqueue_at` can also hold `inf` (`float("inf")` is a legal unix epoch for
`parse_enqueue_at`), so it is a `WithTop ℚ`. The `events` table is left out:
nothing reads it back.
-/

namespace DiscordAgent

open Sql

/-- `JOB_STATES` (lines 134–145). -/
inductive JobState where
  | queued
  | starting
  | running
  | succeeded
  | failedRetryable
  | failedPermanent
  | rateLimited
  | needsController
  | timedOut
  | lost
  deriving DecidableEq, Repr

namespace JobState

/-- `VALID_TRANSITIONS` (lines 147–170). -/
def validTransitions : JobState → List JobState
  | queued => [starting, failedPermanent]
  | starting => [running, failedRetryable, failedPermanent, timedOut, lost]
  | running => [succeeded, failedRetryable, failedPermanent, rateLimited, needsController,
      timedOut, lost]
  | rateLimited => [queued, failedPermanent]
  | failedRetryable => [queued, failedPermanent]
  | timedOut => [queued, failedPermanent]
  | lost => [queued, failedPermanent]
  | needsController => [queued, failedPermanent, succeeded]
  | succeeded => []
  | failedPermanent => []

/-- `DELIVERY_TERMINAL_STATES` (lines 129–131). -/
def deliveryTerminal : JobState → Bool
  | succeeded | failedPermanent | needsController => true
  | _ => false

/-- `state IN ('starting', 'running')`: the states that occupy a slot. -/
def active : JobState → Bool
  | starting | running => true
  | _ => false

/-- The intermediate states that only the watchdog resolves. -/
def limbo : JobState → Bool
  | timedOut | lost => true
  | _ => false

/-- The name of a state in the database. -/
def text : JobState → String
  | queued => "queued"
  | starting => "starting"
  | running => "running"
  | succeeded => "succeeded"
  | failedRetryable => "failed_retryable"
  | failedPermanent => "failed_permanent"
  | rateLimited => "rate_limited"
  | needsController => "needs_controller"
  | timedOut => "timed_out"
  | lost => "lost"

end JobState

/-- `jobs.wake_state`; `NULL` is `none`. -/
inductive WakeState where
  | woken
  | fallback
  | undeliverable
  deriving DecidableEq, Repr

/-- `sessions.state`. -/
inductive SessionState where
  | idle
  | busy
  | dead
  deriving DecidableEq, Repr

/-- A row of `repos`. -/
structure Repo where
  id : ℕ
  name : String
  path : String
  aliases : List String
  expectedGitRoot : Option String
  model : String
  maxConcurrency : ℤ
  backoffUntil : ℚ
  backoffCount : ℕ
  createdAt : ℚ
  deriving DecidableEq

/-- A row of `sessions`. -/
structure Session where
  id : ℕ
  repoId : ℕ
  pid : Option ℕ
  state : SessionState
  currentAttemptId : Option ℕ
  createdAt : ℚ
  lastHeartbeat : Option ℚ
  deriving DecidableEq

/-- A row of `jobs`. -/
structure Job where
  id : ℕ
  repoId : ℕ
  task : String
  state : JobState
  priority : ℤ
  maxRetries : ℤ
  createdAt : ℚ
  updatedAt : ℚ
  result : Option String
  notifyChatId : Option String
  nextDispatchPayload : Option String
  chainDepth : ℕ
  enqueueAt : WithTop ℚ
  terminalAt : Option ℚ
  wakeState : Option WakeState
  wakeAttempts : ℕ
  reportedAt : Option ℚ
  deriving DecidableEq

/-- A row of `attempts`. -/
structure Attempt where
  id : ℕ
  jobId : ℕ
  sessionId : Option ℕ
  attemptNum : ℕ
  startedAt : ℚ
  finishedAt : Option ℚ
  exitCode : Option ℤ
  error : Option String
  deriving DecidableEq

/-- What a row of `daemon_commands` asks for: its `command` and the field of
    its JSON `payload` that the daemon reads. -/
inductive Command where
  | killJob (jobId : Option ℕ)
  | killRepo (repoId : Option ℕ)
  | shutdown
  | unknown (command : String)
  deriving DecidableEq

/-- A row of `daemon_commands`. -/
structure DaemonCommand where
  id : ℕ
  command : Command
  createdAt : ℚ
  processed : Bool
  deriving DecidableEq

instance : Row Repo := ⟨Repo.id⟩
instance : Row Session := ⟨Session.id⟩
instance : Row Job := ⟨Job.id⟩
instance : Row Attempt := ⟨Attempt.id⟩
instance : Row DaemonCommand := ⟨DaemonCommand.id⟩

/-- The contents of `state.db`. -/
structure Db where
  repos : Table Repo
  sessions : Table Session
  jobs : Table Job
  attempts : Table Attempt
  daemonCommands : Table DaemonCommand
  deriving Inhabited

end DiscordAgent
