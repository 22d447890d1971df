import DiscordAgent.Model.Schema

/-!
# The state plane: SQL statements

One definition for each SQL statement of `lib/db.py` and for each `BEGIN
IMMEDIATE` transaction. Every statement commits on its own, so each definition
is one atomic change of the database. Where the Python method reads
`time.time()` for the row it writes, the value is the argument `now`.

The two-statement methods (`transition_job`, `create_attempt`) are programs
over these statements, see `Model/Scheduler.lean`.
-/

namespace DiscordAgent

open Sql

/-! ## Jobs -/

namespace Job

/-- `ORDER BY priority DESC, enqueue_at ASC, created_at ASC` (`list_jobs`). -/
def before (a b : Job) : Prop :=
  b.priority < a.priority ∨ (a.priority = b.priority ∧
    (a.enqueueAt < b.enqueueAt ∨ (a.enqueueAt = b.enqueueAt ∧ a.createdAt ≤ b.createdAt)))

instance : DecidableRel before := fun _ _ => inferInstanceAs (Decidable (_ ∨ (_ ∧ (_ ∨ (_ ∧ _)))))

/-- The `SET` list of the `UPDATE` in `transition_job` (lines 454–470). -/
def transition (new : JobState) (result : Option String) (now : ℚ) (j : Job) : Job :=
  { j with
    state := new
    updatedAt := now
    result := if result.isSome then result else j.result
    terminalAt := if new.deliveryTerminal then some (j.terminalAt.getD now)
      else if new = .queued then none else j.terminalAt
    wakeState := if new = .queued then none else j.wakeState
    wakeAttempts := if new = .queued then 0 else j.wakeAttempts
    reportedAt := if new = .queued then none else j.reportedAt }

/-- `UPDATE jobs SET state = 'rate_limited', updated_at = ?` (`on_rate_limit`). -/
def rateLimit (now : ℚ) (j : Job) : Job := { j with state := .rateLimited, updatedAt := now }

/-- The `UPDATE jobs` of `on_success` (`lib/scheduler.py` lines 188–193). -/
def succeed (result : Option String) (now : ℚ) (j : Job) : Job :=
  { j with
    state := .succeeded
    updatedAt := now
    result := result
    terminalAt := some (j.terminalAt.getD now) }

end Job

/-- The arguments of `create_job`. -/
structure NewJob where
  repoId : ℕ
  task : String
  priority : ℤ
  maxRetries : ℤ
  notifyChatId : Option String
  nextDispatchPayload : Option String
  chainDepth : ℕ
  enqueueAt : WithTop ℚ

/-- The row that `create_job` inserts (lines 415–434). -/
def NewJob.row (n : NewJob) (now : ℚ) (id : ℕ) : Job where
  id := id
  repoId := n.repoId
  task := n.task
  state := .queued
  priority := n.priority
  maxRetries := n.maxRetries
  createdAt := now
  updatedAt := now
  result := none
  notifyChatId := n.notifyChatId
  nextDispatchPayload := n.nextDispatchPayload
  chainDepth := n.chainDepth
  enqueueAt := n.enqueueAt
  terminalAt := none
  wakeState := none
  wakeAttempts := 0
  reportedAt := none

namespace Db

/-- `create_job` (lines 403–434). -/
def createJob (db : Db) (n : NewJob) (now : ℚ) : ℕ × Db :=
  (db.jobs.seq + 1, { db with jobs := db.jobs.insert (n.row now) fun _ => rfl })

/-- `get_job` (lines 436–438). -/
def getJob (db : Db) (jobId : ℕ) : Option Job := db.jobs.get? jobId

/-- Apply `f` to the row of job `jobId`. -/
def updateJob (db : Db) (jobId : ℕ) (f : Job → Job) (h : ∀ j, (f j).id = j.id) : Db :=
  { db with jobs := db.jobs.update jobId f h }

/-- The `UPDATE` of `transition_job` (line 469). -/
def updateJobState (db : Db) (jobId : ℕ) (new : JobState) (result : Option String) (now : ℚ) : Db :=
  db.updateJob jobId (Job.transition new result now) fun _ => rfl

/-- `list_jobs` (lines 473–494); `none` leaves out the condition. -/
def listJobs (db : Db) (repoId : Option ℕ) (state : Option JobState) (limit : ℕ) (now : Option ℚ) :
    List Job :=
  (orderBy Job.before (db.jobs.select fun j =>
    repoId.all (j.repoId == ·) && state.all (j.state == ·) &&
      now.all fun t => decide (j.enqueueAt ≤ (t : WithTop ℚ)))).take limit

/-- `count_running_jobs` (lines 496–507). -/
def countRunningJobs (db : Db) (repoId : Option ℕ) : ℕ :=
  (db.jobs.select fun j => j.state.active && repoId.all (j.repoId == ·)).length

/-! ## Delivery -/

/-- `mark_reported` (lines 609–620): the row count is 1 and the new database. -/
def markReported (db : Db) (jobId : ℕ) (ts : ℚ) : Bool × Db :=
  match db.getJob jobId with
  | some j => if j.reportedAt = none then
      (true, db.updateJob jobId (fun j => { j with reportedAt := some ts }) fun _ => rfl)
    else (false, db)
  | none => (false, db)

/-- `claim_for_fallback` (lines 622–634). -/
def claimForFallback (db : Db) (jobId : ℕ) : Bool × Db :=
  match db.getJob jobId with
  | some j => if j.reportedAt = none ∧ j.wakeState ≠ some .fallback then
      (true, db.updateJob jobId (fun j => { j with wakeState := some .fallback }) fun _ => rfl)
    else (false, db)
  | none => (false, db)

/-- `mark_woken` (lines 636–642). -/
def markWoken (db : Db) (jobId : ℕ) : Db :=
  db.updateJob jobId
    (fun j => { j with wakeState := if j.wakeState = none then some .woken else j.wakeState })
    fun _ => rfl

/-- The `UPDATE` of `incr_wake_attempts` (lines 646–648). -/
def incrWakeAttempts (db : Db) (jobId : ℕ) : Db :=
  db.updateJob jobId (fun j => { j with wakeAttempts := j.wakeAttempts + 1 }) fun _ => rfl

/-- `set_undeliverable` (lines 653–656). -/
def setUndeliverable (db : Db) (jobId : ℕ) : Db :=
  db.updateJob jobId (fun j => { j with wakeState := some .undeliverable }) fun _ => rfl

/-- `list_undelivered_terminal_jobs` (lines 658–667). -/
def listUndeliveredTerminalJobs (db : Db) : List Job :=
  orderBy (fun a b => a.terminalAt.getD a.updatedAt ≤ b.terminalAt.getD b.updatedAt)
    (db.jobs.select fun j => j.state.deliveryTerminal && j.reportedAt.isNone)

/-! ## Attempts -/

/-- `SELECT COALESCE(MAX(attempt_num), 0)` (`create_attempt`, lines 513–516). -/
def maxAttemptNum (db : Db) (jobId : ℕ) : ℕ :=
  ((db.attempts.select fun a => a.jobId == jobId).map Attempt.attemptNum).foldr max 0

/-- The `INSERT` of `create_attempt` (lines 519–523). -/
def insertAttempt (db : Db) (jobId : ℕ) (sessionId : Option ℕ) (attemptNum : ℕ) (now : ℚ) :
    ℕ × Db :=
  (db.attempts.seq + 1,
    { db with
      attempts := db.attempts.insert
        (fun id => ⟨id, jobId, sessionId, attemptNum, now, none, none, none⟩) fun _ => rfl })

/-- `finish_attempt` (lines 528–537). -/
def finishAttempt (db : Db) (attemptId : ℕ) (exitCode : Option ℤ) (error : Option String)
    (now : ℚ) : Db :=
  { db with
    attempts := db.attempts.update attemptId
      (fun a => { a with finishedAt := some now, exitCode := exitCode, error := error })
      fun _ => rfl }

/-- `get_attempts` (lines 539–545). -/
def getAttempts (db : Db) (jobId : ℕ) : List Attempt :=
  orderBy (fun a b => a.attemptNum ≤ b.attemptNum) (db.attempts.select fun a => a.jobId == jobId)

/-! ## Sessions -/

/-- The keyword arguments of `update_session` and `cas_update_session`;
    `heartbeat` stands for `last_heartbeat=time.time()`. -/
structure SessionPatch where
  state : Option SessionState := none
  heartbeat : Bool := false
  currentAttemptId : Option ℕ := none
  pid : Option ℕ := none

/-- The `SET` list built from the keyword arguments. -/
def SessionPatch.apply (u : SessionPatch) (now : ℚ) (s : Session) : Session :=
  { s with
    state := u.state.getD s.state
    lastHeartbeat := if u.heartbeat then some now else s.lastHeartbeat
    currentAttemptId := u.currentAttemptId.or s.currentAttemptId
    pid := u.pid.or s.pid }

/-- `create_session` (lines 329–338). -/
def createSession (db : Db) (repoId : ℕ) (now : ℚ) : ℕ × Db :=
  (db.sessions.seq + 1,
    { db with
      sessions := db.sessions.insert
        (fun id => ⟨id, repoId, none, .idle, none, now, some now⟩) fun _ => rfl })

/-- `list_sessions` (lines 344–356). -/
def listSessions (db : Db) (repoId : Option ℕ) (state : Option SessionState) : List Session :=
  orderBy (fun a b => b.createdAt ≤ a.createdAt) (db.sessions.select fun s =>
    repoId.all (s.repoId == ·) && state.all (s.state == ·))

/-- `update_session` (lines 358–369). -/
def updateSession (db : Db) (sessionId : ℕ) (u : SessionPatch) (now : ℚ) : Db :=
  { db with sessions := db.sessions.update sessionId (u.apply now) fun _ => rfl }

/-- `cas_update_session` (lines 371–394). -/
def casUpdateSession (db : Db) (sessionId expectedAttemptId : ℕ) (u : SessionPatch) (now : ℚ) :
    Db :=
  { db with
    sessions := db.sessions.updateWhere
      (fun s => s.id == sessionId && s.currentAttemptId == some expectedAttemptId) (u.apply now)
      fun _ => rfl }

/-! ## Repos and backoff -/

/-- The arguments of `create_repo`. -/
structure NewRepo where
  name : String
  path : String
  aliases : List String
  expectedGitRoot : Option String
  model : String
  maxConcurrency : ℤ

/-- The row that `create_repo` inserts (lines 253–271). -/
def NewRepo.row (n : NewRepo) (now : ℚ) (id : ℕ) : Repo :=
  ⟨id, n.name, n.path, n.aliases, n.expectedGitRoot, n.model, n.maxConcurrency, 0, 0, now⟩

/-- `get_repo` (lines 273–279). -/
def getRepo (db : Db) (name : String) : Option Repo := db.repos.rows.find? fun r => r.name == name

/-- `create_repo` (lines 253–271); `name` is `UNIQUE`. -/
def createRepo (db : Db) (n : NewRepo) (now : ℚ) : Option ℕ × Db :=
  match db.getRepo n.name with
  | some _ => (none, db)
  | none => (some (db.repos.seq + 1),
      { db with repos := db.repos.insert (n.row now) fun _ => rfl })

/-- `SELECT * FROM repos WHERE id = ?`. -/
def getRepoById (db : Db) (repoId : ℕ) : Option Repo := db.repos.get? repoId

/-- The keyword arguments of `update_repo`. -/
structure RepoPatch where
  path : Option String := none
  expectedGitRoot : Option String := none
  model : Option String := none
  maxConcurrency : Option ℤ := none

/-- The `SET` list built from the keyword arguments. -/
def RepoPatch.apply (u : RepoPatch) (r : Repo) : Repo :=
  { r with
    path := u.path.getD r.path
    expectedGitRoot := u.expectedGitRoot.or r.expectedGitRoot
    model := u.model.getD r.model
    maxConcurrency := u.maxConcurrency.getD r.maxConcurrency }

/-- The `UPDATE` of `update_repo` (line 318). -/
def updateRepo (db : Db) (name : String) (u : RepoPatch) : Db :=
  { db with repos := db.repos.updateWhere (fun r => r.name == name) u.apply fun _ => rfl }

/-- `get_backoff` (lines 584–592). -/
def getBackoff (db : Db) (repoId : ℕ) : ℚ × ℕ :=
  match db.getRepoById repoId with
  | some r => (r.backoffUntil, r.backoffCount)
  | none => (0, 0)

/-- `set_backoff` (lines 568–574); with zeros it is `clear_backoff`. -/
def setBackoff (db : Db) (repoId : ℕ) (backoffUntil : ℚ) (backoffCount : ℕ) : Db :=
  { db with
    repos := db.repos.update repoId
      (fun r => { r with backoffUntil := backoffUntil, backoffCount := backoffCount })
      fun _ => rfl }

/-- `SELECT COUNT(*) FROM jobs WHERE repo_id = ? AND state = 'rate_limited'`. -/
def countRateLimited (db : Db) (repoId : ℕ) : ℕ :=
  (db.jobs.select fun j => j.repoId == repoId && j.state == .rateLimited).length

/-- Clear the backoff of a repo that has no rate-limited job (one transaction
    of `drive_recovery`, and the last two statements of `on_success`). -/
def clearBackoffIfRecovered (db : Db) (repoId : ℕ) : Db :=
  if db.countRateLimited repoId = 0 then db.setBackoff repoId 0 0 else db

/-! ## Daemon commands -/

/-- `enqueue_command` (lines 596–605). -/
def enqueueCommand (db : Db) (c : Command) (now : ℚ) : Db :=
  { db with
    daemonCommands := db.daemonCommands.insert (fun id => ⟨id, c, now, false⟩) fun _ => rfl }

/-- `poll_commands` (lines 671–689): the commands and the database in which
    they are marked as processed. -/
def pollCommands (db : Db) (limit : ℕ) : List Command × Db :=
  let rows := (orderBy (fun a b => a.createdAt ≤ b.createdAt)
    (db.daemonCommands.select fun c => !c.processed)).take limit
  (rows.map DaemonCommand.command,
    { db with
      daemonCommands := db.daemonCommands.updateWhere
        (fun c => rows.any fun r => r.id == c.id) (fun c => { c with processed := true })
        fun _ => rfl })

end Db

end DiscordAgent
