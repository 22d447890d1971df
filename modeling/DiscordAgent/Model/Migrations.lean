import Mathlib.Algebra.Order.Ring.Rat
import DiscordAgent.Interleave.Pool
import DiscordAgent.Sql.Schema

/-!
# The schema of the database

`SCHEMA_SQL`, `MIGRATIONS` and `_init_schema` (`lib/db.py` lines 23–135, 190–202): what
every process does to the database file when it makes a `Database`. The processes share
the file. `executescript` and `execute` of a DDL statement run in autocommit mode, so each
statement is a transaction of its own, and other processes may come between two of them.

Of a column the model has the name and what a row holds that does not name it; its type,
`UNIQUE` and `REFERENCES` are left out.
-/

namespace DiscordAgent

open Interleave Sql

/-- A value that SQLite stores. -/
inductive Cell where
  | null
  | int (n : ℤ)
  | real (x : ℚ)
  | text (s : String)
  deriving DecidableEq

namespace Database

/-! ## `SCHEMA_SQL` -/

/-- `NOT NULL` without a default, or the primary key. -/
def mandatory (name : String) : Column String Cell := ⟨name, none⟩

def nullable (name : String) : Column String Cell := ⟨name, some .null⟩

/-- `NOT NULL DEFAULT v`. -/
def defaulting (name : String) (v : Cell) : Column String Cell := ⟨name, some v⟩

def repos : Declaration String Cell where
  name := "repos"
  columns :=
    [mandatory "id", mandatory "name", mandatory "path", defaulting "aliases" (.text "[]"),
      nullable "expected_git_root", defaulting "model" (.text "sonnet"),
      defaulting "max_concurrency" (.int 1), defaulting "backoff_until" (.real 0),
      defaulting "backoff_count" (.int 0), mandatory "created_at"]
  nodup := by decide

def sessions : Declaration String Cell where
  name := "sessions"
  columns :=
    [mandatory "id", mandatory "repo_id", nullable "pid", defaulting "state" (.text "idle"),
      nullable "current_attempt_id", mandatory "created_at", nullable "last_heartbeat"]
  nodup := by decide

def jobs : Declaration String Cell where
  name := "jobs"
  columns :=
    [mandatory "id", mandatory "repo_id", mandatory "task", defaulting "state" (.text "queued"),
      defaulting "priority" (.int 0), defaulting "max_retries" (.int 2), mandatory "created_at",
      mandatory "updated_at", nullable "result", nullable "notify_chat_id",
      nullable "next_dispatch_payload", defaulting "chain_depth" (.int 0),
      defaulting "enqueue_at" (.real 0), nullable "terminal_at", nullable "wake_state",
      defaulting "wake_attempts" (.int 0), nullable "reported_at"]
  nodup := by decide

def attempts : Declaration String Cell where
  name := "attempts"
  columns :=
    [mandatory "id", mandatory "job_id", nullable "session_id", defaulting "attempt_num" (.int 1),
      mandatory "started_at", nullable "finished_at", nullable "exit_code", nullable "error"]
  nodup := by decide

def events : Declaration String Cell where
  name := "events"
  columns :=
    [mandatory "id", mandatory "attempt_id", mandatory "event_type", nullable "data",
      mandatory "timestamp"]
  nodup := by decide

def daemonCommands : Declaration String Cell where
  name := "daemon_commands"
  columns :=
    [mandatory "id", mandatory "command", nullable "payload", mandatory "created_at",
      defaulting "processed" (.int 0)]
  nodup := by decide

def tables : List (Declaration String Cell) :=
  [repos, sessions, jobs, attempts, events, daemonCommands]

/-- The name of an index, its table and its columns. -/
def indexes : List (String × String × List String) :=
  [("idx_jobs_state", "jobs", ["state"]), ("idx_jobs_repo", "jobs", ["repo_id", "state"]),
    ("idx_sessions_repo", "sessions", ["repo_id", "state"]),
    ("idx_attempts_job", "attempts", ["job_id"]), ("idx_events_attempt", "events", ["attempt_id"]),
    ("idx_daemon_commands_pending", "daemon_commands", ["processed", "created_at"])]

/-- `SCHEMA_SQL`. -/
def schemaSql : List (Statement String Cell) :=
  tables.map .createTable ++ indexes.map fun i => .createIndex i.1 i.2.1 i.2.2

/-! ## `MIGRATIONS` -/

/-- `MIGRATIONS`. -/
def migrations : List (Statement String Cell) :=
  [.addColumn "repos" (defaulting "backoff_until" (.real 0)),
    .addColumn "repos" (defaulting "backoff_count" (.int 0)),
    .createTable daemonCommands,
    .createIndex "idx_daemon_commands_pending" "daemon_commands" ["processed", "created_at"],
    .addColumn "sessions" (nullable "current_attempt_id"),
    .addColumn "jobs" (nullable "notify_chat_id"),
    .addColumn "jobs" (nullable "next_dispatch_payload"),
    .addColumn "jobs" (defaulting "chain_depth" (.int 0)),
    .addColumn "jobs" (defaulting "enqueue_at" (.real 0)),
    .addColumn "jobs" (nullable "terminal_at"),
    .addColumn "jobs" (nullable "wake_state"),
    .addColumn "jobs" (defaulting "wake_attempts" (.int 0)),
    .addColumn "jobs" (nullable "reported_at")]

/-- The columns that a migration adds. -/
def added : List (String × Column String Cell) :=
  migrations.filterMap fun s =>
    match s with
    | .addColumn n c => some (n, c)
    | _ => none

/-- The tables as they are now, and the columns that earlier versions lack. -/
def schema : Schema String Cell where
  tables := tables
  added := added
  nodup := by decide
  declared := by decide
  optional := by decide

/-- The database file; `locked` while another program holds its write lock for longer than
    `busy_timeout`. -/
structure File where
  catalog : Catalog String Cell
  locked : Bool

/-- Why a process has no `Database`. -/
inductive Down where
  | closed
  | operationalError

/-- Whether the statement succeeded. -/
abbrev Answer (_ : Statement String Cell) : Type := Bool

/-- `conn.execute`. -/
def execStatement (s : Statement String Cell) (_ : Unit) (f : File) : Bool × File :=
  if f.locked then (false, f)
  else
    match s.exec f.catalog with
    | some c => (true, { f with catalog := c })
    | none => (false, f)

abbrev Init (α : Type) := Prog (Statement String Cell) Answer Down α

def execute (s : Statement String Cell) : Init Unit :=
  .call s fun succeeded => if succeeded then .ret () else .raise .operationalError

/-- `_init_schema` (lines 190–202). -/
def initSchema : Init Unit :=
  (Prog.forEach schemaSql execute).bind fun _ =>
    -- `except sqlite3.OperationalError: pass`
    Prog.forEach migrations fun m => (execute m).tryCatch fun _ => .ret ()

/-! ## The processes -/

/-- The database file and the processes that use it; one that has returned from
    `_init_schema` has a `Database`. -/
abbrev Users := Pool ℕ File (Statement String Cell) Answer Down fun _ => Unit

/-- What happens next. -/
inductive Access where
  /-- Process `p` makes a `Database`. -/
  | opened (p : ℕ)
  | run (p : ℕ)
  /-- Process `p` ends, wherever it is. -/
  | ended (p : ℕ)
  | lock (locked : Bool)
  /-- Process `p`, which has a `Database`, performs an `INSERT`. -/
  | insert (p : ℕ) (table : String) (given : List (String × Cell))

/-- One event; `none` if it cannot happen. -/
def step (c : Users) : Access → Option Users
  | .opened p => some (c.load p initSchema)
  | .run p => Pool.step execStatement c p ()
  | .ended p => some (c.load p (.raise .closed))
  | .lock locked => some { c with shared := { c.shared with locked := locked } }
  | .insert p table given =>
    match c.prog p with
    | .ret () =>
      if c.shared.locked then none
      else
        (c.shared.catalog.insert table given).map fun catalog =>
          { c with shared := { c.shared with catalog := catalog } }
    | _ => none

end Database

end DiscordAgent
