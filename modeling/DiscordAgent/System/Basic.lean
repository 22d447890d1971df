import DiscordAgent.Interleave.Run
import DiscordAgent.Model.Daemon

/-!
# The whole system

The daemon, the reader threads of its workers and the processes of the command
line share one `World`. An event lets one thread perform its next operation,
moves the daemon to its next phase, ends a worker (its reader thread then calls
`on_complete`), starts a command line process, or replaces the daemon by a new
one after it was killed at whatever point it had reached.

* `Sys.step`: one event.
* `Sys.step_next`, `Sys.step_exit`, `Sys.step_shared`: what an event does.
* `Sys.exists_run`: concrete runs from a list of events.
-/

namespace DiscordAgent

open Interleave Orchestrator

/-- The threads: the daemon's main thread, the reader thread of each attempt,
    and the processes of the command line. -/
inductive Tid where
  | daemon
  | reader (attemptId : ℕ)
  | cli (n : ℕ)
  deriving DecidableEq

/-- What the program of a thread returns. -/
@[reducible] def Tid.Result : Tid → Type
  | daemon => Phase
  | reader _ => Unit
  | cli _ => Unit

/-- A state of the system. -/
abbrev Sys := Pool Tid World Op Op.Res PyErr Tid.Result

/-- What happens next. -/
inductive Event where
  | run (t : Tid) (i : Inputs)
  | next
  | exit (attemptId : ℕ) (exitCode : ℤ) (result : Option String) (isRateLimited : Bool)
  | invoke (n : ℕ) (cmd : CliCmd)
  | restart (environ : Environ)

namespace World

/-- The daemon enters a phase. -/
def enter (w : World) (p : Phase) : World := { w with phase := p }

/-- The reader thread of an attempt takes its worker over. -/
def reap (w : World) (attemptId : ℕ) : World :=
  { w with workers := w.workers.filter (·.callback.attemptId ≠ attemptId) }

/-- A new daemon process: only the database and the outside are kept. -/
def reboot (w : World) (environ : Environ) : World where
  db := w.db
  processes := []
  workers := []
  phase := .idle
  lastWatchdogCheck := 0
  running := true
  environ := environ
  journal := w.journal

@[simp] theorem enter_phase (w : World) (p : Phase) : (w.enter p).phase = p := rfl

end World

/-- The default configuration with a JSON library that parses nothing, for runs
    without chained jobs. -/
def Settings.plain : Settings where
  py :=
    { loads := fun _ => none
      dumps := fun _ => ""
      str := fun _ => ""
      bindText := fun v => match v with
        | .str s => .ok (some s)
        | .null => .ok none
        | _ => .error .sqliteError
      bindText_str := fun _ => rfl
      bindText_null := rfl }
  parseEnqueueAt := fun _ _ => none
  redactResultPreview := id

namespace Sys

/-- The daemon has just been started on a database. -/
def boot (db : Db) (environ : Environ) : Sys where
  shared := ⟨db, [], [], .idle, 0, true, environ, []⟩
  prog
    | .daemon => .ret .commands
    | .reader _ => .ret ()
    | .cli _ => .ret ()

/-- `Daemon` and `Runner` objects of a new daemon process. -/
def reboot (c : Sys) (environ : Environ) : Sys where
  shared := c.shared.reboot environ
  prog
    | .daemon => .ret .commands
    | .reader _ => .ret ()
    | .cli n => c.prog (.cli n)

/-- One event; `none` if it cannot happen. -/
def step (cfg : Settings) (c : Sys) : Event → Option Sys
  | .run t i => Pool.step exec c t i
  | .next =>
    match c.prog .daemon with
    | .ret p =>
      -- `while self._running`
      if c.shared.phase = .idle ∧ c.shared.running = false then none
      else some (Pool.load { c with shared := c.shared.enter p } .daemon (Daemon.phaseProg cfg p))
    | _ => none
  | .exit attemptId exitCode result isRateLimited =>
    (c.shared.workers.find? (·.callback.attemptId = attemptId)).map fun w =>
      Pool.load { c with shared := c.shared.reap attemptId } (.reader attemptId)
        (Runner.onComplete cfg w.callback exitCode result isRateLimited)
  | .invoke n cmd => some (Pool.load c (.cli n) cmd.prog)
  | .restart environ => some (c.reboot environ)

/-- Runs whose steps all meet `ok`. -/
abbrev Runs (cfg : Settings) (ok : Sys → Event → Prop) : Sys → Sys → Prop := Run (step cfg) ok

variable {cfg : Settings} {c c' : Sys} {e : Event}

theorem step_next (h : step cfg c .next = some c') :
    ∃ p, c.prog .daemon = .ret p ∧ ¬ (c.shared.phase = .idle ∧ c.shared.running = false) ∧
      c' = Pool.load { c with shared := c.shared.enter p } .daemon (Daemon.phaseProg cfg p) := by
  simp only [step] at h
  split at h
  · next p hp =>
    split_ifs at h with hr
    cases h
    exact ⟨p, hp, hr, rfl⟩
  · cases h

theorem step_exit {a : ℕ} {code : ℤ} {result : Option String} {rl : Bool}
    (h : step cfg c (.exit a code result rl) = some c') :
    ∃ w ∈ c.shared.workers, w.callback.attemptId = a ∧
      c' = Pool.load { c with shared := c.shared.reap a } (.reader a)
        (Runner.onComplete cfg w.callback code result rl) := by
  obtain ⟨w, hw, rfl⟩ := Option.map_eq_some_iff.mp h
  exact ⟨w, List.mem_of_find?_eq_some hw, by simpa using List.find?_some hw, rfl⟩

/-- What an event does to the shared world: one operation of one thread, or a
    change that keeps the database and the journal. -/
theorem step_shared (h : step cfg c e = some c') :
    (∃ t i o, e = .run t i ∧ c.next? t = some o ∧ c'.shared = (exec o i c.shared).2) ∨
      (c'.shared.db = c.shared.db ∧ c'.shared.journal = c.shared.journal) := by
  cases e with
  | run t i =>
    obtain ⟨o, -, -, hn, hs, -, -⟩ := Pool.step_cases h
    exact .inl ⟨t, i, o, rfl, hn, hs⟩
  | next =>
    obtain ⟨p, -, -, rfl⟩ := step_next h
    exact .inr ⟨rfl, rfl⟩
  | exit a code result rl =>
    obtain ⟨w, -, -, rfl⟩ := step_exit h
    exact .inr ⟨rfl, rfl⟩
  | invoke n cmd =>
    cases h
    exact .inr ⟨rfl, rfl⟩
  | restart environ =>
    cases h
    exact .inr ⟨rfl, rfl⟩

/-! ## Concrete runs -/

/-- A run of a new system, with an empty database and no token, to a state that
    passes a test. -/
theorem exists_run (ok : Sys → Event → Bool) (es : List Event) (p : Sys → Bool)
    (h : (runList (step Settings.plain) ok (boot default fun _ => none) es).any p = true) :
    ∃ c, Runs Settings.plain (fun c e => ok c e = true) (boot default fun _ => none) c ∧
      p c = true := Run.exists_of_runList h

/-- The daemon performs its next `n` operations. -/
def daemonSteps (n : ℕ) (i : Inputs := {}) : List Event := List.replicate n (.run .daemon i)

/-- The reader thread of attempt `a` performs its next `n` operations. -/
def readerSteps (a n : ℕ) : List Event := List.replicate n (.run (.reader a) {})

/-- A command line process starts and performs its first operation. -/
def cli (cmd : CliCmd) : List Event := [.invoke 0 cmd, .run (.cli 0) {}]

/-- A repo that runs one job at a time. -/
def oneRepo : Db.NewRepo := ⟨"app", "/srv/app", [], none, "sonnet", 1⟩

/-- A job for repo 1 with the default retry limit. -/
def oneJob : NewJob := ⟨1, "fix the build", 0, 2, some "42", none, 0, ((0 : ℚ) : WithTop ℚ)⟩

/-- A repo and job 1 are created and a tick of the daemon starts attempt 1 of
    the job. The daemon stops after its dispatch phase. -/
def startJob (n : NewJob) : List Event :=
  cli (.createRepo oneRepo) ++ cli (.dispatch n) ++ [.next] ++ daemonSteps 1 ++ [.next] ++
    daemonSteps 2 ++ [.next] ++ daemonSteps 23

/-- After `startJob` the job times out at 4000 s, the watchdog puts it back into
    the queue, and the daemon ends its tick. -/
def timeOut : List Event :=
  [.next] ++ daemonSteps 2 ++ [.next] ++ daemonSteps 22 { now := 4000 } ++ [.next] ++
    daemonSteps 1 ++ [.next]

/-- The next tick up to operation `n` of its dispatch phase. -/
def redispatch (n : ℕ) : List Event :=
  [.next] ++ daemonSteps 1 ++ [.next] ++ daemonSteps 2 ++ [.next] ++ daemonSteps n

/-- The rest of a tick without work, up to the command phase of the next one. -/
def idleRest : List Event :=
  [.next] ++ daemonSteps 2 ++ [.next] ++ daemonSteps 2 ++ [.next] ++ daemonSteps 1 ++
    [.next, .next]

/-- A new daemon process performs a tick up to the end of its dispatch phase,
    with nothing to do. -/
def restartIdle : List Event :=
  [.restart fun _ => none, .next] ++ daemonSteps 1 ++ [.next] ++ daemonSteps 2 ++ [.next] ++
    daemonSteps 2

/-- What the daemon sees when there is a token and Discord does not answer. -/
def noAnswer : Inputs := { envFile := some "DISCORD_BOT_TOKEN=t", http := .exception "timed out" }

/-- Job 1 is killed while it is queued. The daemon stops before its Supervisor
    phase. -/
def killJob : List Event :=
  cli (.createRepo oneRepo) ++ cli (.dispatch oneJob) ++ cli (.kill (.killJob (some 1))) ++
    [.next] ++ daemonSteps 4 ++ [.next] ++ daemonSteps 2 ++ [.next] ++ daemonSteps 2 ++ [.next] ++
    daemonSteps 2

/-- The same, up to the listing of the Supervisor tick. -/
def killedTick : List Event := killJob ++ [.next]

/-- The daemon has finished its phase and moves on to phase `p`. -/
def returned (c : Sys) (p : Phase) : Bool :=
  match c.prog .daemon with
  | .ret q => q == p
  | _ => false

theorem prog_of_returned {p : Phase} (h : c.returned p = true) : c.prog .daemon = .ret p := by
  unfold returned at h
  split at h
  · next q hq =>
    obtain rfl := eq_of_beq h
    exact hq
  · cases h

/-- The state of job `j`. -/
def jobState (c : Sys) (j : ℕ) : Option JobState := (c.shared.db.getJob j).map Job.state

end Sys

end DiscordAgent
