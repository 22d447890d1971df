import DiscordAgent.System.Basic

/-!
# The daemon process and its end

`Daemon._run` (`lib/daemon.py` lines 191–211) around the ticks of `Sys`: a signal
clears `_running`, the loop ends before the next tick or where a tick raises, and the
`finally` stops the workers that are in the process table. The reader threads go on
until the process ends; they end with it.

* `Server.step`: one event.
* `Server.Move`, `Server.move_of_step`: what an event does.
-/

namespace DiscordAgent

open Interleave Sys

/-- How far `_run` is. -/
inductive Mode where
  | serving
  /-- In `stop_all`. -/
  | closing
  /-- The process has ended. -/
  | stopped
  deriving DecidableEq

/-- The system with the daemon process. -/
structure Server where
  sys : Sys
  mode : Mode

/-- What happens next. -/
inductive ServerEvent where
  | sys (e : Event)
  /-- `SIGTERM` or `SIGINT`. -/
  | signal
  /-- The `finally` of `_run`. -/
  | close
  /-- `stop_all` has returned. -/
  | finish

namespace Mode

/-- The events of the system that can happen: there are no more ticks in the `finally`, and
    only the command line is left after it. -/
def allows : Mode → Event → Bool
  | serving, _ => true
  | closing, .next => false
  | closing, _ => true
  | stopped, .invoke _ _ | stopped, .run (.cli _) _ | stopped, .restart _ => true
  | stopped, _ => false

/-- A new daemon serves. -/
def after (m : Mode) : Event → Mode
  | .restart _ => serving
  | _ => m

end Mode

namespace Sys

/-- The loop of `_run` ends. -/
def leaves (c : Sys) : Bool :=
  match c.prog .daemon with
  | .ret _ => c.shared.phase == .idle && !c.shared.running
  | .raise _ => true
  | .call _ _ => false

/-- `_handle_signal` (lines 133–135). -/
def terminate (c : Sys) : Sys := { c with shared := { c.shared with running := false } }

/-- The `finally` of `_run`. `list(self._processes.keys())` has the attempts in the order in
    which they were entered. -/
def close (c : Sys) : Sys :=
  Pool.load c .daemon (do
    let _ ← Runner.stopAll c.shared.processes.reverse
    .ret .idle)

end Sys

namespace Server

/-- The daemon has just been started on a database. -/
def boot (db : Db) (environ : Environ) : Server := ⟨Sys.boot db environ, .serving⟩

/-- One event; `none` if it cannot happen. -/
def step (cfg : Settings) (s : Server) : ServerEvent → Option Server
  | .sys e =>
    if s.mode.allows e then (Sys.step cfg s.sys e).map fun c => ⟨c, s.mode.after e⟩ else none
  | .signal => if s.mode = .stopped then none else some ⟨s.sys.terminate, s.mode⟩
  | .close => if s.mode = .serving ∧ s.sys.leaves then some ⟨s.sys.close, .closing⟩ else none
  | .finish =>
    match s.mode, s.sys.prog .daemon with
    | .closing, .ret _ => some ⟨s.sys, .stopped⟩
    | _, _ => none

/-- Runs whose steps all meet `ok`. -/
abbrev Runs (cfg : Settings) (ok : Server → ServerEvent → Prop) : Server → Server → Prop :=
  Run (step cfg) ok

variable {cfg : Settings}

/-- The events that can happen, with what they lead to. -/
inductive Move (cfg : Settings) (s : Server) : ServerEvent → Server → Prop
  | sys {e : Event} {c : Sys} (hallows : s.mode.allows e = true)
      (h : Sys.step cfg s.sys e = some c) : Move cfg s (.sys e) ⟨c, s.mode.after e⟩
  | signal : Move cfg s .signal ⟨s.sys.terminate, s.mode⟩
  | close (hmode : s.mode = .serving) (h : s.sys.leaves = true) :
      Move cfg s .close ⟨s.sys.close, .closing⟩
  | finish {p : Phase} (hmode : s.mode = .closing) (h : s.sys.prog .daemon = .ret p) :
      Move cfg s .finish ⟨s.sys, .stopped⟩

theorem move_of_step {s s' : Server} {e : ServerEvent} (hs : step cfg s e = some s') :
    Move cfg s e s' := by
  cases e with
  | sys e =>
    simp only [step] at hs
    split_ifs at hs with hallows
    obtain ⟨c, hc, rfl⟩ := Option.map_eq_some_iff.mp hs
    exact .sys hallows hc
  | signal =>
    simp only [step] at hs
    split_ifs at hs
    cases hs
    exact .signal
  | close =>
    simp only [step] at hs
    split_ifs at hs with h
    cases hs
    exact .close h.1 h.2
  | finish =>
    simp only [step] at hs
    split at hs
    · next p hmode hp =>
      cases hs
      exact .finish hmode hp
    · cases hs

end Server

end DiscordAgent
