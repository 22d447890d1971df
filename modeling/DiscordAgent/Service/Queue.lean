import DiscordAgent.Interleave.Watch
import DiscordAgent.Sql.Queue
import DiscordAgent.System.Footprint

/-!
# The queue of daemon commands

`enqueue_command` and `poll_commands` (`lib/db.py` lines 596–605, 671–689) let the
processes of the command line leave commands for the daemon in `daemon_commands`.

Specification: `Sql.Queue`, a queue that knows what was taken out of it.

Results:
* `Sys.commands_queue`: in every run, with restarts, the table holds the queue of what was
  put in and taken out: no command is lost, none is taken twice, and `poll_commands`
  answers with those that are due.
* `Sys.commands_fifo`: unless the clock goes back, commands are taken in the order in
  which they were put in.
-/

namespace DiscordAgent

open Interleave Sql

variable {o : Op}

/-- `SET processed = 1`. -/
def DaemonCommand.process (c : DaemonCommand) : DaemonCommand := { c with processed := true }

theorem DaemonCommand.id_process (c : DaemonCommand) : Row.id c.process = Row.id c := rfl

theorem DaemonCommand.processed_process (c : DaemonCommand) : c.process.processed = true := rfl

/-- `processed`. -/
def DaemonCommand.flag : Marker DaemonCommand where
  done := processed
  mark := process
  id_mark := id_process
  done_mark := processed_process

/-- `ORDER BY created_at`. -/
def DaemonCommand.Earlier (a b : DaemonCommand) : Prop := a.createdAt ≤ b.createdAt

namespace DaemonCommand

instance : DecidableRel Earlier := fun a b =>
  inferInstanceAs (Decidable (a.createdAt ≤ b.createdAt))

instance : Std.Total Earlier := ⟨fun a b => le_total a.createdAt b.createdAt⟩

instance : IsTrans DaemonCommand Earlier := ⟨fun _ _ _ h h' => le_trans h h'⟩

end DaemonCommand

open DaemonCommand

/-- The commands that wait. -/
def Db.pendingCommands (db : Db) : List DaemonCommand := db.daemonCommands.pending flag Earlier

/-- `poll_commands` takes the first commands that wait. -/
theorem Db.pollCommands_eq_take (db : Db) (limit : ℕ) : db.pollCommands limit =
    ((db.daemonCommands.take flag Earlier limit).1.map DaemonCommand.command,
      { db with daemonCommands := (db.daemonCommands.take flag Earlier limit).2 }) := rfl

/-- The queue after an event of the system. -/
def watchQueue (c : Sys) (e : Event) (q : Queue DaemonCommand) : Queue DaemonCommand :=
  match e with
  | .run t i =>
    match c.next? t with
    | some (.enqueueCommand cmd) =>
      q.put Earlier ⟨c.shared.db.daemonCommands.seq + 1, cmd, i.now, false⟩
    | some (.pollCommands limit) => q.take limit
    | _ => q
  | _ => q

namespace Sys

variable {cfg : Settings} {c c' : Sys} {e : Event} {q : Queue DaemonCommand}
  {old : List DaemonCommand}

/-- The table of the system holds the queue. -/
abbrev HoldsQueue (old : List DaemonCommand) (c : Sys) (q : Queue DaemonCommand) : Prop :=
  Queue.Represents flag Earlier old c.shared.db.daemonCommands q

theorem HoldsQueue.step (h : c.HoldsQueue old q) (hs : Sys.step cfg c e = some c') :
    c'.HoldsQueue old (watchQueue c e q) := by
  cases e with
  | run t i =>
    have hs : Pool.step exec c t i = some c' := hs
    obtain ⟨o, -, -, hn, hshared, -, -⟩ := Pool.step_cases hs
    unfold HoldsQueue
    rw [hshared]
    by_cases he : ∃ cmd, o = .enqueueCommand cmd
    · obtain ⟨cmd, rfl⟩ := he
      simp only [watchQueue, hn]
      exact h.insert (fun id => ⟨id, cmd, i.now, false⟩) (fun _ => rfl) rfl
    by_cases hp : ∃ limit, o = .pollCommands limit
    · obtain ⟨limit, rfl⟩ := hp
      simp only [watchQueue, hn]
      exact h.take.2
    push Not at he hp
    have hsame : watchQueue c (.run t i) q = q := by
      simp only [watchQueue, hn]
      split
      · next cmd heq => exact absurd (Option.some.inj heq) (he cmd)
      · next limit heq => exact absurd (Option.some.inj heq) (hp limit)
      · rfl
    rw [hsame, exec_sameCommands i he hp]
    exact h
  | next =>
    obtain ⟨p, -, -, rfl⟩ := step_next hs
    exact h
  | exit a code result rl =>
    obtain ⟨w, -, -, rfl⟩ := step_exit hs
    exact h
  | invoke n cmd =>
    cases hs
    exact h
  | restart environ =>
    cases hs
    exact h

/-- The runs of the system with the queue, from the commands that wait at the start. -/
abbrev QueueRun (cfg : Settings) (ok : Sys × Queue DaemonCommand → Event → Prop) (db : Db)
    (environ : Environ) (c : Sys) (q : Queue DaemonCommand) : Prop :=
  Run (watch (Sys.step cfg) watchQueue) ok (boot db environ, ⟨db.pendingCommands, []⟩) (c, q)

theorem holdsQueue_of_run {ok : Sys × Queue DaemonCommand → Event → Prop} {db : Db}
    {environ : Environ} (h : QueueRun cfg ok db environ c q) :
    c.HoldsQueue (db.daemonCommands.rows.filter DaemonCommand.processed) q :=
  h.watch_invariant (I := HoldsQueue _) (fun _ _ _ _ hi _ hs => hi.step hs)
    (Queue.represents_pending db.daemonCommands)

/-- In every run the table consists of the commands that were processed before, those that
    were taken since, and those that wait, each of them once; and the next poll answers with
    those that wait first. -/
theorem commands_queue {db : Db} {environ : Environ}
    (h : QueueRun cfg (fun _ _ => True) db environ c q) :
    c.shared.db.daemonCommands.rows.Perm
        (db.daemonCommands.rows.filter DaemonCommand.processed ++
          q.taken.map DaemonCommand.process ++ q.waiting) ∧
      ((q.taken ++ q.waiting).map DaemonCommand.id).Nodup ∧
      ∀ limit i, (exec (.pollCommands limit) i c.shared).1 =
        (q.waiting.take limit).map DaemonCommand.command := by
  have hqueue := holdsQueue_of_run h
  refine ⟨hqueue.rows, hqueue.nodup, fun limit i => ?_⟩
  have hanswer : (exec (.pollCommands limit) i c.shared).1 =
      (c.shared.db.pollCommands limit).1 := rfl
  rw [hanswer, Db.pollCommands_eq_take, hqueue.take.1]

/-- A command that is put in is not dated before those that wait. -/
def datedInOrder (s : Sys × Queue DaemonCommand) : Event → Bool
  | .run t i =>
    match s.1.next? t with
    | some (.enqueueCommand _) => s.2.waiting.all fun r => decide (r.createdAt ≤ i.now)
    | _ => true
  | _ => true

/-- Two commands, and a poll. -/
def twoKills : List Event :=
  cli (.kill (.killJob (some 7))) ++ cli (.kill .shutdown) ++ [.next] ++ daemonSteps 1

/-- Both commands were taken, the older one first. -/
def tookBoth (s : Sys × Queue DaemonCommand) : Bool :=
  s.2.taken.map DaemonCommand.id == [1, 2] && s.2.waiting.isEmpty

theorem exists_tookBoth : ∃ c q, QueueRun Settings.plain (fun s e => datedInOrder s e = true)
    default (fun _ => none) c q ∧ q.taken.map DaemonCommand.id = [1, 2] ∧ q.waiting = [] := by
  have hlist : (runList (watch (Sys.step Settings.plain) watchQueue) datedInOrder
      (boot default fun _ => none, ⟨Db.pendingCommands default, []⟩) twoKills).any tookBoth =
        true := by decide +kernel
  obtain ⟨⟨c, q⟩, hrun, hq⟩ := Run.exists_of_runList hlist
  simp only [tookBoth, Bool.and_eq_true, beq_iff_eq, List.isEmpty_iff] at hq
  exact ⟨c, q, hrun, hq.1, hq.2⟩

theorem commands_queue_kills : ∃ c q, QueueRun Settings.plain (fun _ _ => True) default
    (fun _ => none) c q ∧ q.taken.map DaemonCommand.id = [1, 2] ∧
      c.shared.db.daemonCommands.rows.Perm (q.taken.map DaemonCommand.process) := by
  obtain ⟨c, q, hrun, htaken, hwaiting⟩ := exists_tookBoth
  have hrun : QueueRun Settings.plain (fun _ _ => True) default (fun _ => none) c q :=
    hrun.mono fun _ _ _ => trivial
  refine ⟨c, q, hrun, htaken, (commands_queue hrun).1.trans ?_⟩
  rw [hwaiting, List.append_nil]
  exact List.Perm.refl _

/-! ## First in, first out -/

theorem inOrder_step (h : c.HoldsQueue old q) (ho : q.InOrder)
    (hok : datedInOrder (c, q) e = true) : (watchQueue c e q).InOrder := by
  cases e with
  | run t i =>
    cases hn : c.next? t with
    | none =>
      simp only [watchQueue, hn]
      exact ho
    | some o =>
      simp only [datedInOrder, hn] at hok
      simp only [watchQueue, hn]
      cases o with
      | enqueueCommand cmd =>
        refine ho.put (fun r hr => ?_) fun r hr => Nat.lt_succ_of_le (h.id_le hr)
        exact of_decide_eq_true (List.all_eq_true.mp hok r hr)
      | pollCommands limit => exact ho.take
      | _ => exact ho
  | _ => exact ho

/-- If the clock does not go back, the commands are taken in the order in which they were
    put in. -/
theorem commands_fifo {db : Db} {environ : Environ}
    (hdb : db.pendingCommands.Pairwise fun r s => r.id < s.id)
    (h : QueueRun cfg (fun s e => datedInOrder s e = true) db environ c q) :
    (q.taken ++ q.waiting).Pairwise fun r s => r.id < s.id := by
  have hinv := h.watch_invariant
    (I := fun c q => c.HoldsQueue (db.daemonCommands.rows.filter DaemonCommand.processed) q ∧
      q.InOrder)
    (fun _ _ _ _ hi hok hs => ⟨hi.1.step hs, inOrder_step hi.1 hi.2 hok⟩)
    ⟨Queue.represents_pending db.daemonCommands, hdb⟩
  exact hinv.2

theorem commands_fifo_kills : ∃ c q, QueueRun Settings.plain
    (fun s e => datedInOrder s e = true) default (fun _ => none) c q ∧
      q.taken.map DaemonCommand.id = [1, 2] ∧
        (q.taken ++ q.waiting).Pairwise fun r s => r.id < s.id := by
  obtain ⟨c, q, hrun, htaken, -⟩ := exists_tookBoth
  exact ⟨c, q, hrun, htaken, commands_fifo List.Pairwise.nil hrun⟩

end Sys

end DiscordAgent
