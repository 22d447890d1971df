import DiscordAgent.Launch.Processes
import DiscordAgent.System.Server

/-!
# The end of the workers

When the loop of `_run` ends, `stop_all` reads the keys of the process table and stops
one process after the other. Meanwhile the reader threads take the attempts of the
workers that end out of the table.

The workers of a daemon process that is killed are out of reach for the next one; `Sys`
does not follow them.

Results:
* `Server.shutdown_complete`: when the daemon has ended by itself, every worker that has
  not ended was stopped.
* `Server.last_tick`: once `_running` is false, the daemon only completes its tick, and it
  starts workers at most up to the dispatch phase of this tick.
-/

namespace DiscordAgent

open Interleave Sys

/-! ## The attempts of the workers -/

theorem mem_processes_exec_of {o : Op} {i : Inputs} {w : World} {a : ℕ} (h : a ∈ w.processes)
    (ho : o ≠ .popProcess a) : a ∈ (exec o i w).2.processes := by
  by_cases hp : ∃ b, o = .popProcess b
  · obtain ⟨b, rfl⟩ := hp
    have hab : a ≠ b := fun hab => ho (by rw [hab])
    exact List.mem_filter.mpr ⟨h, by simpa using hab⟩
  by_cases hr : ∃ b, o = .registerProcess b
  · obtain ⟨b, rfl⟩ := hr
    by_cases hab : a = b
    · exact List.mem_cons.mpr (.inl hab)
    · exact List.mem_cons_of_mem _ (List.mem_filter.mpr ⟨h, by simpa using hab⟩)
  push Not at hp hr
  rw [exec_processes o i w hr hp]
  exact h

theorem mem_journal_exec {o : Op} {i : Inputs} {w : World} {e : Entry} (h : e ∈ w.journal) :
    e ∈ (exec o i w).2.journal := by
  rcases exec_journal o i w with hj | ⟨e', -, hj⟩
  · rw [hj]
    exact h
  · rw [hj]
    exact List.mem_cons_of_mem _ h

/-- What the reader thread of an attempt does to the table. -/
def Op.ofReaderOf (a : ℕ) (o : Op) : Prop :=
  o.home ≠ some .dispatch ∧ ∀ b, o = .popProcess b → b = a

/-- What the other threads do not do to it. -/
def Op.offTable (o : Op) : Prop := ∀ b, o ≠ .popProcess b

theorem emits_onComplete_table (cfg : Settings) (cb : Callback) (exitCode : ℤ)
    (result : Option String) (isRateLimited : Bool) :
    (Runner.onComplete cfg cb exitCode result isRateLimited).Emits
      (Op.ofReaderOf cb.attemptId) := by
  have hr : ∀ o : Op, o.isRead = true → o.ofReaderOf cb.attemptId := fun o h =>
    ⟨quiet_of_isRead h, by rintro b rfl; cases h⟩
  refine emits_onComplete_of hr ?_ ?_ ?_ ?_ ?_ ?_ ?_ cfg isRateLimited
  all_goals simp [Op.ofReaderOf, Op.home]

theorem Phase.performs.offTable {p : Phase} {o : Op} (h : p.performs o) : o.offTable := by
  rintro b rfl
  cases p <;> simp [Phase.performs, Op.isRead, Op.isTransition] at h

namespace Sys

variable {cfg : Settings} {c c' : Sys} {e : Event} {o : Op} {t : Tid} {i : Inputs}

/-- Every worker has an attempt of its own, which its own reader thread alone takes out of
    the table, and not before the worker has ended. -/
structure Manned (c : Sys) : Prop where
  readers : ∀ a, (c.prog (.reader a)).Emits (Op.ofReaderOf a)
  clis : ∀ n, (c.prog (.cli n)).Emits Op.ofCli
  unborn : ∀ a, c.shared.db.attempts.seq < a → c.next? (.reader a) = none
  running : ∀ w ∈ c.shared.workers, w.callback.attemptId ≤ c.shared.db.attempts.seq ∧
    c.next? (.reader w.callback.attemptId) = none

theorem manned_boot (db : Db) (environ : Environ) : (boot db environ).Manned where
  readers _ := trivial
  clis _ := trivial
  unborn _ _ := rfl
  running _ hw := (List.not_mem_nil hw).elim

/-- What the reader threads and the command line do to the table. -/
theorem Manned.performs (h : c.Manned) (ht : t ≠ .daemon) (hn : c.next? t = some o) :
    o.home ≠ some .dispatch ∧ ∀ w ∈ c.shared.workers, o ≠ .popProcess w.callback.attemptId := by
  cases t with
  | daemon => exact absurd rfl ht
  | reader a =>
    obtain ⟨hhome, hpop⟩ := Pool.of_next? (h.readers a) hn
    refine ⟨hhome, fun w hw ho => ?_⟩
    have hnone := (h.running w hw).2
    rw [hpop _ ho, hn] at hnone
    cases hnone
  | cli n =>
    have hcli := Pool.of_next? (h.clis n) hn
    refine ⟨by simp [Op.ofCli.not_home hcli], fun w _ ho => ?_⟩
    rw [ho] at hcli
    simp [Op.ofCli, Op.isRead] at hcli

/-- An operation of any thread; a worker that it starts has an attempt without a reader. -/
theorem Manned.operation (h : c.Manned) (hs : Pool.step exec c t i = some c')
    (hnew : ∀ w ∈ c'.shared.workers, w ∈ c.shared.workers ∨
      (w.callback.attemptId ≤ c.shared.db.attempts.seq ∧
        c.next? (.reader w.callback.attemptId) = none)) : c'.Manned := by
  obtain ⟨o, -, -, -, hshared, -, hother⟩ := Pool.step_cases hs
  have hseq : c.shared.db.attempts.seq ≤ c'.shared.db.attempts.seq := by
    rw [hshared]
    exact attemptsSeq_le o i c.shared
  have hnone : ∀ a, c.next? (.reader a) = none → c'.next? (.reader a) = none := by
    intro a ha
    by_cases ht : t = .reader a
    · subst ht
      obtain ⟨o', -, -, hn, -⟩ := Pool.step_cases hs
      rw [ha] at hn
      cases hn
    · unfold Pool.next? at ha ⊢
      rw [hother _ (Ne.symm ht)]
      exact ha
  refine ⟨fun a => Pool.emits_step hs (h.readers a), fun n => Pool.emits_step hs (h.clis n),
    fun a ha => hnone a (h.unborn a (hseq.trans_lt ha)), fun w hw => ?_⟩
  rcases hnew w hw with hold | ⟨hle, ha⟩
  · exact ⟨(h.running w hold).1.trans hseq, hnone _ (h.running w hold).2⟩
  · exact ⟨hle.trans hseq, hnone _ ha⟩

/-- A program is loaded into a thread that is not a reader. -/
theorem Manned.load (h : c.Manned) (p : Py t.Result) (ht : ∀ a, t ≠ .reader a)
    (hp : ∀ n, t = .cli n → p.Emits Op.ofCli) : Manned (Pool.load c t p) := by
  have hreader : ∀ a, (Pool.load c t p).prog (.reader a) = c.prog (.reader a) := fun a =>
    Pool.load_prog_of_ne _ _ (Ne.symm (ht a))
  have hnext : ∀ a, (Pool.load c t p).next? (.reader a) = c.next? (.reader a) := fun a => by
    unfold Pool.next?
    rw [hreader]
  have hunborn : ∀ a, c.shared.db.attempts.seq < a → (Pool.load c t p).next? (.reader a) = none :=
    fun a ha => (hnext a).trans (h.unborn a ha)
  refine ⟨fun a => hreader a ▸ h.readers a, fun n => ?_, hunborn, fun w hw =>
    ⟨(h.running w hw).1, (hnext _).trans (h.running w hw).2⟩⟩
  by_cases htn : t = .cli n
  · subst htn
    rw [Pool.load_prog_self]
    exact hp n rfl
  · rw [Pool.load_prog_of_ne _ _ (Ne.symm htn)]
    exact h.clis n

/-- A worker ends. -/
theorem Manned.exit {a : ℕ} {code : ℤ} {result : Option String} {rl : Bool} (h : c.Manned)
    (hs : Sys.step cfg c (.exit a code result rl) = some c') : c'.Manned := by
  obtain ⟨w, hw, rfl, rfl⟩ := step_exit hs
  refine ⟨fun b => ?_, fun n => ?_, fun b hb => ?_, fun v hv => ?_⟩
  · by_cases hba : b = w.callback.attemptId
    · subst hba
      rw [Pool.load_prog_self]
      exact emits_onComplete_table cfg w.callback code result rl
    · rw [Pool.load_prog_of_ne _ _ (by simpa using hba)]
      exact h.readers b
  · rw [Pool.load_prog_of_ne _ _ (by simp)]
    exact h.clis n
  · have hne : b ≠ w.callback.attemptId := by
      rintro rfl
      exact absurd (h.running w hw).1 (not_le.mpr hb)
    unfold Pool.next?
    rw [Pool.load_prog_of_ne _ _ (by simpa using hne)]
    exact h.unborn b hb
  · obtain ⟨hmem, hne⟩ := List.mem_filter.mp hv
    obtain ⟨hle, hnone⟩ := h.running v hmem
    refine ⟨hle, ?_⟩
    unfold Pool.next?
    rw [Pool.load_prog_of_ne _ _ (by simpa using hne)]
    exact hnone

/-! ## While the daemon serves -/

/-- Every worker is in the table, but for the one that `run_job` has just started. -/
structure Entered (c : Sys) (m : Stage) : Prop where
  table : ∀ w ∈ c.shared.workers,
    w.callback.attemptId ∈ c.shared.processes ∨ m = .started w.callback.attemptId
  created : ∀ a, m = .created a → a ≤ c.shared.db.attempts.seq ∧ c.next? (.reader a) = none ∧
    ∀ w ∈ c.shared.workers, w.callback.attemptId ≠ a

/-- The daemon is in its loop. -/
def Serves (c : Sys) : Prop :=
  (c.prog .daemon).Emits Op.offTable ∧
    ∃ m, (c.prog .daemon).Follows launchMonitor (fun _ m => m.Settled) (fun _ m => m.Settled) m ∧
      c.Entered m

theorem entered_idle (h : ∀ w ∈ c.shared.workers, w.callback.attemptId ∈ c.shared.processes) :
    c.Entered .idle := ⟨fun w hw => .inl (h w hw), fun _ ha => Stage.noConfusion ha⟩

/-- An operation that is no part of a launch and takes no worker out of the table. -/
theorem Entered.quiet {m : Stage} (h : c.Entered m) (hs : Pool.step exec c t i = some c')
    (hn : c.next? t = some o) (ho : o.home ≠ some .dispatch)
    (hpop : ∀ w ∈ c.shared.workers, o ≠ .popProcess w.callback.attemptId) : c'.Entered m := by
  obtain ⟨-, -, hshared, -, hother⟩ := Pool.step_of_next? hs hn
  have hseq : c.shared.db.attempts.seq ≤ c'.shared.db.attempts.seq := by
    rw [hshared]
    exact attemptsSeq_le o i c.shared
  have hworkers : c'.shared.workers = c.shared.workers := by
    rw [hshared]
    exact exec_workers o i c.shared fun _ _ _ _ hp => ho (by rw [hp]; rfl)
  constructor
  · intro w hw
    rw [hworkers] at hw
    refine (h.table w hw).imp_left fun hmem => ?_
    rw [hshared]
    exact mem_processes_exec_of hmem (hpop w hw)
  · intro a ha
    obtain ⟨hle, hnone, hne⟩ := h.created a ha
    refine ⟨hle.trans hseq, ?_, fun w hw => hne w (hworkers ▸ hw)⟩
    have hta : t ≠ .reader a := by
      rintro rfl
      rw [hnone] at hn
      cases hn
    unfold Pool.next? at hnone ⊢
    rw [hother _ (Ne.symm hta)]
    exact hnone

/-- `run_job` creates its attempt. -/
theorem Serves.insertAttempt {j n : ℕ} {S : Option ℕ} (hm : c.Manned) (h : c.Serves)
    (hs : Pool.step exec c .daemon i = some c')
    (hn : c.next? .daemon = some (.insertAttempt j S n)) : c'.Manned ∧ c'.Serves := by
  obtain ⟨hoff, m, hfollows, hentered⟩ := h
  obtain ⟨hok, hnext⟩ := Pool.follows_step hs hn trivial hfollows
  obtain rfl : m = .idle := hok
  have hshared := Pool.shared_step hs hn
  have hseq : c'.shared.db.attempts.seq = c.shared.db.attempts.seq + 1 := by
    rw [hshared]
    rfl
  have hworkers : c'.shared.workers = c.shared.workers := by
    rw [hshared]
    rfl
  have hprocesses : c'.shared.processes = c.shared.processes := by
    rw [hshared]
    rfl
  have hmanned : c'.Manned := hm.operation hs fun w hw => .inl (hworkers ▸ hw)
  refine ⟨hmanned, Pool.emits_step hs hoff, .created (c.shared.db.attempts.seq + 1), hnext, ?_, ?_⟩
  · intro w hw
    rw [hworkers] at hw
    rw [hprocesses]
    exact .inl ((hentered.table w hw).resolve_right Stage.noConfusion)
  · intro a ha
    cases ha
    refine ⟨hseq.ge, ?_, fun w hw => ?_⟩
    · obtain ⟨-, -, -, -, hother⟩ := Pool.step_of_next? hs hn
      have hnone := hm.unborn (c.shared.db.attempts.seq + 1) (Nat.lt_succ_self _)
      unfold Pool.next? at hnone ⊢
      rw [hother _ (by simp)]
      exact hnone
    · rw [hworkers] at hw
      have hle := (hm.running w hw).1
      omega

/-- `run_job` starts its worker, or fails to. -/
theorem Serves.popen {argv : List String} {cwd : String} {env : Option Environ} {cb : Callback}
    (hm : c.Manned) (h : c.Serves) (hs : Pool.step exec c .daemon i = some c')
    (hn : c.next? .daemon = some (.popen argv cwd env cb)) : c'.Manned ∧ c'.Serves := by
  obtain ⟨hoff, m, hfollows, hentered⟩ := h
  obtain ⟨hok, hnext⟩ := Pool.follows_step hs hn trivial hfollows
  obtain rfl : m = .created cb.attemptId := hok
  have hshared := Pool.shared_step hs hn
  have hin : ∀ w ∈ c.shared.workers, w.callback.attemptId ∈ c.shared.processes := fun w hw =>
    (hentered.table w hw).resolve_right Stage.noConfusion
  obtain ⟨hle, hnone, -⟩ := hentered.created _ rfl
  have hfail : ∀ err, exec (.popen argv cwd env cb) i c.shared = (.error err, c.shared) →
      c'.Manned ∧ c'.Serves := by
    intro err hexec
    rw [hexec] at hshared hnext
    have hsame : c'.shared = c.shared := hshared
    refine ⟨hm.operation hs fun w hw => .inl (hsame ▸ hw), Pool.emits_step hs hoff, .idle, hnext,
      entered_idle fun w hw => ?_⟩
    rw [hsame] at hw ⊢
    exact hin w hw
  cases hp : i.popen with
  | fileNotFound => exact hfail .claudeNotFound (by simp only [exec, hp])
  | osError => exact hfail .osError (by simp only [exec, hp])
  | started pid =>
    have hexec : exec (.popen argv cwd env cb) i c.shared = (.ok pid, { c.shared with
        workers := ⟨cb, argv, cwd, env.getD c.shared.environ⟩ :: c.shared.workers }) := by
      simp only [exec, hp]
    rw [hexec] at hshared hnext
    have hworkers : ∀ w ∈ c'.shared.workers,
        w.callback = cb ∨ w ∈ c.shared.workers := by
      intro w hw
      rw [hshared] at hw
      exact (List.mem_cons.mp hw).imp_left fun hw => by rw [hw]
    refine ⟨hm.operation hs fun w hw => ?_, Pool.emits_step hs hoff, .started cb.attemptId, hnext,
      fun w hw => ?_, fun a ha => Stage.noConfusion ha⟩
    · rcases hworkers w hw with hcb | hold
      · exact .inr (hcb ▸ ⟨hle, hnone⟩)
      · exact .inl hold
    · rcases hworkers w hw with hcb | hold
      · exact .inr (by rw [hcb])
      · exact .inl (by rw [hshared]; exact hin w hold)

/-- `run_job` enters its attempt in the table. -/
theorem Serves.registerProcess {a : ℕ} (hm : c.Manned) (h : c.Serves)
    (hs : Pool.step exec c .daemon i = some c')
    (hn : c.next? .daemon = some (.registerProcess a)) : c'.Manned ∧ c'.Serves := by
  obtain ⟨hoff, m, hfollows, hentered⟩ := h
  obtain ⟨hok, hnext⟩ := Pool.follows_step hs hn trivial hfollows
  obtain rfl : m = .started a := hok
  have hshared := Pool.shared_step hs hn
  have hworkers : c'.shared.workers = c.shared.workers := by
    rw [hshared]
    rfl
  refine ⟨hm.operation hs fun w hw => .inl (hworkers ▸ hw), Pool.emits_step hs hoff, .idle, hnext,
    entered_idle fun w hw => ?_⟩
  rw [hworkers] at hw
  rw [hshared]
  rcases hentered.table w hw with hmem | hstarted
  · exact mem_processes_exec_of hmem (by simp)
  · cases hstarted
    exact List.mem_cons_self

/-- An operation of the daemon while it serves. -/
theorem Serves.operation (hm : c.Manned) (h : c.Serves)
    (hs : Pool.step exec c .daemon i = some c') : c'.Manned ∧ c'.Serves := by
  obtain ⟨o, -, -, hn, hshared, -, -⟩ := Pool.step_cases hs
  by_cases ho : o.home = some .dispatch
  · cases o with
    | insertAttempt j S n => exact h.insertAttempt hm hs hn
    | popen argv cwd env cb => exact h.popen hm hs hn
    | registerProcess a => exact h.registerProcess hm hs hn
    | tmux cmd => cases cmd <;> cases ho
    | _ => cases ho
  · obtain ⟨hoff, m, hfollows, hentered⟩ := h
    obtain ⟨-, hnext⟩ := Pool.follows_step hs hn trivial hfollows
    rw [(launchMonitor_quiet ho m).2] at hnext
    refine ⟨hm.operation hs fun w hw => .inl ?_, Pool.emits_step hs hoff, m, hnext,
      hentered.quiet hs hn ho fun w _ => Pool.of_next? hoff hn _⟩
    rw [hshared, exec_workers o i c.shared fun _ _ _ _ hp => ho (by rw [hp]; rfl)] at hw
    exact hw

/-- An operation of another thread while the daemon serves. -/
theorem Serves.other (hm : c.Manned) (h : c.Serves) (ht : t ≠ .daemon)
    (hs : Pool.step exec c t i = some c') : c'.Manned ∧ c'.Serves := by
  obtain ⟨o, -, -, hn, hshared, -, hother⟩ := Pool.step_cases hs
  obtain ⟨ho, hpop⟩ := hm.performs ht hn
  obtain ⟨hoff, m, hfollows, hentered⟩ := h
  refine ⟨hm.operation hs fun w hw => .inl ?_, ?_, m, ?_, hentered.quiet hs hn ho hpop⟩
  · rw [hshared, exec_workers o i c.shared fun _ _ _ _ hp => ho (by rw [hp]; rfl)] at hw
    exact hw
  · rw [hother _ (Ne.symm ht)]
    exact hoff
  · rw [hother _ (Ne.symm ht)]
    exact hfollows

/-- The daemon enters a phase. -/
theorem Serves.next (hm : c.Manned) (h : c.Serves) (hs : Sys.step cfg c .next = some c') :
    c'.Manned ∧ c'.Serves := by
  obtain ⟨p, hp, -, rfl⟩ := step_next hs
  obtain ⟨-, m, hfollows, hentered⟩ := h
  rw [hp] at hfollows
  have hin : ∀ w ∈ c.shared.workers, w.callback.attemptId ∈ c.shared.processes := fun w hw =>
    (hentered.table w hw).resolve_right (hfollows _)
  have hmanned : Manned { c with shared := c.shared.enter p } := ⟨hm.readers, hm.clis, hm.unborn,
    hm.running⟩
  refine ⟨hmanned.load _ (by simp) (by simp), ?_, .idle, ?_, entered_idle hin⟩
  · rw [Pool.load_prog_self]
    exact (emits_phaseProg cfg p).mono fun _ ho => ho.offTable
  · rw [Pool.load_prog_self]
    exact stages_phaseProg cfg p

/-- A worker ends while the daemon serves. -/
theorem Serves.exit {a : ℕ} {code : ℤ} {result : Option String} {rl : Bool} (h : c.Serves)
    (hs : Sys.step cfg c (.exit a code result rl) = some c') : c'.Serves := by
  obtain ⟨w, hw, rfl, rfl⟩ := step_exit hs
  obtain ⟨hoff, m, hfollows, htable, hcreated⟩ := h
  refine ⟨?_, m, ?_, fun v hv => htable v (List.mem_filter.mp hv).1, fun a ha => ?_⟩
  · rw [Pool.load_prog_of_ne _ _ (by simp)]
    exact hoff
  · rw [Pool.load_prog_of_ne _ _ (by simp)]
    exact hfollows
  · obtain ⟨hle, hnone, hne⟩ := hcreated a ha
    refine ⟨hle, ?_, fun v hv => hne v (List.mem_filter.mp hv).1⟩
    unfold Pool.next?
    rw [Pool.load_prog_of_ne _ _ (by simpa using Ne.symm (hne w hw))]
    exact hnone

/-- A new daemon has no workers. -/
theorem Manned.reboot (hm : c.Manned) (environ : Environ) :
    (c.reboot environ).Manned ∧ (c.reboot environ).Serves :=
  ⟨⟨fun _ => trivial, hm.clis, fun _ _ => rfl, fun _ hw => (List.not_mem_nil hw).elim⟩,
    trivial, .idle, fun _ h => Stage.noConfusion h,
    entered_idle fun _ hw => (List.not_mem_nil hw).elim⟩

theorem Serves.step (hm : c.Manned) (h : c.Serves) (hs : Sys.step cfg c e = some c') :
    c'.Manned ∧ c'.Serves := by
  cases e with
  | run t i =>
    by_cases ht : t = .daemon
    · subst ht
      exact h.operation hm hs
    · exact h.other hm ht hs
  | next => exact h.next hm hs
  | exit a code result rl => exact ⟨hm.exit hs, h.exit hs⟩
  | invoke n cmd =>
    cases hs
    obtain ⟨hoff, m, hfollows, hentered⟩ := h
    refine ⟨hm.load _ (by simp) ?_, ?_, m, ?_, hentered.table, ?_⟩
    · rintro k ⟨⟩
      exact emits_cliProg cmd
    · rw [Pool.load_prog_of_ne _ _ (by simp)]
      exact hoff
    · rw [Pool.load_prog_of_ne _ _ (by simp)]
      exact hfollows
    · intro a ha
      obtain ⟨hle, hnone, hne⟩ := hentered.created a ha
      refine ⟨hle, ?_, hne⟩
      unfold Pool.next?
      rw [Pool.load_prog_of_ne _ _ (by simp)]
      exact hnone
  | restart environ =>
    cases hs
    exact hm.reboot environ

end Sys

/-! ## `stop_all` -/

/-- `stop_all` asks for its attempts one after the other and stops those it finds; the
    state is the list of those still to come. -/
def sweepMonitor : Monitor Op Op.Res (List ℕ) where
  answers _ _ := True
  ok left
    | .getProcess a | .stopProcess a => left.head? = some a
    | _ => False
  next left
    | .getProcess _, found => if found then left else left.tail
    | .stopProcess _, _ => left.tail
    | _, _ => left

theorem sweeps_stopEach (aids : List ℕ) (count : ℕ) :
    (Runner.stopEach aids count).Follows sweepMonitor (fun _ left => left = []) (fun _ _ => False)
      aids := by
  induction aids generalizing count with
  | nil => rfl
  | cons aid aids ih =>
    refine ⟨rfl, fun found _ => ?_⟩
    cases found with
    | false => exact ih count
    | true => exact ⟨rfl, fun _ _ => ih (count + 1)⟩

theorem emits_stopEach (aids : List ℕ) (count : ℕ) :
    (Runner.stopEach aids count).Emits fun o => o.home ≠ some .dispatch := by
  induction aids generalizing count with
  | nil => trivial
  | cons aid aids ih =>
    refine ⟨by simp [Op.home], fun found => ?_⟩
    cases found with
    | false => exact ih count
    | true => exact ⟨by simp [Op.home], fun _ => ih (count + 1)⟩

namespace Sys

variable {cfg : Settings} {c c' : Sys} {e : Event} {o : Op} {t : Tid} {i : Inputs}

/-- Every worker was stopped, or it is in the table and `stop_all` has not come to it. -/
def Remains (c : Sys) (left : List ℕ) : Prop :=
  ∀ w ∈ c.shared.workers, .stopped w.callback.attemptId ∈ c.shared.journal ∨
    (w.callback.attemptId ∈ left ∧ w.callback.attemptId ∈ c.shared.processes)

/-- The daemon is in `stop_all`. -/
def Closes (c : Sys) : Prop :=
  ∃ left, (c.prog .daemon).Follows sweepMonitor (fun _ left => left = []) (fun _ _ => False) left ∧
    c.Remains left

/-- The loop of `_run` is left with every worker in the table. -/
theorem Serves.close (hm : c.Manned) (h : c.Serves) (hl : c.leaves = true) :
    c.close.Manned ∧ c.close.Closes := by
  obtain ⟨-, m, hfollows, hentered⟩ := h
  have hsettled : m.Settled := by
    unfold leaves at hl
    split at hl
    · next hp =>
      rw [hp] at hfollows
      exact hfollows
    · next hp =>
      rw [hp] at hfollows
      exact hfollows
    · cases hl
  refine ⟨hm.load _ (by simp) (by simp), c.shared.processes.reverse, ?_, fun w hw => .inr ?_⟩
  · rw [Sys.close, Pool.load_prog_self]
    exact (sweeps_stopEach _ 0).bind fun _ _ h => h
  · have hmem := (hentered.table w hw).resolve_right (hsettled _)
    exact ⟨List.mem_reverse.mpr hmem, hmem⟩

/-- An operation that leaves the workers in the table and the list as it is. -/
theorem Remains.quiet {left : List ℕ} (h : c.Remains left) (hs : Pool.step exec c t i = some c')
    (hn : c.next? t = some o) (ho : o.home ≠ some .dispatch)
    (hpop : ∀ w ∈ c.shared.workers, o ≠ .popProcess w.callback.attemptId) : c'.Remains left := by
  have hshared := Pool.shared_step hs hn
  intro w hw
  rw [hshared, exec_workers o i c.shared fun _ _ _ _ hp => ho (by rw [hp]; rfl)] at hw
  rw [hshared]
  rcases h w hw with hstopped | ⟨hleft, hmem⟩
  · exact .inl (mem_journal_exec hstopped)
  · exact .inr ⟨hleft, mem_processes_exec_of hmem (hpop w hw)⟩

/-- One operation of `stop_all`. -/
theorem Closes.operation (h : c.Closes) (hs : Pool.step exec c .daemon i = some c') :
    c'.shared.workers = c.shared.workers ∧ c'.Closes := by
  obtain ⟨left, hfollows, hremains⟩ := h
  obtain ⟨o, -, -, hn, -, -, -⟩ := Pool.step_cases hs
  obtain ⟨hok, hnext⟩ := Pool.follows_step hs hn trivial hfollows
  have hshared := Pool.shared_step hs hn
  have hhead : ∀ {a b : ℕ}, left.head? = some a → b ∈ left → b = a ∨ b ∈ left.tail := by
    intro a b ha hb
    obtain ⟨rest, rfl⟩ := List.head?_eq_some_iff.mp ha
    exact List.mem_cons.mp hb
  cases o with
  | getProcess a =>
    refine ⟨by rw [hshared]; rfl, _, hnext, ?_⟩
    have hquiet := hremains.quiet hs hn (by simp [Op.home]) (by simp)
    by_cases hmem : a ∈ c.shared.processes
    · simpa [sweepMonitor, exec, hmem] using hquiet
    · -- the worker has ended, and its reader thread has taken it out of the table
      have hnot : a ∉ c'.shared.processes := by
        rw [hshared]
        exact hmem
      intro w hw
      refine (hquiet w hw).imp_right fun hw' => ?_
      obtain ⟨hleft, hin⟩ := hw'
      refine ⟨?_, hin⟩
      simp only [sweepMonitor, exec, hmem, decide_false, Bool.false_eq_true, if_false]
      refine (hhead hok hleft).resolve_left ?_
      rintro rfl
      exact hnot hin
  | stopProcess a =>
    refine ⟨by rw [hshared]; rfl, _, hnext, fun w hw => ?_⟩
    have hquiet := hremains.quiet hs hn (by simp [Op.home]) (by simp)
    rcases hquiet w hw with hstopped | ⟨hleft, hin⟩
    · exact .inl hstopped
    · rcases hhead hok hleft with heq | htail
      · refine .inl ?_
        rw [hshared, heq]
        exact List.mem_cons_self
      · exact .inr ⟨htail, hin⟩
  | _ => exact hok.elim

/-- An event of the system while the daemon is in `stop_all`. -/
theorem Closes.step (hm : c.Manned) (h : c.Closes) (hnext : e ≠ .next)
    (hrestart : ∀ environ, e ≠ .restart environ) (hs : Sys.step cfg c e = some c') :
    c'.Manned ∧ c'.Closes := by
  cases e with
  | run t i =>
    have hs : Pool.step exec c t i = some c' := hs
    by_cases ht : t = .daemon
    · subst ht
      obtain ⟨hworkers, hcloses⟩ := h.operation hs
      exact ⟨hm.operation hs fun w hw => .inl (hworkers ▸ hw), hcloses⟩
    · obtain ⟨o, -, -, hn, hshared, -, hother⟩ := Pool.step_cases hs
      obtain ⟨ho, hpop⟩ := hm.performs ht hn
      obtain ⟨left, hfollows, hremains⟩ := h
      refine ⟨hm.operation hs fun w hw => .inl ?_, left, ?_, hremains.quiet hs hn ho hpop⟩
      · rw [hshared, exec_workers o i c.shared fun _ _ _ _ hp => ho (by rw [hp]; rfl)] at hw
        exact hw
      · rw [hother _ (Ne.symm ht)]
        exact hfollows
  | next => exact absurd rfl hnext
  | exit a code result rl =>
    refine ⟨hm.exit hs, ?_⟩
    obtain ⟨w, hw, rfl, rfl⟩ := step_exit hs
    obtain ⟨left, hfollows, hremains⟩ := h
    refine ⟨left, ?_, fun v hv => hremains v (List.mem_filter.mp hv).1⟩
    rw [Pool.load_prog_of_ne _ _ (by simp)]
    exact hfollows
  | invoke n cmd =>
    cases hs
    obtain ⟨left, hfollows, hremains⟩ := h
    refine ⟨hm.load _ (by simp) ?_, left, ?_, hremains⟩
    · rintro k ⟨⟩
      exact emits_cliProg cmd
    · rw [Pool.load_prog_of_ne _ _ (by simp)]
      exact hfollows
  | restart environ => exact absurd rfl (hrestart environ)

end Sys

/-! ## The daemon process -/

namespace Server

variable {cfg : Settings} {s s' : Server} {e : ServerEvent}

/-- The invariant of the daemon process. -/
structure Kept (s : Server) : Prop where
  manned : s.sys.Manned
  serving : s.mode = .serving → s.sys.Serves
  closing : s.mode ≠ .serving → s.sys.Closes
  stopped : s.mode = .stopped → ∃ p, s.sys.prog .daemon = .ret p

theorem kept_boot (db : Db) (environ : Environ) : (boot db environ).Kept where
  manned := manned_boot db environ
  serving _ := ⟨trivial, .idle, fun _ h => Stage.noConfusion h,
    entered_idle fun _ hw => (List.not_mem_nil hw).elim⟩
  closing h := absurd rfl h
  stopped h := Mode.noConfusion h

/-- An event of the system. -/
theorem Kept.sys {e : Event} {c : Sys} (h : s.Kept) (hallows : s.mode.allows e = true)
    (hs : Sys.step cfg s.sys e = some c) : Kept ⟨c, s.mode.after e⟩ := by
  by_cases hr : ∃ environ, e = .restart environ
  · obtain ⟨environ, rfl⟩ := hr
    cases hs
    obtain ⟨hmanned, hserves⟩ := h.manned.reboot environ
    exact ⟨hmanned, fun _ => hserves, fun hm => absurd rfl hm, fun hm => Mode.noConfusion hm⟩
  push Not at hr
  have hafter : s.mode.after e = s.mode := by
    cases e with
    | restart environ => exact absurd rfl (hr environ)
    | _ => rfl
  rw [hafter]
  cases hmode : s.mode with
  | serving =>
    obtain ⟨hmanned, hserves⟩ := (h.serving hmode).step h.manned hs
    exact ⟨hmanned, fun _ => hserves, fun hm => absurd rfl hm, fun hm => Mode.noConfusion hm⟩
  | closing =>
    have hnext : e ≠ .next := by
      rintro rfl
      rw [hmode] at hallows
      cases hallows
    obtain ⟨hmanned, hcloses⟩ := (h.closing (by simp [hmode])).step h.manned hnext hr hs
    exact ⟨hmanned, fun hm => Mode.noConfusion hm, fun _ => hcloses,
      fun hm => Mode.noConfusion hm⟩
  | stopped =>
    rw [hmode] at hallows
    have hnext : e ≠ .next := by
      rintro rfl
      cases hallows
    obtain ⟨hmanned, hcloses⟩ := (h.closing (by simp [hmode])).step h.manned hnext hr hs
    refine ⟨hmanned, fun hm => Mode.noConfusion hm, fun _ => hcloses, fun _ => ?_⟩
    obtain ⟨p, hp⟩ := h.stopped hmode
    refine ⟨p, Eq.trans ?_ hp⟩
    cases e with
    | run t i =>
      have hs : Pool.step exec s.sys t i = some c := hs
      obtain ⟨-, -, -, -, -, -, hother⟩ := Pool.step_cases hs
      cases t with
      | daemon => cases hallows
      | reader a => cases hallows
      | cli n => exact hother _ (by simp)
    | next => cases hallows
    | exit a code result rl => cases hallows
    | invoke n cmd =>
      cases hs
      exact Pool.load_prog_of_ne _ _ (by simp)
    | restart environ => exact absurd rfl (hr environ)

theorem Kept.step (h : s.Kept) (hs : Server.step cfg s e = some s') : s'.Kept := by
  cases move_of_step hs with
  | sys hallows hsys => exact h.sys hallows hsys
  | signal =>
    have hmanned : s.sys.terminate.Manned := ⟨h.manned.readers, h.manned.clis, h.manned.unborn,
      h.manned.running⟩
    refine ⟨hmanned, fun hm => ?_, fun hm => ?_, h.stopped⟩
    · obtain ⟨hoff, m, hfollows, hentered⟩ := h.serving hm
      exact ⟨hoff, m, hfollows, hentered.table, hentered.created⟩
    · obtain ⟨left, hfollows, hremains⟩ := h.closing hm
      exact ⟨left, hfollows, hremains⟩
  | close hmode hl =>
    obtain ⟨hmanned, hcloses⟩ := (h.serving hmode).close h.manned hl
    exact ⟨hmanned, fun hm => Mode.noConfusion hm, fun _ => hcloses,
      fun hm => Mode.noConfusion hm⟩
  | @finish p hmode hp =>
    exact ⟨h.manned, fun hm => Mode.noConfusion hm, fun _ => h.closing (by simp [hmode]),
      fun _ => ⟨p, hp⟩⟩

/-- When the daemon has ended by itself, every worker whose reader thread has not seen it
    end was stopped. -/
theorem shutdown_complete {db : Db} {environ : Environ}
    (h : Runs cfg (fun _ _ => True) (boot db environ) s) (hmode : s.mode = .stopped) :
    ∀ w ∈ s.sys.shared.workers, .stopped w.callback.attemptId ∈ s.sys.shared.journal := by
  have hkept : s.Kept := h.invariant (I := Kept) (fun _ _ _ hi _ hs => hi.step hs)
    (kept_boot db environ)
  obtain ⟨left, hfollows, hremains⟩ := hkept.closing (by simp [hmode])
  obtain ⟨p, hp⟩ := hkept.stopped hmode
  rw [hp] at hfollows
  obtain rfl : left = [] := hfollows
  intro w hw
  exact (hremains w hw).resolve_right fun hleft => (List.not_mem_nil hleft.1).elim

/-- The rest of a tick after its dispatch phase has started a job. -/
def restOfTick : List Event :=
  [.next] ++ daemonSteps 2 ++ [.next] ++ daemonSteps 2 ++ [.next] ++ daemonSteps 1 ++ [.next]

/-- `SIGTERM` arrives after the daemon has started attempt 1; the daemon completes its
    tick and stops the worker. -/
def terminated : List ServerEvent :=
  (startJob oneJob).map .sys ++ .signal :: restOfTick.map .sys ++
    .close :: (daemonSteps 2).map .sys ++ [.finish]

/-- The worker of attempt 1 is there when the daemon has ended. -/
def left (s : Server) : Bool :=
  decide (s.mode = .stopped) && s.sys.shared.workers.any fun w => w.callback.attemptId == 1

theorem shutdown_complete_terminated : ∃ s, Runs Settings.plain (fun _ _ => True)
    (boot default fun _ => none) s ∧ s.mode = .stopped ∧
      (∃ w ∈ s.sys.shared.workers, w.callback.attemptId = 1) ∧
        .stopped 1 ∈ s.sys.shared.journal := by
  have hlist : (runList (step Settings.plain) (fun _ _ => true) (boot default fun _ => none)
      terminated).any left = true := by decide +kernel
  obtain ⟨s, hrun, hs⟩ := Run.exists_of_runList hlist
  have hrun := hrun.mono fun _ _ _ => trivial
  simp only [left, Bool.and_eq_true, decide_eq_true_eq, List.any_eq_true, beq_iff_eq] at hs
  obtain ⟨hmode, w, hw, hid⟩ := hs
  exact ⟨s, hrun, hmode, ⟨w, hw, hid⟩, hid ▸ shutdown_complete hrun hmode w hw⟩

/-! ## The last tick -/

end Server

/-- A new daemon takes the place of this one. -/
def ServerEvent.restarts : ServerEvent → Bool
  | .sys (.restart _) => true
  | _ => false

/-- The order of the phases in a tick. -/
def Phase.rank : Phase → ℕ
  | commands => 0
  | recovery => 1
  | dispatch => 2
  | watchdog => 3
  | supervisor => 4
  | idle => 5

theorem exec_running (o : Op) (i : Inputs) {w : World} (h : w.running = false) :
    (exec o i w).2.running = false := by
  have hif : ∀ (w : World) b e, (w.logIf b e).running = w.running := by
    intro w b e
    unfold World.logIf
    split_ifs <;> rfl
  have hdb : ∀ (w : World) db, (w.setDb db).running = w.running := fun _ _ => rfl
  cases o with
  | popen argv cwd env callback =>
    simp only [exec]
    split <;> exact h
  | tmux cmd => cases cmd <;> exact h
  | _ => first | exact h | rfl | simp only [exec, hif, hdb, h]

theorem returns_phaseProg (cfg : Settings) {p : Phase} (hp : p ≠ .idle) :
    (Daemon.phaseProg cfg p).Returns fun q => p.rank ≤ q.rank := by
  have h : ∀ {α : Type} {q : Phase} (prog : Py α), p.rank ≤ q.rank →
      (prog.bind fun _ => .ret q).Returns fun q => p.rank ≤ q.rank := fun prog hq =>
    Prog.returns_bind prog fun _ => hq
  cases p with
  | idle => exact absurd rfl hp
  | dispatch =>
    refine Prog.returns_bind _ fun more => ?_
    cases more <;> simp [Prog.Returns, Phase.rank]
  | _ => exact h _ (by decide)

namespace Server

variable {cfg : Settings} {s s' s₀ : Server} {e : ServerEvent}

/-- What the daemon does in its phases and in `stop_all`, as far as starting workers and the
    order of the phases go. -/
structure Ticks (s : Server) : Prop where
  others : ∀ t, t ≠ .daemon → (s.sys.prog t).Emits fun o => o.home ≠ some .dispatch
  serving : s.mode = .serving → (s.sys.prog .daemon).Emits s.sys.shared.phase.performs ∧
    (s.sys.shared.phase ≠ .idle →
      (s.sys.prog .daemon).Returns fun q => s.sys.shared.phase.rank ≤ q.rank)
  closing : s.mode ≠ .serving → (s.sys.prog .daemon).Emits fun o => o.home ≠ some .dispatch

/-- An operation of any thread. -/
theorem Ticks.operation {c : Sys} {t : Tid} {i : Inputs} (h : s.Ticks)
    (hs : Pool.step exec s.sys t i = some c) : Ticks ⟨c, s.mode⟩ := by
  obtain ⟨o, -, -, -, hshared, -, -⟩ := Pool.step_cases hs
  have hphase : c.shared.phase = s.sys.shared.phase := by rw [hshared, exec_phase]
  refine ⟨fun u hu => Pool.emits_step hs (h.others u hu), fun hm => ?_,
    fun hm => Pool.emits_step hs (h.closing hm)⟩
  obtain ⟨hemits, hreturns⟩ := h.serving hm
  simp only [hphase]
  exact ⟨Pool.emits_step hs hemits, fun hp => Pool.returns_step hs (hreturns hp)⟩

/-- A program is loaded into another thread than the daemon. -/
theorem Ticks.load {t : Tid} (h : s.Ticks) {c : Sys} (hc : c.prog = s.sys.prog)
    (hphase : c.shared.phase = s.sys.shared.phase) (ht : t ≠ .daemon) {p : Py t.Result}
    (hp : p.Emits fun o => o.home ≠ some .dispatch) : Ticks ⟨Pool.load c t p, s.mode⟩ := by
  have hdaemon : (Pool.load c t p).prog .daemon = s.sys.prog .daemon := by
    rw [Pool.load_prog_of_ne _ _ (Ne.symm ht), hc]
  refine ⟨fun u hu => ?_, fun hm => ?_, fun hm => ?_⟩
  · by_cases hut : u = t
    · subst hut
      rw [Pool.load_prog_self]
      exact hp
    · rw [Pool.load_prog_of_ne _ _ hut, hc]
      exact h.others u hu
  · simp only [hdaemon, Pool.load_shared, hphase]
    exact h.serving hm
  · simp only [hdaemon]
    exact h.closing hm

theorem Ticks.step (h : s.Ticks) (hs : Server.step cfg s e = some s') : s'.Ticks := by
  cases move_of_step hs with
  | @sys e c hallows hsys =>
    cases e with
    | run t i => exact h.operation hsys
    | next =>
      obtain ⟨p, -, -, rfl⟩ := step_next hsys
      have hmode : s.mode = .serving := by
        cases hm : s.mode with
        | serving => rfl
        | _ =>
          rw [hm] at hallows
          cases hallows
      refine ⟨fun t ht => ?_, fun _ => ?_, fun hm => absurd hmode hm⟩
      · rw [Pool.load_prog_of_ne _ _ ht]
        exact h.others t ht
      · simp only [Pool.load_prog_self, Pool.load_shared, World.enter_phase]
        exact ⟨emits_phaseProg cfg p, returns_phaseProg cfg⟩
    | exit a code result rl =>
      obtain ⟨w, -, -, rfl⟩ := step_exit hsys
      exact h.load (c := { s.sys with shared := s.sys.shared.reap a }) (t := .reader a) rfl rfl
        (by simp)
        ((emits_onComplete_table cfg w.callback code result rl).mono fun _ ho => ho.1)
    | invoke n cmd =>
      cases hsys
      refine h.load (t := .cli n) rfl rfl (by simp) ((emits_cliProg cmd).mono fun _ ho => ?_)
      rw [ho.not_home]
      simp
    | restart environ =>
      cases hsys
      refine ⟨fun t ht => ?_, fun _ => ⟨trivial, fun hp => absurd rfl hp⟩, fun hm => absurd rfl hm⟩
      cases t with
      | daemon => exact absurd rfl ht
      | reader a => trivial
      | cli n => exact h.others (.cli n) ht
  | signal => exact ⟨h.others, h.serving, h.closing⟩
  | close hmode hl =>
    refine ⟨fun t ht => ?_, fun hm => Mode.noConfusion hm, fun _ => ?_⟩
    · rw [Sys.close, Pool.load_prog_of_ne _ _ ht]
      exact h.others t ht
    · rw [Sys.close, Pool.load_prog_self]
      exact (emits_stopEach _ 0).bind fun _ => trivial
  | finish hmode hp =>
    exact ⟨h.others, fun hm => Mode.noConfusion hm, fun _ => h.closing (by simp [hmode])⟩

/-- The operation that starts a worker is one of the dispatch phase. -/
theorem Ticks.dispatching {t : Tid} {o : Op} (h : s.Ticks) (hn : s.sys.next? t = some o)
    (ho : o.home = some .dispatch) : s.mode = .serving ∧ s.sys.shared.phase = .dispatch := by
  by_cases ht : t = .daemon
  · subst ht
    by_cases hm : s.mode = .serving
    · exact ⟨hm, Phase.performs.home (Pool.of_next? (h.serving hm).1 hn) ho⟩
    · exact absurd ho (Pool.of_next? (P := fun o => o.home ≠ some .dispatch) (h.closing hm) hn)
  · exact absurd ho (Pool.of_next? (P := fun o => o.home ≠ some .dispatch) (h.others t ht) hn)

/-- What has happened since the state `s₀`, in which `_running` was false. -/
structure Since (s₀ s : Server) : Prop where
  running : s.sys.shared.running = false
  phase : s₀.sys.shared.phase.rank ≤ s.sys.shared.phase.rank
  serving : s.mode = .serving → s₀.mode = .serving
  workers : ∀ w ∈ s.sys.shared.workers, w ∈ s₀.sys.shared.workers ∨
    (s₀.mode = .serving ∧ s₀.sys.shared.phase.rank ≤ Phase.dispatch.rank)

theorem Since.operation {c : Sys} {t : Tid} {i : Inputs} (h : Since s₀ s) (ht : s.Ticks)
    (hs : Pool.step exec s.sys t i = some c) : Since s₀ ⟨c, s.mode⟩ := by
  obtain ⟨o, -, -, hn, hshared, -, -⟩ := Pool.step_cases hs
  refine ⟨?_, ?_, h.serving, fun w hw => ?_⟩
  · simp only [hshared]
    exact exec_running o i h.running
  · simp only [hshared, exec_phase]
    exact h.phase
  · simp only [hshared] at hw
    rcases mem_workers_exec hw with hw | ⟨argv, cwd, env, rfl⟩
    · exact h.workers w hw
    · obtain ⟨hmode, hphase⟩ := ht.dispatching hn rfl
      exact .inr ⟨h.serving hmode, hphase ▸ h.phase⟩

theorem Since.step (h : Since s₀ s) (ht : s.Ticks) (hs : Server.step cfg s e = some s')
    (hr : e.restarts = false) : Since s₀ s' := by
  cases move_of_step hs with
  | @sys e c hallows hsys =>
    cases e with
    | run t i => exact h.operation ht hsys
    | next =>
      obtain ⟨p, hp, hidle, rfl⟩ := step_next hsys
      have hmode : s.mode = .serving := by
        cases hm : s.mode with
        | serving => rfl
        | _ =>
          rw [hm] at hallows
          cases hallows
      -- the next tick does not begin
      have hne : s.sys.shared.phase ≠ .idle := fun hphase => hidle ⟨hphase, h.running⟩
      have hle := (ht.serving hmode).2 hne
      rw [hp] at hle
      exact ⟨h.running, h.phase.trans hle, h.serving, h.workers⟩
    | exit a code result rl =>
      obtain ⟨w, -, -, rfl⟩ := step_exit hsys
      exact ⟨h.running, h.phase, h.serving, fun v hv => h.workers v (List.mem_filter.mp hv).1⟩
    | invoke n cmd =>
      cases hsys
      exact ⟨h.running, h.phase, h.serving, h.workers⟩
    | restart environ => cases hr
  | signal => exact ⟨rfl, h.phase, h.serving, h.workers⟩
  | close hmode hl => exact ⟨h.running, h.phase, fun hm => Mode.noConfusion hm, h.workers⟩
  | finish hmode hp => exact ⟨h.running, h.phase, fun hm => Mode.noConfusion hm, h.workers⟩

/-- `SIGTERM` arrives when the tick that will start attempt 1 is in its recovery phase. -/
def signalled : List ServerEvent := ((startJob oneJob).take 7).map .sys ++ [.signal]

end Server

end DiscordAgent
