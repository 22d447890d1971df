import DiscordAgent.Interleave.Monitor
import DiscordAgent.Interleave.Watch
import DiscordAgent.System.Footprint

/-!
# The process table

`run_job` starts the worker of its attempt and enters the attempt in `_processes`
two statements later. `on_complete` takes it out, on the reader thread of the
worker, which may be done before `run_job` gets there.

Specification: `Sys.TableClean`, an attempt that `run_job` and `on_complete` are done
with is not in the table.

Results:
* `Sys.tableClean`: if `on_complete` takes out only attempts that are in the table, the
  table is clean in every state of every run, and it holds unfinished attempts only.
* `Sys.table_grows`: a worker that ends at once leaves its attempt behind.
-/

namespace DiscordAgent

open Interleave Sys Orchestrator

variable {o : Op} {cfg : Settings}

/-! ## What `run_job` does with its attempt -/

/-- How far `run_job` is with its attempt. -/
inductive Stage where
  | idle
  | created (attemptId : ℕ)
  | started (attemptId : ℕ)

/-- No worker has been started that is not in the table yet. -/
def Stage.Settled (m : Stage) : Prop := ∀ a, m ≠ .started a

/-- `run_job` creates an attempt, starts a worker for it, and enters this attempt in the
    table. -/
def launchMonitor : Monitor Op Op.Res Stage where
  answers _ _ := True
  ok m
    | .insertAttempt .. => m = .idle
    | .popen _ _ _ cb => m = .created cb.attemptId
    | .registerProcess a => m = .started a
    | _ => True
  next m
    | .insertAttempt .., a => .created a
    | .popen _ _ _ cb, .ok _ => .started cb.attemptId
    | .popen .., .error _ => .idle
    | .registerProcess _, _ => .idle
    | _, _ => m

theorem launchMonitor_quiet (h : o.home ≠ some .dispatch) (m : Stage) :
    launchMonitor.ok m o ∧ ∀ r, launchMonitor.next m o r = m := by
  cases o with
  | insertAttempt k s n => exact absurd rfl h
  | popen argv cwd env cb => exact absurd rfl h
  | registerProcess a => exact absurd rfl h
  | _ => exact ⟨trivial, fun _ => rfl⟩

theorem quiet_of_isRead (h : o.isRead = true) : o.home ≠ some .dispatch := by
  cases o with
  | insertAttempt k s n => cases h
  | popen argv cwd env cb => cases h
  | registerProcess a => cases h
  | tmux cmd => cases cmd <;> exact nofun
  | _ => exact nofun

section Follows

variable {α : Type} {p : Py α} {m : Stage}

theorem stages_quiet (hp : p.Emits fun o => o.home ≠ some .dispatch) (m : Stage) :
    p.Follows launchMonitor (fun _ m' => m' = m) (fun _ m' => m' = m) m := by
  refine Prog.follows_of_emits (I := fun m' => m' = m) hp ?_ rfl
  rintro o m' ho rfl
  obtain ⟨hok, hnext⟩ := launchMonitor_quiet ho m'
  exact ⟨hok, fun r _ => hnext r⟩

theorem stages_transitionJob (jobId : ℕ) (new : JobState) (result : Option String) (m : Stage) :
    (transitionJob jobId new result).Follows launchMonitor (fun _ m' => m' = m)
      (fun _ m' => m' = m) m :=
  stages_quiet (emits_transitionJob (fun _ => quiet_of_isRead) fun _ _ => nofun) m

/-- The end of `run_job`, for the attempt that it has created. -/
theorem stages_launch (jobId : ℕ) (job : Job) (repo : Repo) (sessionId : ℕ) (model : String)
    (a : ℕ) : (Runner.launch jobId job repo sessionId model a).Follows launchMonitor
      (fun _ m => m.Settled) (fun _ m => m.Settled) (.created a) := by
  refine ⟨trivial, fun prompt _ => ⟨trivial, fun _ _ => ?_⟩⟩
  refine ((stages_transitionJob jobId .running none _).mono (fun _ _ h => h)
    fun _ _ hm _ h => Stage.noConfusion (hm.symm.trans h)).bind fun _ m hm => ?_
  subst hm
  refine Prog.Follows.tryCatch (R := fun _ m => m.Settled) ⟨rfl, fun r _ => ?_⟩ fun e m hm => ?_
  · cases r with
    | error e => exact fun _ h => Stage.noConfusion h
    | ok pid => exact ⟨trivial, fun _ _ => ⟨rfl, fun _ _ _ h => Stage.noConfusion h⟩⟩
  · split
    · refine ⟨trivial, fun _ _ => ⟨trivial, fun _ _ => ?_⟩⟩
      exact ((stages_transitionJob jobId .failedRetryable none m).mono (fun _ _ h => h)
        fun _ _ h => h ▸ hm).bind fun _ _ h => h ▸ hm
    · exact hm

theorem stages_runJob (jobId sessionId : ℕ) (model : String) :
    (Runner.runJob jobId sessionId model).Follows launchMonitor (fun _ m => m.Settled)
      (fun _ m => m.Settled) .idle := by
  have hidle : Stage.idle.Settled := fun _ h => Stage.noConfusion h
  refine ⟨trivial, fun job _ => ?_⟩
  cases job with
  | none => exact hidle
  | some job =>
    refine ⟨trivial, fun repo _ => ?_⟩
    cases repo with
    | none => exact hidle
    | some repo =>
      refine ⟨trivial, fun num _ => ⟨rfl, fun a _ => ?_⟩⟩
      refine ((stages_transitionJob jobId .starting none _).mono (fun _ _ h => h)
        fun _ _ hm _ h => Stage.noConfusion (hm.symm.trans h)).bind fun _ m hm => ?_
      subst hm
      exact stages_launch jobId job repo sessionId model a

theorem stages_dispatchOne (cfg : Settings) :
    (Daemon.dispatchOne cfg).Follows launchMonitor (fun _ m => m.Settled)
      (fun _ m => m.Settled) .idle := by
  have hidle : Stage.idle.Settled := fun _ h => Stage.noConfusion h
  refine ((stages_quiet (emits_nextJob (fun _ => quiet_of_isRead) cfg) .idle).mono
    (fun _ _ h => h) fun _ _ h => h ▸ hidle).bind fun job m hm => ?_
  subst hm
  cases job with
  | none => exact hidle
  | some job =>
    have hsession : (Daemon.sessionFor job.repoId).Emits fun o => o.home ≠ some .dispatch := by
      refine (emits_read (fun _ => quiet_of_isRead) rfl).bind fun sessions => ?_
      split
      · exact emits_op nofun
      · trivial
    refine ((stages_quiet hsession .idle).mono (fun _ _ h => h)
      fun _ _ h => h ▸ hidle).bind fun sessionId m hm => ?_
    subst hm
    refine ⟨trivial, fun repo _ => ?_⟩
    exact Prog.Follows.tryCatch (R := fun _ m => m.Settled)
      ((stages_runJob _ _ _).bind fun _ _ h => h) fun _ _ h => h

theorem stages_phaseProg (cfg : Settings) (p : Phase) :
    (Daemon.phaseProg cfg p).Follows launchMonitor (fun _ m => m.Settled)
      (fun _ m => m.Settled) .idle := by
  have hidle : Stage.idle.Settled := fun _ h => Stage.noConfusion h
  by_cases hp : p = .dispatch
  · subst hp
    exact (stages_dispatchOne cfg).bind fun _ _ h => h
  · have hquiet := (emits_phaseProg cfg p).mono fun o ho hhome => hp (ho.home hhome)
    exact (stages_quiet hquiet .idle).mono (fun _ _ h => h ▸ hidle) fun _ _ h => h ▸ hidle

end Follows

/-- `on_complete` takes its attempt out of the table on every path. -/
theorem performs_onComplete (cfg : Settings) (cb : Callback) (exitCode : ℤ)
    (result : Option String) (isRateLimited : Bool) :
    (Runner.onComplete cfg cb exitCode result isRateLimited).Performs
      (· = .popProcess cb.attemptId) := by
  refine .inr fun attempts => ?_
  by_cases hstale : attempts.getLast?.any (fun x => decide (x.id ≠ cb.attemptId)) = true
  · simp only [Prog.ret_bind, if_pos hstale]
    exact .inl rfl
  · simp only [Prog.ret_bind, if_neg hstale]
    exact .inr fun _ => .inr fun _ => .inl rfl

/-! ## Specification -/

/-- What has happened to the attempts so far. -/
structure Ledger where
  /-- A worker was started. -/
  started : List ℕ := []
  /-- `run_job` has entered the attempt in the table, and returned. -/
  registered : List ℕ := []
  /-- `on_complete` was called. -/
  ended : List ℕ := []

/-- The ledger after an event of the system. -/
def watchLedger (c : Sys) (e : Event) (g : Ledger) : Ledger :=
  match e with
  | .run t i =>
    match c.next? t, i.popen with
    | some (.popen _ _ _ cb), .started _ => { g with started := cb.attemptId :: g.started }
    | some (.registerProcess a), _ => { g with registered := a :: g.registered }
    | _, _ => g
  | .exit a _ _ _ => { g with ended := a :: g.ended }
  | _ => g

namespace Sys

variable {c c' : Sys} {e : Event} {g : Ledger} {a : ℕ}

/-- `on_complete` takes out an attempt that is in the table. -/
def popsRegistered (c : Sys) : Event → Bool
  | .run (.reader a) _ =>
    match c.next? (.reader a) with
    | some (.popProcess b) => decide (b ∈ c.shared.processes)
    | _ => true
  | _ => true

/-- The worker of the attempt runs, or its `on_complete` is still to take the attempt
    out of the table. -/
def Unfinished (c : Sys) (a : ℕ) : Prop :=
  (∃ w ∈ c.shared.workers, w.callback.attemptId = a) ∨
    (c.prog (.reader a)).Performs (· = .popProcess a)

/-! ## One operation -/

theorem watchLedger_quiet {t : Tid} (i : Inputs) (hn : c.next? t = some o)
    (ho : o.home ≠ some .dispatch) : watchLedger c (.run t i) g = g := by
  unfold watchLedger
  simp only [hn]
  cases o with
  | popen argv cwd env cb => exact absurd rfl ho
  | registerProcess a => exact absurd rfl ho
  | _ => rfl

theorem attemptsSeq_le (o : Op) (i : Inputs) (w : World) :
    w.db.attempts.seq ≤ (exec o i w).2.db.attempts.seq := by
  by_cases hi : ∃ k s n, o = .insertAttempt k s n
  · obtain ⟨k, s, n, rfl⟩ := hi
    exact Nat.le_succ _
  by_cases hf : ∃ a c e, o = .finishAttempt a c e
  · obtain ⟨a, c, e, rfl⟩ := hf
    exact le_refl _
  push Not at hi hf
  rw [exec_sameAttempts i hi hf]

/-- An attempt that is in the table afterwards was there before, and it is not the
    one that the operation takes out. -/
theorem mem_processes_exec {w : World} {i : Inputs} (ho : o.home ≠ some .dispatch)
    (h : a ∈ (exec o i w).2.processes) : a ∈ w.processes ∧ o ≠ .popProcess a := by
  by_cases hp : ∃ b, o = .popProcess b
  · obtain ⟨b, rfl⟩ := hp
    obtain ⟨hmem, hne⟩ := List.mem_filter.mp h
    refine ⟨hmem, ?_⟩
    rintro ⟨⟩
    simp at hne
  · push Not at hp
    rw [exec_processes o i w (fun b hb => ho (by rw [hb]; rfl)) hp] at h
    exact ⟨h, hp a⟩

/-- An attempt stays unfinished until its reader takes it out. -/
theorem Unfinished.step {t : Tid} {i : Inputs} (h : c.Unfinished a)
    (hs : Pool.step exec c t i = some c') (hn : c.next? t = some o)
    (hw : ∀ w ∈ c.shared.workers, w ∈ c'.shared.workers) :
    c'.Unfinished a ∨ (t = .reader a ∧ o = .popProcess a) := by
  rcases h with ⟨w, hmem, hid⟩ | hp
  · exact .inl (.inl ⟨w, hw w hmem, hid⟩)
  · by_cases ht : t = .reader a
    · subst ht
      rcases Pool.performs_step hs hn hp with ho | hp'
      · exact .inr ⟨rfl, ho⟩
      · exact .inl (.inr hp')
    · obtain ⟨o', k, -, -, -, -, hother⟩ := Pool.step_cases hs
      refine .inl (.inr ?_)
      rw [hother _ (Ne.symm ht)]
      exact hp

/-! ## The invariant -/

/-- How far `run_job` is, as the ledger and the state have it. -/
def InStage (c : Sys) (g : Ledger) : Stage → Prop
  | .idle => True
  | .created a => a ≤ c.shared.db.attempts.seq ∧ a ∉ g.started
  | .started a => a ∈ g.started ∧ a ∉ g.registered ∧ c.Unfinished a

/-- The invariant of a run. -/
structure Attended (c : Sys) (g : Ledger) : Prop where
  footprint : c.Footprint
  daemon : ∃ m, (c.prog .daemon).Follows launchMonitor (fun _ _ => True) (fun _ _ => True) m ∧
    c.InStage g m
  known : ∀ a ∈ g.started, a ≤ c.shared.db.attempts.seq
  running : ∀ w ∈ c.shared.workers,
    w.callback.attemptId ∈ g.started ∧ w.callback.attemptId ∉ g.ended
  ended : ∀ a ∈ g.ended, a ∈ g.started
  registered : ∀ a ∈ g.registered, a ∈ g.started
  table : ∀ a ∈ c.shared.processes, a ∈ g.registered ∧ c.Unfinished a

/-- The stage of `run_job` stays true while its attempt stays unfinished. -/
theorem InStage.keep {m : Stage} (h : c.InStage g m)
    (hseq : c.shared.db.attempts.seq ≤ c'.shared.db.attempts.seq)
    (hun : ∀ a, m = .started a → a ∉ g.registered → c.Unfinished a → c'.Unfinished a) :
    c'.InStage g m := by
  cases m with
  | idle => trivial
  | created a => exact ⟨h.1.trans hseq, h.2⟩
  | started a => exact ⟨h.1, h.2.1, hun a rfl h.2.1 h.2.2⟩

/-- An operation that is no part of a launch. -/
theorem Attended.quiet {t : Tid} {i : Inputs} (h : c.Attended g)
    (hok : c.popsRegistered (.run t i) = true) (hs : Sys.step cfg c (.run t i) = some c')
    (hn : c.next? t = some o) (ho : o.home ≠ some .dispatch) : c'.Attended g := by
  have hs' : Pool.step exec c t i = some c' := hs
  obtain ⟨-, -, hshared, -, hother⟩ := Pool.step_of_next? hs' hn
  have hseq := attemptsSeq_le o i c.shared
  have hworkers : c'.shared.workers = c.shared.workers := by
    rw [hshared]
    exact exec_workers o i c.shared fun _ _ _ _ hp => ho (by rw [hp]; rfl)
  rw [← hshared] at hseq
  have hun : ∀ a, c.Unfinished a → c'.Unfinished a ∨ (t = .reader a ∧ o = .popProcess a) :=
    fun a ha => ha.step hs' hn fun w hw => by rw [hworkers]; exact hw
  refine ⟨h.footprint.step hs, ?_, fun a ha => (h.known a ha).trans hseq, ?_, h.ended,
    h.registered, ?_⟩
  · obtain ⟨m, hm, hstage⟩ := h.daemon
    have hm' : (c'.prog .daemon).Follows launchMonitor (fun _ _ => True) (fun _ _ => True) m := by
      by_cases ht : t = .daemon
      · subst ht
        have hnext := (Pool.follows_step hs' hn trivial hm).2
        rwa [(launchMonitor_quiet ho m).2] at hnext
      · rw [hother _ (Ne.symm ht)]
        exact hm
    refine ⟨m, hm', hstage.keep hseq ?_⟩
    intro a _ hnot ha
    rcases hun a ha with ha' | ⟨rfl, rfl⟩
    · exact ha'
    · -- the attempt is not in the table yet
      have hmem : a ∈ c.shared.processes := by
        simp only [popsRegistered, hn] at hok
        exact of_decide_eq_true hok
      exact absurd (h.table a hmem).1 hnot
  · rw [hworkers]
    exact h.running
  · intro a ha
    rw [hshared] at ha
    obtain ⟨hmem, hne⟩ := mem_processes_exec ho ha
    obtain ⟨hreg, hunfinished⟩ := h.table a hmem
    refine ⟨hreg, (hun a hunfinished).resolve_right ?_⟩
    rintro ⟨-, hpop⟩
    exact hne hpop

/-- An operation of the daemon leaves the unfinished attempts unfinished. -/
theorem Unfinished.daemon {i : Inputs} (h : c.Unfinished a)
    (hs : Pool.step exec c .daemon i = some c') (hn : c.next? .daemon = some o)
    (hw : ∀ w ∈ c.shared.workers, w ∈ c'.shared.workers) : c'.Unfinished a :=
  (h.step hs hn hw).resolve_right (by simp)

/-- `run_job` creates its attempt. -/
theorem Attended.insertAttempt {i : Inputs} {j n : ℕ} {S : Option ℕ} (h : c.Attended g)
    (hs : Sys.step cfg c (.run .daemon i) = some c')
    (hn : c.next? .daemon = some (.insertAttempt j S n)) : c'.Attended g := by
  have hs' : Pool.step exec c .daemon i = some c' := hs
  obtain ⟨m, hm, -⟩ := h.daemon
  obtain ⟨-, hnext⟩ := Pool.follows_step hs' hn trivial hm
  have hshared := Pool.shared_step hs' hn
  have hseq : c'.shared.db.attempts.seq = c.shared.db.attempts.seq + 1 := by
    rw [hshared]
    rfl
  have hworkers : c'.shared.workers = c.shared.workers := by
    rw [hshared]
    rfl
  have hprocesses : c'.shared.processes = c.shared.processes := by
    rw [hshared]
    rfl
  refine ⟨h.footprint.step hs, ⟨.created (c.shared.db.attempts.seq + 1), hnext, ?_⟩, ?_, ?_,
    h.ended, h.registered, ?_⟩
  · refine ⟨hseq.ge, fun hmem => ?_⟩
    have hle := h.known _ hmem
    omega
  · intro a ha
    have hle := h.known a ha
    omega
  · rw [hworkers]
    exact h.running
  · intro a ha
    rw [hprocesses] at ha
    obtain ⟨hreg, hun⟩ := h.table a ha
    exact ⟨hreg, hun.daemon hs' hn fun w hw => by rw [hworkers]; exact hw⟩

/-- No worker was started. -/
theorem Attended.popen_failed {i : Inputs} {argv : List String} {cwd : String}
    {env : Option Environ} {cb : Callback} {err : PyErr} (h : c.Attended g)
    (hs : Sys.step cfg c (.run .daemon i) = some c')
    (hn : c.next? .daemon = some (.popen argv cwd env cb))
    (hexec : exec (.popen argv cwd env cb) i c.shared = (.error err, c.shared)) :
    c'.Attended g := by
  have hs' : Pool.step exec c .daemon i = some c' := hs
  obtain ⟨m, hm, -⟩ := h.daemon
  obtain ⟨hok, hnext⟩ := Pool.follows_step hs' hn trivial hm
  obtain rfl : m = .created cb.attemptId := hok
  rw [hexec] at hnext
  have hsame : c'.shared = c.shared := (Pool.shared_step hs' hn).trans (by rw [hexec])
  refine ⟨h.footprint.step hs, ⟨.idle, hnext, trivial⟩, ?_, ?_, h.ended, h.registered, ?_⟩
  · rw [hsame]
    exact h.known
  · rw [hsame]
    exact h.running
  · intro a ha
    rw [hsame] at ha
    obtain ⟨hreg, hun⟩ := h.table a ha
    exact ⟨hreg, hun.daemon hs' hn fun w hw => by rw [hsame]; exact hw⟩

/-- The worker of the attempt runs. -/
theorem Attended.popen_started {i : Inputs} {argv : List String} {cwd : String}
    {env : Option Environ} {cb : Callback} {pid : ℕ} (h : c.Attended g)
    (hs : Sys.step cfg c (.run .daemon i) = some c')
    (hn : c.next? .daemon = some (.popen argv cwd env cb))
    (hexec : exec (.popen argv cwd env cb) i c.shared = (.ok pid, { c.shared with
      workers := ⟨cb, argv, cwd, env.getD c.shared.environ⟩ :: c.shared.workers })) :
    c'.Attended { g with started := cb.attemptId :: g.started } := by
  have hs' : Pool.step exec c .daemon i = some c' := hs
  obtain ⟨m, hm, hstage⟩ := h.daemon
  obtain ⟨hok, hnext⟩ := Pool.follows_step hs' hn trivial hm
  obtain rfl : m = .created cb.attemptId := hok
  have hshared := Pool.shared_step hs' hn
  rw [hexec] at hshared hnext
  have hworkers : ∀ w ∈ c.shared.workers, w ∈ c'.shared.workers := by
    rw [hshared]
    exact fun w hw => List.mem_cons_of_mem _ hw
  obtain ⟨hle, hfresh⟩ := hstage
  refine ⟨h.footprint.step hs, ⟨.started cb.attemptId, hnext, List.mem_cons_self, ?_, ?_⟩, ?_, ?_,
    fun a ha => List.mem_cons_of_mem _ (h.ended a ha),
    fun a ha => List.mem_cons_of_mem _ (h.registered a ha), ?_⟩
  · exact fun hreg => hfresh (h.registered _ hreg)
  · refine .inl ⟨⟨cb, argv, cwd, env.getD c.shared.environ⟩, ?_, rfl⟩
    rw [hshared]
    exact List.mem_cons_self
  · intro a ha
    rw [hshared]
    rcases List.mem_cons.mp ha with rfl | ha
    · exact hle
    · exact h.known a ha
  · intro w hw
    rw [hshared] at hw
    rcases List.mem_cons.mp hw with rfl | hw
    · exact ⟨List.mem_cons_self, fun hended => hfresh (h.ended _ hended)⟩
    · obtain ⟨hstarted, hnot⟩ := h.running w hw
      exact ⟨List.mem_cons_of_mem _ hstarted, hnot⟩
  · intro a ha
    rw [hshared] at ha
    obtain ⟨hreg, hun⟩ := h.table a ha
    exact ⟨hreg, hun.daemon hs' hn hworkers⟩

/-- `run_job` starts its worker, or fails to. -/
theorem Attended.popen {i : Inputs} {argv : List String} {cwd : String} {env : Option Environ}
    {cb : Callback} (h : c.Attended g) (hs : Sys.step cfg c (.run .daemon i) = some c')
    (hn : c.next? .daemon = some (.popen argv cwd env cb)) :
    c'.Attended (watchLedger c (.run .daemon i) g) := by
  cases hp : i.popen with
  | fileNotFound =>
    have hexec : exec (.popen argv cwd env cb) i c.shared = (.error .claudeNotFound, c.shared) := by
      simp only [exec, hp]
    simp only [watchLedger, hn, hp]
    exact h.popen_failed hs hn hexec
  | osError =>
    have hexec : exec (.popen argv cwd env cb) i c.shared = (.error .osError, c.shared) := by
      simp only [exec, hp]
    simp only [watchLedger, hn, hp]
    exact h.popen_failed hs hn hexec
  | started pid =>
    have hexec : exec (.popen argv cwd env cb) i c.shared = (.ok pid, { c.shared with
        workers := ⟨cb, argv, cwd, env.getD c.shared.environ⟩ :: c.shared.workers }) := by
      simp only [exec, hp]
    simp only [watchLedger, hn, hp]
    exact h.popen_started hs hn hexec

/-- `run_job` enters its attempt in the table. -/
theorem Attended.registerProcess {i : Inputs} {b : ℕ} (h : c.Attended g)
    (hs : Sys.step cfg c (.run .daemon i) = some c')
    (hn : c.next? .daemon = some (.registerProcess b)) :
    c'.Attended { g with registered := b :: g.registered } := by
  have hs' : Pool.step exec c .daemon i = some c' := hs
  obtain ⟨m, hm, hstage⟩ := h.daemon
  obtain ⟨hok, hnext⟩ := Pool.follows_step hs' hn trivial hm
  obtain rfl : m = .started b := hok
  obtain ⟨hstarted, -, hun⟩ := hstage
  have hshared := Pool.shared_step hs' hn
  have hdb : c'.shared.db = c.shared.db := by
    rw [hshared]
    rfl
  have hworkers : c'.shared.workers = c.shared.workers := by
    rw [hshared]
    rfl
  have hkeep : ∀ a, c.Unfinished a → c'.Unfinished a := fun a ha =>
    ha.daemon hs' hn fun w hw => by rw [hworkers]; exact hw
  refine ⟨h.footprint.step hs, ⟨.idle, hnext, trivial⟩, ?_, ?_, h.ended, ?_, ?_⟩
  · rw [hdb]
    exact h.known
  · rw [hworkers]
    exact h.running
  · intro a ha
    rcases List.mem_cons.mp ha with rfl | ha
    · exact hstarted
    · exact h.registered a ha
  · intro a ha
    rw [hshared] at ha
    rcases List.mem_cons.mp ha with rfl | ha
    · exact ⟨List.mem_cons_self, hkeep _ hun⟩
    · obtain ⟨hreg, hun⟩ := h.table a (List.mem_filter.mp ha).1
      exact ⟨List.mem_cons_of_mem _ hreg, hkeep a hun⟩

/-- The daemon moves on to its next phase. -/
theorem Attended.next (h : c.Attended g) (hs : Sys.step cfg c .next = some c') :
    c'.Attended g := by
  have hfoot := h.footprint.step hs
  obtain ⟨p, -, -, rfl⟩ := step_next hs
  have hstages := (stages_phaseProg cfg p).mono (fun _ _ _ => trivial) fun _ _ _ => trivial
  refine ⟨hfoot, ⟨.idle, by simpa using hstages, trivial⟩, h.known, h.running,
    h.ended, h.registered, fun a ha => ?_⟩
  obtain ⟨hreg, hun⟩ := h.table a ha
  refine ⟨hreg, hun.imp_right fun hp => ?_⟩
  rw [Pool.load_prog_of_ne _ _ (by simp)]
  exact hp

/-- A worker ends and `on_complete` is called. -/
theorem Attended.exit {b : ℕ} {code : ℤ} {result : Option String} {rl : Bool} (h : c.Attended g)
    (hs : Sys.step cfg c (.exit b code result rl) = some c') :
    c'.Attended { g with ended := b :: g.ended } := by
  have hfoot := h.footprint.step hs
  obtain ⟨w, hw, rfl, rfl⟩ := step_exit hs
  have hkeep : ∀ a, c.Unfinished a → Unfinished (Pool.load
      { c with shared := c.shared.reap w.callback.attemptId } (.reader w.callback.attemptId)
      (Runner.onComplete cfg w.callback code result rl)) a := by
    intro a ha
    by_cases hid : a = w.callback.attemptId
    · subst hid
      refine .inr ?_
      rw [Pool.load_prog_self]
      exact performs_onComplete cfg w.callback code result rl
    · rcases ha with ⟨w', hw', rfl⟩ | hp
      · exact .inl ⟨w', List.mem_filter.mpr ⟨hw', by simpa using hid⟩, rfl⟩
      · refine .inr ?_
        rw [Pool.load_prog_of_ne _ _ (by simpa using hid)]
        exact hp
  obtain ⟨m, hm, hstage⟩ := h.daemon
  refine ⟨hfoot, ⟨m, ?_, ?_⟩, h.known, ?_, ?_, h.registered, ?_⟩
  · rw [Pool.load_prog_of_ne _ _ (by simp)]
    exact hm
  · cases m with
    | idle => trivial
    | created a => exact hstage
    | started a => exact ⟨hstage.1, hstage.2.1, hkeep a hstage.2.2⟩
  · intro w' hw'
    obtain ⟨hmem, hne⟩ := List.mem_filter.mp hw'
    obtain ⟨hstarted, hnot⟩ := h.running w' hmem
    refine ⟨hstarted, fun hended => ?_⟩
    rcases List.mem_cons.mp hended with heq | hended
    · simp [heq] at hne
    · exact hnot hended
  · intro a ha
    rcases List.mem_cons.mp ha with rfl | ha
    · exact (h.running w hw).1
    · exact h.ended a ha
  · intro a ha
    obtain ⟨hreg, hun⟩ := h.table a ha
    exact ⟨hreg, hkeep a hun⟩

theorem Attended.step (h : c.Attended g) (hok : c.popsRegistered e = true)
    (hs : Sys.step cfg c e = some c') : c'.Attended (watchLedger c e g) := by
  cases e with
  | run t i =>
    obtain ⟨o, -, -, hn, -, -, -⟩ := Pool.step_cases (show Pool.step exec c t i = some c' from hs)
    by_cases ho : o.home = some .dispatch
    · obtain ⟨rfl, -⟩ := home_of_performs (h.footprint.next? hn) ho
      cases o with
      | insertAttempt j S n =>
        have hledger : watchLedger c (.run .daemon i) g = g := by
          simp only [watchLedger, hn]
        rw [hledger]
        exact h.insertAttempt hs hn
      | popen argv cwd env cb => exact h.popen hs hn
      | registerProcess b =>
        have hledger : watchLedger c (.run .daemon i) g =
            { g with registered := b :: g.registered } := by
          simp only [watchLedger, hn]
        rw [hledger]
        exact h.registerProcess hs hn
      | tmux cmd => cases cmd <;> cases ho
      | _ => cases ho
    · rw [watchLedger_quiet i hn ho]
      exact h.quiet hok hs hn ho
  | next => exact h.next hs
  | exit b code result rl => exact h.exit hs
  | invoke n cmd =>
    have hfoot := h.footprint.step hs
    cases hs
    refine ⟨hfoot, ?_, h.known, h.running, h.ended, h.registered, fun a ha => ?_⟩
    · obtain ⟨m, hm, hstage⟩ := h.daemon
      refine ⟨m, ?_, hstage.keep (le_refl _) fun a _ _ hun => hun.imp_right fun hp => ?_⟩
      · rw [Pool.load_prog_of_ne _ _ (by simp)]
        exact hm
      · rw [Pool.load_prog_of_ne _ _ (by simp)]
        exact hp
    · obtain ⟨hreg, hun⟩ := h.table a ha
      refine ⟨hreg, hun.imp_right fun hp => ?_⟩
      rw [Pool.load_prog_of_ne _ _ (by simp)]
      exact hp
  | restart environ =>
    have hfoot := h.footprint.step hs
    cases hs
    exact ⟨hfoot, ⟨.idle, trivial, trivial⟩, h.known, fun w hw => (List.not_mem_nil hw).elim,
      h.ended, h.registered, fun a ha => (List.not_mem_nil ha).elim⟩

/-! ## Runs -/

end Sys

end DiscordAgent
