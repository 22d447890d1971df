import DiscordAgent.Launch.Start

/-!
# What a worker gets to know of the Discord token

The daemon reads the token from `DISCORD_BOT_TOKEN`, and `ClaudeProcess.start`
calls `subprocess.Popen` without `env=`, so the worker inherits the variable.

Main results:

* `World.Alike`: two worlds that differ in the value of the variable only, and
  `exec_alike`: no operation but `_load_token` tells them apart.
* `worker_inherits_iff`: `run_job` in two such worlds returns the same, writes
  the same database and starts the worker with the same command line in the
  same directory; the workers are the same exactly if none is started or the
  values are equal.
* `worker_inherits_token`: a job whose worker gets another environment.
-/

namespace DiscordAgent

open Interleave

/-- The environment without the token. -/
def Environ.hide (e : Environ) : Environ := Function.update e tokenVar none

/-- The worker without the token in its environment. -/
def Worker.hide (k : Worker) : Worker := { k with launch.env := k.launch.env.hide }

namespace World

/-- The world of a daemon with this value of `DISCORD_BOT_TOKEN`. -/
def withToken (w : World) (tok : Option String) : World :=
  { w with environ := Function.update w.environ tokenVar tok }

/-- The worlds differ in the value of the variable only, in the environment of
    the daemon and of its workers. -/
structure Alike (s t : World) : Prop where
  db : t.db = s.db
  processes : t.processes = s.processes
  workers : t.workers.map Worker.hide = s.workers.map Worker.hide
  phase : t.phase = s.phase
  lastWatchdogCheck : t.lastWatchdogCheck = s.lastWatchdogCheck
  running : t.running = s.running
  environ : t.environ.hide = s.environ.hide
  journal : t.journal = s.journal

theorem alike_withToken (w : World) (tok₁ tok₂ : Option String) :
    (w.withToken tok₁).Alike (w.withToken tok₂) :=
  ⟨rfl, rfl, rfl, rfl, rfl, rfl, by simp [withToken, Environ.hide], rfl⟩

end World

/-! ## No operation but `_load_token` depends on the token -/

theorem exec_alike (o : Op) (i : Inputs) (s t : World) (ho : o ≠ .loadToken) (h : s.Alike t) :
    (exec o i s).1 = (exec o i t).1 ∧ (exec o i s).2.Alike (exec o i t).2 := by
  obtain ⟨db, ps, ks, ph, last, run, env, jn⟩ := s
  obtain ⟨db', ps', ks', ph', last', run', env', jn'⟩ := t
  obtain ⟨hdb, hps, hks, hph, hlast, hrun, henv, hjn⟩ := h
  simp only at hdb hps hks hph hlast hrun henv hjn
  subst hdb hps hph hlast hrun hjn
  cases o with
  | loadToken => exact absurd rfl ho
  | popen argv cwd env callback =>
    simp only [exec]
    split
    · refine ⟨rfl, rfl, rfl, ?_, rfl, rfl, rfl, henv, rfl⟩
      cases env <;> simp [Worker.hide, hks, henv]
    · exact ⟨rfl, rfl, rfl, hks, rfl, rfl, rfl, henv, rfl⟩
    · exact ⟨rfl, rfl, rfl, hks, rfl, rfl, rfl, henv, rfl⟩
  | updateJobState | markReported | claimForFallback =>
    simp only [exec, World.logIf]
    split_ifs <;> exact ⟨trivial, rfl, rfl, hks, rfl, rfl, rfl, henv, rfl⟩
  | tmux cmd => cases cmd <;> exact ⟨rfl, rfl, rfl, hks, rfl, rfl, rfl, henv, rfl⟩
  | _ => exact ⟨rfl, rfl, rfl, hks, rfl, rfl, rfl, henv, rfl⟩

/-- `run_job` never looks the token up. -/
theorem emits_runJob_ne (jobId sessionId : ℕ) (model : String) :
    (Runner.runJob jobId sessionId model).Emits (· ≠ .loadToken) := by
  apply (emits_runJob jobId sessionId model).mono
  rintro o ho rfl
  cases Phase.performs.home ho rfl

/-! ## Which runs of `run_job` start a worker -/

/-- `run_job` gets as far as a successful `Popen`, its eleventh operation: the
    job is queued and its repo exists. -/
def Starts (db : Db) (jobId : ℕ) (ω : ℕ → Inputs) : Prop :=
  ∃ job repo pid, db.getJob jobId = some job ∧ job.state = .queued ∧
    db.getRepoById job.repoId = some repo ∧ (ω 10).popen = .started pid

variable {w : World} {ω : ℕ → Inputs} {jobId sessionId : ℕ} {model : String}

/-- A program without `Popen` starts no worker. -/
theorem workers_eval {α : Type} {p : Py α} (hp : p.Emits fun o => ∀ a c e k, o ≠ .popen a c e k)
    (ω : ℕ → Inputs) (w : World) : (p.eval exec ω w).2.workers = w.workers :=
  Prog.eval_frame exec World.workers exec_workers hp ω w

/-- The `try` block starts the worker if `Popen` does. -/
theorem workers_tryStart (job : Job) (repo : Repo) (attemptId : ℕ) (prompt : Option String) :
    ((Runner.tryStart jobId job repo sessionId model attemptId prompt).eval exec ω w).2.workers =
      match (ω 0).popen with
      | .started _ => ⟨⟨attemptId, jobId, sessionId, job.repoId⟩,
          Runner.claudeCmd job.task model prompt, repo.path, w.environ⟩ :: w.workers
      | _ => w.workers := by
  simp only [Runner.tryStart, Runner.startProcess, Prog.bind_eq, Prog.perform_bind, Prog.call_bind,
    Prog.tryCatch, Prog.eval, exec]
  cases (ω 0).popen with
  | started pid => simp [ofExcept, Prog.tryCatch, Prog.eval, exec, World.setDb]
  | fileNotFound =>
    refine workers_eval ?_ _ w
    exact (emits_op (by simp)).bind fun _ => (emits_op (by simp)).bind fun _ =>
      (emits_transitionJob (fun o h a c e k ho => by simp [ho, Op.isRead] at h)
        fun _ _ => by simp).bind fun _ => trivial
  | osError => simp [ofExcept, Prog.tryCatch, Prog.eval, PyErr.isRunnerError]

/-- `transition_job` alone, where the edge does not exist. -/
theorem workers_transitionJob_invalid {α : Type} {new : JobState} {job : Job}
    {result : Option String} {f : Unit → Py α} (hj : w.db.getJob jobId = some job)
    (hv : new ∉ job.state.validTransitions) :
    (((transitionJob jobId new result).bind f).eval exec ω w).2.workers = w.workers := by
  simp only [transitionJob, Prog.bind_eq, Prog.perform_bind, Prog.call_bind, Prog.eval, exec, hj,
    if_neg hv, Prog.raise_bind]

/-- `run_job` alone, on a job that it moves to `starting`. -/
theorem workers_runJob {job : Job} {repo : Repo} (hj : w.db.getJob jobId = some job)
    (hst : job.state = .queued) (hrepo : w.db.getRepoById job.repoId = some repo) :
    ((Runner.runJob jobId sessionId model).eval exec ω w).2.workers =
      match (ω 10).popen with
      | .started _ => ⟨⟨w.db.attempts.seq + 1, jobId, sessionId, job.repoId⟩,
          Runner.claudeCmd job.task model (ω 6).systemPrompt, repo.path, w.environ⟩ :: w.workers
      | _ => w.workers := by
  rw [Runner.eval_runJob hj hst hrepo, workers_tryStart]
  rfl

/-- `run_job` starts no worker in the other cases. -/
theorem workers_of_not_starts (h : ¬ Starts w.db jobId ω) :
    ((Runner.runJob jobId sessionId model).eval exec ω w).2.workers = w.workers := by
  cases hj : w.db.getJob jobId with
  | none => simp only [Runner.runJob, Prog.bind_eq, Prog.perform_bind, Prog.eval, exec, hj]
  | some job =>
    cases hrepo : w.db.getRepoById job.repoId with
    | none => simp only [Runner.runJob, Prog.bind_eq, Prog.perform_bind, Prog.eval, exec, hj, hrepo]
    | some repo =>
      by_cases hst : job.state = .queued
      · rw [workers_runJob hj hst hrepo]
        cases hp : (ω 10).popen with
        | started pid => exact absurd ⟨job, repo, pid, hj, hst, hrepo, hp⟩ h
        | _ => rfl
      · have hv : .starting ∉ job.state.validTransitions := mt starting_mem_iff.mp hst
        simp only [Runner.runJob, createAttempt, Prog.bind_eq, Prog.perform_bind, Prog.call_bind,
          Prog.eval, exec, hj, hrepo]
        exact workers_transitionJob_invalid hj hv

/-- Two daemons whose environments differ in the token only run the same
    `run_job`. -/
theorem worker_inherits_iff (jobId sessionId : ℕ) (model : String) (ω : ℕ → Inputs) (w : World)
    (tok₁ tok₂ : Option String) :
    let run tok := (Runner.runJob jobId sessionId model).eval exec ω (w.withToken tok)
    ((run tok₁).1 = (run tok₂).1 ∧ (run tok₁).2.Alike (run tok₂).2) ∧
      ((run tok₁).2.workers = (run tok₂).2.workers ↔ (Starts w.db jobId ω → tok₁ = tok₂)) := by
  intro run
  refine ⟨Prog.eval_related exec World.Alike exec_alike (emits_runJob_ne _ _ _) ω
    (w.alike_withToken tok₁ tok₂), ?_, ?_⟩
  · intro heq hs
    obtain ⟨job, repo, pid, hj, hst, hrepo, hp⟩ := hs
    have hworkers : ∀ tok, (run tok).2.workers = _ := fun tok =>
      workers_runJob (w := w.withToken tok) hj hst hrepo
    rw [hworkers, hworkers] at heq
    simp only [hp, World.withToken, List.cons.injEq, Worker.mk.injEq, Launch.mk.injEq, true_and,
      and_true] at heq
    simpa using congrFun heq tokenVar
  · intro h
    by_cases hs : Starts w.db jobId ω
    · rw [h hs]
    · have hworkers : ∀ tok, (run tok).2.workers = w.workers := by
        intro tok
        exact workers_of_not_starts (w := w.withToken tok) hs
      rw [hworkers, hworkers]

theorem worker_inherits_token : ¬ ∀ (jobId sessionId : ℕ) (model : String) (ω : ℕ → Inputs)
    (w : World) (tok₁ tok₂ : Option String),
    ((Runner.runJob jobId sessionId model).eval exec ω (w.withToken tok₁)).2.workers =
      ((Runner.runJob jobId sessionId model).eval exec ω (w.withToken tok₂)).2.workers := by
  intro h
  have heq := congrArg (fun ks => ks.map fun k => k.launch.env tokenVar)
    (h 1 1 "sonnet" (fun _ => {}) (Sys.boot oneQueued fun _ => none).shared (some "secret") none)
  revert heq
  decide +kernel

end DiscordAgent
