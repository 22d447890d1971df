import DiscordAgent.Interleave.Budget
import DiscordAgent.Interleave.Monitor
import DiscordAgent.System.Basic

/-!
# One round of the dispatch loop

A round of `_dispatch_queued_jobs` asks `next_job` for a job and starts it. What
`next_job` returns was listed before, and `run_job` takes this job and no other out of
the queue.

Results:
* `rounds_dispatchOne`: a round that found a job has taken it out of the queue, or found
  it elsewhere, and no exception leaves the round.
* `within_phaseProg`: a round has at most 272 operations.
-/

namespace DiscordAgent

open Interleave Orchestrator

/-! ## One round -/

/-- How far a round of the loop is: the rows that `list_jobs` has returned with the
    repos seen since, then the job that is started. -/
inductive Round where
  | idle
  | listed (jobs : List Job) (repos : List ℕ)
  | chosen (jobId repoId : ℕ)
  | taken (jobId : ℕ)
  | starting (jobId : ℕ)
  | launched (jobId : ℕ)
  /-- A row that was there is gone. -/
  | lost

/-- The round starts a job that was listed and whose repo exists. It takes this job and
    no other out of the queue. -/
def roundMonitor : Monitor Op Op.Res Round where
  answers _ _ := True
  ok
    | .idle, .listJobs _ s _ _ => s = some .queued
    | .listed jobs repos, .getJob j => ∃ r ∈ jobs, r.id = j ∧ r.repoId ∈ repos
    | .chosen _ R, .getRepoById R' => R' = R
    | .taken j, .getJob k => k = j
    | m, .updateJobState j _ new _ => (m = .taken j ∧ new = .starting) ∨
        (m = .starting j ∧ new = .running) ∨ (m = .launched j ∧ new = .failedRetryable)
    | _, _ => True
  next
    | .idle, .listJobs .., jobs => .listed jobs []
    | .listed jobs repos, .getRepoById R, some _ => .listed jobs (R :: repos)
    | .listed .., .getJob j, some job => .chosen j job.repoId
    | .listed .., .getJob _, none => .lost
    | .chosen j _, .getRepoById _, some _ => .taken j
    | .chosen .., .getRepoById _, none => .lost
    | .taken j, .getJob _, r => if r.any (·.state = .queued) then .taken j else .launched j
    | .taken j, .updateJobState .., _ => .starting j
    | .starting j, .updateJobState .., _ => .launched j
    | m, _, _ => m

/-- The round has done what it does with its job. -/
def Round.over : Round → Prop
  | starting _ | launched _ | lost => True
  | _ => False

section Follows

variable {jobs : List Job} {repos : List ℕ} {j : ℕ}

/-- The listing with the repos seen since, among them those of `repos`. -/
def Sees (jobs : List Job) (repos : List ℕ) (m : Round) : Prop :=
  ∃ repos', m = .listed jobs repos' ∧ repos ⊆ repos'

/-- A repo with a free slot exists. -/
theorem rounds_canRun (cfg : Settings) (R : ℕ) :
    (Scheduler.canRun cfg R).Follows roundMonitor
      (fun ok m => Sees jobs (if ok then R :: repos else repos) m) (fun _ _ => False)
      (.listed jobs repos) := by
  refine ⟨trivial, fun backoff _ => ⟨trivial, fun now _ => ?_⟩⟩
  have hself : Sees jobs repos (.listed jobs repos) := ⟨repos, rfl, List.Subset.refl _⟩
  simp only [Prog.ret_bind]
  split
  · exact hself
  · refine ⟨trivial, fun running _ => ?_⟩
    simp only [Prog.ret_bind]
    split
    · exact hself
    · refine ⟨trivial, fun repo _ => ?_⟩
      cases repo with
      | none => exact hself
      | some repo =>
        refine ⟨trivial, fun count _ => ⟨R :: repos, rfl, ?_⟩⟩
        split
        · exact List.Subset.refl _
        · exact List.subset_cons_self R repos

/-- The job that `next_job` returns was listed, and its repo exists. -/
theorem rounds_nextJob (cfg : Settings) :
    (Scheduler.nextJob cfg none).Follows roundMonitor
      (fun job m => ∃ jobs repos, m = .listed jobs repos ∧
        ∀ r, job = some r → r ∈ jobs ∧ r.repoId ∈ repos) (fun _ _ => False) .idle := by
  refine ⟨trivial, fun now _ => ⟨rfl, fun jobs _ => ?_⟩⟩
  simp only [Prog.ret_bind, Prog.bind_eq]
  refine Prog.Follows.bind (R := fun out m => ∃ repos, m = Round.listed jobs repos ∧
    ∀ r ∈ out, r ∈ jobs ∧ r.repoId ∈ repos) ?_ fun out m hm => ?_
  · refine (Prog.follows_collect_out (J := fun xs out m => xs ⊆ jobs ∧ ∃ repos,
      m = Round.listed jobs repos ∧ ∀ r ∈ out, r ∈ jobs ∧ r.repoId ∈ repos) ?_ jobs [] _
      ⟨List.Subset.refl _, [], rfl, by simp⟩).mono (fun _ _ h => h.2) fun _ _ h => h
    rintro x xs out m ⟨hxs, repos, rfl, hout⟩
    refine (rounds_canRun cfg x.repoId).bind fun ok m hm => ?_
    obtain ⟨repos', rfl, hrepos⟩ := hm
    have hrest : xs ⊆ jobs := fun r hr => hxs (List.mem_cons_of_mem x hr)
    cases ok with
    | false =>
      refine ⟨hrest, repos', rfl, fun r hr => ?_⟩
      obtain ⟨hmem, hrepo⟩ := hout r (by simpa using hr)
      exact ⟨hmem, hrepos hrepo⟩
    | true =>
      refine ⟨hrest, repos', rfl, fun r hr => ?_⟩
      rcases List.mem_append.mp hr with hr | hr
      · obtain ⟨hmem, hrepo⟩ := hout r hr
        exact ⟨hmem, hrepos (List.mem_cons_of_mem _ hrepo)⟩
      · obtain rfl : r = x := by simpa using hr
        exact ⟨hxs List.mem_cons_self, hrepos List.mem_cons_self⟩
  · obtain ⟨repos, rfl, hout⟩ := hm
    exact ⟨jobs, repos, rfl, fun r hr => hout r (List.mem_of_mem_head? hr)⟩

/-- `transition_job(job_id, "starting")` takes the job out of the queue, or finds it
    elsewhere. -/
theorem rounds_starting (j : ℕ) :
    (transitionJob j .starting).Follows roundMonitor (fun _ m => m = .starting j)
      (fun _ m => m = .launched j) (.taken j) := by
  refine ⟨rfl, fun job _ => ?_⟩
  cases job with
  | none => rfl
  | some job =>
    by_cases hq : job.state = .queued
    · have hnext : roundMonitor.next (.taken j) (.getJob j) (some job) = .taken j :=
        if_pos (by simpa using hq)
      simp only [Prog.ret_bind]
      rw [hnext, hq]
      exact ⟨.inl ⟨rfl, rfl⟩, fun _ _ => rfl⟩
    · have hnext : roundMonitor.next (.taken j) (.getJob j) (some job) = .launched j :=
        if_neg (by simpa using hq)
      have hv : JobState.starting ∉ job.state.validTransitions := by
        revert hq
        cases job.state <;> simp [JobState.validTransitions]
      simp only [Prog.ret_bind]
      rw [hnext, if_neg hv]
      rfl

/-- A transition that the round may make after its first one. -/
theorem rounds_transitionJob {m m' : Round} {new : JobState}
    (hok : roundMonitor.ok m (.getJob j))
    (hread : ∀ job, roundMonitor.next m (.getJob j) job = m)
    (hupdate : ∀ current, roundMonitor.ok m (.updateJobState j current new none))
    (hnext : ∀ current r, roundMonitor.next m (.updateJobState j current new none) r = m') :
    (transitionJob j new).Follows roundMonitor (fun _ n => n = m') (fun _ n => n = m) m := by
  refine ⟨hok, fun job _ => ?_⟩
  rw [hread job]
  cases job with
  | none => rfl
  | some job =>
    simp only [Prog.ret_bind]
    split
    · exact Prog.follows_perform (hupdate job.state) fun r _ => hnext job.state r
    · rfl

theorem rounds_running (j : ℕ) :
    (transitionJob j .running).Follows roundMonitor (fun _ m => m = .launched j)
      (fun _ m => m = .starting j) (.starting j) :=
  rounds_transitionJob trivial (fun _ => rfl) (fun _ => .inr (.inl ⟨rfl, rfl⟩))
    fun _ _ => rfl

theorem rounds_failed (j : ℕ) :
    (transitionJob j .failedRetryable).Follows roundMonitor (fun _ m => m = .launched j)
      (fun _ m => m = .launched j) (.launched j) :=
  rounds_transitionJob trivial (fun _ => rfl) (fun _ => .inr (.inr ⟨rfl, rfl⟩))
    fun _ _ => rfl

theorem rounds_launch (j : ℕ) (job : Job) (repo : Repo) (sessionId : ℕ) (model : String) (a : ℕ) :
    (Runner.launch j job repo sessionId model a).Follows roundMonitor (fun _ => Round.over)
      (fun _ => Round.over) (.starting j) := by
  refine ⟨trivial, fun prompt _ => ⟨trivial, fun _ _ => ?_⟩⟩
  refine ((rounds_running j).mono (fun _ _ h => h) ?_).bind fun _ m hm => ?_
  · rintro _ _ rfl
    trivial
  · subst hm
    refine Prog.Follows.tryCatch (R := fun _ m => m = .launched j) ⟨trivial, fun r _ => ?_⟩ ?_
    · cases r with
      | error e => rfl
      | ok pid => exact ⟨trivial, fun _ _ => ⟨trivial, fun _ _ => trivial⟩⟩
    · rintro e m rfl
      split
      · refine ⟨trivial, fun _ _ => ⟨trivial, fun _ _ => ?_⟩⟩
        refine ((rounds_failed j).mono (fun _ _ h => h) ?_).bind fun _ m hm => ?_
        · rintro _ _ rfl
          trivial
        · subst hm
          trivial
      · trivial

/-- `run_job` of a listed job. -/
theorem rounds_runJob {r : Job} (hr : r ∈ jobs) (hrepo : r.repoId ∈ repos) (sessionId : ℕ)
    (model : String) :
    (Runner.runJob r.id sessionId model).Follows roundMonitor (fun _ => Round.over)
      (fun _ => Round.over) (.listed jobs repos) := by
  refine ⟨⟨r, hr, rfl, hrepo⟩, fun job _ => ?_⟩
  cases job with
  | none => trivial
  | some job =>
    refine ⟨rfl, fun repo _ => ?_⟩
    cases repo with
    | none => trivial
    | some repo =>
      refine ⟨trivial, fun num _ => ⟨trivial, fun a _ => ?_⟩⟩
      refine ((rounds_starting r.id).mono (fun _ _ h => h) ?_).bind fun _ m hm => ?_
      · rintro _ _ rfl
        trivial
      · subst hm
        exact rounds_launch r.id job repo sessionId model a

/-- A round that found a job is over, and no exception leaves it. -/
theorem rounds_dispatchOne (cfg : Settings) :
    (Daemon.dispatchOne cfg).Follows roundMonitor (fun more m => more = true → m.over)
      (fun _ _ => False) .idle := by
  refine (rounds_nextJob cfg).bind fun job m hm => ?_
  obtain ⟨jobs, repos, rfl, hjob⟩ := hm
  cases job with
  | none => exact fun hmore => by cases hmore
  | some r =>
    obtain ⟨hr, hrepo⟩ := hjob r rfl
    have hsession : (Daemon.sessionFor r.repoId).Follows roundMonitor
        (fun _ m => m = .listed jobs repos) (fun _ _ => False) (.listed jobs repos) := by
      refine ⟨trivial, fun sessions _ => ?_⟩
      simp only [Prog.ret_bind]
      split
      · exact ⟨trivial, fun _ _ => rfl⟩
      · rfl
    refine hsession.bind fun sessionId m hm => ?_
    subst hm
    refine ⟨trivial, fun repo _ => ?_⟩
    have hseen : ∃ repos', roundMonitor.next (.listed jobs repos) (.getRepoById r.repoId) repo =
        .listed jobs repos' ∧ r.repoId ∈ repos' := by
      cases repo with
      | none => exact ⟨repos, rfl, hrepo⟩
      | some repo => exact ⟨_, rfl, List.mem_cons_of_mem _ hrepo⟩
    obtain ⟨repos', hnext, hrepo'⟩ := hseen
    rw [hnext]
    refine Prog.Follows.tryCatch (R := fun _ => Round.over) ?_ fun _ _ hm _ => hm
    exact (rounds_runJob hr hrepo' _ _).bind fun _ _ hm _ => hm

theorem rounds_phaseProg (cfg : Settings) :
    (Daemon.phaseProg cfg .dispatch).Follows roundMonitor (fun p m => p = .dispatch → m.over)
      (fun _ _ => False) .idle := by
  refine (rounds_dispatchOne cfg).bind fun more m hm => ?_
  cases more with
  | false => exact fun hp => by cases hp
  | true => exact fun _ => hm rfl

end Follows

/-! ## How long a round takes -/

/-- `LIMIT`. -/
def withinLimit : (o : Op) → o.Res → Prop
  | .listJobs _ _ limit _, jobs => jobs.length ≤ limit
  | _, _ => True

theorem withinLimit_exec (o : Op) (i : Inputs) (w : World) : withinLimit o (exec o i w).1 := by
  cases o with
  | listJobs R s limit now => exact List.length_take_le _ _
  | _ => trivial

section Within

variable {α β : Type} {k : ℕ}

/-- One operation and the rest. -/
theorem within_op {o : Op} {f : o.Res → Py α}
    (hf : ∀ r, withinLimit o r → (f r).Within withinLimit k) :
    ((op o).bind f).Within withinLimit (k + 1) := Prog.within_call hf

theorem within_canRun (cfg : Settings) (R : ℕ) :
    (Scheduler.canRun cfg R).Within withinLimit 5 := by
  refine within_op fun backoff _ => within_op fun now _ => ?_
  simp only []
  split
  · exact Prog.within_ret _ _
  · refine within_op fun running _ => ?_
    split
    · exact Prog.within_ret _ _
    · refine within_op fun repo _ => ?_
      cases repo with
      | none => exact Prog.within_ret _ _
      | some repo => exact within_op fun _ _ => Prog.within_ret _ _

theorem within_nextJob (cfg : Settings) :
    (Scheduler.nextJob cfg none).Within withinLimit 252 := by
  refine within_op fun now _ => within_op fun jobs hjobs => ?_
  have hlen : 5 * jobs.length + 0 ≤ 250 := by
    have hlimit : jobs.length ≤ 50 := hjobs
    omega
  simp only [Prog.bind_eq]
  refine (Prog.Within.bind (Prog.within_collect (fun r => ?_) jobs []) fun _ =>
    Prog.within_ret 0 _).mono hlen
  refine (within_canRun cfg r.repoId).bind (l := 0) fun ok => ?_
  cases ok <;> exact Prog.within_ret _ _

theorem within_transitionJob (j : ℕ) (new : JobState) (result : Option String) :
    (transitionJob j new result).Within withinLimit 2 := by
  refine within_op fun job _ => ?_
  cases job with
  | none => exact Prog.within_raise _ _
  | some job =>
    simp only []
    split
    · exact Prog.within_perform _
    · exact Prog.within_raise _ _

theorem within_tryStart (j : ℕ) (job : Job) (repo : Repo) (sessionId : ℕ) (model : String) (a : ℕ)
    (prompt : Option String) :
    (Runner.tryStart j job repo sessionId model a prompt).Within withinLimit 7 := by
  refine Prog.Within.tryCatch (k := 3) (l := 4) (within_op fun r _ => ?_) fun e => ?_
  · cases r with
    | error e => exact Prog.within_raise _ _
    | ok pid => exact within_op fun _ _ => within_op fun _ _ => Prog.within_ret _ _
  · split
    · refine within_op fun _ _ => within_op fun _ _ => ?_
      exact (within_transitionJob j .failedRetryable none).bind (l := 0) fun _ =>
        Prog.within_raise _ _
    · exact Prog.within_raise _ _

theorem within_runJob (j sessionId : ℕ) (model : String) :
    (Runner.runJob j sessionId model).Within withinLimit 17 := by
  refine within_op fun job _ => ?_
  cases job with
  | none => exact Prog.within_raise _ _
  | some job =>
    refine within_op fun repo _ => ?_
    cases repo with
    | none => exact Prog.within_raise _ _
    | some repo =>
      refine within_op fun num _ => within_op fun a _ => ?_
      refine (within_transitionJob j .starting none).bind (l := 11) fun _ => ?_
      refine within_op fun prompt _ => within_op fun _ _ => ?_
      exact (within_transitionJob j .running none).bind fun _ =>
        within_tryStart j job repo sessionId model a prompt

/-- The operations of a round are those for 50 queued jobs and one start. -/
theorem within_phaseProg (cfg : Settings) :
    (Daemon.phaseProg cfg .dispatch).Within withinLimit 272 := by
  refine Prog.Within.bind (k := 272) ?_ fun more => Prog.within_ret 0 _
  refine (within_nextJob cfg).bind (l := 20) fun job => ?_
  cases job with
  | none => exact Prog.within_ret _ _
  | some r =>
    have hsession : (Daemon.sessionFor r.repoId).Within withinLimit 2 := by
      refine within_op fun sessions _ => ?_
      split
      · exact Prog.within_perform _
      · exact Prog.within_ret _ _
    refine hsession.bind (l := 18) fun sessionId => within_op fun repo _ => ?_
    exact Prog.Within.tryCatch ((within_runJob _ _ _).bind (l := 0) fun _ => Prog.within_ret _ _)
      (l := 0) fun _ => Prog.within_ret _ _

end Within

end DiscordAgent
