import DiscordAgent.Interleave.Monitor
import DiscordAgent.Interleave.Watch
import DiscordAgent.Lifecycle.Transitions
import DiscordAgent.System.Exceptions

/-!
# Requeues and completions

`requeue_job` calls `transition_job` without a `try`. It has read the job before,
but a reader thread of an earlier attempt can still commit `failed_permanent`,
which has no edge.

Results:
* `Sys.tick_raises_nothing`: along every run in which no such `transition_job`
  finds its job in `failed_permanent`, no exception leaves a tick.
* `Sys.tick_raises`: a job with two attempts.
-/

namespace DiscordAgent

open Interleave Orchestrator

/-! ## What `drive_recovery` performs -/

/-- Where `requeue_job` is. -/
inductive RequeueStage where
  | idle
  /-- `get_job` has found the job. -/
  | loaded (jobId : ℕ) (job : Job)
  /-- `transition_job` comes next. -/
  | deciding (jobId : ℕ) (new : JobState)
  /-- Its `SELECT` has found no edge to the new state. -/
  | refused

/-- The list that `drive_recovery` works on and where `requeue_job` is. -/
structure Requeuing where
  listed : List ℕ := []
  stage : RequeueStage := .idle

namespace Requeuing

/-- The `SELECT` of `transition_job` has answered. -/
def decide (m : Requeuing) (new : JobState) (job : Option Job) : Requeuing :=
  { m with stage := if job.any (new ∈ ·.state.validTransitions) then .idle else .refused }

/-- `get_attempts` has answered. -/
def count (m : Requeuing) (jobId : ℕ) (job : Job) (attempts : List Attempt) : Requeuing :=
  { m with stage :=
      if (attempts.length : ℤ) ≥ job.maxRetries then .deciding jobId .failedPermanent
      else if .queued ∈ job.state.validTransitions then .deciding jobId .queued
      else .idle }

/-- `get_job` has answered. -/
def load (m : Requeuing) (jobId : ℕ) : Option Job → Requeuing
  | some job => { m with stage := .loaded jobId job }
  | none => m

/-- An operation has answered. -/
def next (m : Requeuing) : (o : Op) → o.Res → Requeuing
  | .listJobs .., jobs => { m with listed := jobs.map Job.id }
  | .getJob jobId, job =>
    match m.stage with
    | .deciding _ new => m.decide new job
    | _ => m.load jobId job
  | .getAttempts _, attempts =>
    match m.stage with
    | .loaded jobId job => m.count jobId job attempts
    | _ => m
  | _, _ => m

/-- Between two jobs: `get_job` is called for the jobs on the list only. -/
def opens (m : Requeuing) : Op → Prop
  | .getJob j => j ∈ m.listed
  | .listJobs _ state _ _ => state = some .rateLimited ∨ state = some .failedRetryable
  | _ => True

/-- What comes next. -/
def allows (m : Requeuing) (o : Op) : Prop :=
  match m.stage with
  | .idle => m.opens o
  | .loaded j _ => o = .getAttempts j
  | .deciding j _ => o = .getJob j
  | .refused => False

section Next

variable {m : Requeuing} {o : Op} {r : o.Res}

theorem next_listed (ho : ∀ q s n t, o ≠ .listJobs q s n t) : (m.next o r).listed = m.listed := by
  cases o with
  | listJobs q s n t => exact absurd rfl (ho q s n t)
  | getJob j =>
    unfold next
    cases m.stage with
    | deciding k new => rfl
    | _ => cases r <;> rfl
  | getAttempts j =>
    unfold next
    cases m.stage <;> rfl
  | _ => rfl

theorem next_stage_idle (hm : m.stage = .idle) (ho : ∀ j, o ≠ .getJob j) :
    (m.next o r).stage = .idle := by
  cases o with
  | getJob j => exact absurd rfl (ho j)
  | getAttempts j =>
    unfold next
    simp only [hm]
  | _ => exact hm

end Next

end Requeuing

/-- The monitor of the recovery phase. -/
def requeueMonitor : Monitor Op Op.Res Requeuing where
  answers _ _ := True
  ok := Requeuing.allows
  next := Requeuing.next

section Follows

variable {m : Requeuing} {j : ℕ}

/-- The jobs still to come are on the list, and none is worked on. -/
def Requeuing.Before (jobs : List Job) (m : Requeuing) : Prop :=
  m.stage = .idle ∧ ∀ job ∈ jobs, job.id ∈ m.listed

/-- How the recovery phase raises. -/
def refusal (e : PyErr) (m : Requeuing) : Prop := m.stage = .refused ∧ e.isValueError = true

theorem allows_idle (hm : m.stage = .idle) {o : Op} (ho : m.opens o) :
    requeueMonitor.ok m o := by
  change m.allows o
  unfold Requeuing.allows
  rw [hm]
  exact ho

theorem next_getJob_idle (hm : m.stage = .idle) (job : Option Job) :
    requeueMonitor.next m (.getJob j) job = m.load j job := by
  unfold requeueMonitor Requeuing.next
  simp only [hm]

theorem next_getJob_deciding {new : JobState} (hm : m.stage = .deciding j new) (job : Option Job) :
    requeueMonitor.next m (.getJob j) job = m.decide new job := by
  unfold requeueMonitor Requeuing.next
  simp only [hm]

theorem follows_isBackedOff (repoId : ℕ) (hm : m.stage = .idle) :
    (Scheduler.isBackedOff repoId).Follows requeueMonitor (fun _ m' => m' = m) refusal m := by
  refine ⟨allows_idle hm trivial, fun backoff _ => ?_⟩
  exact ⟨allows_idle hm trivial, fun now _ => rfl⟩

theorem follows_transition (new : JobState) (result : Option String)
    (hm : m.stage = .deciding j new) :
    (transitionJob j new result).Follows requeueMonitor
      (fun _ m' => m' = { m with stage := .idle }) refusal m := by
  refine ⟨?_, fun job _ => ?_⟩
  · change m.allows _
    unfold Requeuing.allows
    rw [hm]
  · rw [next_getJob_deciding hm]
    unfold Requeuing.decide
    cases job with
    | none => exact ⟨rfl, rfl⟩
    | some job =>
      simp only [Prog.ret_bind]
      by_cases hv : new ∈ job.state.validTransitions
      · simp only [Option.any_some, hv, decide_true, if_true]
        exact Prog.follows_perform (allows_idle rfl trivial) fun _ _ => rfl
      · simp only [Option.any_some, hv, decide_false, Bool.false_eq_true, if_false]
        exact ⟨rfl, rfl⟩

theorem follows_requeueJob (hm : m.stage = .idle) (hj : j ∈ m.listed) :
    (Scheduler.requeueJob j).Follows requeueMonitor (fun _ m' => m' = m) refusal m := by
  have hidle : ({ m with stage := .idle } : Requeuing) = m := by rw [← hm]
  refine ⟨allows_idle hm hj, fun job _ => ?_⟩
  rw [next_getJob_idle hm]
  cases job with
  | none => rfl
  | some job =>
    refine ⟨rfl, fun attempts _ => ?_⟩
    have hnext : requeueMonitor.next (m.load j (some job)) (.getAttempts j) attempts =
      m.count j job attempts := rfl
    rw [hnext]
    unfold Requeuing.count
    simp only [Prog.ret_bind]
    split_ifs with hmax hv
    · refine Prog.Follows.bind (follows_transition _ _ rfl) fun _ m' hm' => ?_
      exact hm'.trans hidle
    · refine Prog.Follows.bind (follows_transition _ _ rfl) fun _ m' hm' => ?_
      exact hm'.trans hidle
    · exact hidle

theorem follows_listJobs {state : JobState}
    (hs : some state = some .rateLimited ∨ some state = some .failedRetryable)
    (hm : m.stage = .idle) : (op (.listJobs none (some state) 50 none)).Follows requeueMonitor
      (fun jobs m' => m'.Before jobs) refusal m := by
  refine Prog.follows_perform (allows_idle hm hs) fun jobs _ => ?_
  exact ⟨hm, fun job h => List.mem_map_of_mem h⟩

theorem follows_driveRecovery (hm : m.stage = .idle) :
    Scheduler.driveRecovery.Follows requeueMonitor (fun _ m => m.stage = .idle) refusal m := by
  refine (follows_listJobs (.inl rfl) hm).bind fun rateLimited m hm => ?_
  refine Prog.Follows.bind (R := fun _ m => m.stage = .idle) ?_ fun actions m hm => ?_
  · refine (Prog.follows_collect (J := Requeuing.Before) ?_ rateLimited [] m hm).mono
      (fun _ _ h => h.1) fun _ _ h => h
    rintro job jobs m ⟨hm, hlisted⟩
    refine (follows_isBackedOff _ hm).bind fun backedOff m' hm' => ?_
    subst hm'
    have hrest : m'.Before jobs := ⟨hm, fun r hr => hlisted r (List.mem_cons_of_mem job hr)⟩
    split_ifs
    · exact hrest
    · refine (follows_requeueJob hm (hlisted job List.mem_cons_self)).bind fun ok m hm => ?_
      subst hm
      exact hrest
  · refine Prog.Follows.bind (R := fun _ m => m.stage = .idle) ?_ fun _ m hm => ?_
    · refine Prog.follows_forEach (J := fun _ m => m.stage = .idle) ?_ _ m hm
      intro repoId _ m hm
      exact Prog.follows_perform (allows_idle hm trivial) fun _ _ => hm
    · refine (follows_listJobs (.inr rfl) hm).bind fun failed m hm => ?_
      refine (Prog.follows_collect (J := Requeuing.Before) ?_ failed actions m hm).mono
        (fun _ _ h => h.1) fun _ _ h => h
      rintro job jobs m ⟨hm, hlisted⟩
      refine (follows_requeueJob hm (hlisted job List.mem_cons_self)).bind fun ok m' hm' => ?_
      subst hm'
      exact ⟨hm, fun r hr => hlisted r (List.mem_cons_of_mem job hr)⟩

theorem follows_recovery (cfg : Settings) :
    (Daemon.phaseProg cfg .recovery).Follows requeueMonitor (fun _ m => m.stage = .idle) refusal
      {} :=
  Prog.Follows.bind (follows_driveRecovery rfl) fun _ _ hm => hm

end Follows

/-! ## What the jobs do meanwhile -/

/-- The states of a listed job until the end of the phase. -/
def JobState.parked : JobState → Bool
  | queued | rateLimited | failedRetryable | failedPermanent => true
  | _ => false

/-- A parked job can be failed, and requeued unless it is in the queue, but for
    `failed_permanent`. -/
theorem JobState.edges_of_parked {s : JobState} (h : s.parked = true) (hne : s ≠ .failedPermanent) :
    .failedPermanent ∈ s.validTransitions ∧ (s ≠ .queued → .queued ∈ s.validTransitions) := by
  revert h hne
  cases s <;> decide

/-- No completion applies to a parked job. -/
theorem JobState.no_completion_of_parked {s : JobState} (h : s.parked = true) :
    .rateLimited ∉ s.validTransitions ∧ .succeeded ∉ s.validTransitions := by
  revert h
  cases s <;> decide

namespace Sys

variable {cfg : Settings} {c c' : Sys} {e : Event} {g g' : Requeuing} {j : ℕ} {s : JobState}

/-- During the recovery phase a parked job stays parked, and only the daemon puts
    it into the queue. -/
theorem Footprint.parked_stays (hc : c.Footprint) (hp : c.shared.phase = .recovery)
    (h : Sys.step cfg c e = some c') (hj : c.jobState j = some s) (hs : s.parked = true) :
    ∃ s', c'.jobState j = some s' ∧ s'.parked = true ∧
      ((∀ i, e ≠ .run .daemon i) → s ≠ .queued → s' ≠ .queued) := by
  unfold jobState at hj
  obtain ⟨r, hr, rfl⟩ := Option.map_eq_some_iff.mp hj
  obtain ⟨r', hr', hstep⟩ := hc.job h hr
  refine ⟨r'.state, by rw [jobState, hr', Option.map_some], ?_⟩
  rcases hstep with rfl | ⟨t, i, o, rfl, -, hperf, hstep⟩
  · exact ⟨hs, fun _ h => h⟩
  · cases hstep with
    | transition current new text =>
      cases t with
      | daemon =>
        have hperf : c.shared.phase.performs _ := hperf
        rw [hp] at hperf
        have htargets : ∀ s ∈ Phase.recovery.targets, s.parked = true := by decide
        exact ⟨htargets new hperf.target.2, fun hne => absurd rfl (hne i)⟩
      | reader a =>
        have htargets : ∀ s ∈ [JobState.failedRetryable, .failedPermanent],
            s.parked = true ∧ s ≠ .queued := by
          decide
        obtain ⟨hparked, hne⟩ := htargets new (Op.ofReader.target hperf).2
        exact ⟨hparked, fun _ _ => hne⟩
      | cli n => exact absurd hperf Op.not_ofCli_transition
    | rateLimit t repoId hv => exact absurd hv (JobState.no_completion_of_parked hs).1
    | succeed repoId text hv => exact absurd hv (JobState.no_completion_of_parked hs).2
    | _ => exact ⟨hs, fun _ h => h⟩

/-- What the stage says about the job. -/
def StageHolds (c : Sys) : RequeueStage → Prop
  | .idle => True
  | .loaded j job => job.state.parked = true ∧
      ∃ s, c.jobState j = some s ∧ s.parked = true ∧ (job.state ≠ .queued → s ≠ .queued)
  | .deciding j new => ∃ s, c.jobState j = some s ∧ s.parked = true ∧
      (new = .failedPermanent ∨ (new = .queued ∧ s ≠ .queued))
  | .refused => False

/-- The history after the next event. -/
def Requeuing.update (c : Sys) (e : Event) (g : Requeuing) : Requeuing :=
  match e with
  | .run .daemon i =>
    if c.shared.phase = .recovery then
      ((c.next? .daemon).map fun o => g.next o (exec o i c.shared).1).getD g
    else g
  | .next | .restart _ => {}
  | _ => g

/-- No `transition_job` of `requeue_job` is about to find its job in
    `failed_permanent`. -/
def requeuesInTime (s : Sys × Requeuing) : Event → Bool
  | .run .daemon _ =>
    match s.2.stage with
    | .deciding j _ => s.1.jobState j != some .failedPermanent
    | _ => true
  | _ => true

/-- Runs with their history. -/
abbrev RequeueRuns (cfg : Settings) (ok : Sys × Requeuing → Event → Prop) :
    Sys × Requeuing → Sys × Requeuing → Prop := Run (watch (step cfg) Requeuing.update) ok

/-- In the recovery phase the daemon follows the monitor, the listed jobs are
    parked, and the stage holds. -/
structure RequeueInv (c : Sys) (g : Requeuing) : Prop where
  footprint : c.Footprint
  quiet : c.shared.phase ≠ .recovery → (c.prog .daemon).NoRaise ∧ g.stage = .idle
  follows : c.shared.phase = .recovery → (c.prog .daemon).Follows requeueMonitor
    (fun _ m => m.stage = .idle) refusal g
  listed : c.shared.phase = .recovery → ∀ j ∈ g.listed,
    ∃ s, c.jobState j = some s ∧ s.parked = true
  stage : c.shared.phase = .recovery → c.StageHolds g.stage

namespace RequeueInv

/-- Outside of the recovery phase. -/
theorem quietly (hf : c.Footprint) (hp : c.shared.phase ≠ .recovery)
    (hq : (c.prog .daemon).NoRaise) (hg : g.stage = .idle) : RequeueInv c g where
  footprint := hf
  quiet _ := ⟨hq, hg⟩
  follows h := absurd h hp
  listed h := absurd h hp
  stage h := absurd h hp

/-- A step of another thread. -/
theorem other (hi : RequeueInv c g) (h : step cfg c e = some c')
    (he : ∀ i, e ≠ .run .daemon i) (hp : c'.shared.phase = c.shared.phase)
    (hprog : c'.prog .daemon = c.prog .daemon) : RequeueInv c' g where
  footprint := hi.footprint.step h
  quiet := by
    rw [hp, hprog]
    exact hi.quiet
  follows := by
    rw [hp, hprog]
    exact hi.follows
  listed := by
    rw [hp]
    intro hrec j hj
    obtain ⟨s, hs, hparked⟩ := hi.listed hrec j hj
    obtain ⟨s', hs', hparked', -⟩ := hi.footprint.parked_stays hrec h hs hparked
    exact ⟨s', hs', hparked'⟩
  stage := by
    rw [hp]
    intro hrec
    have hstage := hi.stage hrec
    cases hg : g.stage with
    | idle => trivial
    | refused =>
      rw [hg] at hstage
      exact hstage
    | loaded j job =>
      rw [hg] at hstage
      obtain ⟨hjob, s, hs, hparked, hne⟩ := hstage
      obtain ⟨s', hs', hparked', hkeep⟩ := hi.footprint.parked_stays hrec h hs hparked
      exact ⟨hjob, s', hs', hparked', fun hq => hkeep he (hne hq)⟩
    | deciding j new =>
      rw [hg] at hstage
      obtain ⟨s, hs, hparked, hnew⟩ := hstage
      obtain ⟨s', hs', hparked', hkeep⟩ := hi.footprint.parked_stays hrec h hs hparked
      refine ⟨s', hs', hparked', ?_⟩
      rcases hnew with hnew | ⟨hnew, hne⟩
      · exact .inl hnew
      · exact .inr ⟨hnew, hkeep he hne⟩

/-- A new list is a list of `rate_limited` or `failed_retryable` jobs. -/
theorem listed_next {o : Op} {i : Inputs} (hallow : g.allows o)
    (hs : c'.shared = (exec o i c.shared).2)
    (hkeep : ∀ j ∈ g.listed, ∃ s, c'.jobState j = some s ∧ s.parked = true) :
    ∀ j ∈ (g.next o (exec o i c.shared).1).listed,
      ∃ s, c'.jobState j = some s ∧ s.parked = true := by
  by_cases ho : ∃ q state n t, o = .listJobs q state n t
  · obtain ⟨q, state, n, t, rfl⟩ := ho
    have hstate : state = some .rateLimited ∨ state = some .failedRetryable := by
      unfold Requeuing.allows at hallow
      cases hg : g.stage <;> rw [hg] at hallow
      · exact hallow
      · cases hallow
      · cases hallow
      · exact hallow.elim
    intro j hj
    obtain ⟨r, hr, rfl⟩ := List.mem_map.mp hj
    have hr : r ∈ c.shared.db.listJobs q state n t := hr
    have hget : c'.jobState r.id = some r.state := by
      unfold jobState
      rw [hs]
      exact congrArg (Option.map Job.state) (Db.getJob_of_mem_listJobs hr)
    refine ⟨r.state, hget, ?_⟩
    rcases hstate with rfl | rfl
    · rw [Db.state_of_mem_listJobs hr]
      rfl
    · rw [Db.state_of_mem_listJobs hr]
      rfl
  · rw [Requeuing.next_listed fun q state n t h => ho ⟨q, state, n, t, h⟩]
    exact hkeep

/-- The stage after an operation between two jobs. -/
theorem stage_idle {o : Op} {i : Inputs} (hg : g.stage = .idle) (hallow : g.opens o)
    (hlisted : ∀ j ∈ g.listed, ∃ s, c.jobState j = some s ∧ s.parked = true)
    (hs : c'.shared = (exec o i c.shared).2) :
    c'.StageHolds (g.next o (exec o i c.shared).1).stage := by
  by_cases ho : ∃ j, o = .getJob j
  · obtain ⟨j, rfl⟩ := ho
    have hnext : g.next (.getJob j) (exec (.getJob j) i c.shared).1 =
      g.load j (c.shared.db.getJob j) := next_getJob_idle hg _
    obtain ⟨s, hst, hparked⟩ := hlisted j hallow
    obtain ⟨r, hr, rfl⟩ := Option.map_eq_some_iff.mp hst
    have hst : c'.jobState j = some r.state := by
      unfold jobState
      rw [hs]
      exact congrArg (Option.map Job.state) hr
    rw [hnext, hr]
    exact ⟨hparked, r.state, hst, hparked, id⟩
  · rw [Requeuing.next_stage_idle hg fun j hj => ho ⟨j, hj⟩]
    trivial

/-- The stage after the attempts of the job were counted. -/
theorem stage_loaded {j : ℕ} {job : Job} {i : Inputs} (hg : g.stage = .loaded j job)
    (hstage : c.StageHolds (.loaded j job))
    (hs : c'.shared = (exec (.getAttempts j) i c.shared).2) :
    c'.StageHolds (g.next (.getAttempts j) (exec (.getAttempts j) i c.shared).1).stage := by
  have hnext : g.next (.getAttempts j) (exec (.getAttempts j) i c.shared).1 =
      g.count j job (c.shared.db.getAttempts j) := by
    unfold Requeuing.next
    simp only [hg]
    rfl
  obtain ⟨hjob, s, hst, hparked, hne⟩ := hstage
  have hst : c'.jobState j = some s := by
    rw [← hst]
    unfold jobState
    rw [hs]
    rfl
  rw [hnext]
  unfold Requeuing.count
  split_ifs with hmax hv
  · exact ⟨s, hst, hparked, .inl rfl⟩
  · refine ⟨s, hst, hparked, .inr ⟨rfl, hne ?_⟩⟩
    intro hq
    rw [hq] at hv
    revert hv
    decide
  · trivial

/-- The `SELECT` of `transition_job` finds the edge. -/
theorem stage_deciding {j : ℕ} {new : JobState} {i : Inputs} (hg : g.stage = .deciding j new)
    (hstage : c.StageHolds (.deciding j new)) (hne : c.jobState j ≠ some .failedPermanent) :
    c'.StageHolds (g.next (.getJob j) (exec (.getJob j) i c.shared).1).stage := by
  have hnext : g.next (.getJob j) (exec (.getJob j) i c.shared).1 =
    g.decide new (c.shared.db.getJob j) := next_getJob_deciding hg _
  obtain ⟨s, hst, hparked, hnew⟩ := hstage
  obtain ⟨r, hr, rfl⟩ := Option.map_eq_some_iff.mp hst
  have hv : new ∈ r.state.validTransitions := by
    obtain ⟨hfail, hqueue⟩ := JobState.edges_of_parked hparked fun hp => hne (by rw [hst, hp])
    rcases hnew with rfl | ⟨rfl, hq⟩
    · exact hfail
    · exact hqueue hq
  rw [hnext, hr]
  unfold Requeuing.decide
  simp only [Option.any_some, hv, decide_true, if_true]
  trivial

/-- A step of the daemon in the recovery phase. -/
theorem daemon (hi : RequeueInv c g) {i : Inputs} (hrec : c.shared.phase = .recovery)
    (hok : requeuesInTime (c, g) (.run .daemon i) = true)
    (h : step cfg c (.run .daemon i) = some c') :
    RequeueInv c' (Requeuing.update c (.run .daemon i) g) := by
  obtain ⟨o, -, -, hn, hs, -, -⟩ := Pool.step_cases h
  have hup : Requeuing.update c (.run .daemon i) g = g.next o (exec o i c.shared).1 := by
    unfold Requeuing.update
    simp only [hrec, if_true, hn, Option.map_some, Option.getD_some]
  have hp : c'.shared.phase = .recovery := by
    rw [hs, exec_phase]
    exact hrec
  obtain ⟨hallow, hfol⟩ := Pool.follows_step h hn trivial (hi.follows hrec)
  have hallow : g.allows o := hallow
  have hkeep : ∀ j ∈ g.listed, ∃ s, c'.jobState j = some s ∧ s.parked = true := by
    intro j hj
    obtain ⟨s, hst, hparked⟩ := hi.listed hrec j hj
    obtain ⟨s', hst', hparked', -⟩ := hi.footprint.parked_stays hrec h hst hparked
    exact ⟨s', hst', hparked'⟩
  rw [hup]
  refine ⟨hi.footprint.step h, fun hne => absurd hp hne, fun _ => hfol,
    fun _ => listed_next hallow hs hkeep, fun _ => ?_⟩
  have hstage := hi.stage hrec
  unfold Requeuing.allows at hallow
  cases hg : g.stage with
  | idle =>
    rw [hg] at hallow
    exact stage_idle hg hallow (hi.listed hrec) hs
  | loaded j job =>
    rw [hg] at hallow hstage
    subst hallow
    exact stage_loaded hg hstage hs
  | deciding j new =>
    rw [hg] at hallow hstage
    subst hallow
    refine stage_deciding hg hstage fun hperm => ?_
    unfold requeuesInTime at hok
    simp only [hg, hperm] at hok
    cases hok
  | refused =>
    rw [hg] at hstage
    exact hstage.elim

theorem step (hi : RequeueInv c g) (hok : requeuesInTime (c, g) e = true)
    (h : Sys.step cfg c e = some c') : RequeueInv c' (Requeuing.update c e g) := by
  have hf := hi.footprint.step h
  cases e with
  | run t i =>
    by_cases ht : t = .daemon
    · subst ht
      by_cases hrec : c.shared.phase = .recovery
      · exact hi.daemon hrec hok h
      · obtain ⟨o, -, -, -, hs, -, -⟩ := Pool.step_cases h
        obtain ⟨hquiet, hidle⟩ := hi.quiet hrec
        have hup : Requeuing.update c (.run .daemon i) g = g := if_neg hrec
        have hp : c'.shared.phase ≠ .recovery := by
          rw [hs, exec_phase]
          exact hrec
        rw [hup]
        exact quietly hf hp (Pool.noRaise_step h hquiet) hidle
    · obtain ⟨o, -, -, -, hs, -, hother⟩ := Pool.step_cases h
      have hup : Requeuing.update c (.run t i) g = g := by
        cases t with
        | daemon => exact absurd rfl ht
        | _ => rfl
      rw [hup]
      refine hi.other h (fun i' he => ht ?_) (by rw [hs, exec_phase]) (hother .daemon (Ne.symm ht))
      cases he
      rfl
  | next =>
    obtain ⟨p, -, -, rfl⟩ := step_next h
    by_cases hp : p = .recovery
    · subst hp
      refine ⟨hf, fun hne => absurd rfl hne, fun _ => ?_, fun _ j hj => ?_, fun _ => trivial⟩
      · rw [Pool.load_prog_self]
        exact follows_recovery cfg
      · cases hj
    · refine quietly hf hp ?_ rfl
      rw [Pool.load_prog_self]
      exact Daemon.noRaise_phaseProg cfg hp
  | exit a code result rl =>
    refine hi.other h (fun i he => by cases he) ?_ ?_
    · obtain ⟨w, -, -, rfl⟩ := step_exit h
      rfl
    · obtain ⟨w, -, -, rfl⟩ := step_exit h
      exact Pool.load_prog_of_ne _ _ (by simp)
  | invoke n cmd =>
    refine hi.other h (fun i he => by cases he) ?_ ?_
    · cases h
      rfl
    · cases h
      exact Pool.load_prog_of_ne _ _ (by simp)
  | restart environ =>
    cases h
    exact quietly hf (fun h => by cases h) trivial rfl

/-- The daemon has raised nothing. -/
theorem not_raise (hi : RequeueInv c g) (e : PyErr) : c.prog .daemon ≠ .raise e := by
  intro hraise
  by_cases hrec : c.shared.phase = .recovery
  · have hfol := hi.follows hrec
    rw [hraise] at hfol
    have hstage := hi.stage hrec
    rw [hfol.1] at hstage
    exact hstage
  · have hquiet := (hi.quiet hrec).1
    rw [hraise] at hquiet
    exact hquiet

/-- A `SELECT` that finds the job in `failed_permanent` raises. -/
theorem raises (hi : RequeueInv c g) {i : Inputs}
    (hok : requeuesInTime (c, g) (.run .daemon i) = false)
    (h : Sys.step cfg c (.run .daemon i) = some c') :
    ∃ e, e.isValueError = true ∧ c'.prog .daemon = .raise e := by
  cases hg : g.stage with
  | deciding j new =>
    have hrec : c.shared.phase = .recovery := by
      by_contra hne
      rw [(hi.quiet hne).2] at hg
      cases hg
    obtain ⟨o, -, -, hn, hs, -, -⟩ := Pool.step_cases h
    obtain ⟨hallow, hfol⟩ := Pool.follows_step h hn trivial (hi.follows hrec)
    have hallow : g.allows o := hallow
    unfold Requeuing.allows at hallow
    rw [hg] at hallow
    subst hallow
    have hst : c.jobState j = some .failedPermanent := by
      unfold requeuesInTime at hok
      simpa [hg] using hok
    obtain ⟨r, hr, hfail⟩ := Option.map_eq_some_iff.mp hst
    have hnext : (requeueMonitor.next g (.getJob j) (exec (.getJob j) i c.shared).1).stage =
        .refused := by
      have hget : (exec (.getJob j) i c.shared).1 = some r := hr
      rw [hget, next_getJob_deciding hg]
      unfold Requeuing.decide
      simp only [Option.any_some, hfail, JobState.validTransitions, List.not_mem_nil, decide_false,
        Bool.false_eq_true, if_false]
    generalize requeueMonitor.next g (.getJob j) (exec (.getJob j) i c.shared).1 = g' at hfol hnext
    cases hprog : c'.prog .daemon with
    | ret p =>
      rw [hprog] at hfol
      have hidle : g'.stage = .idle := hfol
      rw [hnext] at hidle
      cases hidle
    | raise e =>
      rw [hprog] at hfol
      exact ⟨e, hfol.2, rfl⟩
    | call o k =>
      rw [hprog] at hfol
      have hallow : g'.allows o := hfol.1
      unfold Requeuing.allows at hallow
      rw [hnext] at hallow
      exact hallow.elim
  | _ =>
    unfold requeuesInTime at hok
    rw [hg] at hok
    cases hok

end RequeueInv

/-- Nothing escapes from a tick, and a `SELECT` that does not meet the condition
    ends the main loop. -/
theorem tick_raises_nothing {db : Db} {environ : Environ}
    (h : RequeueRuns cfg (fun s e => requeuesInTime s e = true) (boot db environ, {}) (c, g)) :
    (∀ e, c.prog .daemon ≠ .raise e) ∧
    ∀ i c', requeuesInTime (c, g) (.run .daemon i) = false →
      step cfg c (.run .daemon i) = some c' →
      ∃ e, e.isValueError = true ∧ c'.prog .daemon = .raise e := by
  have hboot : RequeueInv (boot db environ) {} :=
    .quietly (footprint_boot db environ) (fun h => by cases h) trivial rfl
  have hi : RequeueInv c g := h.watch_invariant
    (fun c g e c' hi hok ht => RequeueInv.step hi hok ht) hboot
  exact ⟨hi.not_raise, fun i c' hok hs => hi.raises hok hs⟩

/-! ## Two runs -/

/-- What the daemon sees where the `claude` command is missing. -/
def noClaude : Inputs := { popen := .fileNotFound }

/-- Attempt 1 of job 1 does not start. The daemon stops before its recovery
    phase. -/
def startFails : List Event :=
  cli (.createRepo oneRepo) ++ cli (.dispatch oneJob) ++ [.next] ++ daemonSteps 1 ++ [.next] ++
    daemonSteps 2 ++ [.next] ++ daemonSteps 25 noClaude ++ idleRest ++ daemonSteps 1 ++ [.next]

/-- Job 1 is back in the queue. -/
theorem tick_requeues : ∃ c : Sys, c.jobState 1 = some .queued ∧ c.returned .dispatch = true ∧
    ∀ e, c.prog .daemon ≠ .raise e := by
  have hlist : (runList (watch (step Settings.plain) Requeuing.update) requeuesInTime
      (boot default fun _ => none, {}) (startFails ++ daemonSteps 6)).any
      (fun s => s.1.jobState 1 == some .queued && s.1.returned .dispatch) = true := by
    decide +kernel
  obtain ⟨⟨c, g⟩, hrun, hs⟩ := Run.exists_of_runList hlist
  obtain ⟨hq, hret⟩ := (Bool.and_eq_true _ _).mp hs
  exact ⟨c, eq_of_beq hq, hret, (tick_raises_nothing hrun).1⟩

/-- Attempt 1 of job 1 is killed. Its reader thread has found the job `running`
    when the watchdog takes the job for timed out. Attempt 2 does not start, so
    there are no retries left when the recovery phase comes to the job. -/
def killedLate : List Event :=
  startJob oneJob ++ [.exit 1 143 none false] ++ readerSteps 1 5 ++ [.next] ++ daemonSteps 2 ++
    [.next] ++ daemonSteps 19 { now := 4000 } ++ [.next] ++ daemonSteps 1 ++ [.next, .next] ++
    daemonSteps 1 ++ [.next] ++ daemonSteps 2 ++ [.next] ++ daemonSteps 24 noClaude ++ idleRest ++
    daemonSteps 1 ++ [.next] ++ daemonSteps 4 ++ readerSteps 1 2 ++ daemonSteps 1

/-- The daemon has raised a `ValueError`. -/
def crashed (c : Sys) : Bool :=
  match c.prog .daemon with
  | .raise e => e.isValueError
  | _ => false

theorem of_crashed (h : c.crashed = true) :
    ∃ e, e.isValueError = true ∧ c.prog .daemon = .raise e := by
  unfold crashed at h
  split at h
  · next e he => exact ⟨e, h, he⟩
  · cases h

/-- Every `transition_job` of the run is atomic. -/
theorem tick_raises : ¬ ∀ (cfg : Settings) (db : Db) (environ : Environ) (c : Sys),
    Runs cfg (fun c e => c.fresh e = true) (boot db environ) c →
      ∀ e, e.isValueError = true → c.prog .daemon ≠ .raise e := by
  intro hall
  obtain ⟨c, hrun, hc⟩ := exists_run (fun c e => c.fresh e) killedLate crashed
    (by decide +kernel)
  obtain ⟨e, he, hraise⟩ := of_crashed hc
  exact hall _ _ _ c hrun e he hraise

end Sys

end DiscordAgent
