import Mathlib.Data.Prod.Lex
import DiscordAgent.System.Footprint

/-!
# Which job `next_job` picks

`next_job` asks the database for the first 50 queued jobs that are due and keeps
those whose repo passes `can_run`. The claim on it is that it is work
conserving: it finds a job whenever one can start, and then the first one.

Specification: `startable`, the queued and due jobs whose repo passes `can_run`,
and `IsNext`, what the answer has to be.

Main results:

* `eval_nextJob`: what `next_job` computes when no other thread runs.
* `nextJob_first`: a job that it returns is the first of the startable ones.
* `nextJob_isNext`: the answer is right exactly if no job is startable or some
  startable job has fewer than 50 due jobs before it.
* `nextJob_starves`: a backlog of 50 jobs of a repo in backoff hides the job of
  another repo.
-/

namespace DiscordAgent

open Interleave Sql

/-! ## The order of the queue -/

namespace Job

/-- The sort key of `list_jobs`. -/
def key (j : Job) : ℤᵒᵈ ×ₗ WithTop ℚ ×ₗ ℚ :=
  toLex (OrderDual.toDual j.priority, toLex (j.enqueueAt, j.createdAt))

theorem before_iff {a b : Job} : a.before b ↔ a.key ≤ b.key := by
  simp [before, key, Prod.Lex.toLex_le_toLex]

instance : Std.Total before where
  total a b := by
    rw [before_iff, before_iff]
    exact le_total a.key b.key

instance : IsTrans Job before where
  trans a b c hab hbc := by
    rw [before_iff] at hab hbc ⊢
    exact hab.trans hbc

end Job

namespace Scheduler

/-! ## Specification -/

/-- What `can_run` returns when no other thread runs. -/
def canRunNow (cfg : Settings) (i : Inputs) (w : World) (repoId : ℕ) : Bool :=
  match ((canRun cfg repoId).eval exec (fun _ => i) w).1 with
  | .ok b => b
  | .error _ => false

/-- The queued jobs whose `enqueue_at` has come. -/
def due (db : Db) (now : ℚ) : List Job :=
  db.jobs.select fun j => j.state == .queued && decide (j.enqueueAt ≤ (now : WithTop ℚ))

/-- The jobs that could start now. -/
def startable (cfg : Settings) (i : Inputs) (w : World) : List Job :=
  (due w.db i.now).filter fun j => canRunNow cfg i w j.repoId

/-- The right answer: nothing if no job is startable, and otherwise one that is
    first by priority, `enqueue_at` and `created_at`. -/
def IsNext (cfg : Settings) (i : Inputs) (w : World) (r : Option Job) : Prop :=
  (r = none ↔ startable cfg i w = []) ∧
    ∀ j, r = some j → j ∈ startable cfg i w ∧ ∀ k ∈ startable cfg i w, j.before k

/-! ## What `next_job` computes -/

variable {cfg : Settings} {i : Inputs} {w : World}

theorem eval_canRun (repoId : ℕ) :
    (canRun cfg repoId).eval exec (fun _ => i) w = (.ok (canRunNow cfg i w repoId), w) := by
  have hs : ((canRun cfg repoId).eval exec (fun _ => i) w).2 = w :=
    Prog.eval_frame exec (P := fun o : Op => o.isRead = true) id (fun _ _ _ h => exec_isRead h)
      (emits_canRun (fun _ h => h) cfg repoId) _ _
  have hok : ∃ b, ((canRun cfg repoId).eval exec (fun _ => i) w).1 = .ok b := by
    simp only [canRun, isBackedOff, Prog.bind_eq, Prog.perform_bind, Prog.call_bind,
      Prog.ret_bind, Prog.eval]
    split
    · exact ⟨_, rfl⟩
    · simp only [Prog.eval]
      split
      · exact ⟨_, rfl⟩
      · simp only [Prog.eval]
        split <;> exact ⟨_, rfl⟩
  obtain ⟨b, hb⟩ := hok
  rw [canRunNow, hb]
  exact Prod.ext hb hs

/-- The candidates of `next_job`: the first 50 due jobs. -/
def listed (db : Db) (now : ℚ) : List Job := (orderBy Job.before (due db now)).take 50

theorem eval_nextJob :
    (nextJob cfg none).eval exec (fun _ => i) w =
      (.ok ((listed w.db i.now).filter fun j => canRunNow cfg i w j.repoId).head?, w) := by
  have hbody : ∀ j : Job, ((canRun cfg j.repoId).bind fun b =>
        if b = true then (.ret (some j) : Py (Option Job)) else .ret none).eval exec
          (fun _ => i) w =
      (.ok (Option.guard (fun j : Job => canRunNow cfg i w j.repoId) j), w) := by
    intro j
    rw [Prog.eval_bind, eval_canRun]
    simp only [Option.guard]
    split_ifs <;> rfl
  have hlist : w.db.listJobs none (some .queued) 50 (some i.now) = listed w.db i.now := rfl
  simp only [nextJob, Prog.bind_eq, Prog.perform_bind, Prog.eval]
  rw [Prog.eval_bind]
  simp only [exec, hlist]
  rw [Prog.eval_collect hbody, List.filterMap_eq_filter]
  rfl

/-- The startable jobs in the order of the queue. -/
theorem mem_startable {j : Job} :
    j ∈ startable cfg i w ↔
      j ∈ (orderBy Job.before (due w.db i.now)).filter fun j => canRunNow cfg i w j.repoId := by
  simp only [startable, List.mem_filter, mem_orderBy]

/-- Whatever `next_job` returns is startable, and the first such job. -/
theorem nextJob_first {j : Job}
    (h : ((nextJob cfg none).eval exec (fun _ => i) w).1 = .ok (some j)) :
    j ∈ startable cfg i w ∧ ∀ k ∈ startable cfg i w, j.before k := by
  rw [eval_nextJob] at h
  have hhead : ((listed w.db i.now).filter fun j => canRunNow cfg i w j.repoId).head? = some j := by
    simpa using h
  obtain ⟨l, hl⟩ := List.head?_eq_some_iff.mp hhead
  -- the jobs after the limit come after `j` as well
  have hall : (orderBy Job.before (due w.db i.now)).filter (fun j => canRunNow cfg i w j.repoId) =
      j :: (l ++ ((orderBy Job.before (due w.db i.now)).drop 50).filter
        fun j => canRunNow cfg i w j.repoId) := by
    rw [← List.cons_append, ← hl, ← List.filter_append, listed, List.take_append_drop]
  have hsorted : (j :: (l ++ ((orderBy Job.before (due w.db i.now)).drop 50).filter
      fun j => canRunNow cfg i w j.repoId)).Pairwise (Ahead Job.before) := by
    rw [← hall]
    exact (pairwise_orderBy (Table.pairwise_select _ _)).filter _
  constructor
  · rw [mem_startable, hall]
    exact List.mem_cons_self
  · intro k hk
    rw [mem_startable, hall] at hk
    rcases List.mem_cons.mp hk with rfl | hk
    · exact Job.before_iff.2 le_rfl
    · exact ((List.pairwise_cons.mp hsorted).1 k hk).1

/-- It returns a job if and only if a startable one is among the first 50 due
    jobs. -/
theorem nextJob_eq_none :
    ((nextJob cfg none).eval exec (fun _ => i) w).1 = .ok none ↔
      ∀ j ∈ startable cfg i w,
        50 ≤ (due w.db i.now).countP fun k => decide (Ahead Job.before k j) := by
  have hmem : ∀ j, j ∈ listed w.db i.now ↔ j ∈ due w.db i.now ∧
      (due w.db i.now).countP (fun k => decide (Ahead Job.before k j)) < 50 := by
    intro j
    exact mem_take_orderBy (Table.pairwise_select _ _) 50
  rw [eval_nextJob]
  simp only [Except.ok.injEq, List.head?_eq_none_iff, List.filter_eq_nil_iff, startable,
    List.mem_filter, hmem]
  constructor
  · intro h j hj
    by_contra hlt
    exact h j ⟨hj.1, by omega⟩ hj.2
  · intro h j hj hrun
    have := h j ⟨hj.1, hrun⟩
    omega

theorem nextJob_isNext (cfg : Settings) (i : Inputs) (w : World) :
    (∃ r, ((nextJob cfg none).eval exec (fun _ => i) w).1 = .ok r ∧ IsNext cfg i w r) ↔
      startable cfg i w = [] ∨ ∃ j ∈ startable cfg i w,
        (due w.db i.now).countP (fun k => decide (Ahead Job.before k j)) < 50 := by
  obtain ⟨r, hr⟩ : ∃ r, ((nextJob cfg none).eval exec (fun _ => i) w).1 = .ok r :=
    ⟨_, by rw [eval_nextJob]⟩
  simp only [hr, Except.ok.injEq, exists_eq_left', IsNext]
  cases r with
  | none =>
    have hfar := nextJob_eq_none.mp hr
    constructor
    · exact fun h => .inl (h.1.mp rfl)
    · rintro (h | ⟨j, hj, hlt⟩)
      · exact ⟨by simp [h], by simp⟩
      · have := hfar j hj
        omega
  | some j =>
    have hfirst := nextJob_first hr
    have hne : startable cfg i w ≠ [] := List.ne_nil_of_mem hfirst.1
    constructor
    · intro _
      right
      by_contra hnear
      push Not at hnear
      rw [nextJob_eq_none.mpr hnear] at hr
      cases hr
    · intro _
      refine ⟨by simp [hne], ?_⟩
      rintro _ ⟨⟩
      exact hfirst

/-- A repo in backoff with 50 queued jobs, and another repo with one. -/
def starved : World :=
  let db := ((default : Db).createRepo Sys.oneRepo 0).2.setBackoff 1 1000 1
  let db := (fun db : Db => (db.createJob Sys.oneJob 0).2)^[50] db
  let db := (db.createRepo { Sys.oneRepo with name := "web" } 0).2
  (Sys.boot (db.createJob { Sys.oneJob with repoId := 2 } 0).2 fun _ => none).shared

theorem nextJob_starves : ¬ ∀ (cfg : Settings) (i : Inputs) (w : World),
    ∃ r, ((nextJob cfg none).eval exec (fun _ => i) w).1 = .ok r ∧ IsNext cfg i w r := by
  intro h
  have hfar : ((startable .plain { now := 1 } starved).map fun j =>
      (due starved.db 1).countP fun k => decide (Ahead Job.before k j)) = [50] := by
    decide +kernel
  have hnone : ((nextJob .plain none).eval exec (fun _ => { now := 1 }) starved).1 = .ok none := by
    apply nextJob_eq_none.mpr
    intro j hj
    have hmem := List.mem_map_of_mem (f := fun j =>
      (due starved.db 1).countP fun k => decide (Ahead Job.before k j)) hj
    rw [hfar, List.mem_singleton] at hmem
    exact hmem.ge
  obtain ⟨r, hr, hn, -⟩ := h .plain { now := 1 } starved
  rw [hnone] at hr
  cases hr
  rw [hn.mp rfl] at hfar
  cases hfar

end Scheduler

end DiscordAgent
