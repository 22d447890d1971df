import DiscordAgent.Chaining.Remaining
import DiscordAgent.Interleave.Credits
import DiscordAgent.Scheduling.Rounds
import DiscordAgent.System.Callbacks

/-!
# What the dispatch loop draws on

Every job that is queued or running has a credit, and so has every call of
`on_complete` that may still create the next job of its chain. A round takes one from
the credit of the job that it starts; a call hands what is left to the job that it
creates.

Specification: `Sys.Balanced`, the credits cover what is still to come.

Results:
* `Sys.Balanced.daemon_run`: an operation of the daemon keeps the balance, and the
  round pays for its job.
* `Sys.Balanced.reader`, `Sys.Balanced.cli`, `Sys.Balanced.exit`: the other threads add
  nothing to the credits.
-/

namespace DiscordAgent

open Interleave Orchestrator

variable {cfg : Settings}

/-! ## Credits -/

/-- Who holds a credit: a job that is still to be started or to succeed, or a call of
    `on_complete` that may create the next job of a chain. -/
inductive Holder where
  | job (jobId : ℕ)
  | call (attemptId : ℕ)

section Accounts

variable (py : PyLib) (db : Db) (f : Credits Holder)

/-- The job cannot be marked as `succeeded` now, and its credit is for its chain and `k`
    more. -/
def Covered (k j : ℕ) : Prop :=
  ∃ r, db.getJob j = some r ∧ JobState.succeeded ∉ r.state.validTransitions ∧
    remainingChain py r.nextDispatchPayload + k ≤ f (.job j)

/-- The job is not in the queue. -/
def Dequeued (j : ℕ) : Prop := ∃ r, db.getJob j = some r ∧ r.state ≠ .queued

/-- What a round relies on. -/
def InRound : Round → Prop
  | .idle => True
  | .listed jobs repos =>
    (∀ r ∈ jobs, Covered py db f 1 r.id ∧ ∃ s, db.getJob r.id = some s ∧ s.repoId = r.repoId) ∧
      ∀ R ∈ repos, ∃ p, db.getRepoById R = some p
  | .chosen j R => Covered py db f 0 j ∧ ∃ p, db.getRepoById R = some p
  | .taken j => Covered py db f 0 j
  | .starting j => Covered py db f 0 j ∧ Dequeued db j
  | .launched j => Dequeued db j
  | .lost => False

/-- The job may still be in the queue although the round has paid for it. -/
def Round.takes : Round → ℕ → Prop
  | chosen j _, k | taken j, k => k = j
  | _, _ => False

/-- What the round has paid. -/
def Round.cost : Round → ℕ
  | idle | listed .. => 0
  | _ => 1

/-- A queued job has a credit for itself and its chain, a running one for its chain. -/
def Funded (m : Round) : Prop :=
  ∀ j r, db.getJob j = some r →
    (r.state = .queued →
      m.takes j ∨ remainingChain py r.nextDispatchPayload + 1 ≤ f (.job j)) ∧
    (r.state = .running → remainingChain py r.nextDispatchPayload ≤ f (.job j))

/-- What a call for job `j` has a credit for. A job that waits for its controller can be
    marked as `succeeded` only by a call that came before. -/
def Backed (a j : ℕ) : CallStage → Prop
  | .checking | .done => True
  | .completing => ∀ r, db.getJob j = some r → r.state = .needsController →
    remainingChain py r.nextDispatchPayload ≤ f (.call a)
  | .holding payload => remainingChain py payload ≤ f (.call a)

end Accounts

/-! ## What the other threads do -/

/-- The row after a step of another thread. -/
def Job.FadesTo (r r' : Job) : Prop :=
  r'.nextDispatchPayload = r.nextDispatchPayload ∧ (r'.state = r.state ∨
    r'.state ∈ [JobState.succeeded, .failedRetryable, .failedPermanent, .rateLimited])

/-- A step of another thread puts no job back into the queue, and pays for the jobs that
    it creates. Only a job that is marked as `succeeded` loses credit. -/
structure Fades (py : PyLib) (db db' : Db) (f f' : Credits Holder) : Prop where
  keeps : db.Keeps db'
  row : ∀ j r', db'.getJob j = some r' → (∃ r, db.getJob j = some r ∧ r.FadesTo r') ∨
    (db.getJob j = none ∧ r'.state = .queued ∧
      remainingChain py r'.nextDispatchPayload + 1 ≤ f' (.job j))
  credit : ∀ j, f (.job j) ≤ f' (.job j) ∨ ∃ r r', db.getJob j = some r ∧
    JobState.succeeded ∈ r.state.validTransitions ∧ db'.getJob j = some r' ∧
    r'.state = .succeeded

/-- No job has come to wait for its controller. -/
def WaitedBefore (db db' : Db) : Prop :=
  ∀ j r', db'.getJob j = some r' → r'.state = .needsController →
    ∃ r, db.getJob j = some r ∧ r.state = .needsController ∧
      r'.nextDispatchPayload = r.nextDispatchPayload

section Accounts

variable {py : PyLib} {db db' : Db} {f f' : Credits Holder} {m : Round} {j k a : ℕ}

theorem Round.cost_of_over (h : m.over) : m.cost = 1 := by
  cases m with
  | idle => exact h.elim
  | listed => exact h.elim
  | _ => rfl

theorem Fades.refl (py : PyLib) (db : Db) (f : Credits Holder) : Fades py db db f f where
  keeps := .refl db
  row _ r' hr' := .inl ⟨r', hr', rfl, .inl rfl⟩
  credit _ := .inl (le_refl _)

/-- The row of a job that was there before. -/
theorem Fades.of_some (h : Fades py db db' f f') {r : Job} (hr : db.getJob j = some r) :
    ∃ r', db'.getJob j = some r' ∧ r.FadesTo r' := by
  obtain ⟨r', hr', -⟩ := h.keeps.job j r hr
  rcases h.row j r' hr' with ⟨s, hs, hfade⟩ | ⟨hnone, -, -⟩
  · rw [hr] at hs
    cases hs
    exact ⟨r', hr', hfade⟩
  · rw [hr] at hnone
    cases hnone

/-- The credit of a job that cannot be marked as `succeeded`. -/
theorem Fades.credit_of_not (h : Fades py db db' f f') {r : Job} (hr : db.getJob j = some r)
    (hv : JobState.succeeded ∉ r.state.validTransitions) : f (.job j) ≤ f' (.job j) := by
  rcases h.credit j with hle | ⟨s, s', hs, hv', -, -⟩
  · exact hle
  · rw [hr] at hs
    cases hs
    exact absurd hv' hv

theorem Job.FadesTo.not_succeeds {r r' : Job} (h : r.FadesTo r')
    (hv : JobState.succeeded ∉ r.state.validTransitions) :
    JobState.succeeded ∉ r'.state.validTransitions := by
  rcases h.2 with hs | hs
  · rw [hs]
    exact hv
  · revert hs
    cases r'.state <;> simp [JobState.validTransitions]

/-- A state that the other threads move no job to. -/
theorem Job.FadesTo.state_eq {r r' : Job} (h : r.FadesTo r')
    (hs : r'.state ∈ [JobState.queued, .running, .needsController]) : r'.state = r.state := by
  rcases h.2 with heq | hdead
  · exact heq
  · revert hs hdead
    cases r'.state <;> simp

theorem Covered.fade (h : Covered py db f k j) (hf : Fades py db db' f f') :
    Covered py db' f' k j := by
  obtain ⟨r, hr, hv, hle⟩ := h
  obtain ⟨r', hr', hfade⟩ := hf.of_some hr
  refine ⟨r', hr', hfade.not_succeeds hv, ?_⟩
  rw [hfade.1]
  exact hle.trans (hf.credit_of_not hr hv)

theorem Dequeued.fade (h : Dequeued db j) (hf : Fades py db db' f f') : Dequeued db' j := by
  obtain ⟨r, hr, hq⟩ := h
  obtain ⟨r', hr', hfade⟩ := hf.of_some hr
  refine ⟨r', hr', fun hq' => hq ?_⟩
  rw [← hfade.state_eq (by simp [hq']), hq']

theorem InRound.fade (h : InRound py db f m) (hf : Fades py db db' f f') :
    InRound py db' f' m := by
  have hrepo : ∀ R, (∃ p, db.getRepoById R = some p) → ∃ p, db'.getRepoById R = some p :=
    fun R ⟨p, hp⟩ => hf.keeps.repo R p hp
  cases m with
  | idle => trivial
  | listed jobs repos =>
    obtain ⟨hjobs, hrepos⟩ := h
    refine ⟨fun r hr => ?_, fun R hR => hrepo R (hrepos R hR)⟩
    obtain ⟨hcov, s, hs, hid⟩ := hjobs r hr
    obtain ⟨s', hs', hid'⟩ := hf.keeps.job r.id s hs
    exact ⟨hcov.fade hf, s', hs', hid'.trans hid⟩
  | chosen j R => exact ⟨h.1.fade hf, hrepo R h.2⟩
  | taken j => exact Covered.fade h hf
  | starting j => exact ⟨h.1.fade hf, h.2.fade hf⟩
  | launched j => exact Dequeued.fade h hf
  | lost => exact h

theorem Funded.fade (h : Funded py db f m) (hf : Fades py db db' f f') : Funded py db' f' m := by
  intro j r' hr'
  rcases hf.row j r' hr' with ⟨r, hr, hfade⟩ | ⟨-, hq, hle⟩
  · obtain ⟨hqueued, hrunning⟩ := h j r hr
    rw [hfade.1]
    constructor
    · intro hq'
      have hq : r.state = .queued := by rw [← hfade.state_eq (by simp [hq']), hq']
      refine (hqueued hq).imp_right fun hle => hle.trans (hf.credit_of_not hr ?_)
      rw [hq]
      decide
    · intro hrun'
      have hrun : r.state = .running := by rw [← hfade.state_eq (by simp [hrun']), hrun']
      rcases hf.credit j with hle | ⟨s, s', -, -, hs', hsucc⟩
      · exact (hrunning hrun).trans hle
      · rw [hr'] at hs'
        cases hs'
        rw [hrun'] at hsucc
        cases hsucc
  · exact ⟨fun _ => .inr hle, fun hrun => by rw [hq] at hrun; cases hrun⟩

/-- The `UPDATE` of a job that the round has paid for. -/
theorem Funded.update {new : JobState} {result : Option String} {now : ℚ} {m' : Round}
    (h : Funded py db f m)
    (hrows : ∀ k, db'.getJob k =
      if k = j then (db.getJob k).map (Job.transition new result now) else db.getJob k)
    (hnew : new ≠ .queued) (htakes : ∀ k, m.takes k → k = j)
    (hcredit : new = .running → ∀ r, db.getJob j = some r →
      remainingChain py r.nextDispatchPayload ≤ f (.job j)) : Funded py db' f m' := by
  intro k r' hr'
  rw [hrows k] at hr'
  split_ifs at hr' with hk
  · subst hk
    obtain ⟨r, hr, rfl⟩ := Option.map_eq_some_iff.mp hr'
    exact ⟨fun hq => absurd hq hnew, fun hrun => hcredit hrun r hr⟩
  · obtain ⟨hqueued, hrunning⟩ := h k r' hr'
    exact ⟨fun hq => .inr ((hqueued hq).resolve_left fun ht => hk (htakes k ht)), hrunning⟩

/-- Steps that put no job into `needs_controller`. -/
theorem Backed.keep {stage : CallStage} (h : Backed py db f a j stage)
    (hwait : WaitedBefore db db') (hle : f (.call a) ≤ f' (.call a)) :
    Backed py db' f' a j stage := by
  cases stage with
  | completing =>
    intro r' hr' hs'
    obtain ⟨r, hr, hs, hpayload⟩ := hwait j r' hr' hs'
    rw [hpayload]
    exact (h r hr hs).trans hle
  | holding payload => exact le_trans h hle
  | _ => trivial

theorem Fades.waitedBefore (h : Fades py db db' f f') : WaitedBefore db db' := by
  intro j r' hr' hs
  rcases h.row j r' hr' with ⟨r, hr, hfade⟩ | ⟨-, hq, -⟩
  · exact ⟨r, hr, by rw [← hfade.state_eq (by simp [hs]), hs], hfade.1⟩
  · rw [hs] at hq
    cases hq

end Accounts

/-! ## One operation of another thread -/

section Exec

variable {py : PyLib} {f f' : Credits Holder} {o : Op} {i : Inputs} {w : World} {c : Sys} {t : Tid}

/-- What a reader or the command line does to a row. -/
theorem fadesTo_of_jobStep (ht : t ≠ .daemon) (ho : c.performs t o) {r r' : Job}
    (h : JobStep i o r r') : r.FadesTo r' := by
  cases h with
  | transition current new result =>
    refine ⟨rfl, .inr ?_⟩
    cases t with
    | daemon => exact absurd rfl ht
    | reader a =>
      have hnew := (Op.ofReader.target ho).2
      revert hnew
      simp only [Job.transition]
      cases new <;> simp
    | cli n => exact absurd ho Op.not_ofCli_transition
  | rateLimit T R hv => exact ⟨rfl, .inr (by simp [Job.rateLimit])⟩
  | succeed R result hv => exact ⟨rfl, .inr (by simp [Job.succeed])⟩
  | _ => exact ⟨rfl, .inl rfl⟩

theorem fades_exec (ht : t ≠ .daemon) (ho : c.performs t o)
    (hnew : ∀ n, o = .createJob n →
      remainingChain py n.nextDispatchPayload + 1 ≤ f' (.job (w.db.jobs.seq + 1)))
    (hcredit : ∀ j, f (.job j) ≤ f' (.job j) ∨ ∃ r r', w.db.getJob j = some r ∧
      JobState.succeeded ∈ r.state.validTransitions ∧
      (exec o i w).2.db.getJob j = some r' ∧ r'.state = .succeeded) :
    Fades py w.db (exec o i w).2.db f f' where
  keeps := keeps_exec o i w
  row j r' hr' := by
    cases hr : w.db.getJob j with
    | none =>
      obtain ⟨n, hn, hj, hrow⟩ := exec_newJob hr hr'
      refine .inr ⟨rfl, by rw [hrow]; rfl, ?_⟩
      rw [hrow, hj]
      exact hnew n hn
    | some r =>
      obtain ⟨s, hs, hstep⟩ := exec_job o i hr
      rw [hr'] at hs
      cases hs
      exact .inl ⟨r, rfl, fadesTo_of_jobStep ht ho hstep⟩
  credit := hcredit

/-- Only the `UPDATE` of `transition_job` changes a job in the dispatch phase. -/
theorem dispatch_getJob (ho : Phase.dispatch.performs o)
    (hu : ∀ k current new result, o ≠ .updateJobState k current new result) (j : ℕ) :
    (exec o i w).2.db.getJob j = w.db.getJob j := by
  cases hr : w.db.getJob j with
  | none =>
    apply exec_noJob i hr
    rintro n rfl
    simp [Phase.performs, Op.isRead, Op.isTransition] at ho
  | some r =>
    obtain ⟨r', hr', hstep⟩ := exec_job o i hr
    cases hstep with
    | keep => exact hr'
    | transition current new result => exact absurd rfl (hu _ _ _ _)
    | _ => simp [Phase.performs, Op.isRead, Op.isTransition] at ho

end Exec

namespace Sys

variable {c c' : Sys} {f f' : Credits Holder} {m m' : Round} {a : ℕ} {i : Inputs} {o : Op}

/-- The call of `on_complete` for attempt `a` has the credit that it needs. -/
def CallPaid (py : PyLib) (f : Credits Holder) (c : Sys) (a : ℕ) : Prop :=
  ∃ j stage, (c.prog (.reader a)).Follows (callMonitor py j) (fun _ _ => True) (fun _ _ => True)
    stage ∧ Backed py c.shared.db f a j stage

theorem CallPaid.keep {py : PyLib} (h : CallPaid py f c a)
    (hp : c'.prog (.reader a) = c.prog (.reader a))
    (hwait : WaitedBefore c.shared.db c'.shared.db) (hle : f (.call a) ≤ f' (.call a)) :
    CallPaid py f' c' a := by
  obtain ⟨j, stage, hfollow, hback⟩ := h
  refine ⟨j, stage, ?_, hback.keep hwait hle⟩
  rw [hp]
  exact hfollow

/-- `on_success` of a call: the job pays for the payload that it returns. A call that
    finds the job in `needs_controller` has a credit of its own. -/
theorem credits_onSuccess {py : PyLib} {R j : ℕ} {result : Option String} {info : ChainInfo}
    (hfunded : Funded py c.shared.db f m) (hback : Backed py c.shared.db f a j .completing)
    (ho : c.performs (.reader a) (.onSuccess R j result))
    (hinfo : (exec (.onSuccess R j result) i c.shared).1 = some info) :
    ∃ f', Fades py c.shared.db (exec (.onSuccess R j result) i c.shared).2.db f f' ∧
      f'.total ≤ f.total ∧ (∀ b, b ≠ a → f (.call b) ≤ f' (.call b)) ∧
      remainingChain py info.nextDispatchPayload ≤ f' (.call a) := by
  obtain ⟨r, hr, hv, rfl, -, -, hrows⟩ := onSuccess_some hinfo
  have hself : (exec (.onSuccess R j result) i c.shared).2.db.getJob j =
      some (r.succeed result i.now) := (hrows j).trans (if_pos rfl)
  by_cases hrun : r.state = .running
  · have hle := (hfunded j r hr).2 hrun
    have htotal := f.total_pay (.job j) (.call a) (remainingChain py r.nextDispatchPayload)
    refine ⟨f.pay (.job j) (.call a) (remainingChain py r.nextDispatchPayload), ?_, by omega,
      fun b _ => Credits.le_pay_of_ne (by simp) _ _, f.le_pay_self _ _ _⟩
    refine fades_exec (by simp) ho (by simp) fun l => ?_
    by_cases hl : l = j
    · subst hl
      exact .inr ⟨r, _, hr, hv, hself, rfl⟩
    · exact .inl (Credits.le_pay_of_ne (by simpa using hl) _ _)
  · have hwait : r.state = .needsController := by
      revert hv hrun
      cases r.state <;> simp [JobState.validTransitions]
    exact ⟨f, fades_exec (by simp) ho (by simp) fun _ => .inl (le_refl _), le_refl _,
      fun _ _ => le_refl _, hback r hr hwait⟩

/-- `create_job` of a call: the payload that it holds pays for the new job. -/
theorem credits_createJob {py : PyLib} {n : NewJob} {payload : Option String}
    (hle : remainingChain py n.nextDispatchPayload + 1 ≤ remainingChain py payload)
    (hpaid : remainingChain py payload ≤ f (.call a))
    (ho : c.performs (.reader a) (.createJob n)) :
    ∃ f', Fades py c.shared.db (exec (.createJob n) i c.shared).2.db f f' ∧
      f'.total ≤ f.total ∧ ∀ b, b ≠ a → f (.call b) ≤ f' (.call b) := by
  have htotal := f.total_pay (.call a) (.job (c.shared.db.jobs.seq + 1))
    (remainingChain py n.nextDispatchPayload + 1)
  refine ⟨f.pay (.call a) (.job (c.shared.db.jobs.seq + 1))
    (remainingChain py n.nextDispatchPayload + 1), ?_, by omega,
    fun b hb => Credits.le_pay_of_ne (by simpa using hb) _ _⟩
  refine fades_exec (by simp) ho ?_ fun l => .inl (Credits.le_pay_of_ne (by simp) _ _)
  rintro _ ⟨⟩
  exact f.le_pay_self _ _ _

/-- An operation of the call of attempt `a` keeps it paid. -/
theorem CallPaid.self {py : PyLib} (h : CallPaid py f c a)
    (hfunded : Funded py c.shared.db f m) (hfoot : c.Footprint)
    (hs : Pool.step exec c (.reader a) i = some c') :
    ∃ f', Fades py c.shared.db c'.shared.db f f' ∧ f'.total ≤ f.total ∧
      (∀ b, b ≠ a → f (.call b) ≤ f' (.call b)) ∧ CallPaid py f' c' a := by
  obtain ⟨o, -, -, hn, hshared, -, -⟩ := Pool.step_cases hs
  obtain ⟨j, stage, hfollow, hback⟩ := h
  obtain ⟨hok, hfollow'⟩ := Pool.follows_step hs hn trivial hfollow
  have ho : c.performs (.reader a) o := hfoot.next? hn
  have hquiet : (∀ n, o ≠ .createJob n) →
      Fades py c.shared.db (exec o i c.shared).2.db f f := fun hne =>
    fades_exec (by simp) ho (fun n hc => absurd hc (hne n)) fun _ => .inl (le_refl _)
  unfold CallPaid
  rw [hshared]
  cases o with
  | onSuccess R k result =>
    obtain ⟨rfl, rfl⟩ := hok
    cases hinfo : (exec (.onSuccess R k result) i c.shared).1 with
    | none =>
      rw [hinfo] at hfollow'
      exact ⟨f, hquiet (by simp), le_refl _, fun _ _ => le_refl _, k, .done, hfollow', trivial⟩
    | some info =>
      rw [hinfo] at hfollow'
      obtain ⟨f', hfade, htotal, hothers, hle⟩ := credits_onSuccess hfunded hback ho hinfo
      exact ⟨f', hfade, htotal, hothers, k, .holding info.nextDispatchPayload, hfollow', hle⟩
  | createJob n =>
    obtain ⟨payload, rfl, hle⟩ := hok
    obtain ⟨f', hfade, htotal, hothers⟩ := credits_createJob (i := i) hle hback ho
    exact ⟨f', hfade, htotal, hothers, j, .done, hfollow', trivial⟩
  | getJob k =>
    refine ⟨f, hquiet (by simp), le_refl _, fun _ _ => le_refl _, j, _, hfollow', ?_⟩
    cases hjob : (exec (.getJob k) i c.shared).1 with
    | none => exact hback
    | some job =>
      simp only [callMonitor]
      split_ifs with hact
      · obtain ⟨rfl, hact⟩ := hact
        intro r hr hwait
        have heq : some job = some r := hjob.symm.trans hr
        cases heq
        rw [hwait] at hact
        cases hact
      · exact hback
  | _ =>
    have hfade := hquiet (by simp)
    exact ⟨f, hfade, le_refl _, fun _ _ => le_refl _, j, stage, hfollow',
      hback.keep hfade.waitedBefore (le_refl _)⟩

/-! ## The invariant -/

/-- Within the loop: the daemon is in the round `m`, and the credits `f` are enough. -/
structure Balanced (cfg : Settings) (c : Sys) (f : Credits Holder) (m : Round) : Prop where
  footprint : c.Footprint
  phase : c.shared.phase = .dispatch
  daemon : (c.prog .daemon).Follows roundMonitor (fun p m => p = .dispatch → m.over)
    (fun _ _ => False) m
  round : InRound cfg.py c.shared.db f m
  funded : Funded cfg.py c.shared.db f m
  calls : ∀ a, CallPaid cfg.py f c a

/-- The daemon stays where it is. -/
theorem Balanced.fade (h : Balanced cfg c f m) (hfoot : c'.Footprint)
    (hphase : c'.shared.phase = c.shared.phase) (hp : c'.prog .daemon = c.prog .daemon)
    (hfade : Fades cfg.py c.shared.db c'.shared.db f f') (hcalls : ∀ a, CallPaid cfg.py f' c' a) :
    Balanced cfg c' f' m where
  footprint := hfoot
  phase := hphase.trans h.phase
  daemon := by
    rw [hp]
    exact h.daemon
  round := h.round.fade hfade
  funded := h.funded.fade hfade
  calls := hcalls

theorem Balanced.reader (h : Balanced cfg c f m)
    (hs : Sys.step cfg c (.run (.reader a) i) = some c') :
    ∃ f', Balanced cfg c' f' m ∧ f'.total ≤ f.total := by
  have hfoot := h.footprint.step hs
  have hs : Pool.step exec c (.reader a) i = some c' := hs
  obtain ⟨o, -, -, -, hshared, -, hother⟩ := Pool.step_cases hs
  obtain ⟨f', hfade, htotal, hcalls, hself⟩ := (h.calls a).self h.funded h.footprint hs
  refine ⟨f', h.fade hfoot (by rw [hshared, exec_phase]) (hother _ (by simp)) hfade ?_, htotal⟩
  intro b
  by_cases hb : b = a
  · rw [hb]
    exact hself
  · exact (h.calls b).keep (hother _ (by simpa using hb)) hfade.waitedBefore (hcalls b hb)

/-- The command line creates no job. -/
theorem Balanced.cli {n : ℕ} (h : Balanced cfg c f m)
    (hs : Sys.step cfg c (.run (.cli n) i) = some c')
    (hnew : ∀ n', c.next? (.cli n) ≠ some (.createJob n')) : Balanced cfg c' f m := by
  have hfoot := h.footprint.step hs
  obtain ⟨o, -, -, hn, hshared, -, hother⟩ :=
    Pool.step_cases (show Pool.step exec c (.cli n) i = some c' from hs)
  have hfade : Fades cfg.py c.shared.db c'.shared.db f f := by
    rw [hshared]
    exact fades_exec (by simp) (h.footprint.next? hn)
      (fun n' hc => absurd (hc ▸ hn) (hnew n')) fun _ => .inl (le_refl _)
  refine h.fade hfoot (by rw [hshared, exec_phase]) (hother _ (by simp)) hfade fun b => ?_
  exact (h.calls b).keep (hother _ (by simp)) hfade.waitedBefore (le_refl _)

/-! ## One operation of the daemon -/

/-- The daemon goes on with its round. -/
theorem Balanced.own (h : Balanced cfg c f m) (hs : Sys.step cfg c (.run .daemon i) = some c')
    (hn : c.next? .daemon = some o) (hm : roundMonitor.next m o (exec o i c.shared).1 = m')
    (hwait : WaitedBefore c.shared.db c'.shared.db)
    (hle : ∀ a, f (.call a) ≤ f' (.call a)) (hround : InRound cfg.py c'.shared.db f' m')
    (hfunded : Funded cfg.py c'.shared.db f' m') : Balanced cfg c' f' m' := by
  have hfoot := h.footprint.step hs
  have hs : Pool.step exec c .daemon i = some c' := hs
  obtain ⟨o', -, -, hn', hshared, -, hother⟩ := Pool.step_cases hs
  refine ⟨hfoot, ?_, ?_, hround, hfunded, fun a => ?_⟩
  · rw [hshared, exec_phase]
    exact h.phase
  · rw [← hm]
    exact (Pool.follows_step hs hn trivial h.daemon).2
  · exact (h.calls a).keep (hother _ (by simp)) hwait (hle a)

/-- An operation that only reads. -/
theorem Balanced.read (h : Balanced cfg c f m) (hs : Sys.step cfg c (.run .daemon i) = some c')
    (hn : c.next? .daemon = some o) (ho : o.isRead = true)
    (hm : roundMonitor.next m o (exec o i c.shared).1 = m')
    (hle : ∀ a, f (.call a) ≤ f' (.call a)) (hround : InRound cfg.py c.shared.db f' m')
    (hfunded : Funded cfg.py c.shared.db f' m') : Balanced cfg c' f' m' := by
  have hshared := Pool.shared_step hs hn
  have hsame : c'.shared = c.shared := hshared.trans (exec_isRead ho)
  refine h.own hs hn hm ?_ hle (by rw [hsame]; exact hround) (by rw [hsame]; exact hfunded)
  intro j r' hr' hstate
  rw [hsame] at hr'
  exact ⟨r', hr', hstate, rfl⟩

/-- The listing. The rows are queued, so each of them has its credit. -/
theorem Balanced.listJobs {R : Option ℕ} {limit : ℕ} {now : Option ℚ}
    (h : Balanced cfg c f .idle) (hs : Sys.step cfg c (.run .daemon i) = some c')
    (hn : c.next? .daemon = some (.listJobs R (some .queued) limit now)) :
    Balanced cfg c' f (.listed (c.shared.db.listJobs R (some .queued) limit now) []) := by
  refine h.read hs hn rfl rfl (fun _ => le_refl _) ⟨fun r hr => ?_, by simp⟩ ?_
  · have hrow := Db.getJob_of_mem_listJobs hr
    have hq := Db.state_of_mem_listJobs hr
    refine ⟨⟨r, hrow, by rw [hq]; decide, ?_⟩, r, hrow, rfl⟩
    exact ((h.funded r.id r hrow).1 hq).resolve_left id
  · exact h.funded

/-- The round pays for the job that it starts. -/
theorem Balanced.choose {jobs : List Job} {repos : List ℕ} {r : Job}
    (h : Balanced cfg c f (.listed jobs repos)) (hs : Sys.step cfg c (.run .daemon i) = some c')
    (hn : c.next? .daemon = some (.getJob r.id)) (hr : r ∈ jobs) (hrepo : r.repoId ∈ repos) :
    ∃ f', Balanced cfg c' f' (.chosen r.id r.repoId) ∧ f'.total + 1 = f.total := by
  obtain ⟨hjobs, hrepos⟩ := h.round
  obtain ⟨⟨s, hrow, hv, hle⟩, s', hrow', hid⟩ := hjobs r hr
  rw [hrow] at hrow'
  cases hrow'
  have htotal := f.total_pay (.job r.id) (.job r.id) (f (.job r.id) - 1)
  have hself := f.le_pay_self (.job r.id) (.job r.id) (f (.job r.id) - 1)
  refine ⟨f.pay (.job r.id) (.job r.id) (f (.job r.id) - 1), ?_, by omega⟩
  refine h.read hs hn rfl ?_ (fun a => Credits.le_pay_of_ne (by simp) _ _) ?_ ?_
  · have hanswer : (exec (.getJob r.id) i c.shared).1 = some s := hrow
    rw [hanswer, ← hid]
    rfl
  · exact ⟨⟨s, hrow, hv, by omega⟩, hrepos r.repoId hrepo⟩
  · intro k t ht
    obtain ⟨hqueued, hrunning⟩ := h.funded k t ht
    by_cases hk : k = r.id
    · subst hk
      refine ⟨fun _ => .inl rfl, fun hrun => ?_⟩
      rw [hrow] at ht
      cases ht
      rw [hrun] at hv
      exact absurd (by decide) hv
    · have hne := Credits.le_pay_of_ne (f := f) (show Holder.job k ≠ .job r.id by simpa using hk)
        (.job r.id) (f (.job r.id) - 1)
      exact ⟨fun hq => .inr (((hqueued hq).resolve_left id).trans hne),
        fun hrun => (hrunning hrun).trans hne⟩

/-- The check of `transition_job(job_id, "starting")`. -/
theorem Balanced.check {j : ℕ} (h : Balanced cfg c f (.taken j))
    (hs : Sys.step cfg c (.run .daemon i) = some c')
    (hn : c.next? .daemon = some (.getJob j)) :
    Balanced cfg c' f (.taken j) ∨ Balanced cfg c' f (.launched j) := by
  obtain ⟨s, hrow, hv, hle⟩ := h.round
  have hanswer : (exec (.getJob j) i c.shared).1 = some s := hrow
  by_cases hq : s.state = .queued
  · refine .inl (h.read hs hn rfl ?_ (fun _ => le_refl _) h.round h.funded)
    rw [hanswer]
    exact if_pos (by simpa using hq)
  · refine .inr (h.read hs hn rfl ?_ (fun _ => le_refl _) ⟨s, hrow, hq⟩ ?_)
    · rw [hanswer]
      exact if_neg (by simpa using hq)
    · intro k t ht
      obtain ⟨hqueued, hrunning⟩ := h.funded k t ht
      refine ⟨fun hq' => .inr ((hqueued hq').resolve_left ?_), hrunning⟩
      rintro rfl
      rw [hrow] at ht
      cases ht
      exact hq hq'

/-- The `UPDATE` of `transition_job` in a round. -/
theorem Balanced.update {j : ℕ} {current new : JobState} {result : Option String}
    (h : Balanced cfg c f m) (hs : Sys.step cfg c (.run .daemon i) = some c')
    (hn : c.next? .daemon = some (.updateJobState j current new result)) :
    (m = .taken j ∧ Balanced cfg c' f (.starting j)) ∨
      ((m = .starting j ∨ m = .launched j) ∧ Balanced cfg c' f (.launched j)) := by
  have hshared := Pool.shared_step hs hn
  have hok := (Pool.follows_step hs hn trivial h.daemon).1
  have hcases : (m = .taken j ∧ new = .starting) ∨ (m = .starting j ∧ new = .running) ∨
      (m = .launched j ∧ new = .failedRetryable) := by
    cases m <;> exact hok
  have hrows : ∀ k, c'.shared.db.getJob k =
      if k = j then (c.shared.db.getJob k).map (Job.transition new result i.now)
      else c.shared.db.getJob k := fun k => by rw [hshared]; exact exec_update
  -- what the other jobs and the calls have is not touched
  have hwait : WaitedBefore c.shared.db c'.shared.db := by
    intro k r' hr' hstate
    rw [hrows k] at hr'
    split_ifs at hr' with hk
    · obtain ⟨r, -, rfl⟩ := Option.map_eq_some_iff.mp hr'
      obtain rfl : new = .needsController := hstate
      rcases hcases with ⟨-, hnew⟩ | ⟨-, hnew⟩ | ⟨-, hnew⟩ <;> cases hnew
    · exact ⟨r', hr', hstate, rfl⟩
  have hself : ∀ r, c.shared.db.getJob j = some r →
      c'.shared.db.getJob j = some (r.transition new result i.now) := fun r hr => by
    rw [hrows j, if_pos rfl, hr]
    rfl
  rcases hcases with ⟨rfl, rfl⟩ | ⟨rfl, rfl⟩ | ⟨rfl, rfl⟩
  · obtain ⟨r, hr, hv, hle⟩ := h.round
    refine .inl ⟨rfl, h.own hs hn rfl hwait (fun _ => le_refl _) ⟨⟨_, hself r hr, ?_, hle⟩,
      _, hself r hr, ?_⟩ (h.funded.update hrows (by simp) (fun k hk => hk) (by simp))⟩
    · simp [Job.transition, JobState.validTransitions]
    · simp [Job.transition]
  · obtain ⟨⟨r, hr, hv, hle⟩, -⟩ := h.round
    refine .inr ⟨.inl rfl, h.own hs hn rfl hwait (fun _ => le_refl _) ⟨_, hself r hr, ?_⟩
      (h.funded.update hrows (by simp) (fun k hk => hk.elim) fun _ s hs' => ?_)⟩
    · simp [Job.transition]
    · rw [hr] at hs'
      cases hs'
      exact hle
  · obtain ⟨r, hr, -⟩ := h.round
    refine .inr ⟨.inr rfl, h.own hs hn rfl hwait (fun _ => le_refl _) ⟨_, hself r hr, ?_⟩
      (h.funded.update hrows (by simp) (fun k hk => hk.elim) (by simp))⟩
    simp [Job.transition]

/-- An operation of the daemon that is not one of the round. -/
theorem Balanced.quiet (h : Balanced cfg c f m) (hs : Sys.step cfg c (.run .daemon i) = some c')
    (hn : c.next? .daemon = some o) (hm : roundMonitor.next m o (exec o i c.shared).1 = m)
    (hu : ∀ k current new result, o ≠ .updateJobState k current new result) :
    Balanced cfg c' f m := by
  have hshared := Pool.shared_step hs hn
  have ho : Phase.dispatch.performs o := by
    have hperforms := h.footprint.next? hn
    rwa [performs, h.phase] at hperforms
  have hrows : ∀ j, c'.shared.db.getJob j = c.shared.db.getJob j := fun j => by
    rw [hshared]
    exact dispatch_getJob ho hu j
  have hfade : Fades cfg.py c.shared.db c'.shared.db f f := by
    refine ⟨by rw [hshared]; exact keeps_exec o i c.shared, fun j r' hr' => ?_,
      fun _ => .inl (le_refl _)⟩
    rw [hrows j] at hr'
    exact .inl ⟨r', hr', rfl, .inl rfl⟩
  exact h.own hs hn hm hfade.waitedBefore (fun _ => le_refl _)
    (h.round.fade hfade) (h.funded.fade hfade)

theorem Balanced.daemon_run (h : Balanced cfg c f m)
    (hs : Sys.step cfg c (.run .daemon i) = some c') :
    ∃ f' m', Balanced cfg c' f' m' ∧ m'.cost + f'.total ≤ m.cost + f.total := by
  obtain ⟨o, -, -, hn, -, -, -⟩ :=
    Pool.step_cases (show Pool.step exec c .daemon i = some c' from hs)
  have hok := (Pool.follows_step (show Pool.step exec c .daemon i = some c' from hs) hn trivial
    h.daemon).1
  have hquiet : roundMonitor.next m o (exec o i c.shared).1 = m →
      (∀ k current new result, o ≠ .updateJobState k current new result) →
      ∃ f' m', Balanced cfg c' f' m' ∧ m'.cost + f'.total ≤ m.cost + f.total :=
    fun hm hu => ⟨f, m, h.quiet hs hn hm hu, le_refl _⟩
  cases o with
  | updateJobState j current new result =>
    rcases h.update hs hn with ⟨rfl, h'⟩ | ⟨hm, h'⟩
    · exact ⟨f, _, h', le_refl _⟩
    · refine ⟨f, _, h', ?_⟩
      rcases hm with rfl | rfl <;> exact le_refl _
  | listJobs R s limit now =>
    cases m with
    | idle =>
      obtain rfl : s = some .queued := hok
      exact ⟨f, _, h.listJobs hs hn, le_refl _⟩
    | _ => exact hquiet rfl (by simp)
  | getRepoById R =>
    cases m with
    | listed jobs repos =>
      cases hp : c.shared.db.getRepoById R with
      | none =>
        exact hquiet (congrArg (roundMonitor.next (.listed jobs repos) (.getRepoById R)) hp)
          (by simp)
      | some p =>
        refine ⟨f, .listed jobs (R :: repos), h.read hs hn rfl
          (congrArg (roundMonitor.next (.listed jobs repos) (.getRepoById R)) hp)
          (fun _ => le_refl _) ⟨h.round.1, fun R' hR' => ?_⟩ h.funded, le_refl _⟩
        rcases List.mem_cons.mp hR' with rfl | hR'
        · exact ⟨p, hp⟩
        · exact h.round.2 R' hR'
    | chosen j R' =>
      obtain rfl : R = R' := hok
      obtain ⟨hcov, p, hp⟩ := h.round
      exact ⟨f, .taken j, h.read hs hn rfl
        (congrArg (roundMonitor.next (.chosen j R) (.getRepoById R)) hp) (fun _ => le_refl _) hcov
        h.funded, le_refl _⟩
    | _ => exact hquiet rfl (by simp)
  | getJob j =>
    cases m with
    | listed jobs repos =>
      obtain ⟨r, hr, rfl, hrepo⟩ := hok
      obtain ⟨f', h', htotal⟩ := h.choose hs hn hr hrepo
      refine ⟨f', _, h', ?_⟩
      simp only [Round.cost]
      omega
    | taken k =>
      obtain rfl : j = k := hok
      rcases h.check hs hn with h' | h'
      · exact ⟨f, _, h', le_refl _⟩
      · exact ⟨f, _, h', le_refl _⟩
    | _ => exact hquiet rfl (by simp)
  | _ =>
    refine hquiet ?_ (by simp)
    cases m <;> rfl

theorem Balanced.exit {b : ℕ} {code : ℤ} {result : Option String} {rl : Bool}
    (hpy : Reloads cfg.py) (h : Balanced cfg c f m)
    (hs : Sys.step cfg c (.exit b code result rl) = some c') : Balanced cfg c' f m := by
  have hfoot := h.footprint.step hs
  obtain ⟨w, -, -, rfl⟩ := step_exit hs
  refine h.fade hfoot rfl (Pool.load_prog_of_ne _ _ (by simp)) (.refl _ _ _) fun a => ?_
  by_cases hab : a = b
  · subst hab
    refine ⟨w.callback.jobId, .checking, ?_, trivial⟩
    rw [Pool.load_prog_self]
    exact calls_onComplete hpy w.callback code result rl
  · exact (h.calls a).keep (Pool.load_prog_of_ne _ _ (by simpa using hab))
      (fun _ r' hr' hstate => ⟨r', hr', hstate, rfl⟩) (le_refl _)

/-- The next round. -/
theorem Balanced.next (h : Balanced cfg c f m) (hp : c.prog .daemon = .ret .dispatch)
    (hs : Sys.step cfg c .next = some c') :
    Balanced cfg c' f .idle ∧ c'.prog .daemon = Daemon.phaseProg cfg .dispatch ∧ m.cost = 1 := by
  have hfoot := h.footprint.step hs
  have hover : m.over := by
    have hm := h.daemon
    rw [hp] at hm
    exact hm rfl
  obtain ⟨p, hp', -, rfl⟩ := step_next hs
  rw [hp] at hp'
  cases hp'
  refine ⟨⟨hfoot, rfl, ?_, trivial, ?_, h.calls⟩, Pool.load_prog_self _ _ _,
    Round.cost_of_over hover⟩
  · rw [Pool.load_prog_self]
    exact rounds_phaseProg cfg
  · intro j r hr
    obtain ⟨hqueued, hrunning⟩ := h.funded j r hr
    refine ⟨fun hq => .inr ((hqueued hq).resolve_left fun ht => ?_), hrunning⟩
    cases m with
    | chosen => exact hover
    | taken => exact hover
    | _ => exact ht

end Sys

end DiscordAgent
