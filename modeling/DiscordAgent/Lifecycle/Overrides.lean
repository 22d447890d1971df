import DiscordAgent.Interleave.Monitor
import DiscordAgent.Interleave.Watch
import DiscordAgent.Lifecycle.Transitions

/-!
# Watchdog decisions and completions

`check_all` decides on the job list it has read and swallows a `transition_job`
that fails. Between the list and `apply_recovery` a worker can complete its job,
and `apply_recovery` then works on the state that the completion has left.

Results:
* `Sys.completions_kept`: along every run in which `apply_recovery` starts, for
  a job that has completed in the meantime, only from a final state or with an
  action other than a retry, no operation of `apply_recovery` changes the state
  of such a job.
* `applyRecovery_keeps_iff`: run alone, `apply_recovery` leaves a completed job
  alone exactly then.
* `Sys.completion_overridden`: `retry_same_session` puts a job back into the
  queue that has just become `rate_limited`.
-/

namespace DiscordAgent

open Interleave Orchestrator

/-- The actions with a transition out of `rate_limited` and
    `failed_retryable`. -/
def RecoveryKind.overrides : RecoveryKind → Bool
  | retrySameSession | forkSession | backoff | escalate => true
  | reportLost | unknown _ => false

theorem needsController_of_targets {k : RecoveryKind} (h : k.overrides = false) {s : JobState}
    (hs : s ∈ k.targets) : s = .needsController := by
  cases k with
  | reportLost => exact List.mem_singleton.mp hs
  | unknown name => cases hs
  | _ => cases h

theorem running_of_needsController {s : JobState}
    (h : JobState.needsController ∈ s.validTransitions) : s = .running := by
  revert h
  cases s <;> decide

/-! ## What the watchdog performs -/

/-- The log lines around `apply_recovery` (`_run_watchdog`). -/
def Op.bracket : Op → Prop
  | logRecovery _ | logRecoveryResult .. => True
  | _ => False

/-- The action that `apply_recovery` is carrying out. Meanwhile an action that
    does not override asks for `needs_controller` only. -/
def recoveryMonitor : Monitor Op Op.Res (Option RecoveryAction) where
  answers _ _ := True
  ok m o := ∀ a, m = some a → a.action.overrides = false →
    ∀ j current new result, o = .updateJobState j current new result → new = .needsController
  next m o _ :=
    match o with
    | .logRecovery a => some a
    | .logRecoveryResult .. => none
    | _ => m

theorem recoveryMonitor_next {m : Option RecoveryAction} {o : Op} (h : ¬ o.bracket) (r : o.Res) :
    recoveryMonitor.next m o r = m := by
  cases o with
  | logRecovery => exact absurd trivial h
  | logRecoveryResult => exact absurd trivial h
  | _ => rfl

theorem not_bracket_of_read {o : Op} (h : o.isRead = true) : ¬ o.bracket := by
  intro ho
  cases o with
  | logRecovery => cases h
  | logRecoveryResult => cases h
  | _ => exact ho

/-- Outside of `apply_recovery` everything is allowed. -/
theorem follows_outside {α : Type} {p : Py α} (hp : p.Emits fun o => ¬ o.bracket) :
    p.Follows recoveryMonitor (fun _ m => m = none) (fun _ m => m = none) none := by
  refine Prog.follows_of_emits (I := fun m => m = none) hp ?_ rfl
  rintro o m ho rfl
  constructor
  · intro a ha
    cases ha
  · intro r _
    exact recoveryMonitor_next ho r

/-- `apply_recovery` keeps to the targets of its action. -/
theorem follows_applyRecovery (a : RecoveryAction) :
    (Watchdog.applyRecovery a).Follows recoveryMonitor (fun _ m => m = some a)
      (fun _ m => m = some a) (some a) := by
  have hp : (Watchdog.applyRecovery a).Emits fun o => ¬ o.bracket ∧ (a.action.overrides = false →
      ∀ j current new result, o = .updateJobState j current new result →
        new = .needsController) := by
    apply emits_applyRecovery_of
    · intro o h
      refine ⟨not_bracket_of_read h, ?_⟩
      rintro - j current new result rfl
      cases h
    · intro k
      exact ⟨id, fun _ _ _ _ _ ho => by cases ho⟩
    · intro k code error
      exact ⟨id, fun _ _ _ _ _ ho => by cases ho⟩
    · intro s state _
      exact ⟨id, fun _ _ _ _ _ ho => by cases ho⟩
    · intro R
      exact ⟨id, fun _ _ _ _ _ ho => by cases ho⟩
    · intro current new text hv ht
      refine ⟨id, ?_⟩
      rintro hno j current' new' text' ho
      cases ho
      exact needsController_of_targets hno ht
  refine Prog.follows_of_emits (I := fun m => m = some a) hp ?_ rfl
  rintro o m ⟨hb, ho⟩ rfl
  constructor
  · rintro a' ha hno
    cases ha
    exact ho hno
  · intro r _
    exact recoveryMonitor_next hb r

theorem follows_watchdogStep (cfg : Settings) :
    (Daemon.watchdogStep cfg).Follows recoveryMonitor (fun _ m => m = none) (fun _ _ => True)
      none := by
  have hr : ∀ o : Op, o.isRead = true → ¬ o.bracket := fun o h => not_bracket_of_read h
  have hout : ∀ {α : Type} {p : Py α}, (p.Emits fun o => ¬ o.bracket) →
      p.Follows recoveryMonitor (fun _ m => m = none) (fun _ _ => True) none := fun hp =>
    (follows_outside hp).mono (fun _ _ h => h) fun _ _ _ => trivial
  refine (hout (emits_read hr rfl)).bind fun now m hm => ?_
  subst hm
  refine (hout (emits_read hr rfl)).bind fun last m hm => ?_
  subst hm
  apply Prog.follows_runIf
  · intro _
    refine Prog.Follows.bind (R := fun _ m => m = none) ?_ fun _ m hm => ?_
    · refine Prog.Follows.bind (hout ?_) fun actions m hm => ?_
      · exact (emits_read hr rfl).bind fun running => (emits_read hr rfl).bind fun starting =>
          Prog.emits_collect fun job _ => emits_checkJob_of hr (fun _ _ _ _ => id) cfg
      · subst hm
        refine Prog.follows_forEach (J := fun _ m => m = none) (fun a as m hm => ?_) actions none
          rfl
        subst hm
        refine Prog.Follows.bind (R := fun _ m => m = some a)
          (Prog.follows_perform (fun a' ha => by cases ha) fun _ _ => rfl) fun _ m hm => ?_
        subst hm
        refine Prog.Follows.bind (R := fun _ m => m = some a)
          ((follows_applyRecovery a).mono (fun _ _ h => h) fun _ _ _ => trivial)
          fun result m hm => ?_
        subst hm
        refine Prog.follows_perform ?_ fun _ _ => rfl
        rintro a' - - j current new text ho
        cases ho
    · subst hm
      exact hout (emits_op id)
  · rfl

theorem not_bracket_of_phase {p : Phase} (hp : p ≠ .watchdog) {o : Op} (h : p.performs o) :
    ¬ o.bracket := by
  intro ho
  cases o with
  | logRecovery | logRecoveryResult => exact hp (h.home rfl)
  | _ => exact ho

theorem follows_phaseProg (cfg : Settings) (p : Phase) :
    (Daemon.phaseProg cfg p).Follows recoveryMonitor (fun _ m => m = none) (fun _ _ => True)
      none := by
  by_cases hp : p = .watchdog
  · subst hp
    exact (follows_watchdogStep cfg).bind fun _ m hm => hm
  · have hout : (Daemon.phaseProg cfg p).Emits fun o => ¬ o.bracket :=
      (emits_phaseProg cfg p).mono fun o ho => not_bracket_of_phase hp ho
    exact (follows_outside hout).mono (fun _ _ h => h) fun _ _ _ => trivial

/-! ## Run alone -/

section Alone

variable {ω : ℕ → Inputs} {w : World} {j : ℕ} {r : Job} {new : JobState} {result : Option String}

/-- The state of job `j`. -/
def World.jobState (w : World) (j : ℕ) : Option JobState := (w.db.getJob j).map Job.state

variable (hr : w.db.getJob j = some r)
include hr

theorem jobState_of_update (i : Inputs) (current : JobState) :
    (exec (.updateJobState j current new result) i w).2.jobState j = some new := by
  unfold World.jobState
  rw [exec_update, if_pos rfl, hr]
  rfl

/-- `try: transition_job(...)` with a handler. -/
theorem jobState_try {α : Type} {a : α} {h : PyErr → Py α} {s : JobState}
    (hh : new ∉ r.state.validTransitions → ∀ e ω, e.isValueError = true →
      ((h e).eval exec ω w).2.jobState j = some s) :
    ((((transitionJob j new result).bind fun _ => .ret a).tryCatch (onValueError h)).eval exec
      ω w).2.jobState j = some (if new ∈ r.state.validTransitions then new else s) := by
  have hget : exec (.getJob j) (ω 0) w = (some r, w) := by simp only [exec, hr]
  simp only [transitionJob, Prog.bind_eq, Prog.perform_bind, Prog.call_bind, Prog.tryCatch,
    Prog.eval]
  rw [hget]
  split_ifs with hv
  · simp only [if_pos hv, Prog.perform_bind, Prog.tryCatch, Prog.eval]
    exact jobState_of_update hr _ _
  · simp only [if_neg hv, Prog.raise_bind, Prog.tryCatch]
    exact hh hv _ _ rfl

theorem jobState_ignore {α : Type} (a : α) :
    (((ignoreValueError (transitionJob j new result)).bind fun _ => .ret a).eval exec
      ω w).2.jobState j = some (if new ∈ r.state.validTransitions then new else r.state) := by
  have hp : transitionJob j new result = (transitionJob j new result).bind fun _ => .ret () :=
    (Prog.bind_ret _).symm
  rw [Prog.eval_bind_ret, hp]
  apply jobState_try hr
  intro _ e ω _
  unfold World.jobState
  rw [Prog.eval, hr]
  rfl

end Alone

theorem find_target (t s : JobState) (valid : List JobState) :
    ([t].find? (· ∈ valid)).getD s = if t ∈ valid then t else s := by
  split_ifs with h <;> simp [h]

/-- The end of `fork_session`: without an edge to `queued` there is an attempt at
    `failed_permanent`. -/
theorem jobState_fork {ω : ℕ → Inputs} {w : World} {j : ℕ} {r : Job} {x : RecoveryResult}
    (hr : w.db.getJob j = some r) :
    ((((transitionJob j .queued).bind fun _ => .ret x).tryCatch (onValueError fun e =>
      (ignoreValueError (transitionJob j .failedPermanent
        (some "Max retries exceeded after fork"))).bind fun _ =>
          .ret (.failedPermanent j e))).eval exec ω w).2.jobState j =
      some (([JobState.queued, .failedPermanent].find? (· ∈ r.state.validTransitions)).getD
        r.state) := by
  refine (jobState_try hr (s := if .failedPermanent ∈ r.state.validTransitions then
    .failedPermanent else r.state) ?_).trans ?_
  · intro _ e ω _
    exact jobState_ignore hr _
  · by_cases hv : JobState.queued ∈ r.state.validTransitions
    · rw [if_pos hv, List.find?_cons_of_pos (by simpa using hv), Option.getD_some]
    · rw [if_neg hv, List.find?_cons_of_neg (by simpa using hv), find_target]

/-- Run alone for a job without a process, `apply_recovery` moves the job to the
    first state that its action asks for and that `VALID_TRANSITIONS` allows. -/
theorem jobState_applyRecovery (a : RecoveryAction) (ω : ℕ → Inputs) {w : World} {r : Job}
    (hr : w.db.getJob a.jobId = some r) (hidle : (r.state.active || r.state.limbo) = false) :
    ((Watchdog.applyRecovery a).eval exec ω w).2.jobState a.jobId =
      some ((a.action.targets.find? (· ∈ r.state.validTransitions)).getD r.state) := by
  have hget : ∀ i, exec (.getJob a.jobId) i w = (some r, w) := by
    intro i
    simp only [exec, hr]
  have hself : w.jobState a.jobId = some r.state := by
    unfold World.jobState
    rw [hr]
    rfl
  unfold Watchdog.applyRecovery
  simp only [Prog.bind_eq, Prog.perform_bind, Prog.eval, hget, hidle, Prog.runIf,
    Bool.false_eq_true, if_false, Prog.ret_bind]
  cases a.action with
  | retrySameSession | backoff =>
    refine Eq.trans (jobState_try hr (s := r.state) ?_) ?_
    · intro _ e ω _
      exact hself
    · rw [RecoveryKind.targets, find_target]
  | reportLost | escalate =>
    rw [RecoveryKind.targets, find_target]
    exact jobState_ignore hr _
  | unknown name => exact hself
  | forkSession =>
    simp only [Watchdog.markOldSessionDead, Prog.bind_eq, Prog.perform_bind, Prog.call_bind,
      Prog.eval]
    split
    · simp only [Prog.call_bind, Prog.ret_bind, Prog.eval]
      exact jobState_fork hr
    · simp only [Prog.ret_bind, Prog.eval]
      exact jobState_fork hr

/-- A job that has completed is left alone exactly if its state is final or the
    action does not override. -/
theorem applyRecovery_keeps_iff (a : RecoveryAction) (ω : ℕ → Inputs) {w : World} {r : Job}
    (hr : w.db.getJob a.jobId = some r)
    (hst : r.state ∈ [JobState.succeeded, .failedPermanent, .failedRetryable, .rateLimited]) :
    ((Watchdog.applyRecovery a).eval exec ω w).2.jobState a.jobId = some r.state ↔
      r.state.final = true ∨ a.action.overrides = false := by
  have hidle : (r.state.active || r.state.limbo) = false := by
    revert hst
    cases r.state <;> decide
  rw [jobState_applyRecovery a ω hr hidle, Option.some.injEq]
  revert hst
  cases a.action with
  | unknown name => simp [RecoveryKind.targets, RecoveryKind.overrides]
  | _ => cases r.state <;> decide

/-! ## Completions -/

namespace Sys

/-- What has happened to the jobs since `check_all` listed them: which ones a
    completion has taken out of `starting` and `running`, which action
    `apply_recovery` is carrying out, and whether its job had completed when it
    started. -/
structure Checks where
  completed : ℕ → Bool := fun _ => false
  current : Option RecoveryAction := none
  late : Bool := false

/-- Operation `o` takes job `j` out of `starting` and `running`. -/
def takesOut (c : Sys) (o : Op) (i : Inputs) (j : ℕ) : Bool :=
  (c.jobState j).any JobState.active &&
    (((exec o i c.shared).2.db.getJob j).map Job.state).any fun s => !s.active

namespace Checks

/-- The daemon performs `o`. -/
def perform (g : Checks) : Op → Checks
  | .listJobs none (some .running) _ _ => { g with completed := fun _ => false }
  | .logRecovery a => { g with current := some a, late := g.completed a.jobId }
  | .logRecoveryResult .. => { g with current := none }
  | _ => g

/-- The history after the next event. -/
def update (c : Sys) (e : Event) (g : Checks) : Checks :=
  match e with
  | .run .daemon _ => ((c.next? .daemon).map g.perform).getD g
  | .run (.reader a) i =>
    ((c.next? (.reader a)).map fun o =>
      { g with completed := fun j => g.completed j || c.takesOut o i j }).getD g
  | .next | .restart _ => {}
  | _ => g

end Checks

/-- `apply_recovery` starts for a job that has completed only from a final state
    or with an action that does not override. -/
def keepsCompletions (s : Sys × Checks) : Event → Bool
  | .run .daemon _ =>
    match s.1.next? .daemon with
    | some (.logRecovery a) =>
      !s.2.completed a.jobId || !a.action.overrides || (s.1.jobState a.jobId).all JobState.final
    | _ => true
  | _ => true

/-- Job `j` exists and is neither `starting` nor `running`. -/
def Inactive (c : Sys) (j : ℕ) : Prop := ∃ s, c.jobState j = some s ∧ s.active = false

variable {cfg : Settings} {c c' : Sys} {e : Event} {g g' : Checks} {j : ℕ}

theorem not_active_of_performs {t : Tid} {k : ℕ} {current new : JobState} {text : Option String}
    (hp : c.shared.phase = .watchdog) (h : c.performs t (.updateJobState k current new text)) :
    new.active = false := by
  cases t with
  | daemon =>
    have h : c.shared.phase.performs (.updateJobState k current new text) := h
    rw [hp] at h
    have hnone : ∀ s ∈ Phase.watchdog.targets, s.active = false := by decide
    exact hnone new h.target.2
  | reader a =>
    have hnone : ∀ s ∈ [JobState.failedRetryable, .failedPermanent], s.active = false := by decide
    exact hnone new (Op.ofReader.target h).2
  | cli n => exact absurd h Op.not_ofCli_transition

/-- During the watchdog phase no job becomes active. -/
theorem Footprint.inactive_stays (hc : c.Footprint) (hp : c.shared.phase = .watchdog)
    (h : Sys.step cfg c e = some c') (hj : c.Inactive j) : c'.Inactive j := by
  obtain ⟨s, hs, hact⟩ := hj
  unfold jobState at hs
  obtain ⟨r, hr, rfl⟩ := Option.map_eq_some_iff.mp hs
  obtain ⟨r', hr', hstep⟩ := hc.job h hr
  refine ⟨r'.state, by rw [jobState, hr', Option.map_some], ?_⟩
  rcases hstep with rfl | ⟨t, i, o, -, -, hperf, hstep⟩
  · exact hact
  · cases hstep with
    | transition current new text => exact not_active_of_performs hp hperf
    | rateLimit => rfl
    | succeed => rfl
    | _ => exact hact

/-- A daemon step of the watchdog phase under an action that does not override
    leaves an inactive job alone. -/
theorem Footprint.state_kept (hc : c.Footprint) {i : Inputs} {m : Option RecoveryAction}
    {a : RecoveryAction} (hp : c.shared.phase = .watchdog)
    (hfresh : c.fresh (.run .daemon i) = true) (h : Sys.step cfg c (.run .daemon i) = some c')
    (hok : ∀ o, c.next? .daemon = some o → recoveryMonitor.ok m o) (hm : m = some a)
    (hno : a.action.overrides = false) (hj : c.Inactive j) : c'.jobState j = c.jobState j := by
  obtain ⟨s, hs, hact⟩ := hj
  unfold jobState at hs ⊢
  obtain ⟨r, hr, rfl⟩ := Option.map_eq_some_iff.mp hs
  obtain ⟨r', hr', hstep⟩ := hc.job h hr
  rw [hr', hr]
  rcases hstep with rfl | ⟨t, i', o, he, hn, hperf, hstep⟩
  · rfl
  · cases he
    have hperf : c.shared.phase.performs o := hperf
    rw [hp] at hperf
    cases hstep with
    | transition current new text =>
      have hnew := hok _ hn a hm hno _ _ _ _ rfl
      have hcur := state_of_fresh hfresh hn (by rw [Db.getJob_id hr]; exact hr)
      have hv := hperf.target.1
      rw [hnew] at hv
      rw [hcur, running_of_needsController hv] at hact
      cases hact
    | rateLimit => simp [Phase.performs, Op.isRead, Op.isTransition] at hperf
    | succeed => simp [Phase.performs, Op.isRead, Op.isTransition] at hperf
    | _ => rfl

namespace Checks

/-- What an operation records. -/
theorem perform_cases (g : Checks) (o : Op) :
    (∃ a, o = .logRecovery a ∧
      g.perform o = { g with current := some a, late := g.completed a.jobId }) ∨
    (∃ a res, o = .logRecoveryResult a res ∧ g.perform o = { g with current := none }) ∨
    ((∀ a, o ≠ .logRecovery a) ∧ (∀ a res, o ≠ .logRecoveryResult a res) ∧
      ∃ f, g.perform o = { g with completed := f } ∧ ∀ j, f j = true → g.completed j = true) := by
  unfold perform
  split
  · exact .inr (.inr ⟨nofun, nofun, _, rfl, nofun⟩)
  · exact .inl ⟨_, rfl, rfl⟩
  · exact .inr (.inl ⟨_, _, rfl, rfl⟩)
  · next hrec hres => exact .inr (.inr ⟨hrec, hres, _, rfl, fun _ hj => hj⟩)

theorem perform_current (g : Checks) (o : Op) (r : o.Res) :
    (g.perform o).current = recoveryMonitor.next g.current o r := by
  rcases g.perform_cases o with ⟨a, rfl, hg⟩ | ⟨a, res, rfl, hg⟩ | ⟨hrec, hres, f, hg, -⟩
  · rfl
  · rfl
  · rw [hg]
    symm
    apply recoveryMonitor_next
    intro hb
    cases o with
    | logRecovery a => exact hrec a rfl
    | logRecoveryResult a res => exact hres a res rfl
    | _ => exact hb

theorem perform_late {o : Op} (h : ¬ o.bracket) : (g.perform o).late = g.late := by
  rcases g.perform_cases o with ⟨a, rfl, -⟩ | ⟨a, res, rfl, -⟩ | ⟨-, -, f, hg, -⟩
  · exact absurd trivial h
  · rfl
  · rw [hg]

theorem perform_completed {o : Op} (h : (g.perform o).completed j = true) :
    g.completed j = true := by
  rcases g.perform_cases o with ⟨a, rfl, -⟩ | ⟨a, res, rfl, -⟩ | ⟨-, -, f, hg, hf⟩
  · exact h
  · exact h
  · rw [hg] at h
    exact hf j h

end Checks

/-- The daemon follows the monitor, a job that has completed stays inactive, and
    the action that is being carried out for such a job cannot change it. -/
structure CheckInv (c : Sys) (g : Checks) : Prop where
  footprint : c.Footprint
  follows : (c.prog .daemon).Follows recoveryMonitor (fun _ m => m = none) (fun _ _ => True)
    g.current
  phase : g.current ≠ none → c.shared.phase = .watchdog
  completed : c.shared.phase = .watchdog → ∀ j, g.completed j = true → c.Inactive j
  late : g.late = true → ∀ a, g.current = some a → c.Inactive a.jobId ∧
    (a.action.overrides = false ∨ ∃ s, c.jobState a.jobId = some s ∧ s.final = true)

namespace CheckInv

/-- Before `check_all` nothing is recorded. -/
theorem new (hf : c.Footprint)
    (hp : (c.prog .daemon).Follows recoveryMonitor (fun _ m => m = none) (fun _ _ => True) none) :
    CheckInv c {} where
  footprint := hf
  follows := hp
  phase hne := absurd rfl hne
  completed _ _ hj := by cases hj
  late hl := by cases hl

/-- The part about the current action, where the action stays. -/
theorem late_stays (hi : CheckInv c g) (hfresh : c.fresh e = true) (h : step cfg c e = some c')
    (hcur : g'.current = g.current) (hlate : g'.late = g.late) :
    g'.late = true → ∀ a, g'.current = some a → c'.Inactive a.jobId ∧
      (a.action.overrides = false ∨ ∃ s, c'.jobState a.jobId = some s ∧ s.final = true) := by
  intro hl a ha
  rw [hcur] at ha
  rw [hlate] at hl
  obtain ⟨hin, hor⟩ := hi.late hl a ha
  have hp : c.shared.phase = .watchdog := by
    apply hi.phase
    rw [ha]
    simp
  refine ⟨hi.footprint.inactive_stays hp h hin, ?_⟩
  rcases hor with hno | ⟨s, hs, hfin⟩
  · exact .inl hno
  · exact .inr ⟨s, hi.footprint.final_stays hfresh h hs hfin, hfin⟩

/-- An operation of the daemon. -/
theorem daemon (hi : CheckInv c g) {i : Inputs} (hfresh : c.fresh (.run .daemon i) = true)
    (hok : keepsCompletions (c, g) (.run .daemon i) = true)
    (h : step cfg c (.run .daemon i) = some c') :
    CheckInv c' (Checks.update c (.run .daemon i) g) := by
  obtain ⟨o, -, -, hn, hs, -, -⟩ := Pool.step_cases h
  have hup : Checks.update c (.run .daemon i) g = g.perform o := by
    unfold Checks.update
    simp only [hn, Option.map_some, Option.getD_some]
  have hphase : c'.shared.phase = c.shared.phase := by rw [hs, exec_phase]
  have hperf : c.shared.phase.performs o := hi.footprint.next? hn
  have hwatch : o.bracket → c.shared.phase = .watchdog := by
    intro hb
    by_contra hne
    exact not_bracket_of_phase hne hperf hb
  obtain ⟨-, hfol⟩ := Pool.follows_step h hn trivial hi.follows
  rw [← Checks.perform_current] at hfol
  rw [hup]
  refine ⟨hi.footprint.step h, hfol, ?_, ?_, ?_⟩
  · intro hcur
    rw [hphase]
    by_cases hb : o.bracket
    · exact hwatch hb
    · apply hi.phase
      rw [Checks.perform_current g o (exec o i c.shared).1, recoveryMonitor_next hb] at hcur
      exact hcur
  · intro hp j hj
    rw [hphase] at hp
    exact hi.footprint.inactive_stays hp h (hi.completed hp j (Checks.perform_completed hj))
  · by_cases hb : o.bracket
    · cases o with
      | logRecovery a =>
        rintro hl a' ha
        cases ha
        have hl : g.completed a.jobId = true := hl
        have hp := hwatch trivial
        have hin := hi.completed hp a.jobId hl
        refine ⟨hi.footprint.inactive_stays hp h hin, ?_⟩
        obtain ⟨s, hst, -⟩ := hin
        simp only [keepsCompletions, hn, hl, hst, Option.all_some, Bool.not_true, Bool.false_or,
          Bool.or_eq_true, Bool.not_eq_true'] at hok
        rcases hok with hno | hfin
        · exact .inl hno
        · exact .inr ⟨s, hi.footprint.final_stays hfresh h hst hfin, hfin⟩
      | logRecoveryResult a r =>
        intro _ a' ha
        cases ha
      | _ => exact hb.elim
    · refine hi.late_stays hfresh h ?_ (Checks.perform_late hb)
      rw [Checks.perform_current g o (exec o i c.shared).1, recoveryMonitor_next hb]

/-- An operation of another thread. -/
theorem other (hi : CheckInv c g) {t : Tid} {i : Inputs} (ht : t ≠ .daemon)
    (hfresh : c.fresh (.run t i) = true) (h : step cfg c (.run t i) = some c')
    (hcur : g'.current = g.current) (hlate : g'.late = g.late)
    (hcomp : ∀ j, g'.completed j = true → g.completed j = true ∨ c'.Inactive j) :
    CheckInv c' g' := by
  obtain ⟨o, -, -, -, hs, -, hother⟩ := Pool.step_cases h
  have hphase : c'.shared.phase = c.shared.phase := by rw [hs, exec_phase]
  refine ⟨hi.footprint.step h, ?_, ?_, ?_, hi.late_stays hfresh h hcur hlate⟩
  · rw [hother .daemon (Ne.symm ht), hcur]
    exact hi.follows
  · rw [hcur, hphase]
    exact hi.phase
  · intro hp j hj
    rw [hphase] at hp
    rcases hcomp j hj with hj | hin
    · exact hi.footprint.inactive_stays hp h (hi.completed hp j hj)
    · exact hin

theorem step (hi : CheckInv c g) (hfresh : c.fresh e = true)
    (hok : keepsCompletions (c, g) e = true) (h : Sys.step cfg c e = some c') :
    CheckInv c' (Checks.update c e g) := by
  have hf := hi.footprint.step h
  cases e with
  | run t i =>
    cases t with
    | daemon => exact hi.daemon hfresh hok h
    | cli n => exact hi.other (by simp) hfresh h rfl rfl fun j hj => .inl hj
    | reader a =>
      obtain ⟨o, -, -, hn, hs, -, -⟩ := Pool.step_cases h
      have hup : Checks.update c (.run (.reader a) i) g =
          { g with completed := fun j => g.completed j || c.takesOut o i j } := by
        unfold Checks.update
        simp only [hn, Option.map_some, Option.getD_some]
      rw [hup]
      refine hi.other (by simp) hfresh h rfl rfl ?_
      intro j hj
      rcases (Bool.or_eq_true _ _).mp hj with hj | hj
      · exact .inl hj
      · right
        unfold takesOut at hj
        rw [← hs] at hj
        obtain ⟨s, hst, hact⟩ := (Option.any_eq_true _ _).mp ((Bool.and_eq_true _ _).mp hj).2
        exact ⟨s, hst, by simpa using hact⟩
  | next =>
    obtain ⟨p, -, -, rfl⟩ := step_next h
    apply new hf
    rw [Pool.load_prog_self]
    exact follows_phaseProg cfg p
  | exit a code result rl =>
    obtain ⟨w, -, -, rfl⟩ := step_exit h
    refine ⟨hf, ?_, hi.phase, hi.completed, hi.late⟩
    rw [Pool.load_prog_of_ne _ _ (by simp)]
    exact hi.follows
  | invoke n cmd =>
    cases h
    refine ⟨hf, ?_, hi.phase, hi.completed, hi.late⟩
    rw [Pool.load_prog_of_ne _ _ (by simp)]
    exact hi.follows
  | restart environ =>
    cases h
    exact new hf rfl

end CheckInv

/-- Runs with atomic `transition_job`s, with their history. -/
abbrev CheckRuns (cfg : Settings) (ok : Sys × Checks → Event → Prop) :
    Sys × Checks → Sys × Checks → Prop :=
  Run (watch (step cfg) Checks.update) fun s e => s.1.fresh e = true ∧ ok s e

theorem completions_kept {db : Db} {environ : Environ}
    (h : CheckRuns cfg (fun s e => keepsCompletions s e = true) (boot db environ, {}) (c, g)) :
    -- no operation of `apply_recovery` changes the job
    (∀ a i c', g.current = some a → g.late = true → c.fresh (.run .daemon i) = true →
      step cfg c (.run .daemon i) = some c' → c'.jobState a.jobId = c.jobState a.jobId) ∧
    -- and the condition cannot be weakened
    ∀ a ω r, c.shared.db.getJob a.jobId = some r →
      r.state ∈ [JobState.succeeded, .failedPermanent, .failedRetryable, .rateLimited] →
      (((Watchdog.applyRecovery a).eval exec ω c.shared).2.jobState a.jobId = some r.state ↔
        r.state.final = true ∨ a.action.overrides = false) := by
  refine ⟨?_, fun a ω r hr hst => applyRecovery_keeps_iff a ω hr hst⟩
  intro a i c' hcur hlate hfresh hs
  have hboot : CheckInv (boot db environ) {} := .new (footprint_boot db environ) rfl
  have hi : CheckInv c g := by
    refine h.watch_invariant (I := CheckInv) ?_ hboot
    rintro c g e t hi ⟨hfresh, hok⟩ ht
    exact hi.step hfresh hok ht
  obtain ⟨hin, hor⟩ := hi.late hlate a hcur
  have hp : c.shared.phase = .watchdog := by
    apply hi.phase
    rw [hcur]
    simp
  rcases hor with hno | ⟨s, hst, hfin⟩
  · refine hi.footprint.state_kept hp hfresh hs ?_ hcur hno hin
    intro o hn
    exact (Pool.follows_step hs hn trivial hi.follows).1
  · rw [hst]
    exact hi.footprint.final_stays hfresh hs hst hfin

/-- Job 1 is past its timeout and has been listed by `check_all` when its worker
    exits; `apply_recovery` has read the job. -/
def completedLate (exitCode : ℤ) (isRateLimited : Bool) : List Event :=
  startJob oneJob ++ [.next] ++ daemonSteps 2 ++ [.next] ++ daemonSteps 4 { now := 4000 } ++
    [.exit 1 exitCode none isRateLimited] ++ readerSteps 1 6 ++ daemonSteps 7 { now := 4000 }

/-- `apply_recovery` is at work on job 1, which had completed with state `s`. -/
def worksOn (s : JobState) (c : Sys × Checks) : Bool :=
  c.2.late && c.2.current.any (·.jobId == 1) && c.1.jobState 1 == some s &&
    c.1.fresh (.run .daemon {})

theorem of_worksOn {s : JobState} (h : worksOn s (c, g) = true) :
    ∃ a, g.current = some a ∧ a.jobId = 1 ∧ g.late = true ∧ c.jobState 1 = some s ∧
      c.fresh (.run .daemon {}) = true := by
  simp only [worksOn, Bool.and_eq_true, beq_iff_eq] at h
  obtain ⟨⟨⟨hlate, hcur⟩, hst⟩, hfresh⟩ := h
  obtain ⟨a, ha, hid⟩ := (Option.any_eq_true _ _).mp hcur
  exact ⟨a, ha, by simpa using hid, hlate, hst, hfresh⟩

/-- The job has succeeded in the meantime. -/
theorem completions_kept_succeeded : ∃ (c c' : Sys) (g : Checks) (a : RecoveryAction),
    g.current = some a ∧ g.late = true ∧ a.jobId = 1 ∧
      step Settings.plain c (.run .daemon {}) = some c' ∧
      c.jobState 1 = some .succeeded ∧ c'.jobState a.jobId = c.jobState a.jobId := by
  have hlist : (runList (watch (step Settings.plain) Checks.update)
      (fun s e => s.1.fresh e && keepsCompletions s e) (boot default fun _ => none, {})
      (completedLate 0 false)).any
      (fun s => worksOn .succeeded s && (step Settings.plain s.1 (.run .daemon {})).isSome) =
      true := by decide +kernel
  obtain ⟨⟨c, g⟩, hrun, hs⟩ := Run.exists_of_runList hlist
  obtain ⟨hw, hsome⟩ := (Bool.and_eq_true _ _).mp hs
  obtain ⟨a, hcur, hid, hlate, hst, hfresh⟩ := of_worksOn hw
  obtain ⟨c', hstep⟩ := Option.isSome_iff_exists.mp hsome
  have hrun := hrun.mono fun s e h => (Bool.and_eq_true _ _).mp h
  exact ⟨c, c', g, a, hcur, hlate, hid, hstep, hst,
    (completions_kept hrun).1 a {} c' hcur hlate hfresh hstep⟩

/-- The job has become `rate_limited` in the meantime, and the repo is backed
    off. -/
theorem completion_overridden : ¬ ∀ (cfg : Settings) (db : Db) (environ : Environ) (c : Sys)
    (g : Checks), CheckRuns cfg (fun _ _ => True) (boot db environ, {}) (c, g) →
      ∀ a i c', g.current = some a → g.late = true → c.fresh (.run .daemon i) = true →
        step cfg c (.run .daemon i) = some c' → c'.jobState a.jobId = c.jobState a.jobId := by
  intro hall
  have hlist : (runList (watch (step Settings.plain) Checks.update) (fun s e => s.1.fresh e)
      (boot default fun _ => none, {}) (completedLate 1 true)).any
      (fun s => worksOn .rateLimited s && (step Settings.plain s.1 (.run .daemon {})).any
        fun c' => c'.jobState 1 == some .queued) = true := by decide +kernel
  obtain ⟨⟨c, g⟩, hrun, hs⟩ := Run.exists_of_runList hlist
  obtain ⟨hw, hany⟩ := (Bool.and_eq_true _ _).mp hs
  obtain ⟨a, hcur, hid, hlate, hst, hfresh⟩ := of_worksOn hw
  obtain ⟨c', hstep, hq⟩ := (Option.any_eq_true _ _).mp hany
  have hsame := hall _ _ _ c g (hrun.mono fun _ _ h => ⟨h, trivial⟩) a {} c' hcur hlate hfresh hstep
  rw [hid, hst, eq_of_beq hq] at hsame
  cases hsame

end Sys

end DiscordAgent
