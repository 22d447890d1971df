import DiscordAgent.System.Basic

/-!
# Which exceptions leave a tick

The calls of `transition_job` in a tick are wrapped in `try ... except
ValueError`, but for the two of `requeue_job`. So no phase other than the recovery
phase raises anything, whatever its operations answer.

* `noRaise_phaseProg`.
-/

namespace DiscordAgent

open Interleave

/-! ## Guarded calls -/

/-- What `transition_job` raises is a `ValueError`. -/
theorem noRaise_onValueError {α : Type} {a : α} {h : PyErr → Py α} (hh : ∀ e, (h e).NoRaise)
    (jobId : ℕ) (new : JobState) (result : Option String) :
    (Prog.tryCatch (do transitionJob jobId new result; .ret a) (onValueError h)).NoRaise := by
  intro job
  cases job with
  | none => exact hh _
  | some job =>
    simp only [Prog.ret_bind]
    split_ifs
    · exact fun _ => trivial
    · exact hh _

theorem noRaise_ignore (jobId : ℕ) (new : JobState) (result : Option String) :
    (ignoreValueError (transitionJob jobId new result)).NoRaise := by
  have hp : transitionJob jobId new result =
      (transitionJob jobId new result).bind fun _ => .ret () := (Prog.bind_ret _).symm
  unfold ignoreValueError
  rw [hp]
  apply noRaise_onValueError
  intro e
  trivial

theorem noRaise_stopJob (attemptId : ℕ) : (Runner.stopJob attemptId).NoRaise := by
  refine (Prog.noRaise_perform _).bind fun found => ?_
  cases found with
  | true => exact fun _ => trivial
  | false => trivial

/-! ## The phases -/

namespace Daemon

theorem noRaise_stopFirst : ∀ attempts, (stopFirst attempts).NoRaise
  | [] => trivial
  | a :: as => by
    refine (noRaise_stopJob a.id).bind fun stopped => ?_
    cases stopped with
    | true => trivial
    | false => exact noRaise_stopFirst as

theorem noRaise_cmdKillJob (jobId : Option ℕ) : (cmdKillJob jobId).NoRaise := by
  cases jobId with
  | none => trivial
  | some jobId =>
    exact (Prog.noRaise_perform _).bind fun attempts =>
      (noRaise_stopFirst _).bind fun _ => noRaise_ignore _ _ _

theorem noRaise_cmdKillRepo (repoId : Option ℕ) : (cmdKillRepo repoId).NoRaise := by
  cases repoId with
  | none => trivial
  | some repoId =>
    refine (Prog.noRaise_perform _).bind fun jobs => ?_
    exact Prog.noRaise_forEach (fun job => Prog.noRaise_runIf (noRaise_cmdKillJob _)) _

theorem noRaise_processCommands : processCommands.NoRaise := by
  refine (Prog.noRaise_perform _).bind fun commands => Prog.noRaise_forEach (fun command => ?_) _
  cases command with
  | killJob jobId => exact noRaise_cmdKillJob jobId
  | killRepo repoId => exact noRaise_cmdKillRepo repoId
  | shutdown => exact Prog.noRaise_perform _
  | unknown name => trivial

end Daemon

namespace Scheduler

theorem noRaise_isBackedOff (repoId : ℕ) : (isBackedOff repoId).NoRaise :=
  (Prog.noRaise_perform _).bind fun _ => (Prog.noRaise_perform _).bind fun _ => trivial

theorem noRaise_canRun (cfg : Settings) (repoId : ℕ) : (canRun cfg repoId).NoRaise := by
  refine (noRaise_isBackedOff repoId).bind fun backedOff => ?_
  cases backedOff with
  | true => trivial
  | false =>
    refine (Prog.noRaise_perform _).bind fun running => ?_
    split_ifs
    · trivial
    · refine (Prog.noRaise_perform _).bind fun repo => ?_
      cases repo with
      | none => trivial
      | some repo => exact (Prog.noRaise_perform _).bind fun _ => trivial

theorem noRaise_nextJob (cfg : Settings) : (nextJob cfg none).NoRaise := by
  refine (Prog.noRaise_perform _).bind fun now => (Prog.noRaise_perform _).bind fun jobs => ?_
  refine Prog.NoRaise.bind (Prog.noRaise_collect (fun job => ?_) _ _) fun _ => trivial
  refine (noRaise_canRun cfg job.repoId).bind fun ok => ?_
  cases ok <;> trivial

end Scheduler

namespace Daemon

theorem noRaise_dispatchOne (cfg : Settings) : (dispatchOne cfg).NoRaise := by
  refine (Scheduler.noRaise_nextJob cfg).bind fun job => ?_
  cases job with
  | none => trivial
  | some job =>
    refine Prog.NoRaise.bind ?_ fun sessionId => (Prog.noRaise_perform _).bind fun repo => ?_
    · refine (Prog.noRaise_perform _).bind fun sessions => ?_
      cases sessions.head? with
      | none => exact Prog.noRaise_perform _
      | some s => trivial
    · exact Prog.noRaise_tryCatch _ fun _ => trivial

end Daemon

namespace Watchdog

theorem noRaise_handleTimeout (jobId : ℕ) : (handleTimeout jobId).NoRaise := by
  refine (Prog.noRaise_perform _).bind fun attempts => ?_
  simp only []
  split_ifs
  · exact (noRaise_ignore _ _ _).bind fun _ => trivial
  · exact (noRaise_ignore _ _ _).bind fun _ => trivial

theorem noRaise_checkJob (cfg : Settings) (job : Job) : (checkJob cfg job).NoRaise := by
  have htime := (noRaise_handleTimeout job.id).bind (f := fun a => .ret (some a)) fun _ => trivial
  refine (Prog.noRaise_perform _).bind fun now => (Prog.noRaise_perform _).bind fun attempts => ?_
  split
  · trivial
  · next latest hl =>
    split
    · exact htime
    · refine (Prog.noRaise_perform _).bind fun proc => ?_
      cases proc with
      | none =>
        simp only []
        split
        · exact Prog.NoRaise.bind ((noRaise_ignore _ _ _).bind fun _ => trivial) fun _ => trivial
        · trivial
      | some proc =>
        simp only []
        split
        · trivial
        · split
          · exact htime
          · trivial

theorem noRaise_cleanupRunningProcess (jobId : ℕ) : (cleanupRunningProcess jobId).NoRaise := by
  refine (Prog.noRaise_perform _).bind fun attempts => ?_
  split
  · trivial
  · refine (Prog.noRaise_perform _).bind fun found =>
      (Prog.noRaise_runIf ?_).bind fun _ => (Prog.noRaise_perform _).bind fun fresh =>
        (Prog.noRaise_runIf (Prog.noRaise_perform _)).bind fun _ => ?_
    · exact (Prog.noRaise_perform _).bind fun _ => Prog.noRaise_perform _
    · split
      · exact Prog.noRaise_perform _
      · trivial

theorem noRaise_applyRecovery (a : RecoveryAction) : (applyRecovery a).NoRaise := by
  refine (Prog.noRaise_perform _).bind fun job => ?_
  cases job with
  | none => trivial
  | some job =>
    refine (Prog.noRaise_runIf (noRaise_cleanupRunningProcess _)).bind fun _ => ?_
    cases a.action with
    | retrySameSession | backoff =>
      apply noRaise_onValueError
      intro e
      trivial
    | reportLost | escalate => exact (noRaise_ignore _ _ _).bind fun _ => trivial
    | unknown name => trivial
    | forkSession =>
      refine Prog.NoRaise.bind ?_ fun old => (Prog.noRaise_perform _).bind fun new => ?_
      · refine (Prog.noRaise_perform _).bind fun attempts => ?_
        split
        · exact (Prog.noRaise_perform _).bind fun _ => trivial
        · trivial
      · apply noRaise_onValueError
        intro e
        exact (noRaise_ignore _ _ _).bind fun _ => trivial

end Watchdog

namespace Daemon

theorem noRaise_watchdogStep (cfg : Settings) : (watchdogStep cfg).NoRaise := by
  refine (Prog.noRaise_perform _).bind fun now => (Prog.noRaise_perform _).bind fun last =>
    Prog.noRaise_runIf ?_
  refine Prog.NoRaise.bind ?_ fun _ => Prog.noRaise_perform _
  refine Prog.NoRaise.bind ?_ fun actions => Prog.noRaise_forEach (fun a => ?_) _
  · exact (Prog.noRaise_perform _).bind fun running => (Prog.noRaise_perform _).bind fun starting =>
      Prog.noRaise_collect (Watchdog.noRaise_checkJob cfg) _ _
  · exact (Prog.noRaise_perform _).bind fun _ => (Watchdog.noRaise_applyRecovery a).bind fun _ =>
      Prog.noRaise_perform _

theorem noRaise_tick (cfg : Settings) : (Supervisor.tick cfg).NoRaise := by
  refine (Prog.noRaise_perform _).bind fun jobs => ?_
  apply Prog.noRaise_forEach
  intro job
  apply Prog.noRaise_tryCatch
  intro e
  trivial

/-- Only the recovery phase can raise. -/
theorem noRaise_phaseProg (cfg : Settings) {p : Phase} (hp : p ≠ .recovery) :
    (phaseProg cfg p).NoRaise := by
  cases p with
  | idle => trivial
  | commands => exact noRaise_processCommands.bind fun _ => trivial
  | recovery => exact absurd rfl hp
  | dispatch => exact (noRaise_dispatchOne cfg).bind fun _ => trivial
  | watchdog => exact (noRaise_watchdogStep cfg).bind fun _ => trivial
  | supervisor => exact (noRaise_tick cfg).bind fun _ => trivial

end Daemon

end DiscordAgent
