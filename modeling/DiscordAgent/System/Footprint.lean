import DiscordAgent.System.Effects

/-!
# Which operations each thread performs

Every thread stays within a fixed set of operations: `Phase.performs` for the
daemon in each phase of its tick, `Op.ofReader` for `on_complete` and `Op.ofCli`
for the command line. The sets say in particular which target states a thread
can ask `transition_job` for, and that it only ever performs the `UPDATE` for
an edge of `VALID_TRANSITIONS` out of the state that its `SELECT` read.

* `Sys.Footprint.run`: every thread of a running system stays in its set.
-/

namespace DiscordAgent

open Interleave Orchestrator

/-- The `UPDATE` of `transition_job`, after the check against
    `VALID_TRANSITIONS`, to a state in `targets`. -/
def Op.isTransition (targets : List JobState) : Op → Prop
  | updateJobState _ current new _ => new ∈ current.validTransitions ∧ new ∈ targets
  | _ => False

/-- What the reader threads perform. -/
def Op.ofReader (o : Op) : Prop :=
  o.isRead = true ∨ o.isTransition [.failedRetryable, .failedPermanent] ∨
    match o with
    | finishAttempt .. | casUpdateSession .. | popProcess _ | onSuccess .. | onRateLimit ..
    | createJob _ => True
    | _ => False

/-- What the command line performs. -/
def Op.ofCli (o : Op) : Prop :=
  o.isRead = true ∨
    match o with
    | markReported by_ _ => by_ = .reportDone
    | createJob _ | enqueueCommand _ | createRepo _ | updateRepo .. => True
    | _ => False

/-- What the daemon performs in each phase. -/
def Phase.performs : Phase → Op → Prop
  | idle, _ => False
  | commands, o => o.isRead = true ∨ o.isTransition [.failedPermanent] ∨
    match o with
    | .pollCommands _ | .stopProcess _ | .setNotRunning => True
    | _ => False
  | recovery, o => o.isRead = true ∨ o.isTransition [.queued, .failedPermanent] ∨
    match o with
    | .clearBackoffIfRecovered _ => True
    | _ => False
  | dispatch, o => o.isRead = true ∨ o.isTransition [.starting, .running, .failedRetryable] ∨
    match o with
    | .createSession _ | .insertAttempt .. | .updateSession .. | .popen .. | .registerProcess _
    | .finishAttempt .. => True
    | _ => False
  | watchdog, o => o.isRead = true ∨
    o.isTransition [.timedOut, .lost, .queued, .failedPermanent, .needsController] ∨
    match o with
    | .stopProcess _ | .finishAttempt .. | .updateSession .. | .createSession _
    | .setLastWatchdogCheck _ | .logRecovery _ | .logRecoveryResult .. => True
    | _ => False
  | supervisor, o => o.isRead = true ∨
    match o with
    | .markReported by_ _ => by_ = .supervisor
    | .listUndeliveredTerminalJobs | .claimForFallback _ | .setUndeliverable _
    | .incrWakeAttempts _ | .markWoken _ | .loadToken | .postBegin .. | .postEnd _ | .tmux _ => True
    | _ => False

/-- The states that a phase asks `transition_job` for. -/
def Phase.targets : Phase → List JobState
  | idle | supervisor => []
  | commands => [.failedPermanent]
  | recovery => [.queued, .failedPermanent]
  | dispatch => [.starting, .running, .failedRetryable]
  | watchdog => [.timedOut, .lost, .queued, .failedPermanent, .needsController]

theorem Phase.performs.target {p : Phase} {j : ℕ} {current new : JobState} {result : Option String}
    (h : p.performs (.updateJobState j current new result)) :
    new ∈ current.validTransitions ∧ new ∈ p.targets := by
  cases p with
  | idle => exact h.elim
  | supervisor =>
    rcases h with h | h
    · cases h
    · exact h.elim
  | commands | recovery | dispatch | watchdog =>
    rcases h with h | h | h
    · cases h
    · exact h
    · exact h.elim

/-- The phase of the daemon that alone performs an operation, where there is
    one. -/
def Op.home : Op → Option Phase
  | pollCommands _ | setNotRunning => some .commands
  | clearBackoffIfRecovered _ => some .recovery
  | insertAttempt .. | popen .. | registerProcess _ => some .dispatch
  | setLastWatchdogCheck _ | logRecovery _ | logRecoveryResult .. => some .watchdog
  | listUndeliveredTerminalJobs | claimForFallback _ | setUndeliverable _ | incrWakeAttempts _
  | markWoken _ | loadToken | postBegin .. | postEnd _ | tmux (.sendText ..) => some .supervisor
  | _ => none

theorem Phase.performs.home {p q : Phase} {o : Op} (h : p.performs o) (ho : o.home = some q) :
    p = q := by
  cases o with
  | tmux cmd =>
    cases cmd with
    | sendText pane j msg =>
      cases ho
      cases p <;> first | rfl | exact h.elim | (rcases h with h | h | h <;> cases h)
    | _ => cases ho
  | _ =>
    cases ho <;> cases p <;> first | rfl | exact h.elim | (rcases h with h | h | h <;> cases h)

theorem Op.ofReader.not_home {o : Op} (h : o.ofReader) : o.home = none := by
  cases o with
  | tmux cmd => cases cmd <;> first | rfl | (rcases h with h | h | h <;> cases h)
  | _ => first | rfl | (rcases h with h | h | h <;> cases h)

theorem Op.ofCli.not_home {o : Op} (h : o.ofCli) : o.home = none := by
  cases o with
  | tmux cmd => cases cmd <;> first | rfl | (rcases h with h | h <;> cases h)
  | _ => first | rfl | (rcases h with h | h <;> cases h)

theorem Op.ofReader.target {j : ℕ} {current new : JobState} {result : Option String}
    (h : (Op.updateJobState j current new result).ofReader) :
    new ∈ current.validTransitions ∧ new ∈ [JobState.failedRetryable, .failedPermanent] := by
  rcases h with h | h | h
  · cases h
  · exact h
  · exact h.elim

theorem Op.not_ofCli_transition {j : ℕ} {current new : JobState} {result : Option String} :
    ¬ (Op.updateJobState j current new result).ofCli := by
  intro h
  rcases h with h | h
  · cases h
  · exact h

/-- What waking the Controller for job `j` performs. -/
def Op.wakes (j : ℕ) (o : Op) : Prop :=
  o.isRead = true ∨
    match o with
    | .incrWakeAttempts k | .markWoken k | .tmux (.sendText _ k _) => k = j
    | _ => False

theorem Op.wakes.performs {j : ℕ} {o : Op} (h : o.wakes j) : Phase.supervisor.performs o := by
  rcases h with h | h
  · exact .inl h
  · cases o with
    | incrWakeAttempts k | markWoken k | tmux cmd => exact .inr trivial
    | _ => exact absurd h id

/-- What the notification about job `j` performs. -/
def Op.notifies (j : ℕ) : Op → Prop
  | .loadToken => True
  | .postBegin k _ _ | .postEnd k | .setUndeliverable k => k = j
  | .markReported by_ k => by_ = .supervisor ∧ k = j
  | _ => False

theorem Op.notifies.performs {j : ℕ} {o : Op} (h : o.notifies j) : Phase.supervisor.performs o := by
  cases o with
  | markReported by_ k => exact .inr h.1
  | loadToken | postBegin k _ _ | postEnd k | setUndeliverable k => exact .inr trivial
  | _ => exact absurd h id

/-! ## Building blocks -/

section Blocks

variable {P : Op → Prop} (hr : ∀ o : Op, o.isRead = true → P o)
include hr

theorem emits_read {o : Op} (h : o.isRead = true) : (op o).Emits P := Prog.emits_perform (hr o h)

omit hr in
theorem emits_op {o : Op} (h : P o) : (op o).Emits P := Prog.emits_perform h

omit hr in
theorem emits_ofExcept {α : Type} (r : Except PyErr α) : (ofExcept r).Emits P := by
  cases r <;> trivial

omit hr in
theorem emits_onValueError {α : Type} {h : PyErr → Py α} (hh : ∀ e, (h e).Emits P) (e : PyErr) :
    (onValueError h e).Emits P := by
  unfold onValueError
  split_ifs
  · exact hh e
  · trivial

omit hr in
theorem emits_ignoreValueError {p : Py Unit} (hp : p.Emits P) : (ignoreValueError p).Emits P :=
  hp.tryCatch (emits_onValueError fun _ => trivial)

theorem emits_transitionJob {jobId : ℕ} {new : JobState} {result : Option String}
    (hu : ∀ current, new ∈ current.validTransitions →
      P (.updateJobState jobId current new result)) :
    (transitionJob jobId new result).Emits P := by
  refine (emits_read hr rfl).bind fun r => ?_
  cases r with
  | none => trivial
  | some job =>
    simp only []
    split_ifs with hv
    · exact emits_op (hu job.state hv)
    · trivial

theorem emits_isBackedOff (repoId : ℕ) : (Scheduler.isBackedOff repoId).Emits P :=
  (emits_read hr rfl).bind fun _ => (emits_read hr rfl).bind fun _ => trivial

theorem emits_canRun (cfg : Settings) (repoId : ℕ) : (Scheduler.canRun cfg repoId).Emits P := by
  refine (emits_isBackedOff hr repoId).bind fun b => ?_
  split_ifs
  · trivial
  · refine (emits_read hr rfl).bind fun n => ?_
    split_ifs
    · trivial
    · refine (emits_read hr rfl).bind fun repo => ?_
      cases repo with
      | none => trivial
      | some repo => exact (emits_read hr rfl).bind fun _ => trivial

theorem emits_nextJob (cfg : Settings) : (Scheduler.nextJob cfg none).Emits P := by
  refine (emits_read hr rfl).bind fun now => (emits_read hr rfl).bind fun jobs => ?_
  refine (Prog.emits_collect fun j _ => ?_).bind fun _ => trivial
  refine (emits_canRun hr cfg j.repoId).bind fun b => ?_
  split_ifs <;> trivial

theorem emits_requeueJob {jobId : ℕ}
    (hu : ∀ current new result, new ∈ current.validTransitions →
      new ∈ [JobState.queued, .failedPermanent] →
      P (.updateJobState jobId current new result)) :
    (Scheduler.requeueJob jobId).Emits P := by
  refine (emits_read hr rfl).bind fun job => ?_
  cases job with
  | none => trivial
  | some job =>
    refine (emits_read hr rfl).bind fun attempts => ?_
    split_ifs
    · exact (emits_transitionJob hr fun c hc => hu c _ _ hc (by simp)).bind fun _ => trivial
    · exact (emits_transitionJob hr fun c hc => hu c _ _ hc (by simp)).bind fun _ => trivial
    · trivial

theorem emits_getRepoByAlias (py : PyLib) (name : Json) : (getRepoByAlias py name).Emits P := by
  refine (emits_ofExcept _).bind fun text => Prog.Emits.bind ?_ fun repo => ?_
  · cases text with
    | none => trivial
    | some n => exact emits_read hr rfl
  · cases repo with
    | none => exact (emits_read hr rfl).bind fun _ => trivial
    | some r => trivial

theorem emits_chainEnqueueAt (cfg : Settings) (raw : Json) :
    (Scheduler.chainEnqueueAt cfg raw).Emits P := by
  unfold Scheduler.chainEnqueueAt
  split_ifs
  · exact (emits_read hr rfl).bind fun _ => trivial
  · trivial

theorem emits_dispatchChainNext (hc : ∀ n, P (.createJob n)) (cfg : Settings) (payload : String)
    (depth : ℕ) (notify : Option String) :
    (Scheduler.dispatchChainNext cfg payload depth notify).Emits P := by
  unfold Scheduler.dispatchChainNext
  split
  · trivial
  · split
    · trivial
    · refine (emits_ofExcept _).bind fun repoName => (emits_ofExcept _).bind fun task =>
        (emits_ofExcept _).bind fun note => (emits_ofExcept _).bind fun nextNext => ?_
      split
      · trivial
      · refine (emits_getRepoByAlias hr _ _).bind fun repo => ?_
        cases repo with
        | none => trivial
        | some repo =>
          refine (emits_ofExcept _).bind fun raw => (emits_chainEnqueueAt hr cfg raw).bind
            fun at_ => ?_
          split
          · exact (emits_op (hc _)).bind fun _ => trivial
          · trivial

theorem emits_launch {jobId attemptId : ℕ} {job : Job} (hu : ∀ s u, P (.updateSession s u))
    (hp : ∀ argv cwd env callback, callback.attemptId = attemptId → callback.jobId = jobId →
      callback.repoId = job.repoId → P (.popen argv cwd env callback))
    (hg : ∀ a, P (.registerProcess a)) (hf : ∀ a code error, P (.finishAttempt a code error))
    (ht : ∀ current new, new ∈ current.validTransitions →
      new ∈ [JobState.running, .failedRetryable] → P (.updateJobState jobId current new none))
    (repo : Repo) (sessionId : ℕ) (model : String) :
    (Runner.launch jobId job repo sessionId model attemptId).Emits P := by
  have ht' : ∀ new ∈ [JobState.running, .failedRetryable], (transitionJob jobId new).Emits P :=
    fun new hn => emits_transitionJob hr fun c hc => ht c new hc hn
  refine (emits_read hr rfl).bind fun prompt => (emits_op (hu _ _)).bind fun _ =>
    (ht' _ (by simp)).bind fun _ => Prog.Emits.tryCatch ?_ fun e => ?_
  · refine Prog.Emits.bind ((emits_op (hp _ _ _ _ rfl rfl rfl)).bind fun _ => emits_ofExcept _)
      fun pid => ?_
    exact (emits_op (hu _ _)).bind fun _ => (emits_op (hg _)).bind fun _ => trivial
  · split
    · exact (emits_op (hf _ _ _)).bind fun _ => (emits_op (hu _ _)).bind fun _ =>
        (ht' _ (by simp)).bind fun _ => trivial
    · trivial

theorem emits_cleanupRunningProcess (hs : ∀ a, P (.stopProcess a))
    (hf : ∀ a code error, P (.finishAttempt a code error))
    (hu : ∀ s, P (.updateSession s { state := some .idle })) (jobId : ℕ) :
    (Watchdog.cleanupRunningProcess jobId).Emits P := by
  refine (emits_read hr rfl).bind fun attempts => ?_
  split
  · trivial
  · refine (emits_read hr rfl).bind fun found => Prog.Emits.bind ?_ fun _ =>
      (emits_read hr rfl).bind fun fresh => Prog.Emits.bind ?_ fun _ => ?_
    · exact Prog.emits_runIf fun _ => (emits_op (hs _)).bind fun _ => emits_read hr rfl
    · exact Prog.emits_runIf fun _ => emits_op (hf _ _ _)
    · split
      · exact emits_op (hu _)
      · trivial

theorem emits_markOldSessionDead (hu : ∀ s, P (.updateSession s { state := some .dead }))
    (jobId : ℕ) : (Watchdog.markOldSessionDead jobId).Emits P := by
  refine (emits_read hr rfl).bind fun attempts => ?_
  split
  · exact (emits_op (hu _)).bind fun _ => trivial
  · trivial

end Blocks

/-! ## Reader threads and the command line -/

section OnComplete

variable {P : Op → Prop} {cb : Callback} {exitCode : ℤ} {result : Option String}

/-- What a completion performs for its job; an exit code other than 0 leads
    neither to `on_success` nor to a new job. -/
theorem emits_onComplete_of (hr : ∀ o : Op, o.isRead = true → P o)
    (hf : ∀ code error, P (.finishAttempt cb.attemptId code error))
    (hu : P (.casUpdateSession cb.sessionId cb.attemptId
      { state := some .idle, heartbeat := true }))
    (hp : P (.popProcess cb.attemptId))
    (hs : exitCode = 0 → P (.onSuccess cb.repoId cb.jobId result))
    (hc : exitCode = 0 → ∀ n, P (.createJob n))
    (hl : ∀ t, P (.onRateLimit t cb.repoId cb.jobId))
    (ht : ∀ current new text, new ∈ current.validTransitions →
      new ∈ [JobState.failedRetryable, .failedPermanent] →
      P (.updateJobState cb.jobId current new text))
    (cfg : Settings) (isRateLimited : Bool) :
    (Runner.onComplete cfg cb exitCode result isRateLimited).Emits P := by
  have hw : ∀ {o : Op} {α : Type} {f : o.Res → Py α}, P o → (∀ r, (f r).Emits P) →
      ((op o).bind f).Emits P := fun ho hf => (emits_op ho).bind hf
  have htr : ∀ (new : JobState) (text : Option String),
      new ∈ [JobState.failedRetryable, .failedPermanent] →
      (transitionJob cb.jobId new text).Emits P := fun new text h =>
    emits_transitionJob hr fun current hv => ht current new text hv h
  refine (emits_read hr rfl).bind fun attempts => ?_
  split
  · exact emits_op hp
  · refine hw (hf _ _) fun _ => hw hu fun _ => hw hp fun _ =>
      (emits_read hr rfl).bind fun job => ?_
    cases job with
    | none => trivial
    | some job =>
      simp only []
      split_ifs with _ hcode
      · trivial
      · refine hw (hs hcode) fun info => ?_
        cases info with
        | none => trivial
        | some info =>
          simp only []
          split
          · trivial
          · exact emits_dispatchChainNext hr (hc hcode) _ _ _ _
      · exact (hw (hl _) fun _ => emits_ofExcept _).bind fun _ => trivial
      · exact emits_ignoreValueError (htr _ _ (by simp))
      · exact htr _ _ (by simp)

end OnComplete

theorem emits_onComplete (cfg : Settings) (cb : Callback) (exitCode : ℤ) (result : Option String)
    (isRateLimited : Bool) :
    (Runner.onComplete cfg cb exitCode result isRateLimited).Emits Op.ofReader :=
  emits_onComplete_of (fun _ h => .inl h) (fun _ _ => .inr (.inr trivial))
    (.inr (.inr trivial)) (.inr (.inr trivial)) (fun _ => .inr (.inr trivial))
    (fun _ _ => .inr (.inr trivial)) (fun _ => .inr (.inr trivial))
    (fun _ _ _ hv h => .inr (.inl ⟨hv, h⟩)) cfg isRateLimited

theorem emits_cliProg (cmd : CliCmd) : cmd.prog.Emits Op.ofCli := by
  have hr : ∀ o : Op, o.isRead = true → o.ofCli := fun o h => .inl h
  cases cmd with
  | reportDone jobId =>
    refine Prog.Emits.bind ((emits_op (.inr rfl)).bind fun ok => ?_) fun _ => trivial
    split_ifs
    · trivial
    · refine (emits_read hr rfl).bind fun job => ?_
      cases job <;> trivial
  | dispatch n => exact (emits_op (.inr trivial)).bind fun _ => trivial
  | kill c => exact emits_op (.inr trivial)
  | createRepo n => exact (emits_op (.inr trivial)).bind fun _ => trivial
  | updateRepo name u => exact emits_op (.inr trivial)

/-! ## The phases of the daemon -/

theorem emits_stopFirst {P : Op → Prop} (hr : ∀ o : Op, o.isRead = true → P o)
    (hs : ∀ a, P (.stopProcess a)) (as : List Attempt) : (Daemon.stopFirst as).Emits P := by
  induction as with
  | nil => trivial
  | cons a as ih =>
    refine Prog.Emits.bind ((emits_read hr rfl).bind fun found => ?_) fun stopped => ?_
    · split_ifs
      · exact (emits_op (hs _)).bind fun _ => trivial
      · trivial
    · split_ifs
      · trivial
      · exact ih

theorem emits_cmdKillJob (jobId : Option ℕ) :
    (Daemon.cmdKillJob jobId).Emits Phase.commands.performs := by
  have hr : ∀ o : Op, o.isRead = true → Phase.commands.performs o := fun o h => .inl h
  cases jobId with
  | none => trivial
  | some jobId =>
    refine (emits_read hr rfl).bind fun attempts =>
      (emits_stopFirst hr (fun _ => .inr (.inr trivial)) _).bind fun _ => ?_
    exact emits_ignoreValueError (emits_transitionJob hr fun _ hc => .inr (.inl ⟨hc, by simp⟩))

theorem emits_processCommands : Daemon.processCommands.Emits Phase.commands.performs := by
  have hr : ∀ o : Op, o.isRead = true → Phase.commands.performs o := fun o h => .inl h
  refine (emits_op (.inr (.inr trivial))).bind fun cmds => Prog.emits_forEach fun c _ => ?_
  cases c with
  | killJob jobId => exact emits_cmdKillJob jobId
  | killRepo repoId =>
    cases repoId with
    | none => trivial
    | some repoId =>
      refine (emits_read hr rfl).bind fun jobs => Prog.emits_forEach fun job _ => ?_
      exact Prog.emits_runIf fun _ => emits_cmdKillJob _
  | shutdown => exact emits_op (.inr (.inr trivial))
  | unknown name => trivial

theorem emits_driveRecovery : Scheduler.driveRecovery.Emits Phase.recovery.performs := by
  have hr : ∀ o : Op, o.isRead = true → Phase.recovery.performs o := fun o h => .inl h
  have hq : ∀ jobId, (Scheduler.requeueJob jobId).Emits Phase.recovery.performs := fun jobId =>
    emits_requeueJob hr fun _ _ _ hc hn => .inr (.inl ⟨hc, hn⟩)
  refine (emits_read hr rfl).bind fun limited => Prog.Emits.bind ?_ fun actions =>
    Prog.Emits.bind ?_ fun _ => (emits_read hr rfl).bind fun failed => ?_
  · refine Prog.emits_collect fun job _ => (emits_isBackedOff hr _).bind fun b => ?_
    split_ifs
    · trivial
    · exact (hq _).bind fun _ => trivial
  · exact Prog.emits_forEach fun repoId _ => emits_op (.inr (.inr trivial))
  · exact Prog.emits_collect fun job _ => (hq _).bind fun _ => trivial

/-- What `run_job` performs for its job. -/
theorem emits_runJob_of {P : Op → Prop} {jobId : ℕ} (hr : ∀ o : Op, o.isRead = true → P o)
    (hi : ∀ k s n, P (.insertAttempt k s n)) (hu : ∀ s u, P (.updateSession s u))
    (hp : ∀ argv cwd env callback, P (.popen argv cwd env callback))
    (hg : ∀ a, P (.registerProcess a)) (hf : ∀ a code error, P (.finishAttempt a code error))
    (ht : ∀ current new, new ∈ current.validTransitions →
      new ∈ [JobState.starting, .running, .failedRetryable] →
      P (.updateJobState jobId current new none)) (sessionId : ℕ) (model : String) :
    (Runner.runJob jobId sessionId model).Emits P := by
  refine (emits_read hr rfl).bind fun job => ?_
  cases job with
  | none => trivial
  | some job =>
    refine (emits_read hr rfl).bind fun repo => ?_
    cases repo with
    | none => trivial
    | some repo =>
      refine Prog.Emits.bind ((emits_read hr rfl).bind fun _ => emits_op (hi _ _ _))
        fun attemptId => ?_
      refine (emits_transitionJob hr fun current hc => ht current _ hc (by simp)).bind fun _ => ?_
      exact emits_launch hr hu (fun argv cwd env callback _ _ _ => hp argv cwd env callback) hg hf
        (fun current new hc hn => ht current new hc (List.mem_cons_of_mem _ hn)) _ _ _

theorem emits_runJob (jobId sessionId : ℕ) (model : String) :
    (Runner.runJob jobId sessionId model).Emits Phase.dispatch.performs :=
  emits_runJob_of (fun _ h => .inl h) (fun _ _ _ => .inr (.inr trivial))
    (fun _ _ => .inr (.inr trivial)) (fun _ _ _ _ => .inr (.inr trivial))
    (fun _ => .inr (.inr trivial)) (fun _ _ _ => .inr (.inr trivial))
    (fun _ _ hc hn => .inr (.inl ⟨hc, hn⟩)) sessionId model

theorem emits_dispatchOne (cfg : Settings) :
    (Daemon.dispatchOne cfg).Emits Phase.dispatch.performs := by
  have hr : ∀ o : Op, o.isRead = true → Phase.dispatch.performs o := fun o h => .inl h
  refine (emits_nextJob hr cfg).bind fun job => ?_
  cases job with
  | none => trivial
  | some job =>
    refine Prog.Emits.bind ?_ fun sessionId => (emits_read hr rfl).bind fun repo => ?_
    · refine (emits_read hr rfl).bind fun sessions => ?_
      split
      · exact emits_op (.inr (.inr trivial))
      · trivial
    · exact Prog.Emits.tryCatch (Prog.Emits.bind (emits_runJob _ _ _) fun _ => trivial)
        fun _ => trivial

section Watchdog

/-- What `_check_job` performs for its job. -/
theorem emits_checkJob_of {P : Op → Prop} {job : Job} (hr : ∀ o : Op, o.isRead = true → P o)
    (ht : ∀ current new, new ∈ current.validTransitions → new ∈ [JobState.timedOut, .lost] →
      P (.updateJobState job.id current new none)) (cfg : Settings) :
    (Watchdog.checkJob cfg job).Emits P := by
  have ht : ∀ new : JobState, new ∈ [JobState.timedOut, .lost] →
      (ignoreValueError (transitionJob job.id new)).Emits P := fun new h =>
    emits_ignoreValueError (emits_transitionJob hr fun current hc => ht current new hc h)
  have htime : (Watchdog.handleTimeout job.id).Emits P := by
    refine (emits_read hr rfl).bind fun attempts => ?_
    simp only []
    split_ifs <;> exact (ht _ (by simp)).bind fun _ => trivial
  refine (emits_read hr rfl).bind fun now => (emits_read hr rfl).bind fun attempts => ?_
  split
  · trivial
  · split
    · exact htime.bind fun _ => trivial
    · refine (emits_read hr rfl).bind fun proc => ?_
      cases proc with
      | none =>
        simp only []
        split
        · exact Prog.Emits.bind ((ht _ (by simp)).bind fun _ => trivial) fun _ => trivial
        · trivial
      | some proc =>
        simp only []
        split
        · trivial
        · split
          · exact htime.bind fun _ => trivial
          · trivial

/-- The states that `apply_recovery` asks `transition_job` for. -/
def RecoveryKind.targets : RecoveryKind → List JobState
  | retrySameSession | backoff => [.queued]
  | forkSession => [.queued, .failedPermanent]
  | reportLost => [.needsController]
  | escalate => [.failedPermanent]
  | unknown _ => []

/-- What `apply_recovery` performs for its action. -/
theorem emits_applyRecovery_of {P : Op → Prop} {a : RecoveryAction}
    (hr : ∀ o : Op, o.isRead = true → P o) (hs : ∀ k, P (.stopProcess k))
    (hf : ∀ k code error, P (.finishAttempt k code error))
    (hu : ∀ s state, state ≠ .busy → P (.updateSession s { state := some state }))
    (hc : ∀ R, P (.createSession R))
    (ht : ∀ current new text, new ∈ current.validTransitions → new ∈ a.action.targets →
      P (.updateJobState a.jobId current new text)) : (Watchdog.applyRecovery a).Emits P := by
  have ht : ∀ (new : JobState) (text : Option String), new ∈ a.action.targets →
      (transitionJob a.jobId new text).Emits P := fun new text h =>
    emits_transitionJob hr fun current hv => ht current new text hv h
  refine (emits_read hr rfl).bind fun job => ?_
  cases job with
  | none => trivial
  | some job =>
    refine (Prog.emits_runIf fun _ =>
      emits_cleanupRunningProcess hr hs hf (fun s => hu s _ (by simp)) _).bind fun _ => ?_
    split
    · next hk =>
      rw [hk] at ht
      exact Prog.Emits.tryCatch (Prog.Emits.bind (ht _ _ (by simp [RecoveryKind.targets]))
        fun _ => trivial) (emits_onValueError fun _ => trivial)
    · next hk =>
      rw [hk] at ht
      refine Prog.Emits.bind (emits_markOldSessionDead hr (fun s => hu s _ (by simp)) _)
        fun old => (emits_op (hc _)).bind fun new => ?_
      exact Prog.Emits.tryCatch (Prog.Emits.bind (ht _ _ (by simp [RecoveryKind.targets]))
        fun _ => trivial) (emits_onValueError fun _ =>
          (emits_ignoreValueError (ht _ _ (by simp [RecoveryKind.targets]))).bind fun _ => trivial)
    · next hk =>
      rw [hk] at ht
      exact (emits_ignoreValueError (ht _ _ (by simp [RecoveryKind.targets]))).bind
        fun _ => trivial
    · next hk =>
      rw [hk] at ht
      exact Prog.Emits.tryCatch (Prog.Emits.bind (ht _ _ (by simp [RecoveryKind.targets]))
        fun _ => trivial) (emits_onValueError fun _ => trivial)
    · next hk =>
      rw [hk] at ht
      exact (emits_ignoreValueError (ht _ _ (by simp [RecoveryKind.targets]))).bind
        fun _ => trivial
    · trivial

/-- The watchdog step, with the two updates of sessions that it performs. -/
theorem emits_watchdogStep_of {P : Op → Prop}
    (hp : ∀ o, Phase.watchdog.performs o → (∀ s u, o ≠ .updateSession s u) → P o)
    (hu : ∀ s state, state ≠ .busy → P (.updateSession s { state := some state }))
    (cfg : Settings) : (Daemon.watchdogStep cfg).Emits P := by
  have hr : ∀ o : Op, o.isRead = true → P o := fun o h => hp o (.inl h) (by rintro s u rfl; cases h)
  have hw : ∀ {o : Op}, Phase.watchdog.performs o → (∀ s u, o ≠ .updateSession s u) →
      (op o).Emits P := fun ho hne => emits_op (hp _ ho hne)
  refine (emits_read hr rfl).bind fun now => (emits_read hr rfl).bind fun last =>
    Prog.emits_runIf fun _ => Prog.Emits.bind ?_ fun _ => hw (.inr (.inr trivial)) (by simp)
  refine Prog.Emits.bind ?_ fun actions => Prog.emits_forEach fun a _ => ?_
  · refine (emits_read hr rfl).bind fun running => (emits_read hr rfl).bind fun starting =>
      Prog.emits_collect fun job _ => emits_checkJob_of hr (fun current new hv h => ?_) cfg
    refine hp _ (.inr (.inl ⟨hv, ?_⟩)) (by simp)
    exact List.mem_append_left [.queued, .failedPermanent, .needsController] h
  · refine (hw (.inr (.inr trivial)) (by simp)).bind fun _ => Prog.Emits.bind ?_ fun _ =>
      hw (.inr (.inr trivial)) (by simp)
    refine emits_applyRecovery_of hr (fun _ => hp _ (.inr (.inr trivial)) (by simp))
      (fun _ _ _ => hp _ (.inr (.inr trivial)) (by simp)) hu
      (fun _ => hp _ (.inr (.inr trivial)) (by simp)) fun current new text hv h =>
        hp _ (.inr (.inl ⟨hv, ?_⟩)) (by simp)
    revert h
    cases a.action <;> cases new <;> simp [RecoveryKind.targets]

theorem emits_watchdogStep (cfg : Settings) :
    (Daemon.watchdogStep cfg).Emits Phase.watchdog.performs :=
  emits_watchdogStep_of (fun _ h _ => h) (fun _ _ _ => .inr (.inr trivial)) cfg

end Watchdog

section Supervisor

private theorem readS (o : Op) (h : o.isRead = true) : Phase.supervisor.performs o := .inl h

private theorem writeS {o : Op} {α : Type} {f : o.Res → Py α} (ho : Phase.supervisor.performs o)
    (hf : ∀ r, (f r).Emits Phase.supervisor.performs) :
    ((op o).bind f).Emits Phase.supervisor.performs := (emits_op ho).bind hf

theorem emits_attemptFallbackNotify (cfg : Settings) (job : Job) :
    (Supervisor.attemptFallbackNotify cfg job).Emits (Op.notifies job.id) := by
  have hw : ∀ {o : Op} {α : Type} {f : o.Res → Py α}, o.notifies job.id →
      (∀ r, (f r).Emits (Op.notifies job.id)) → ((op o).bind f).Emits (Op.notifies job.id) :=
    fun ho hf => (emits_op ho).bind hf
  unfold Supervisor.attemptFallbackNotify
  split
  · exact emits_op rfl
  · refine Prog.Emits.bind ?_ fun result => ?_
    · refine hw trivial fun tok => ?_
      split
      · trivial
      · exact hw rfl fun _ => emits_op rfl
    · split
      · exact hw ⟨rfl, rfl⟩ fun _ => trivial
      · split
        · exact emits_op rfl
        · trivial

theorem emits_claimAndFallback (cfg : Settings) (job : Job) :
    (Supervisor.claimAndFallback cfg job).Emits Phase.supervisor.performs := by
  refine writeS (.inr trivial) fun ok => ?_
  split
  · exact (emits_read readS rfl).bind fun fresh =>
      (emits_attemptFallbackNotify cfg _).mono fun _ h => h.performs
  · trivial

theorem emits_loadPane {P : Op → Prop} (hr : ∀ o : Op, o.isRead = true → P o) :
    Supervisor.loadPane.Emits P := by
  refine (emits_read hr rfl).bind fun text => ?_
  split <;> trivial

theorem emits_paneExists {P : Op → Prop} (hr : ∀ o : Op, o.isRead = true → P o) (pane : String) :
    (Supervisor.paneExists pane).Emits P := by
  refine (emits_read hr rfl).bind fun panes => ?_
  cases panes <;> trivial

theorem emits_isPaneBusy {P : Op → Prop} (hr : ∀ o : Op, o.isRead = true → P o) (pane : String) :
    (Supervisor.isPaneBusy pane).Emits P := by
  refine (emits_read hr rfl).bind fun mode => ?_
  cases mode with
  | raised e => trivial
  | ok mode =>
    simp only []
    split
    · trivial
    · refine (emits_read hr rfl).bind fun out => ?_
      cases out <;> trivial

theorem emits_sendWake (job : Job) (pane repoName : String) :
    (Supervisor.sendWake job pane repoName).Emits (Op.wakes job.id) := by
  have hw : ∀ {o : Op} {α : Type} {f : o.Res → Py α}, o.wakes job.id →
      (∀ r, (f r).Emits (Op.wakes job.id)) → ((op o).bind f).Emits (Op.wakes job.id) :=
    fun ho hf => (emits_op ho).bind hf
  refine Prog.Emits.tryCatch (hw (.inr rfl) fun text => ?_) fun e => ?_
  · cases text with
    | raised e => trivial
    | ok _ =>
      refine hw (.inl rfl) fun enter => ?_
      cases enter with
      | raised e => trivial
      | ok _ => exact hw (.inr rfl) fun _ => hw (.inr rfl) fun _ => trivial
  · split <;> trivial

theorem emits_tryWake (cfg : Settings) (job : Job) :
    (Supervisor.tryWake cfg job).Emits Phase.supervisor.performs := by
  have hc := emits_claimAndFallback cfg job
  unfold Supervisor.tryWake
  split
  · trivial
  · refine (emits_loadPane readS).bind fun pane => ?_
    cases pane with
    | none => exact hc.bind fun _ => trivial
    | some pane =>
      refine (emits_paneExists readS pane).bind fun found => ?_
      split
      · exact hc.bind fun _ => trivial
      · refine (emits_isPaneBusy readS pane).bind fun busy => ?_
        split
        · trivial
        · exact (emits_read readS rfl).bind fun repo =>
            (emits_sendWake _ _ _).mono fun _ h => h.performs

theorem emits_tick (cfg : Settings) : (Supervisor.tick cfg).Emits Phase.supervisor.performs := by
  refine writeS (.inr trivial) fun jobs => Prog.emits_forEach fun job _ =>
    Prog.Emits.tryCatch ((emits_read readS rfl).bind fun now => ?_) fun _ => trivial
  split
  · trivial
  · split
    · trivial
    · split
      · exact (emits_attemptFallbackNotify cfg job).mono fun _ h => h.performs
      · split
        · exact emits_claimAndFallback cfg job
        · simp only []
          split
          · exact emits_claimAndFallback cfg job
          · split
            · exact (emits_tryWake cfg job).bind fun _ => trivial
            · trivial

end Supervisor

theorem emits_phaseProg (cfg : Settings) (p : Phase) :
    (Daemon.phaseProg cfg p).Emits p.performs := by
  cases p with
  | idle => trivial
  | commands => exact emits_processCommands.bind fun _ => trivial
  | recovery => exact emits_driveRecovery.bind fun _ => trivial
  | dispatch => exact (emits_dispatchOne cfg).bind fun _ => trivial
  | watchdog => exact (emits_watchdogStep cfg).bind fun _ => trivial
  | supervisor => exact (emits_tick cfg).bind fun _ => trivial

/-! ## Runs -/

namespace Sys

variable {cfg : Settings} {c c' : Sys} {e : Event}

/-- What a thread may perform in the current phase of the daemon. -/
def performs (c : Sys) : Tid → Op → Prop
  | .daemon => c.shared.phase.performs
  | .reader _ => Op.ofReader
  | .cli _ => Op.ofCli

/-- Every thread stays within its operations. -/
def Footprint (c : Sys) : Prop := ∀ t, (c.prog t).Emits (c.performs t)

theorem footprint_boot (db : Db) (environ : Environ) : (boot db environ).Footprint
  | .daemon | .reader _ | .cli _ => trivial

theorem Footprint.step (hc : c.Footprint) (h : step cfg c e = some c') : c'.Footprint := by
  cases e with
  | run t i =>
    obtain ⟨o, -, -, -, hs, -, -⟩ := Pool.step_cases h
    have hp : ∀ u, c'.performs u = c.performs u := by
      intro u
      cases u with
      | daemon => simp only [performs, hs, exec_phase]
      | _ => rfl
    intro u
    rw [hp u]
    exact Pool.emits_step h (hc u)
  | next =>
    obtain ⟨p, -, -, rfl⟩ := step_next h
    intro u
    cases u with
    | daemon => simpa [performs] using emits_phaseProg cfg p
    | reader a => exact hc (.reader a)
    | cli n => exact hc (.cli n)
  | exit a code result rl =>
    obtain ⟨w, -, -, rfl⟩ := step_exit h
    intro u
    by_cases hu : u = .reader a
    · subst hu
      simpa [performs] using emits_onComplete cfg w.callback code result rl
    · rw [Pool.load_prog_of_ne _ _ hu]
      cases u with
      | daemon => exact hc .daemon
      | reader b => exact hc (.reader b)
      | cli n => exact hc (.cli n)
  | invoke n cmd =>
    cases h
    intro u
    by_cases hu : u = .cli n
    · subst hu
      simpa [performs] using emits_cliProg cmd
    · rw [Pool.load_prog_of_ne _ _ hu]
      cases u with
      | daemon => exact hc .daemon
      | reader b => exact hc (.reader b)
      | cli m => exact hc (.cli m)
  | restart environ =>
    cases h
    intro u
    cases u with
    | daemon => trivial
    | reader a => trivial
    | cli n => exact hc (.cli n)

/-- Along every run every thread stays within its operations. -/
theorem Footprint.run {ok : Sys → Event → Prop} (hc : c.Footprint) (h : Runs cfg ok c c') :
    c'.Footprint :=
  h.invariant (I := Footprint) (fun _ _ _ hs _ he => hs.step he) hc

/-- What the operation of a step can be. -/
theorem Footprint.next? (hc : c.Footprint) {t : Tid} {o : Op} (h : c.next? t = some o) :
    c.performs t o := Pool.of_next? (hc t) h

/-- What an event does to one job row: nothing, or a `JobStep` of an operation
    that the thread may perform. -/
theorem Footprint.job (hc : c.Footprint) (h : Sys.step cfg c e = some c') {j : ℕ} {r : Job}
    (hr : c.shared.db.getJob j = some r) :
    ∃ r', c'.shared.db.getJob j = some r' ∧
      (r' = r ∨
        ∃ t i o, e = .run t i ∧ c.next? t = some o ∧ c.performs t o ∧ JobStep i o r r') := by
  rcases step_shared h with ⟨t, i, o, rfl, hn, hs⟩ | ⟨hs, -⟩
  · obtain ⟨r', hr', hj⟩ := exec_job o i hr
    exact ⟨r', by rw [hs]; exact hr', .inr ⟨t, i, o, rfl, hn, hc.next? hn, hj⟩⟩
  · exact ⟨r, by rw [hs]; exact hr, .inl rfl⟩

/-- An operation with a home is performed there only. -/
theorem home_of_performs {t : Tid} {o : Op} {p : Phase} (h : c.performs t o)
    (ho : o.home = some p) : t = .daemon ∧ c.shared.phase = p := by
  cases t with
  | daemon => exact ⟨rfl, Phase.performs.home h ho⟩
  | reader a =>
    rw [Op.ofReader.not_home h] at ho
    cases ho
  | cli n =>
    rw [Op.ofCli.not_home h] at ho
    cases ho

/-- Every `UPDATE` of `transition_job` follows an edge out of the state that its
    `SELECT` read. -/
theorem valid_of_performs {t : Tid} {j : ℕ} {current new : JobState} {result : Option String}
    (h : c.performs t (.updateJobState j current new result)) :
    new ∈ current.validTransitions := by
  cases t with
  | daemon => exact (Phase.performs.target h).1
  | reader a => exact (Op.ofReader.target h).1
  | cli n => exact absurd h Op.not_ofCli_transition

end Sys

end DiscordAgent
