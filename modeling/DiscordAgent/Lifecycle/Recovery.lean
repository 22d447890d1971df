import DiscordAgent.System.Contract

/-!
# What the watchdog leaves behind

`timed_out` and `lost` are states that only the watchdog resolves: it puts a
job into one of them in `check_all` and takes it out again in `apply_recovery`.

Results:
* `Sys.watchdog_resolves`: along every run in which `_handle_lost` is never
  entered and the daemon is not killed inside its watchdog phase, no job is in
  `timed_out` or `lost` outside that phase, and every recovery result is true.
* `Sys.lost_job_stranded`: `report_lost` asks for `lost → needs_controller`, an
  edge that `VALID_TRANSITIONS` does not have. The job stays in `lost` and the
  result says `needs_controller`.
-/

namespace DiscordAgent

open Interleave Orchestrator

/-- Job `j` is in `timed_out` or `lost`. -/
def World.InLimbo (w : World) (j : ℕ) : Prop :=
  ∃ r, w.db.getJob j = some r ∧ r.state.limbo = true

variable {o : Op} {i : Inputs} {w : World} {j : ℕ}

/-! ## Operations and limbo -/

/-- Only an `UPDATE` of `transition_job` can put a job into limbo. -/
theorem inLimbo_of_exec (h : (exec o i w).2.InLimbo j) :
    w.InLimbo j ∨ ∃ current new result, o = .updateJobState j current new result ∧
      new.limbo = true := by
  obtain ⟨r', hr', hl⟩ := h
  cases hj : w.db.getJob j with
  | none =>
    obtain ⟨n, -, -, rfl⟩ := exec_newJob hj hr'
    cases hl
  | some r =>
    obtain ⟨r'', hr'', hs⟩ := exec_job o i hj
    rw [hr'] at hr''
    cases hr''
    cases hs with
    | transition current new result =>
      exact .inr ⟨current, new, result, by rw [Db.getJob_id hj], hl⟩
    | rateLimit => cases hl
    | succeed => cases hl
    | _ => exact .inl ⟨_, hj, hl⟩

/-- After the `UPDATE` the job is in limbo only if the new state is. -/
theorem limbo_of_update {current new : JobState} {result : Option String}
    (h : (exec (.updateJobState j current new result) i w).2.InLimbo j) : new.limbo = true := by
  obtain ⟨r', hr', hl⟩ := h
  rw [exec_update, if_pos rfl] at hr'
  obtain ⟨r, -, rfl⟩ := Option.map_eq_some_iff.mp hr'
  exact hl

/-! ## The contract -/

/-- The daemon relies on the others to put no job into limbo. It assumes that a
    process it looks up for an unfinished attempt is in the table, and
    guarantees that only the watchdog phase puts jobs into limbo, that its
    updates take jobs out of limbo to `queued` or a delivery-terminal state, and
    that the results it logs are true. -/
def recoveryContract : Contract Op World where
  rely s t := t.phase = s.phase ∧ ∀ j, t.InLimbo j → s.InLimbo j
  refl _ := ⟨rfl, fun _ h => h⟩
  trans h h' := ⟨h'.1.trans h.1, fun j hj => h.2 j (h'.2 j hj)⟩
  assume o s := ∀ latest, o = .probe latest → latest.finishedAt = none → latest.id ∈ s.processes
  guar o s t := (s.phase ≠ .watchdog → ∀ j, t.InLimbo j → s.InLimbo j) ∧
    (∀ a r, o = .logRecoveryResult a r → ¬ s.InLimbo a.jobId ∧ ∀ j, r ≠ .needsController j) ∧
    (∀ j current new result, o = .updateJobState j current new result → s.InLimbo j →
      new = .queued ∨ new.deliveryTerminal = true)

/-- The watchdog is running and the jobs in limbo are among `X`. -/
def LimboWithin (X : Set ℕ) (w : World) : Prop := w.phase = .watchdog ∧ ∀ j, w.InLimbo j → j ∈ X

theorem stable_limboWithin (X : Set ℕ) : recoveryContract.Stable (LimboWithin X) := by
  intro s t h hs
  refine ⟨h.1.trans hs.1, ?_⟩
  intro j hj
  exact hs.2 j (h.2 j hj)

theorem LimboWithin.mono {X Y : Set ℕ} (h : LimboWithin X w) (hXY : X ⊆ Y) : LimboWithin Y w :=
  ⟨h.1, fun j hj => hXY (h.2 j hj)⟩

/-- Neither an `UPDATE` of a job state nor the log of a result. -/
def Op.recoveryQuiet (o : Op) : Prop :=
  (∀ j current new result, o ≠ .updateJobState j current new result) ∧
    ∀ a r, o ≠ .logRecoveryResult a r

theorem Op.recoveryQuiet_of_isRead (h : o.isRead = true) : o.recoveryQuiet := by
  constructor
  · rintro j current new result rfl
    cases h
  · rintro a r rfl
    cases h

theorem Op.recoveryQuiet.keeps (h : o.recoveryQuiet) (hj : (exec o i w).2.InLimbo j) :
    w.InLimbo j := by
  rcases inLimbo_of_exec hj with hl | ⟨current, new, result, ho, -⟩
  · exact hl
  · exact absurd ho (h.1 _ _ _ _)

theorem Op.recoveryQuiet.guar (h : o.recoveryQuiet) :
    recoveryContract.guar o w (exec o i w).2 := by
  refine ⟨fun _ _ hj => h.keeps hj, ?_, ?_⟩
  · intro a r ho
    exact absurd ho (h.2 a r)
  · intro j current new result ho
    exact absurd ho (h.1 j current new result)

/-! ## Triples of the watchdog -/

section Watchdog

variable {X : Set ℕ} {E : PyErr → World → Prop}

theorem Op.recoveryQuiet.within {o : Op} (h : o.recoveryQuiet) :
    recoveryContract.Keeps exec (LimboWithin X) o := by
  intro s i hs _
  refine ⟨h.guar, ?_, fun j hj => hs.2 j (h.keeps hj)⟩
  rw [exec_phase]
  exact hs.1

theorem limbo_quiet {o : Op} (h : o.recoveryQuiet) :
    Triple exec recoveryContract (LimboWithin X) (op o) (fun _ => LimboWithin X) E :=
  Triple.op (stable_limboWithin X) (fun _ => stable_limboWithin X) h.within

theorem limbo_read {o : Op} (h : o.isRead = true) :
    Triple exec recoveryContract (LimboWithin X) (op o) (fun _ => LimboWithin X) E :=
  limbo_quiet (Op.recoveryQuiet_of_isRead h)

/-- After the `SELECT` of job `j`, it can only be in limbo if the row is. -/
theorem limbo_select (j : ℕ) :
    Triple exec recoveryContract (LimboWithin X) (op (.getJob j))
      (fun r => LimboWithin {k ∈ X | k = j → ∃ job, r = some job ∧ job.state.limbo = true}) E := by
  apply Triple.op (stable_limboWithin X) (fun r => stable_limboWithin _)
  intro s i hs _
  refine ⟨(Op.recoveryQuiet_of_isRead rfl).guar, hs.1, ?_⟩
  intro k hk
  refine ⟨hs.2 k hk, ?_⟩
  rintro rfl
  exact hk

theorem limbo_ignoreValueError {P Q : World → Prop} {p : Py Unit}
    (hQ : recoveryContract.Stable Q)
    (h : Triple exec recoveryContract P p (fun _ => Q) (fun e s => e.isValueError = true ∧ Q s)) :
    Triple exec recoveryContract P (ignoreValueError p) (fun _ => Q) E := by
  refine h.tryCatch fun e => ?_
  by_cases he : e.isValueError = true
  · rw [onValueError, if_pos he]
    exact Triple.ret ((Contract.stable_const _).and hQ) fun s hs => hs.2
  · exact fun s hs => absurd hs.1 he

/-- The `UPDATE`, from a state in which job `j` can only be in limbo if the row
    that was read is. -/
theorem limbo_update {job : Job} {new : JobState} {result : Option String} {Y : Set ℕ}
    (hY : ∀ k ∈ X, k ≠ j ∨ new.limbo = true → k ∈ Y)
    (hout : job.state.limbo = true → new = .queued ∨ new.deliveryTerminal = true) :
    Triple exec recoveryContract
      (LimboWithin {k ∈ X | k = j → ∃ job', some job = some job' ∧ job'.state.limbo = true})
      (op (.updateJobState j job.state new result)) (fun _ => LimboWithin (insert j Y ∩
        {k | k = j → new.limbo = true})) E := by
  apply Triple.op (stable_limboWithin _) (fun _ => stable_limboWithin _)
  intro s i hs _
  have hkeep : ∀ k, (exec (.updateJobState j job.state new result) i s).2.InLimbo k → k ≠ j →
      s.InLimbo k := by
    intro k hk hkj
    rcases inLimbo_of_exec hk with h | ⟨_, _, _, ho, -⟩
    · exact h
    · cases ho
      exact absurd rfl hkj
  refine ⟨⟨fun hp => absurd hs.1 hp, fun _ _ ho => (by cases ho), ?_⟩, ?_, ?_⟩
  · intro k current new' result' ho hk
    cases ho
    obtain ⟨_, hjob, hl⟩ := (hs.2 j hk).2 rfl
    cases hjob
    exact hout hl
  · rw [exec_phase]
    exact hs.1
  · intro k hk
    constructor
    · by_cases hkj : k = j
      · exact .inl hkj
      · exact .inr (hY k (hs.2 k (hkeep k hk hkj)).1 (.inl hkj))
    · rintro rfl
      exact limbo_of_update hk

/-- `timed_out` and `lost` have edges to `queued` and `failed_permanent`, so a
    transition to one of these takes the job out of limbo, whether it succeeds
    or raises. -/
theorem limbo_resolve {new : JobState} (hnew : new = .queued ∨ new = .failedPermanent) (j : ℕ)
    (result : Option String) :
    Triple exec recoveryContract (LimboWithin X) (transitionJob j new result)
      (fun _ => LimboWithin (X \ {j}))
      (fun e s => e.isValueError = true ∧ LimboWithin (X \ {j}) s) := by
  have hraise : ∀ (e : PyErr) (r : Option Job), e.isValueError = true →
      (∀ job, r = some job → job.state.limbo = false) →
      Triple exec recoveryContract
        (LimboWithin {k ∈ X | k = j → ∃ job, r = some job ∧ job.state.limbo = true})
        (.raise e : Py Unit) (fun _ => LimboWithin (X \ {j}))
        (fun e s => e.isValueError = true ∧ LimboWithin (X \ {j}) s) := by
    intro e r he hr
    apply Triple.raise (stable_limboWithin _)
    intro s hs
    refine ⟨he, hs.mono ?_⟩
    intro k hk
    refine ⟨hk.1, ?_⟩
    intro hkj
    obtain ⟨job, hjob, hl⟩ := hk.2 hkj
    rw [hr job hjob] at hl
    cases hl
  refine (limbo_select j).bind fun r => ?_
  cases r with
  | none => exact hraise _ none rfl fun _ h => by cases h
  | some job =>
    simp only []
    split_ifs with hv
    · have hl : new.limbo = false := by rcases hnew with rfl | rfl <;> rfl
      refine (limbo_update (Y := X \ {j}) (fun k hk h => ⟨hk, ?_⟩) fun _ => ?_).post
        (fun _ s hs => hs.mono fun k hk => ?_) fun e s h => h
      · rcases h with h | h
        · exact h
        · rw [hl] at h
          cases h
      · rcases hnew with rfl | rfl
        · exact .inl rfl
        · exact .inr rfl
      · rcases hk.1 with rfl | hk'
        · have := hk.2 rfl
          rw [hl] at this
          cases this
        · exact hk'
    · apply hraise _ (some job) rfl
      rintro job' ⟨⟩
      rcases hnew with rfl | rfl <;> revert hv <;> cases job.state <;> decide

/-- A transition into limbo starts outside of it. -/
theorem limbo_enter {new : JobState} (hnew : new.limbo = true) (j : ℕ) :
    Triple exec recoveryContract (LimboWithin X) (transitionJob j new)
      (fun _ => LimboWithin (insert j X))
      (fun e s => e.isValueError = true ∧ LimboWithin (insert j X) s) := by
  refine (limbo_select j).bind fun r => ?_
  have hraise : ∀ e : PyErr, e.isValueError = true → Triple exec recoveryContract
      (LimboWithin {k ∈ X | k = j → ∃ job, r = some job ∧ job.state.limbo = true})
      (.raise e : Py Unit) (fun _ => LimboWithin (insert j X))
      (fun e s => e.isValueError = true ∧ LimboWithin (insert j X) s) := by
    intro e he
    apply Triple.raise (stable_limboWithin _)
    intro s hs
    refine ⟨he, hs.mono ?_⟩
    intro k hk
    exact .inr hk.1
  cases r with
  | none => exact hraise _ rfl
  | some job =>
    simp only []
    split_ifs with hv
    · refine (limbo_update (Y := X) (fun k hk _ => hk) fun hl => ?_).post
        (fun _ s hs => hs.mono fun k hk => hk.1) fun e s h => h
      revert hv hl hnew
      cases job.state <;> cases new <;> decide
    · exact hraise _ rfl

/-- The actions of `check_all` without `_handle_lost`. -/
def RecoveryAction.Retries (a : RecoveryAction) : Prop :=
  a.action = .retrySameSession ∨ a.action = .forkSession

theorem limbo_handleTimeout (j : ℕ) :
    Triple exec recoveryContract (LimboWithin X) (Watchdog.handleTimeout j)
      (fun a s => (a.Retries ∧ a.jobId = j) ∧ LimboWithin (insert j X) s) E := by
  refine (limbo_read rfl).bind fun attempts => ?_
  have hstep : ∀ a : RecoveryAction, a.Retries ∧ a.jobId = j →
      Triple exec recoveryContract (LimboWithin X)
        ((ignoreValueError (transitionJob j .timedOut)).bind fun _ => (.ret a : Py RecoveryAction))
        (fun a s => (a.Retries ∧ a.jobId = j) ∧ LimboWithin (insert j X) s) E := by
    intro a ha
    refine (limbo_ignoreValueError (stable_limboWithin _) (limbo_enter rfl j)).bind fun _ => ?_
    exact Triple.ret (stable_limboWithin _) fun s hs => ⟨ha, hs⟩
  simp only []
  split
  · exact hstep _ ⟨.inl rfl, rfl⟩
  · exact hstep _ ⟨.inr rfl, rfl⟩

/-- The jobs of a list of actions. -/
def jobsOf (as : List RecoveryAction) : Set ℕ := {k | ∃ a ∈ as, a.jobId = k}

/-- All actions retry, and the jobs in limbo are among theirs. -/
def LimboOf (as : List RecoveryAction) (w : World) : Prop :=
  (∀ a ∈ as, a.Retries) ∧ LimboWithin (jobsOf as) w

theorem stable_limboOf (as : List RecoveryAction) : recoveryContract.Stable (LimboOf as) :=
  (Contract.stable_const _).and (stable_limboWithin _)

theorem LimboOf.add {as : List RecoveryAction} {a : RecoveryAction} {w : World}
    (h : ∀ b ∈ as, b.Retries) (ha : a.Retries) (hw : LimboWithin (insert a.jobId (jobsOf as)) w) :
    LimboOf (as ++ [a]) w := by
  refine ⟨?_, hw.mono ?_⟩
  · intro b hb
    rcases List.mem_append.mp hb with hb | hb
    · exact h b hb
    · rw [List.mem_singleton.mp hb]
      exact ha
  · rintro k (rfl | ⟨b, hb, rfl⟩)
    · exact ⟨a, by simp, rfl⟩
    · exact ⟨b, by simp [hb], rfl⟩

theorem limbo_checkJob (cfg : Settings) (job : Job) (out : List RecoveryAction) :
    Triple exec recoveryContract (LimboOf out) (Watchdog.checkJob cfg job)
      (fun a => LimboOf (out ++ a.toList)) E := by
  intro s hs
  have hout := hs.1
  have hnone : Triple exec recoveryContract (LimboWithin (jobsOf out))
      (.ret none : Py (Option RecoveryAction)) (fun a => LimboOf (out ++ a.toList)) E := by
    apply Triple.ret (stable_limboWithin _)
    intro t ht
    simpa using ⟨hout, ht⟩
  have htime : Triple exec recoveryContract (LimboWithin (jobsOf out))
      ((Watchdog.handleTimeout job.id).bind fun a => (.ret (some a) : Py (Option RecoveryAction)))
      (fun a => LimboOf (out ++ a.toList)) E := by
    refine (limbo_handleTimeout job.id).bind fun a => ?_
    apply Triple.ret ((Contract.stable_const _).and (stable_limboWithin _))
    rintro t ⟨⟨ha, hid⟩, ht⟩
    apply LimboOf.add hout ha
    rw [hid]
    exact ht
  refine Triple.bind (limbo_read rfl) (fun now => (limbo_read rfl).bind fun attempts => ?_) s hs.2
  split
  · exact hnone
  · next latest _ =>
    split
    · exact htime
    · -- the run promises a process for every unfinished attempt
      refine Triple.bind (M := fun r s => (r = none → latest.finishedAt ≠ none) ∧
        LimboWithin (jobsOf out) s) ?_ fun proc => ?_
      · apply Triple.op (stable_limboWithin _)
          (fun r => (Contract.stable_const _).and (stable_limboWithin _))
        intro s i hs ha
        refine ⟨(Op.recoveryQuiet_of_isRead rfl).guar, ?_, hs⟩
        intro hprobe hf
        have := ha latest rfl hf
        simp [exec, this] at hprobe
      · intro s hs
        cases proc with
        | none =>
          have hf : ¬ latest.finishedAt.isNone = true := by simpa using hs.1 rfl
          simp only []
          rw [if_neg hf]
          exact hnone s hs.2
        | some proc =>
          simp only []
          split
          · exact hnone s hs.2
          · split
            · exact htime s hs.2
            · exact hnone s hs.2

theorem limbo_checkAll (cfg : Settings) :
    Triple exec recoveryContract (LimboWithin ∅) (Watchdog.checkAll cfg) LimboOf E := by
  refine (limbo_read rfl).bind fun running => (limbo_read rfl).bind fun starting => ?_
  refine (Triple.collect (J := fun _ out => LimboOf out) stable_limboOf
    (fun job _ out => limbo_checkJob cfg job out) _ []).pre fun s hs => ?_
  exact ⟨by simp, hs.mono (Set.empty_subset _)⟩

theorem limbo_of_emits {p : Py Unit} (hp : p.Emits Op.recoveryQuiet) :
    Triple exec recoveryContract (LimboWithin X) p (fun _ => LimboWithin X) fun _ _ => True :=
  (Triple.of_emits (stable_limboWithin X) (hp.mono fun _ ho => ho.within)).anyError

theorem limbo_cleanup (b : Bool) (j : ℕ) :
    Triple exec recoveryContract (LimboWithin X)
      (Prog.runIf b (Watchdog.cleanupRunningProcess j)) (fun _ => LimboWithin X)
      fun _ _ => True :=
  limbo_of_emits <| Prog.emits_runIf fun _ => emits_cleanupRunningProcess
    (fun _ => Op.recoveryQuiet_of_isRead) (fun _ => ⟨by simp, by simp⟩)
    (fun _ _ _ => ⟨by simp, by simp⟩) (fun _ => ⟨by simp, by simp⟩) j

theorem limbo_markOldSessionDead (j : ℕ) :
    Triple exec recoveryContract (LimboWithin X) (Watchdog.markOldSessionDead j)
      (fun _ => LimboWithin X) fun _ _ => True := by
  refine (limbo_read rfl).bind fun attempts => ?_
  split
  · exact (limbo_quiet ⟨by simp, by simp⟩).bind fun _ =>
      Triple.skip (stable_limboWithin _) _
  · exact Triple.skip (stable_limboWithin _) _

/-- A true result: it does not claim `needs_controller`. -/
def RecoveryResult.Retried (r : RecoveryResult) : Prop := ∀ j, r ≠ .needsController j

theorem stable_retried (r : RecoveryResult) (Y : Set ℕ) :
    recoveryContract.Stable fun s => r.Retried ∧ LimboWithin Y s :=
  (Contract.stable_const _).and (stable_limboWithin _)

theorem limbo_applyRecovery {a : RecoveryAction} (ha : a.Retries) :
    Triple exec recoveryContract (LimboWithin X) (Watchdog.applyRecovery a)
      (fun r s => r.Retried ∧ LimboWithin (X \ {a.jobId}) s) fun _ _ => True := by
  obtain ⟨action, j, detail⟩ := a
  -- the last step of every branch
  have hret : ∀ r : RecoveryResult, r.Retried →
      Triple exec recoveryContract (LimboWithin (X \ {j})) (.ret r : Py RecoveryResult)
        (fun r s => r.Retried ∧ LimboWithin (X \ {j}) s) fun _ _ => True := by
    intro r hr
    exact Triple.ret (stable_limboWithin _) fun _ hs => ⟨hr, hs⟩
  have htry : ∀ {r : RecoveryResult} {h : PyErr → Py RecoveryResult}, r.Retried →
      (∀ e, Triple exec recoveryContract (LimboWithin (X \ {j})) (h e)
        (fun r s => r.Retried ∧ LimboWithin (X \ {j}) s) fun _ _ => True) →
      Triple exec recoveryContract (LimboWithin X)
        (((transitionJob j .queued).bind fun _ => .ret r).tryCatch (onValueError h))
        (fun r s => r.Retried ∧ LimboWithin (X \ {j}) s) fun _ _ => True := by
    intro r h hr hh
    refine Triple.tryCatch (M := fun e s => e.isValueError = true ∧ LimboWithin (X \ {j}) s) ?_
      fun e => ?_
    · exact (limbo_resolve (.inl rfl) j none).bind fun _ =>
        Triple.ret (stable_limboWithin _) fun _ hs => ⟨hr, hs⟩
    · by_cases he : e.isValueError = true
      · rw [onValueError, if_pos he]
        exact (hh e).pre fun _ hs => hs.2
      · exact fun s hs => absurd hs.1 he
  refine (limbo_select j).bind fun r => ?_
  cases r with
  | none =>
    apply Triple.ret (stable_limboWithin _)
    intro s hs
    refine ⟨fun _ => by simp, hs.mono ?_⟩
    rintro k ⟨hk, hkj⟩
    refine ⟨hk, ?_⟩
    intro h
    obtain ⟨_, hjob, -⟩ := hkj h
    cases hjob
  | some job =>
    refine Triple.pre (P := LimboWithin X) ?_ fun s hs => hs.mono fun k hk => hk.1
    refine (limbo_cleanup _ j).bind fun _ => ?_
    rcases ha with rfl | rfl
    · exact htry (fun _ => by simp) fun e => hret _ fun _ => by simp
    · refine (limbo_markOldSessionDead j).bind fun old =>
        (limbo_quiet ⟨by simp, by simp⟩).bind fun new => ?_
      refine htry (fun _ => by simp) fun e => ?_
      refine (limbo_ignoreValueError (stable_limboWithin _) ?_).bind fun _ =>
        hret _ fun _ => by simp
      exact (limbo_resolve (.inr rfl) j _).post
        (fun _ s hs => hs.mono Set.sdiff_subset) fun e s hs => ⟨hs.1, hs.2.mono Set.sdiff_subset⟩

theorem limbo_runWatchdog (cfg : Settings) :
    Triple exec recoveryContract (LimboWithin ∅) (Daemon.runWatchdog cfg)
      (fun _ => LimboWithin ∅) fun _ _ => True := by
  refine (limbo_checkAll cfg).bind fun actions => ?_
  refine Triple.post ?_ (fun _ s (hs : LimboOf [] s) => hs.2.mono ?_) fun _ _ h => h
  · refine Triple.forEach (stable_limboOf []) (fun a as s hs => ?_) actions
    have ha : a.Retries := hs.1 a (by simp)
    have has : ∀ b ∈ as, b.Retries := by
      intro b hb
      exact hs.1 b (by simp [hb])
    refine Triple.bind (limbo_quiet ⟨by simp, by simp⟩) (fun _ =>
      (limbo_applyRecovery ha).bind fun r => ?_) s hs.2
    apply Triple.op (stable_retried r _) (fun _ => stable_limboOf as)
    intro t i ht _
    -- the result is logged: the job is out of limbo
    refine ⟨⟨fun hp => absurd ht.2.1 hp, ?_, fun _ _ _ _ ho => by cases ho⟩, has, ht.2.1, ?_⟩
    · rintro _ _ ⟨⟩
      exact ⟨fun hl => (ht.2.2 _ hl).2 rfl, ht.1⟩
    · intro k hk
      obtain ⟨⟨b, hb, rfl⟩, hne⟩ := ht.2.2 k hk
      rcases List.mem_cons.mp hb with rfl | hb
      · exact absurd rfl hne
      · exact ⟨b, hb, rfl⟩
  · rintro k ⟨b, hb, -⟩
    cases hb

theorem limbo_watchdogStep (cfg : Settings) :
    Triple exec recoveryContract (LimboWithin ∅) (Daemon.watchdogStep cfg)
      (fun _ => LimboWithin ∅) fun _ _ => True := by
  refine (limbo_read rfl).bind fun now => (limbo_read rfl).bind fun last => ?_
  refine Triple.runIf (stable_limboWithin _) (fun _ => ?_) fun _ _ h => h
  exact (limbo_runWatchdog cfg).bind fun _ => limbo_quiet ⟨by simp, by simp⟩

end Watchdog

/-! ## Runs -/

namespace Sys

variable {cfg : Settings} {c c' : Sys} {e : Event}

/-- `_handle_lost` is not entered: a process that the watchdog looks up for an
    unfinished attempt is in the table. The daemon is not killed inside its
    watchdog phase. -/
def noneLost (c : Sys) : Event → Bool
  | .run .daemon _ =>
    match c.next? .daemon with
    | some (.probe latest) => latest.finishedAt.isSome || decide (latest.id ∈ c.shared.processes)
    | _ => true
  | .restart _ => c.shared.phase != .watchdog
  | _ => true

/-- The threads other than the daemon put no job into limbo. -/
theorem Footprint.inLimbo_other (hc : c.Footprint) {t : Tid} {i : Inputs} {o : Op}
    (ht : t ≠ .daemon) (hn : c.next? t = some o) {j : ℕ}
    (hj : (exec o i c.shared).2.InLimbo j) : c.shared.InLimbo j := by
  rcases inLimbo_of_exec hj with h | ⟨current, new, result, rfl, hl⟩
  · exact h
  · have hp := hc.next? hn
    cases t with
    | daemon => exact absurd rfl ht
    | reader a =>
      simp [performs, Op.ofReader, Op.isRead, Op.isTransition] at hp
      rcases hp.2 with rfl | rfl <;> cases hl
    | cli n => simp [performs, Op.ofCli, Op.isRead] at hp

/-- Outside the watchdog phase the daemon puts no job into limbo either. -/
theorem inLimbo_phase {p : Phase} (hp : p ≠ .watchdog) {o : Op} (ho : p.performs o)
    {i : Inputs} {w : World} {j : ℕ} (hj : (exec o i w).2.InLimbo j) : w.InLimbo j := by
  rcases inLimbo_of_exec hj with h | ⟨current, new, result, rfl, hl⟩
  · exact h
  · cases p <;> simp [Phase.performs, Op.isRead, Op.isTransition] at ho
    · rw [ho.2] at hl
      cases hl
    · rcases ho.2 with rfl | rfl <;> cases hl
    · rcases ho.2 with rfl | rfl | rfl <;> cases hl
    · exact absurd rfl hp

/-- A phase other than the watchdog starts and ends without jobs in limbo. -/
theorem limbo_phase (cfg : Settings) {p : Phase} (hp : p ≠ .watchdog) :
    Triple exec recoveryContract (fun w => w.phase = p ∧ ∀ j, ¬ w.InLimbo j)
      (Daemon.phaseProg cfg p) (fun _ w => ∀ j, ¬ w.InLimbo j) fun _ _ => True := by
  have hst : recoveryContract.Stable fun w => w.phase = p ∧ ∀ j, ¬ w.InLimbo j := by
    intro s t h hs
    exact ⟨h.1.trans hs.1, fun j hj => hs.2 j (h.2 j hj)⟩
  refine (Triple.of_emits hst ((emits_phaseProg cfg p).mono fun o ho => ?_)).post
    (fun _ _ h => h.2) fun _ _ _ => trivial
  intro s i hs _
  refine ⟨⟨fun _ j hj => inLimbo_phase hp ho hj, ?_, ?_⟩, ?_, ?_⟩
  · rintro a r rfl
    cases p <;> simp [Phase.performs, Op.isRead, Op.isTransition] at ho
    exact absurd rfl hp
  · intro j _ _ _ _ hl
    exact absurd hl (hs.2 j)
  · rw [exec_phase]
    exact hs.1
  · intro j hj
    exact hs.2 j (inLimbo_phase hp ho hj)

/-- The daemon keeps `recoveryContract`. -/
def recoveryProof (cfg : Settings) : DaemonProof cfg fun c e => c.noneLost e = true where
  K := recoveryContract
  inv w := w.phase ≠ .watchdog → ∀ j, ¬ w.InLimbo j
  post _ w := ∀ j, ¬ w.InLimbo j
  other hc hi ht _ hn := by
    refine ⟨?_, exec_phase _ _ _, fun j hj => hc.inLimbo_other ht hn hj⟩
    intro hp j hj
    rw [exec_phase] at hp
    exact hi hp j (hc.inLimbo_other ht hn hj)
  assume {c i o} _ _ hok hn latest ho hf := by
    subst ho
    simpa [noneLost, hn, hf] using hok
  own hi _ hg hp j hj := by
    rw [exec_phase] at hp
    exact hi hp j (hg.1 hp j hj)
  enter {c p} _ _ hpost := by
    refine ⟨fun _ => hpost, ?_⟩
    by_cases hp : p = .watchdog
    · subst hp
      refine Triple.bind (limbo_watchdogStep cfg) (fun _ => ?_) _
        ⟨rfl, fun j hj => absurd hj (hpost j)⟩
      apply Triple.ret (stable_limboWithin ∅)
      intro s hs j hj
      exact hs.2 j hj
    · exact limbo_phase cfg hp _ ⟨rfl, hpost⟩
  reap hi := ⟨hi, rfl, fun _ h => h⟩
  reboot {c environ} _ hi hok := by
    have hp : c.shared.phase ≠ .watchdog := by simpa [noneLost] using hok
    constructor
    · intro _ j hj
      exact hi hp j hj
    · intro w hw j hj
      exact hi hp j (hw.2 j hj)

/-- Without an entry into `_handle_lost`, no job is in `timed_out` or `lost`
    outside the watchdog phase. When a recovery result is logged, its job is out
    of these states, and a job reported as `needs_controller` is in that state.
    Every update of the daemon takes a job out of these states to `queued` or a
    delivery-terminal state. -/
theorem watchdog_resolves {db : Db} {environ : Environ}
    (hdb : ∀ j r, db.getJob j = some r → r.state.limbo = false)
    (h : Runs cfg (fun c e => c.noneLost e = true) (boot db environ) c) :
    (c.shared.phase ≠ .watchdog → ∀ j r, c.shared.db.getJob j = some r → r.state.limbo = false) ∧
    ∀ i, c.noneLost (.run .daemon i) = true →
      (∀ a r, c.next? .daemon = some (.logRecoveryResult a r) →
        (∀ row, c.shared.db.getJob a.jobId = some row → row.state.limbo = false) ∧
        ∀ j, r = .needsController j → c.jobState j = some .needsController) ∧
      (∀ j current new result, c.next? .daemon = some (.updateJobState j current new result) →
        (∃ row, c.shared.db.getJob j = some row ∧ row.state.limbo = true) →
        new = .queued ∨ new.deliveryTerminal = true) := by
  have hboot : ∀ w : World, w.db = db → ∀ j, ¬ w.InLimbo j := by
    rintro w rfl j ⟨r, hr, hl⟩
    rw [hdb j r hr] at hl
    cases hl
  have hgood := (recoveryProof cfg).sound (DaemonProof.good_boot (fun _ => hboot _ rfl)
    fun w hw j hj => hboot _ rfl j (hw.2 j hj)) h
  have hout : ∀ {w : World} {j : ℕ}, ¬ w.InLimbo j → ∀ row, w.db.getJob j = some row →
      row.state.limbo = false := by
    intro w j hl row hrow
    apply Bool.eq_false_iff.mpr
    intro hrl
    exact hl ⟨row, hrow, hrl⟩
  refine ⟨fun hp j => hout (hgood.inv hp j), fun i hok => ⟨?_, ?_⟩⟩
  · intro a r hn
    obtain ⟨-, hlog, -⟩ := hgood.guarantee hok hn
    obtain ⟨hl, hr⟩ := hlog a r rfl
    exact ⟨hout hl, fun j hj => absurd hj (hr j)⟩
  · intro j current new result hn hl
    exact (hgood.guarantee hok hn).2.2 j current new result rfl hl

theorem watchdog_resolves_timeout : ∃ c : Sys, c.shared.phase = .idle ∧
    .recovered ⟨.retrySameSession, 1, "Timed out after 1 attempt(s), will retry on same session"⟩
      (.requeued 1) ∈ c.shared.journal ∧
    ∀ j r, c.shared.db.getJob j = some r → r.state.limbo = false := by
  obtain ⟨c, hrun, hp⟩ := exists_run noneLost (startJob oneJob ++ timeOut)
    (fun c => c.shared.phase == .idle && c.shared.journal.contains
      (.recovered ⟨.retrySameSession, 1,
        "Timed out after 1 attempt(s), will retry on same session"⟩ (.requeued 1)))
    (by decide +kernel)
  simp only [Bool.and_eq_true, beq_iff_eq, List.contains_iff_mem] at hp
  refine ⟨c, hp.1, hp.2, (watchdog_resolves (fun j r h => ?_) hrun).1 (by simp [hp.1])⟩
  cases h

/-- The daemon restarts while attempt 1 is unfinished. The next watchdog pass
    finds no process for it. -/
def lostTick : List Event :=
  startJob oneJob ++ restartIdle ++ [.next] ++ daemonSteps 19 { now := 100 } ++ [.next] ++
    daemonSteps 1 ++ [.next]

theorem lost_job_stranded : ∃ c : Sys,
    Runs Settings.plain (fun _ _ => True) (boot default fun _ => none) c ∧
    c.shared.phase = .idle ∧ c.jobState 1 = some .lost ∧
    .recovered ⟨.reportLost, 1, "Process lost (attempt 1), reporting to controller"⟩
      (.needsController 1) ∈ c.shared.journal := by
  obtain ⟨c, hrun, hp⟩ := exists_run (fun _ _ => true) lostTick
    (fun c => c.shared.phase == .idle && c.jobState 1 == some .lost &&
      c.shared.journal.contains (.recovered ⟨.reportLost, 1,
        "Process lost (attempt 1), reporting to controller"⟩ (.needsController 1)))
    (by decide +kernel)
  simp only [Bool.and_eq_true, beq_iff_eq, List.contains_iff_mem] at hp
  exact ⟨c, hrun.mono fun _ _ _ => trivial, hp.1.1, hp.1.2, hp.2⟩

end Sys

end DiscordAgent
