import DiscordAgent.System.Basic

/-!
# What one operation does

The effect of an operation on one job row, on the attempts and on the journal,
said once for all operations. Every invariant below is derived from these
lemmas; no later proof unfolds `exec` to find out what an operation leaves
alone.

* `exec_job`: a job row stays or takes one `JobStep`.
* `exec_newJob`, `exec_active`: a new row comes from `create_job`, and a newly active
  one from `update_job_state`.
* `exec_attempts`, `exec_journal`: the attempts table and the journal.
* `exec_repo`, `exec_newRepo`: a repo row stays or takes one `RepoStep`, and a new
  one comes from `create_repo`.
-/

namespace DiscordAgent

open Interleave Sql

variable {o : Op} {i : Inputs} {w : World} {j : ℕ} {r r' : Job}

/-! ## Operations that change nothing -/

/-- The operation leaves the whole world as it is. -/
def Op.isRead : Op → Bool
  | time | getJob _ | listJobs .. | countRunningJobs _ | maxAttemptNum _ | getAttempts _
  | listSessions .. | getRepo _ | allRepos | getRepoById _ | getBackoff _ | loadSystemPrompt
  | getProcess _ | probe _ | joinReader _ | getLastWatchdogCheck | readPaneFile
  | tmux .listPanes | tmux (.displayMode _) | tmux (.capturePane _) | tmux (.sendEnter _) => true
  | _ => false

theorem exec_isRead (h : o.isRead = true) : (exec o i w).2 = w := by
  cases o with
  | tmux cmd =>
    cases cmd with
    | sendText => cases h
    | _ => rfl
  | _ => first | rfl | cases h

/-! ## Job rows -/

namespace Db

variable {db : Db} {f : Job → Job} {h : ∀ j, (f j).id = j.id} {k : ℕ}

@[simp] theorem getJob_id (hr : db.getJob j = some r) : r.id = j := Table.id_of_get? hr

theorem getJob_updateJob :
    (db.updateJob k f h).getJob j = if j = k then (db.getJob j).map f else db.getJob j :=
  Table.get?_update (h := h)

theorem getJob_updateJob_self (hr : db.getJob j = some r) :
    (db.updateJob j f h).getJob j = some (f r) := by
  rw [getJob_updateJob, if_pos rfl, hr]
  rfl

@[simp] theorem setBackoff_getJob (repoId : ℕ) (b : ℚ) (n : ℕ) :
    (db.setBackoff repoId b n).getJob j = db.getJob j := rfl

theorem getJob_of_mem_listJobs {repoId : Option ℕ} {state : Option JobState} {limit : ℕ}
    {now : Option ℚ} (h : r ∈ db.listJobs repoId state limit now) : db.getJob r.id = some r := by
  have hsel := mem_orderBy.mp (List.mem_of_mem_take h)
  exact Table.get?_of_mem (List.mem_filter.mp hsel).1

theorem state_of_mem_listJobs {repoId : Option ℕ} {s : JobState} {limit : ℕ} {now : Option ℚ}
    (h : r ∈ db.listJobs repoId (some s) limit now) : r.state = s := by
  have hsel := mem_orderBy.mp (List.mem_of_mem_take h)
  have hcond := (List.mem_filter.mp hsel).2
  simp only [Option.all_some, Bool.and_eq_true, beq_iff_eq] at hcond
  exact hcond.1.2

@[simp] theorem clearBackoff_getJob (repoId : ℕ) :
    (db.clearBackoffIfRecovered repoId).getJob j = db.getJob j := by
  unfold clearBackoffIfRecovered
  split_ifs <;> rfl

end Db

/-- The row of a job before and after an operation that gets the inputs `i`. -/
inductive JobStep (i : Inputs) : Op → Job → Job → Prop where
  | keep {o : Op} {r : Job} : JobStep i o r r
  | transition {r : Job} (current new : JobState) (result : Option String) :
      JobStep i (.updateJobState r.id current new result) r (r.transition new result i.now)
  | rateLimit {r : Job} (t : BackoffTracker) (repoId : ℕ)
      (h : JobState.rateLimited ∈ r.state.validTransitions) :
      JobStep i (.onRateLimit t repoId r.id) r (r.rateLimit i.now)
  | succeed {r : Job} (repoId : ℕ) (result : Option String)
      (h : JobState.succeeded ∈ r.state.validTransitions) :
      JobStep i (.onSuccess repoId r.id result) r (r.succeed result i.now)
  | report {r : Job} (by_ : Reporter) (h : r.reportedAt = none) :
      JobStep i (.markReported by_ r.id) r { r with reportedAt := some i.now }
  | claim {r : Job} (h : r.reportedAt = none) (h' : r.wakeState ≠ some .fallback) :
      JobStep i (.claimForFallback r.id) r { r with wakeState := some .fallback }
  | wake {r : Job} (h : r.wakeState = none) :
      JobStep i (.markWoken r.id) r { r with wakeState := some .woken }
  | attempt {r : Job} :
      JobStep i (.incrWakeAttempts r.id) r { r with wakeAttempts := r.wakeAttempts + 1 }
  | undeliverable {r : Job} :
      JobStep i (.setUndeliverable r.id) r { r with wakeState := some .undeliverable }

/-- An update of one row, seen from row `j`. -/
private theorem step_of_updateJob {db : Db} {f : Job → Job} {h : ∀ j, (f j).id = j.id} {k : ℕ}
    (hr : db.getJob j = some r) (hf : k = r.id → JobStep i o r (f r)) :
    ∃ r', (db.updateJob k f h).getJob j = some r' ∧ JobStep i o r r' := by
  rw [Db.getJob_updateJob, hr]
  have hid := Db.getJob_id hr
  split_ifs with hj
  · exact ⟨f r, rfl, hf (by omega)⟩
  · exact ⟨r, rfl, .keep⟩

/-- The same for an update that first looks its row up and checks it. -/
private theorem step_of_guarded {α : Type} {db : Db} {f : Job → Job} {h : ∀ j, (f j).id = j.id}
    {k : ℕ} {p : Job → Prop} [DecidablePred p] {a b c : α} (hr : db.getJob j = some r)
    (hf : k = r.id → p r → JobStep i o r (f r)) :
    ∃ r', ((match db.getJob k with
      | some s => if p s then (a, db.updateJob k f h) else (b, db)
      | none => (c, db)) : α × Db).2.getJob j = some r' ∧ JobStep i o r r' := by
  split
  · next s hs =>
    split_ifs with hp
    · apply step_of_updateJob hr
      rintro rfl
      apply hf rfl
      rw [Db.getJob_id hr, hr] at hs
      cases hs
      exact hp
    · exact ⟨r, hr, .keep⟩
  · exact ⟨r, hr, .keep⟩

@[simp] theorem World.logIf_db (w : World) (b : Bool) (e : Entry) : (w.logIf b e).db = w.db := by
  unfold World.logIf
  split_ifs <;> rfl

/-- The rows after the `UPDATE` of `transition_job`. -/
theorem exec_update {k : ℕ} {current new : JobState} {result : Option String} :
    (exec (.updateJobState k current new result) i w).2.db.getJob j =
      if j = k then (w.db.getJob j).map (Job.transition new result i.now) else w.db.getJob j := by
  simp only [exec, World.logIf_db]
  exact Db.getJob_updateJob

/-- A row stays in the table and takes a `JobStep`. -/
theorem exec_job (o : Op) (i : Inputs) (h : w.db.getJob j = some r) :
    ∃ r', (exec o i w).2.db.getJob j = some r' ∧ JobStep i o r r' := by
  cases o with
  | createJob n => exact ⟨r, Table.get?_insert_of_some (h := fun _ => rfl) h, .keep⟩
  | updateJobState k current new result =>
    simp only [exec, World.logIf_db, World.setDb_db]
    apply step_of_updateJob h
    rintro rfl
    exact .transition current new result
  | onRateLimit t repoId k =>
    simp only [exec, World.setDb_db, Db.onRateLimit]
    split
    · exact ⟨r, h, .keep⟩
    · next job hk =>
      split_ifs with hv
      · split
        · exact ⟨r, h, .keep⟩
        · simp only [Db.setBackoff_getJob]
          apply step_of_updateJob h
          rintro rfl
          rw [Db.getJob_id h, h] at hk
          cases hk
          exact .rateLimit t repoId hv
      · exact ⟨r, h, .keep⟩
  | onSuccess repoId k result =>
    simp only [exec, World.setDb_db, Db.onSuccess]
    split
    · exact ⟨r, h, .keep⟩
    · next job hk =>
      split_ifs with hv
      · simp only [Db.clearBackoff_getJob]
        apply step_of_updateJob h
        rintro rfl
        rw [Db.getJob_id h, h] at hk
        cases hk
        exact .succeed repoId result hv
      · exact ⟨r, h, .keep⟩
  | markReported by_ k =>
    simp only [exec, World.logIf_db, World.setDb_db, Db.markReported]
    apply step_of_guarded (p := fun s => s.reportedAt = none) h
    rintro rfl hp
    exact .report by_ hp
  | claimForFallback k =>
    simp only [exec, World.logIf_db, World.setDb_db, Db.claimForFallback]
    apply step_of_guarded (p := fun s => s.reportedAt = none ∧ s.wakeState ≠ some .fallback) h
    rintro rfl ⟨hrep, hw⟩
    exact .claim hrep hw
  | markWoken k =>
    apply step_of_updateJob h
    rintro rfl
    by_cases hw : r.wakeState = none
    · simp only [hw, if_true]
      exact .wake hw
    · simp only [hw, if_false]
      exact .keep
  | incrWakeAttempts k =>
    apply step_of_updateJob h
    rintro rfl
    exact .attempt
  | setUndeliverable k =>
    apply step_of_updateJob h
    rintro rfl
    exact .undeliverable
  | createRepo n =>
    simp only [exec, World.setDb_db, Db.createRepo]
    split <;> exact ⟨r, h, .keep⟩
  | clearBackoffIfRecovered repoId => exact ⟨r, by simpa [exec] using h, .keep⟩
  | popen argv cwd env callback =>
    simp only [exec]
    split <;> exact ⟨r, h, .keep⟩
  | tmux cmd => cases cmd <;> exact ⟨r, h, .keep⟩
  | _ => exact ⟨r, h, .keep⟩

private theorem none_of_updateJob {db : Db} {f : Job → Job} {h : ∀ j, (f j).id = j.id} {k : ℕ}
    (hn : db.getJob j = none) : (db.updateJob k f h).getJob j = none := by
  rw [Db.getJob_updateJob, hn]
  split_ifs <;> rfl

/-- Only `create_job` adds a row. -/
theorem exec_noJob (i : Inputs) (hn : w.db.getJob j = none) (ho : ∀ n, o ≠ .createJob n) :
    (exec o i w).2.db.getJob j = none := by
  cases o with
  | createJob n => exact absurd rfl (ho n)
  | updateJobState k current new result =>
    simp only [exec, World.logIf_db, World.setDb_db]
    exact none_of_updateJob hn
  | onRateLimit t repoId k =>
    simp only [exec, World.setDb_db, Db.onRateLimit]
    split
    · exact hn
    · split_ifs
      · split
        · exact hn
        · simpa only [Db.setBackoff_getJob] using none_of_updateJob hn
      · exact hn
  | onSuccess repoId k result =>
    simp only [exec, World.setDb_db, Db.onSuccess]
    split
    · exact hn
    · split_ifs
      · simpa only [Db.clearBackoff_getJob] using none_of_updateJob hn
      · exact hn
  | markReported by_ k =>
    simp only [exec, World.logIf_db, World.setDb_db, Db.markReported]
    split
    · split_ifs
      · exact none_of_updateJob hn
      · exact hn
    · exact hn
  | claimForFallback k =>
    simp only [exec, World.logIf_db, World.setDb_db, Db.claimForFallback]
    split
    · split_ifs
      · exact none_of_updateJob hn
      · exact hn
    · exact hn
  | markWoken k => exact none_of_updateJob hn
  | incrWakeAttempts k => exact none_of_updateJob hn
  | setUndeliverable k => exact none_of_updateJob hn
  | createRepo n =>
    simp only [exec, World.setDb_db, Db.createRepo]
    split <;> exact hn
  | clearBackoffIfRecovered repoId => simpa [exec] using hn
  | popen argv cwd env callback =>
    simp only [exec]
    split <;> exact hn
  | tmux cmd => cases cmd <;> exact hn
  | _ => exact hn

/-- A row that was not there before is the one `create_job` made. -/
theorem exec_newJob (hn : w.db.getJob j = none) (hr : (exec o i w).2.db.getJob j = some r) :
    ∃ n, o = .createJob n ∧ j = w.db.jobs.seq + 1 ∧ r = n.row i.now j := by
  by_cases ho : ∀ n, o ≠ .createJob n
  · rw [exec_noJob i hn ho] at hr
    cases hr
  · push Not at ho
    obtain ⟨n, rfl⟩ := ho
    refine ⟨n, rfl, ?_⟩
    have hget : (exec (.createJob n) i w).2.db.getJob j =
        if j = w.db.jobs.seq + 1 then some (n.row i.now (w.db.jobs.seq + 1))
        else w.db.getJob j := Table.get?_insert (h := fun _ => rfl)
    rw [hget] at hr
    split_ifs at hr with hj
    · cases hr
      exact ⟨hj, by rw [hj]⟩
    · rw [hn] at hr
      cases hr

/-- An active job was in this state before or is moved to it. -/
theorem exec_active (hr' : (exec o i w).2.db.getJob j = some r') (hact : r'.state.active = true) :
    (∃ r, w.db.getJob j = some r ∧ r.state = r'.state ∧ r.repoId = r'.repoId) ∨
      ∃ current result, o = .updateJobState j current r'.state result := by
  cases hr : w.db.getJob j with
  | none =>
    obtain ⟨n, -, -, hrow⟩ := exec_newJob hr hr'
    rw [hrow] at hact
    cases hact
  | some r =>
    obtain ⟨s, hs, hstep⟩ := exec_job o i hr
    rw [hr'] at hs
    cases hs
    have hid := Db.getJob_id hr
    cases hstep with
    | transition current new result => exact .inr ⟨current, result, by rw [← hid]; rfl⟩
    | rateLimit t R hv => cases hact
    | succeed R result hv => cases hact
    | _ => exact .inl ⟨_, rfl, rfl, rfl⟩

/-! ## Attempts -/

namespace Db

/-- The ids of the attempts of a job in the order of `get_attempts`. -/
def attemptIds (db : Db) (jobId : ℕ) : List ℕ := (db.getAttempts jobId).map Attempt.id

@[simp] theorem length_attemptIds (db : Db) (jobId : ℕ) :
    (db.attemptIds jobId).length = (db.getAttempts jobId).length := List.length_map _

theorem attemptIds_finishAttempt (db : Db) (a : ℕ) (code : Option ℤ) (error : Option String)
    (now : ℚ) (jobId : ℕ) :
    (db.finishAttempt a code error now).attemptIds jobId = db.attemptIds jobId := by
  have hsel : (db.finishAttempt a code error now).attempts.select (fun r => r.jobId == jobId) =
      (db.attempts.select fun r => r.jobId == jobId).map fun r =>
        if Row.id r == a then { r with finishedAt := some now, exitCode := code, error := error }
        else r := by
    simp only [finishAttempt, Table.update, Table.updateWhere, Table.select, List.filter_map]
    congr 2
    funext r
    simp only [Function.comp]
    split_ifs <;> rfl
  simp only [attemptIds, getAttempts, hsel, orderBy]
  rw [← List.map_insertionSort (r := fun a b : Attempt => a.attemptNum ≤ b.attemptNum)]
  · rw [List.map_map]
    congr 1
    funext r
    simp only [Function.comp]
    split_ifs <;> rfl
  · intro r _ s _
    split_ifs <;> rfl

theorem attemptIds_insertAttempt (db : Db) (jobId : ℕ) (sessionId : Option ℕ) (num : ℕ) (now : ℚ)
    {j : ℕ} (h : j ≠ jobId) :
    (db.insertAttempt jobId sessionId num now).2.attemptIds j = db.attemptIds j := by
  have hsel : (db.insertAttempt jobId sessionId num now).2.attempts.select (fun r => r.jobId == j) =
      db.attempts.select fun r => r.jobId == j := by
    simp [insertAttempt, Table.insert, Table.select, Ne.symm h]
  simp only [attemptIds, getAttempts, hsel]

theorem length_attemptIds_insertAttempt (db : Db) (jobId : ℕ) (sessionId : Option ℕ) (num : ℕ)
    (now : ℚ) : ((db.insertAttempt jobId sessionId num now).2.attemptIds jobId).length =
      (db.attemptIds jobId).length + 1 := by
  simp [attemptIds, getAttempts, orderBy, insertAttempt, Table.insert, Table.select,
    List.length_insertionSort]

end Db

/-! ## Attempt and session rows -/

section Rows

variable (db : Db) (a k : ℕ) (now : ℚ)

theorem Db.attempt_insertAttempt (jobId : ℕ) (sessionId : Option ℕ) (num : ℕ) :
    (db.insertAttempt jobId sessionId num now).2.attempts.get? a =
      if a = db.attempts.seq + 1 then
        some ⟨db.attempts.seq + 1, jobId, sessionId, num, now, none, none, none⟩
      else db.attempts.get? a :=
  Table.get?_insert (h := fun _ => rfl)

theorem Db.attempt_finishAttempt (code : Option ℤ) (error : Option String) :
    (db.finishAttempt k code error now).attempts.get? a =
      if a = k then (db.attempts.get? a).map fun r =>
        { r with finishedAt := some now, exitCode := code, error := error }
      else db.attempts.get? a :=
  Table.get?_update (f := fun r : Attempt =>
    { r with finishedAt := some now, exitCode := code, error := error }) (h := fun _ => rfl)

theorem Db.session_updateSession (u : Db.SessionPatch) :
    (db.updateSession k u now).sessions.get? a =
      if a = k then (db.sessions.get? a).map (u.apply now) else db.sessions.get? a :=
  Table.get?_update (f := u.apply now) (h := fun _ => rfl)

theorem Db.session_casUpdateSession (b : ℕ) (u : Db.SessionPatch) :
    (db.casUpdateSession k b u now).sessions.get? a = (db.sessions.get? a).map fun s =>
      if s.id == k && s.currentAttemptId == some b then u.apply now s else s :=
  Table.get?_updateWhere (f := u.apply now) (h := fun _ => rfl)

end Rows

/-- A part `g` of the database that hangs on the attempts, on the sessions or on the
    commands only stays the same under an operation that does not write these. -/
theorem exec_unwritten {γ : Type} (g : Db → γ) (i : Inputs)
    (hj : ∀ (db : Db) t, g { db with jobs := t } = g db)
    (hr : ∀ (db : Db) t, g { db with repos := t } = g db)
    (hc : (∀ (db : Db) t, g { db with daemonCommands := t } = g db) ∨
      ((∀ cmd, o ≠ .enqueueCommand cmd) ∧ ∀ limit, o ≠ .pollCommands limit))
    (ha : (∀ (db : Db) t, g { db with attempts := t } = g db) ∨
      ((∀ k s n, o ≠ .insertAttempt k s n) ∧ ∀ a c e, o ≠ .finishAttempt a c e))
    (hs : (∀ (db : Db) t, g { db with sessions := t } = g db) ∨
      ((∀ R, o ≠ .createSession R) ∧ (∀ S u, o ≠ .updateSession S u) ∧
        ∀ S a u, o ≠ .casUpdateSession S a u)) : g (exec o i w).2.db = g w.db := by
  cases o with
  | insertAttempt k s n => exact ha.elim (fun h => h _ _) fun h => absurd rfl (h.1 k s n)
  | finishAttempt a c e => exact ha.elim (fun h => h _ _) fun h => absurd rfl (h.2 a c e)
  | createSession R => exact hs.elim (fun h => h _ _) fun h => absurd rfl (h.1 R)
  | updateSession S u => exact hs.elim (fun h => h _ _) fun h => absurd rfl (h.2.1 S u)
  | casUpdateSession S a u => exact hs.elim (fun h => h _ _) fun h => absurd rfl (h.2.2 S a u)
  | createJob n => exact hj _ _
  | markWoken k => exact hj _ _
  | incrWakeAttempts k => exact hj _ _
  | setUndeliverable k => exact hj _ _
  | updateJobState k current new result =>
    simp only [exec, World.logIf_db]
    exact hj _ _
  | onRateLimit t repoId k =>
    simp only [exec, World.setDb_db, Db.onRateLimit]
    split
    · rfl
    · split_ifs
      · split
        · rfl
        · exact (hr _ _).trans (hj _ _)
      · rfl
  | onSuccess repoId k result =>
    simp only [exec, World.setDb_db, Db.onSuccess, Db.clearBackoffIfRecovered]
    split
    · rfl
    · split_ifs
      · exact (hr _ _).trans (hj _ _)
      · exact hj _ _
      · rfl
  | markReported by_ k =>
    simp only [exec, World.logIf_db, World.setDb_db, Db.markReported]
    split
    · split_ifs
      · exact hj _ _
      · rfl
    · rfl
  | claimForFallback k =>
    simp only [exec, World.logIf_db, World.setDb_db, Db.claimForFallback]
    split
    · split_ifs
      · exact hj _ _
      · rfl
    · rfl
  | createRepo n =>
    simp only [exec, World.setDb_db, Db.createRepo]
    split
    · rfl
    · exact hr _ _
  | updateRepo name u => exact hr _ _
  | clearBackoffIfRecovered repoId =>
    simp only [exec, World.setDb_db, Db.clearBackoffIfRecovered]
    split_ifs
    · exact hr _ _
    · rfl
  | enqueueCommand c => exact hc.elim (fun h => h _ _) fun h => absurd rfl (h.1 c)
  | pollCommands limit => exact hc.elim (fun h => h _ _) fun h => absurd rfl (h.2 limit)
  | popen argv cwd env callback =>
    simp only [exec]
    split <;> rfl
  | tmux cmd => cases cmd <;> rfl
  | _ => rfl

/-- The attempts table is written by `create_attempt` and `finish_attempt`. -/
theorem exec_sameAttempts (i : Inputs) (hi : ∀ k s n, o ≠ .insertAttempt k s n)
    (hf : ∀ a c e, o ≠ .finishAttempt a c e) : (exec o i w).2.db.attempts = w.db.attempts :=
  exec_unwritten Db.attempts i (fun _ _ => rfl) (fun _ _ => rfl) (.inl fun _ _ => rfl)
    (.inr ⟨hi, hf⟩)
    (.inl fun _ _ => rfl)

/-- The sessions table is written by `create_session`, `update_session` and
    `cas_update_session`. -/
theorem exec_sameSessions (i : Inputs) (hc : ∀ R, o ≠ .createSession R)
    (hu : ∀ S u, o ≠ .updateSession S u) (hs : ∀ S a u, o ≠ .casUpdateSession S a u) :
    (exec o i w).2.db.sessions = w.db.sessions :=
  exec_unwritten Db.sessions i (fun _ _ => rfl) (fun _ _ => rfl) (.inl fun _ _ => rfl)
    (.inl fun _ _ => rfl) (.inr ⟨hc, hu, hs⟩)

/-- The commands table is written by `enqueue_command` and `poll_commands`. -/
theorem exec_sameCommands (i : Inputs) (he : ∀ cmd, o ≠ .enqueueCommand cmd)
    (hp : ∀ limit, o ≠ .pollCommands limit) :
    (exec o i w).2.db.daemonCommands = w.db.daemonCommands :=
  exec_unwritten Db.daemonCommands i (fun _ _ => rfl) (fun _ _ => rfl) (.inr ⟨he, hp⟩)
    (.inl fun _ _ => rfl) (.inl fun _ _ => rfl)

/-- Only `create_attempt` changes which attempts a job has. -/
theorem exec_attemptIds (i : Inputs) (h : ∀ s n, o ≠ .insertAttempt j s n) :
    (exec o i w).2.db.attemptIds j = w.db.attemptIds j := by
  cases o with
  | insertAttempt k s n =>
    by_cases hk : j = k
    · exact absurd (hk ▸ rfl) (h s n)
    · exact Db.attemptIds_insertAttempt _ _ _ _ _ hk
  | finishAttempt a c e => exact Db.attemptIds_finishAttempt _ _ _ _ _ _
  | _ =>
    simp only [Db.attemptIds, Db.getAttempts]
    rw [exec_sameAttempts i (by simp) (by simp)]

/-! ## The journal, the phase and the workers -/

/-- The entry that an operation writes. -/
inductive Logs (i : Inputs) (w : World) : Op → Entry → Prop where
  | requeued (jobId : ℕ) (current : JobState) (result : Option String) :
      Logs i w (.updateJobState jobId current .queued result) (.requeued jobId)
  | listed : Logs i w .listUndeliveredTerminalJobs
      (.listed (w.db.listUndeliveredTerminalJobs.map fun j => (j.id, j.wakeState)))
  | claimed (jobId : ℕ) (h : (w.db.claimForFallback jobId).1 = true) :
      Logs i w (.claimForFallback jobId) (.claimed jobId)
  | postBegin (jobId : ℕ) (chatId text : String) :
      Logs i w (.postBegin jobId chatId text) (.postBegin jobId)
  | postEnd (jobId : ℕ) : Logs i w (.postEnd jobId) (.postEnd jobId (NotifyResult.ofHttp i.http))
  | reported (by_ : Reporter) (jobId : ℕ) (h : (w.db.markReported jobId i.now).1 = true) :
      Logs i w (.markReported by_ jobId) (.reported by_ jobId)
  | undeliverable (jobId : ℕ) : Logs i w (.setUndeliverable jobId) (.undeliverable jobId)
  | typed (pane : String) (jobId : ℕ) (msg : String) :
      Logs i w (.tmux (.sendText pane jobId msg)) (.typed jobId)
  | recovery (a : RecoveryAction) : Logs i w (.logRecovery a) (.recovery a)
  | recovered (a : RecoveryAction) (r : RecoveryResult) :
      Logs i w (.logRecoveryResult a r) (.recovered a r)
  | stopped (attemptId : ℕ) : Logs i w (.stopProcess attemptId) (.stopped attemptId)

theorem exec_journal (o : Op) (i : Inputs) (w : World) :
    (exec o i w).2.journal = w.journal ∨
      ∃ e, Logs i w o e ∧ (exec o i w).2.journal = e :: w.journal := by
  cases o with
  | updateJobState k current new result =>
    simp only [exec, World.logIf]
    split_ifs with hn
    · obtain rfl : new = .queued := by simpa using hn
      exact .inr ⟨_, .requeued k current result, rfl⟩
    · exact .inl rfl
  | listUndeliveredTerminalJobs => exact .inr ⟨_, .listed, rfl⟩
  | claimForFallback k =>
    simp only [exec, World.logIf]
    split_ifs with h
    · exact .inr ⟨_, .claimed k h, rfl⟩
    · exact .inl rfl
  | markReported by_ k =>
    simp only [exec, World.logIf]
    split_ifs with h
    · exact .inr ⟨_, .reported by_ k h, rfl⟩
    · exact .inl rfl
  | postBegin k chatId text => exact .inr ⟨_, .postBegin k chatId text, rfl⟩
  | postEnd k => exact .inr ⟨_, .postEnd k, rfl⟩
  | setUndeliverable k => exact .inr ⟨_, .undeliverable k, rfl⟩
  | logRecovery a => exact .inr ⟨_, .recovery a, rfl⟩
  | logRecoveryResult a r => exact .inr ⟨_, .recovered a r, rfl⟩
  | stopProcess a => exact .inr ⟨_, .stopped a, rfl⟩
  | tmux cmd =>
    cases cmd with
    | sendText pane k msg => exact .inr ⟨_, .typed pane k msg, rfl⟩
    | _ => exact .inl rfl
  | popen argv cwd env callback =>
    simp only [exec]
    split <;> exact .inl rfl
  | _ => exact .inl rfl

@[simp] theorem exec_phase (o : Op) (i : Inputs) (w : World) : (exec o i w).2.phase = w.phase := by
  have hif : ∀ (w : World) b e, (w.logIf b e).phase = w.phase := by
    intro w b e
    unfold World.logIf
    split_ifs <;> rfl
  cases o with
  | popen argv cwd env callback =>
    simp only [exec]
    split <;> rfl
  | tmux cmd => cases cmd <;> rfl
  | _ => first | rfl | simp only [exec, hif, World.setDb_phase]

/-- Only `Popen` adds a worker. -/
theorem exec_workers (o : Op) (i : Inputs) (w : World) (ho : ∀ a c e k, o ≠ .popen a c e k) :
    (exec o i w).2.workers = w.workers := by
  have hif : ∀ (w : World) b e, (w.logIf b e).workers = w.workers := by
    intro w b e
    unfold World.logIf
    split_ifs <;> rfl
  cases o with
  | popen a c e k => exact absurd rfl (ho a c e k)
  | tmux cmd => cases cmd <;> rfl
  | _ => first | rfl | simp only [exec, hif, World.setDb_workers]

/-- Only `run_job` and `on_complete` change the process table. -/
theorem exec_processes (o : Op) (i : Inputs) (w : World) (hr : ∀ a, o ≠ .registerProcess a)
    (hp : ∀ a, o ≠ .popProcess a) : (exec o i w).2.processes = w.processes := by
  have hif : ∀ (w : World) b e, (w.logIf b e).processes = w.processes := by
    intro w b e
    unfold World.logIf
    split_ifs <;> rfl
  have hdb : ∀ (w : World) db, (w.setDb db).processes = w.processes := fun _ _ => rfl
  cases o with
  | registerProcess a => exact absurd rfl (hr a)
  | popProcess a => exact absurd rfl (hp a)
  | popen argv cwd env callback =>
    simp only [exec]
    split <;> rfl
  | tmux cmd => cases cmd <;> rfl
  | _ => first | rfl | simp only [exec, hif, hdb]

/-- A worker was there before, or `Popen` has started it. -/
theorem mem_workers_exec {k : Worker} (hk : k ∈ (exec o i w).2.workers) :
    k ∈ w.workers ∨ ∃ argv cwd env, o = .popen argv cwd env k.callback := by
  by_cases hp : ∃ argv cwd env cb, o = .popen argv cwd env cb
  · obtain ⟨argv, cwd, env, cb, rfl⟩ := hp
    simp only [exec] at hk
    split at hk
    · rcases List.mem_cons.mp hk with rfl | hk
      · exact .inr ⟨argv, cwd, env, rfl⟩
      · exact .inl hk
    · exact .inl hk
    · exact .inl hk
  · push Not at hp
    rw [exec_workers o i w hp] at hk
    exact .inl hk

/-! ## Repo rows -/

namespace Db

variable {db : Db} {R R' : ℕ} {p p' : Repo}

@[simp] theorem getRepoById_id (h : db.getRepoById R = some p) : p.id = R := Table.id_of_get? h

theorem getBackoff_of_some (h : db.getRepoById R = some p) :
    db.getBackoff R = (p.backoffUntil, p.backoffCount) := by
  unfold getBackoff
  rw [h]

theorem getRepoById_setBackoff (b : ℚ) (n : ℕ) :
    (db.setBackoff R b n).getRepoById R' =
      if R' = R then
        (db.getRepoById R').map fun p => { p with backoffUntil := b, backoffCount := n }
      else db.getRepoById R' :=
  Table.get?_update (f := fun p : Repo => { p with backoffUntil := b, backoffCount := n })
    (h := fun _ => rfl)

/-- What `on_rate_limit` commits. -/
theorem onRateLimit_ok {t : BackoffTracker} {now rand next : ℚ}
    (h : (db.onRateLimit t R j now rand).1 = .ok next) :
    ∃ r delay, db.getJob j = some r ∧ JobState.rateLimited ∈ r.state.validTransitions ∧
      t.delay ((db.getBackoff R).2 + 1) = .ok delay ∧ next = t.nextAvailable now rand delay ∧
      (db.onRateLimit t R j now rand).2 =
        (db.updateJob j (Job.rateLimit now) fun _ => rfl).setBackoff R next
          ((db.getBackoff R).2 + 1) := by
  unfold onRateLimit at h ⊢
  split at h
  · cases h
  · next r hr =>
    simp only [] at h
    split_ifs at h with hv
    rw [if_pos hv]
    cases hd : t.delay ((db.getBackoff R).2 + 1) with
    | error e =>
      simp only [hd] at h
      cases h
    | ok delay =>
      simp only [hd] at h ⊢
      cases h
      exact ⟨r, delay, hr, hv, rfl, rfl, rfl⟩

/-- An `on_rate_limit` that raises is rolled back. -/
theorem onRateLimit_error {t : BackoffTracker} {now rand : ℚ} {e : PyErr}
    (h : (db.onRateLimit t R j now rand).1 = .error e) :
    (db.onRateLimit t R j now rand).2 = db := by
  unfold onRateLimit at h ⊢
  split at h
  · rfl
  · simp only [] at h ⊢
    split_ifs at h with hv
    · rw [if_pos hv]
      cases hd : t.delay ((db.getBackoff R).2 + 1) with
      | error e => rfl
      | ok delay =>
        simp only [hd] at h
        cases h
    · rw [if_neg hv]

end Db

/-- What an operation commits to the backoff columns of a repo. -/
inductive BackoffEvent where
  | recorded (repoId : ℕ) (backoffUntil : ℚ)
  | reset (repoId : ℕ)

/-- The repo of the columns. -/
def BackoffEvent.repoId : BackoffEvent → ℕ
  | recorded R _ => R
  | reset R => R

/-- The change of the backoff that an operation in world `w` commits. -/
def Op.backoffEvent (i : Inputs) (w : World) : Op → Option BackoffEvent
  | onRateLimit t R j =>
    match (exec (.onRateLimit t R j) i w).1 with
    | .ok next => some (.recorded R next)
    | .error _ => none
  | onSuccess R j result =>
    if (exec (.onSuccess R j result) i w).1.isSome ∧
        (exec (.onSuccess R j result) i w).2.db.countRateLimited R = 0 then some (.reset R)
    else none
  | clearBackoffIfRecovered R => if w.db.countRateLimited R = 0 then some (.reset R) else none
  | _ => none

/-- The row of a repo before and after an operation in world `w`. -/
inductive RepoStep (i : Inputs) (w : World) : Op → Repo → Repo → Prop where
  | keep {o : Op} {p : Repo} (h : ∀ e, o.backoffEvent i w = some e → e.repoId ≠ p.id) :
      RepoStep i w o p p
  | recorded {o : Op} {p : Repo} (next : ℚ)
      (h : o.backoffEvent i w = some (.recorded p.id next)) :
      RepoStep i w o p { p with backoffUntil := next, backoffCount := p.backoffCount + 1 }
  | reset {o : Op} {p : Repo} (h : o.backoffEvent i w = some (.reset p.id)) :
      RepoStep i w o p { p with backoffUntil := 0, backoffCount := 0 }
  | patch {p : Repo} (name : String) (u : Db.RepoPatch) :
      RepoStep i w (.updateRepo name u) p (u.apply p)

section Repos

variable {R : ℕ} {p : Repo}

private theorem keep_of_none (h : o.backoffEvent i w = none) : RepoStep i w o p p := by
  apply RepoStep.keep
  intro e he
  rw [h] at he
  cases he

private theorem keep_of_ne {e : BackoffEvent} (h : o.backoffEvent i w = some e)
    (hne : e.repoId ≠ p.id) : RepoStep i w o p p := by
  apply RepoStep.keep
  intro e' he
  rw [h] at he
  cases he
  exact hne

/-- The columns are cleared, seen from row `R`. -/
private theorem repoStep_clear {db : Db} {R' : ℕ} (hr : db.getRepoById R = some p)
    (h : o.backoffEvent i w = some (.reset R')) :
    ∃ p', (db.setBackoff R' 0 0).getRepoById R = some p' ∧ RepoStep i w o p p' := by
  rw [Db.getRepoById_setBackoff, hr]
  have hid := Db.getRepoById_id hr
  split_ifs with hR
  · refine ⟨_, rfl, .reset ?_⟩
    rw [h, hid, hR]
  · refine ⟨p, rfl, keep_of_ne h ?_⟩
    rw [hid]
    exact Ne.symm hR

private theorem repoStep_onRateLimit {t : BackoffTracker} {R' k : ℕ}
    (hr : w.db.getRepoById R = some p) :
    ∃ p', (exec (.onRateLimit t R' k) i w).2.db.getRepoById R = some p' ∧
      RepoStep i w (.onRateLimit t R' k) p p' := by
  have hexec : (exec (.onRateLimit t R' k) i w).2.db =
      (w.db.onRateLimit t R' k i.now i.rand).2 := rfl
  cases hres : (exec (.onRateLimit t R' k) i w).1 with
  | error e =>
    have hevent : (Op.onRateLimit t R' k).backoffEvent i w = none := by
      simp only [Op.backoffEvent, hres]
    rw [hexec, Db.onRateLimit_error hres]
    exact ⟨p, hr, keep_of_none hevent⟩
  | ok next =>
    have hevent : (Op.onRateLimit t R' k).backoffEvent i w = some (.recorded R' next) := by
      simp only [Op.backoffEvent, hres]
    obtain ⟨r, delay, -, -, -, -, hdb⟩ := Db.onRateLimit_ok hres
    have hid := Db.getRepoById_id hr
    have hrow : (w.db.updateJob k (Job.rateLimit i.now) fun _ => rfl).getRepoById R = some p := hr
    rw [hexec, hdb, Db.getRepoById_setBackoff, hrow]
    split_ifs with hR
    · subst hR
      rw [Db.getBackoff_of_some hr]
      refine ⟨_, rfl, .recorded next ?_⟩
      rw [hevent, hid]
    · refine ⟨p, rfl, keep_of_ne hevent ?_⟩
      rw [hid]
      exact Ne.symm hR

private theorem repoStep_onSuccess {R' k : ℕ} {result : Option String}
    (hr : w.db.getRepoById R = some p) :
    ∃ p', (exec (.onSuccess R' k result) i w).2.db.getRepoById R = some p' ∧
      RepoStep i w (.onSuccess R' k result) p p' := by
  have hres : (exec (.onSuccess R' k result) i w).1 = (w.db.onSuccess R' k result i.now).1 := rfl
  have hexec : (exec (.onSuccess R' k result) i w).2.db =
      (w.db.onSuccess R' k result i.now).2 := rfl
  have hcases : ((w.db.onSuccess R' k result i.now).1.isSome = false ∧
      (w.db.onSuccess R' k result i.now).2 = w.db) ∨
      ((w.db.onSuccess R' k result i.now).1.isSome = true ∧ ∃ d : Db, d.getRepoById R = some p ∧
        (w.db.onSuccess R' k result i.now).2 = d.clearBackoffIfRecovered R') := by
    unfold Db.onSuccess
    split
    · exact .inl ⟨rfl, rfl⟩
    · split_ifs
      · refine .inr ⟨rfl, _, ?_, rfl⟩
        exact hr
      · exact .inl ⟨rfl, rfl⟩
  rcases hcases with ⟨hnone, hdb⟩ | ⟨hsome, d, hd, hdb⟩
  · have hevent : (Op.onSuccess R' k result).backoffEvent i w = none := by
      simp only [Op.backoffEvent]
      rw [hres, hnone, if_neg (by simp)]
    rw [hexec, hdb]
    exact ⟨p, hr, keep_of_none hevent⟩
  · have hcount : (d.clearBackoffIfRecovered R').countRateLimited R' = d.countRateLimited R' := by
      unfold Db.clearBackoffIfRecovered
      split_ifs <;> rfl
    have hevent : (Op.onSuccess R' k result).backoffEvent i w =
        if d.countRateLimited R' = 0 then some (.reset R') else none := by
      simp only [Op.backoffEvent]
      rw [hres, hexec, hdb, hsome, hcount]
      simp
    rw [hexec, hdb]
    unfold Db.clearBackoffIfRecovered
    by_cases hzero : d.countRateLimited R' = 0
    · rw [if_pos hzero] at hevent ⊢
      exact repoStep_clear hd hevent
    · rw [if_neg hzero] at hevent ⊢
      exact ⟨p, hd, keep_of_none hevent⟩

/-- A repo stays in the table and takes a `RepoStep`. -/
theorem exec_repo (o : Op) (i : Inputs) (hr : w.db.getRepoById R = some p) :
    ∃ p', (exec o i w).2.db.getRepoById R = some p' ∧ RepoStep i w o p p' := by
  cases o with
  | createRepo n =>
    simp only [exec, World.setDb_db, Db.createRepo]
    split
    · exact ⟨p, hr, keep_of_none rfl⟩
    · exact ⟨p, Table.get?_insert_of_some (h := fun _ => rfl) hr, keep_of_none rfl⟩
  | updateRepo name u =>
    have hget : (exec (.updateRepo name u) i w).2.db.getRepoById R =
        (w.db.getRepoById R).map fun p => if p.name == name then u.apply p else p :=
      Table.get?_updateWhere (p := fun p : Repo => p.name == name) (f := u.apply)
        (h := fun _ => rfl)
    rw [hget, hr, Option.map_some]
    split_ifs
    · exact ⟨_, rfl, .patch name u⟩
    · exact ⟨p, rfl, keep_of_none rfl⟩
  | onRateLimit t R' k => exact repoStep_onRateLimit hr
  | onSuccess R' k result => exact repoStep_onSuccess hr
  | clearBackoffIfRecovered R' =>
    simp only [exec, World.setDb_db, Db.clearBackoffIfRecovered]
    split_ifs with hzero
    · exact repoStep_clear hr (if_pos hzero)
    · exact ⟨p, hr, keep_of_none (if_neg hzero)⟩
  | updateJobState k current new result =>
    simp only [exec, World.logIf_db]
    exact ⟨p, hr, keep_of_none rfl⟩
  | markReported by_ k =>
    simp only [exec, World.logIf_db, World.setDb_db, Db.markReported]
    split
    · split_ifs <;> exact ⟨p, hr, keep_of_none rfl⟩
    · exact ⟨p, hr, keep_of_none rfl⟩
  | claimForFallback k =>
    simp only [exec, World.logIf_db, World.setDb_db, Db.claimForFallback]
    split
    · split_ifs <;> exact ⟨p, hr, keep_of_none rfl⟩
    · exact ⟨p, hr, keep_of_none rfl⟩
  | popen argv cwd env callback =>
    simp only [exec]
    split <;> exact ⟨p, hr, keep_of_none rfl⟩
  | tmux cmd => cases cmd <;> exact ⟨p, hr, keep_of_none rfl⟩
  | _ => exact ⟨p, hr, keep_of_none rfl⟩

/-- Only `create_repo` adds a repo, without a backoff. -/
theorem exec_newRepo (hn : w.db.getRepoById R = none)
    (hr : (exec o i w).2.db.getRepoById R = some p) :
    ∃ n, o = .createRepo n ∧ p = Db.NewRepo.row n i.now R := by
  have hset : ∀ (d : Db) R' b n, d.getRepoById R = none →
      (d.setBackoff R' b n).getRepoById R = none := by
    intro d R' b n hd
    rw [Db.getRepoById_setBackoff, hd]
    split_ifs <;> rfl
  have hclear : ∀ (d : Db) R', d.getRepoById R = none →
      (d.clearBackoffIfRecovered R').getRepoById R = none := by
    intro d R' hd
    unfold Db.clearBackoffIfRecovered
    split_ifs
    · exact hset d R' 0 0 hd
    · exact hd
  suffices hother : (∀ n, o ≠ .createRepo n) → (exec o i w).2.db.getRepoById R = none by
    by_cases ho : ∃ n, o = .createRepo n
    · obtain ⟨n, rfl⟩ := ho
      refine ⟨n, rfl, ?_⟩
      simp only [exec, World.setDb_db, Db.createRepo] at hr
      split at hr
      · rw [hn] at hr
        cases hr
      · have hget : (w.db.repos.insert (n.row i.now) fun _ => rfl).get? R =
            if R = w.db.repos.seq + 1 then some (n.row i.now (w.db.repos.seq + 1))
            else w.db.repos.get? R := Table.get?_insert (h := fun _ => rfl)
        unfold Db.getRepoById at hr hn
        simp only [] at hr
        rw [hget] at hr
        split_ifs at hr with hR
        · cases hr
          rw [hR]
        · rw [hn] at hr
          cases hr
    · push Not at ho
      rw [hother ho] at hr
      cases hr
  intro ho
  cases o with
  | createRepo n => exact absurd rfl (ho n)
  | updateRepo name u =>
    have hget : (exec (.updateRepo name u) i w).2.db.getRepoById R =
        (w.db.getRepoById R).map fun p => if p.name == name then u.apply p else p :=
      Table.get?_updateWhere (p := fun p : Repo => p.name == name) (f := u.apply)
        (h := fun _ => rfl)
    rw [hget, hn]
    rfl
  | clearBackoffIfRecovered R' => exact hclear w.db R' hn
  | onRateLimit t R' k =>
    simp only [exec, World.setDb_db, Db.onRateLimit]
    split
    · exact hn
    · split_ifs
      · split
        · exact hn
        · exact hset _ _ _ _ hn
      · exact hn
  | onSuccess R' k result =>
    simp only [exec, World.setDb_db, Db.onSuccess]
    split
    · exact hn
    · split_ifs
      · exact hclear _ _ hn
      · exact hn
  | updateJobState k current new result =>
    simp only [exec, World.logIf_db]
    exact hn
  | markReported by_ k =>
    simp only [exec, World.logIf_db, World.setDb_db, Db.markReported]
    split
    · split_ifs <;> exact hn
    · exact hn
  | claimForFallback k =>
    simp only [exec, World.logIf_db, World.setDb_db, Db.claimForFallback]
    split
    · split_ifs <;> exact hn
    · exact hn
  | popen argv cwd env callback =>
    simp only [exec]
    split <;> exact hn
  | tmux cmd => cases cmd <;> exact hn
  | _ => exact hn

end Repos

/-! ## Methods run alone -/

/-- `transition_job` alone, along an edge. -/
theorem eval_transitionJob {α : Type} (ω : ℕ → Inputs) {w : World} {j : ℕ} {r : Job}
    (hr : w.db.getJob j = some r) {new : JobState} (hv : new ∈ r.state.validTransitions)
    (result : Option String) (f : Unit → Py α) :
    ((transitionJob j new result).bind f).eval exec ω w =
      (f ()).eval exec (fun n => ω (n + 2))
        (exec (.updateJobState j r.state new result) (ω 1) w).2 := by
  have hget : exec (.getJob j) (ω 0) w = (some r, w) := by simp only [exec, hr]
  simp only [transitionJob, Prog.bind_eq, Prog.perform_bind, Prog.call_bind, Prog.eval]
  rw [hget]
  simp only [if_pos hv, Prog.perform_bind, Prog.eval]

end DiscordAgent
