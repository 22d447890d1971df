import DiscordAgent.System.Contract

/-!
# The retry limit

`requeue_job` compares the number of attempts with `max_retries` before it puts
a job back into the queue. The watchdog puts jobs back without that check.

Results:
* `Sys.attempts_bounded`: along every run in which the watchdog only requeues
  jobs with attempts left, no job ever has more attempts than `max_retries`, no
  job without attempts left is queued again, and `requeue_job` moves such a job
  to `failed_permanent`.
* `Sys.attempts_unbounded`: with `max_retries = 1` a timeout gives the job a
  second attempt.
-/

namespace DiscordAgent

open Interleave Orchestrator

namespace World

/-- The number of attempts of job `j`. -/
def attemptCount (w : World) (j : ℕ) : ℕ := (w.db.getAttempts j).length

/-- Job `j` exists with this `max_retries`. -/
def HasMax (w : World) (j : ℕ) (m : ℤ) : Prop := ∃ r, w.db.getJob j = some r ∧ r.maxRetries = m

/-- Job `j` exists and has attempts left; a job with `max_retries < 1` is out
    of scope. -/
def Room (w : World) (j : ℕ) : Prop :=
  ∃ m, w.HasMax j m ∧ (1 ≤ m → (w.attemptCount j : ℤ) < m)

/-- If job `j` is queued, it has attempts left. -/
def QueuedRoom (w : World) (j : ℕ) : Prop :=
  ∀ r, w.db.getJob j = some r → r.state = .queued → 1 ≤ r.maxRetries →
    (w.attemptCount j : ℤ) < r.maxRetries

/-- No job has too many attempts, and attempts belong to jobs. -/
structure Bounded (w : World) : Prop where
  bound : ∀ j r, w.db.getJob j = some r → 1 ≤ r.maxRetries → (w.attemptCount j : ℤ) ≤ r.maxRetries
  orphan : ∀ j, w.db.getJob j = none → w.attemptCount j = 0

end World

variable {o : Op} {i : Inputs} {w : World} {j : ℕ}

/-! ## Operations -/

/-- The operation adds an attempt to job `j`. -/
def Op.insertsAttempt (o : Op) (j : ℕ) : Prop := ∃ s n, o = .insertAttempt j s n

theorem attemptCount_exec (h : ¬ o.insertsAttempt j) :
    (exec o i w).2.attemptCount j = w.attemptCount j := by
  have := exec_attemptIds (o := o) (j := j) (w := w) i fun s n ho => h ⟨s, n, ho⟩
  simpa [World.attemptCount] using congrArg List.length this

theorem attemptCount_insert (s : Option ℕ) (n : ℕ) :
    (exec (.insertAttempt j s n) i w).2.attemptCount j = w.attemptCount j + 1 := by
  have := Db.length_attemptIds_insertAttempt w.db j s n i.now
  rw [Db.length_attemptIds, Db.length_attemptIds] at this
  exact this

/-- A row keeps its `max_retries`, and it is queued afterwards only if it was
    before or the operation is an `UPDATE` to `queued`. -/
theorem JobStep.maxRetries {r r' : Job} (h : JobStep i o r r') : r'.maxRetries = r.maxRetries := by
  cases h <;> rfl

theorem JobStep.queued {r r' : Job} (h : JobStep i o r r') (hq : r'.state = .queued) :
    r.state = .queued ∨ ∃ current result, o = .updateJobState r.id current .queued result := by
  cases h with
  | transition current new result =>
    obtain rfl : new = .queued := hq
    exact .inr ⟨current, result, rfl⟩
  | rateLimit => cases hq
  | succeed => cases hq
  | _ => exact .inl hq

/-- The operation puts job `j` into the queue. -/
def Op.requeues (o : Op) (j : ℕ) : Prop :=
  ∃ current result, o = .updateJobState j current .queued result

theorem World.HasMax.exec {m : ℤ} (h : w.HasMax j m) : (DiscordAgent.exec o i w).2.HasMax j m := by
  obtain ⟨r, hr, rfl⟩ := h
  obtain ⟨r', hr', hs⟩ := exec_job o i hr
  exact ⟨r', hr', hs.maxRetries⟩

theorem World.Room.exec (h : w.Room j) (ho : ¬ o.insertsAttempt j) :
    (DiscordAgent.exec o i w).2.Room j := by
  obtain ⟨m, hm, hlt⟩ := h
  refine ⟨m, hm.exec, ?_⟩
  rw [attemptCount_exec ho]
  exact hlt

/-- An operation that neither adds an attempt nor requeues the job. -/
theorem World.QueuedRoom.exec (hb : w.Bounded) (h : w.QueuedRoom j) (ho : ¬ o.insertsAttempt j)
    (hq : ¬ o.requeues j) : (DiscordAgent.exec o i w).2.QueuedRoom j := by
  intro r' hr' hst hmax
  rw [attemptCount_exec ho]
  cases hj : w.db.getJob j with
  | none =>
    rw [hb.orphan j hj]
    omega
  | some r =>
    obtain ⟨r'', hr'', hs⟩ := exec_job o i hj
    rw [hr'] at hr''
    cases hr''
    rw [hs.maxRetries] at hmax ⊢
    rcases hs.queued hst with hst | ⟨current, result, rfl⟩
    · exact h r hj hst hmax
    · exact absurd ⟨current, result, by rw [Db.getJob_id hj]⟩ hq

/-- A requeue of a job with attempts left. -/
theorem World.QueuedRoom.of_room (h : w.Room j) : w.QueuedRoom j := by
  intro r hr _ hmax
  obtain ⟨m, ⟨r', hr', rfl⟩, hlt⟩ := h
  rw [hr] at hr'
  cases hr'
  exact hlt hmax

theorem World.Bounded.exec (h : w.Bounded) (ho : ∀ j, o.insertsAttempt j → w.Room j) :
    (DiscordAgent.exec o i w).2.Bounded := by
  constructor
  · intro j r' hr' hmax
    by_cases hins : o.insertsAttempt j
    · obtain ⟨m, ⟨r, hr, rfl⟩, hlt⟩ := ho j hins
      obtain ⟨s, n, rfl⟩ := hins
      obtain ⟨r'', hr'', hs⟩ := exec_job (.insertAttempt j s n) i hr
      rw [hr'] at hr''
      cases hr''
      rw [hs.maxRetries] at hmax ⊢
      have := hlt hmax
      rw [attemptCount_insert]
      omega
    · rw [attemptCount_exec hins]
      cases hj : w.db.getJob j with
      | none =>
        rw [h.orphan j hj]
        omega
      | some r =>
        obtain ⟨r'', hr'', hs⟩ := exec_job o i hj
        rw [hr'] at hr''
        cases hr''
        rw [hs.maxRetries] at hmax ⊢
        exact h.bound j r hj hmax
  · intro j hn
    have hnone : w.db.getJob j = none := by
      cases hj : w.db.getJob j with
      | none => rfl
      | some r =>
        obtain ⟨r', hr', -⟩ := exec_job o i hj
        rw [hn] at hr'
        cases hr'
    rw [attemptCount_exec, h.orphan j hnone]
    intro hins
    obtain ⟨m, ⟨r, hr, -⟩, -⟩ := ho j hins
    rw [hnone] at hr
    cases hr

/-! ## The contract -/

/-- The daemon relies on the others to add no attempts and to requeue no job. It
    assumes that the watchdog requeues only jobs with attempts left, and
    guarantees that every requeue is of such a job. -/
def retryContract : Contract Op World where
  rely s t := t.phase = s.phase ∧ (∀ j, t.attemptCount j = s.attemptCount j) ∧
    (∀ j m, s.HasMax j m → t.HasMax j m) ∧ ∀ j, s.QueuedRoom j → t.QueuedRoom j
  refl _ := ⟨rfl, fun _ => rfl, fun _ _ h => h, fun _ h => h⟩
  trans h h' := ⟨h'.1.trans h.1, fun j => (h'.2.1 j).trans (h.2.1 j),
    fun j m hj => h'.2.2.1 j m (h.2.2.1 j m hj), fun j hj => h'.2.2.2 j (h.2.2.2 j hj)⟩
  assume o s := s.Bounded ∧
    ∀ j, s.phase = .watchdog → o.requeues j → s.db.getJob j ≠ none → s.Room j
  guar o s t := t.Bounded ∧ (t.phase ≠ .dispatch → ∀ j, t.QueuedRoom j) ∧
    ∀ j, o.requeues j → s.db.getJob j ≠ none → s.Room j

/-- The daemon is in phase `p` and the queued jobs outside `X` have attempts
    left. -/
def Rooms (p : Phase) (X : Set ℕ) (w : World) : Prop :=
  w.phase = p ∧ ∀ j, j ∉ X → w.QueuedRoom j

theorem stable_rooms (p : Phase) (X : Set ℕ) : retryContract.Stable (Rooms p X) := by
  intro s t h hs
  refine ⟨h.1.trans hs.1, ?_⟩
  intro j hj
  exact h.2.2.2 j (hs.2 j hj)

theorem stable_room (j : ℕ) : retryContract.Stable fun w => w.Room j := by
  rintro s t h ⟨m, hm, hlt⟩
  refine ⟨m, h.2.2.1 j m hm, ?_⟩
  rw [h.2.1]
  exact hlt

/-- An operation that neither adds an attempt nor requeues a job. -/
def Op.retryQuiet (o : Op) : Prop := ∀ j, ¬ o.insertsAttempt j ∧ ¬ o.requeues j

theorem Op.retryQuiet_of_ne (hi : ∀ j s n, o ≠ .insertAttempt j s n)
    (hq : ∀ j c r, o ≠ .updateJobState j c .queued r) : o.retryQuiet := by
  intro j
  constructor
  · rintro ⟨s, n, h⟩
    exact hi j s n h
  · rintro ⟨c, r, h⟩
    exact hq j c r h

theorem Op.retryQuiet_of_isRead (h : o.isRead = true) : o.retryQuiet := by
  intro j
  constructor <;> rintro ⟨_, _, rfl⟩ <;> cases h

theorem Op.retryQuiet_of_new {new : JobState} (hn : new ≠ .queued) (j : ℕ) (current : JobState)
    (result : Option String) : (Op.updateJobState j current new result).retryQuiet := by
  intro k
  constructor
  · rintro ⟨_, _, h⟩
    cases h
  · rintro ⟨_, _, h⟩
    cases h
    exact hn rfl

theorem Op.retryQuiet.step {p : Phase} {X : Set ℕ} (ho : o.retryQuiet)
    (hX : p ≠ .dispatch → X = ∅) (hs : Rooms p X w) (ha : retryContract.assume o w) :
    retryContract.guar o w (exec o i w).2 ∧ Rooms p X (exec o i w).2 := by
  have hrooms : Rooms p X (exec o i w).2 := by
    constructor
    · rw [exec_phase]
      exact hs.1
    · intro j hj
      exact (hs.2 j hj).exec ha.1 (ho j).1 (ho j).2
  refine ⟨⟨?_, ?_, ?_⟩, hrooms⟩
  · exact ha.1.exec fun j hj => absurd hj (ho j).1
  · intro hp j
    rw [hrooms.1] at hp
    exact hrooms.2 j (by simp [hX hp])
  · intro j hj
    exact absurd hj (ho j).2

section Triples

variable {p : Phase} {X : Set ℕ} {E : PyErr → World → Prop}

theorem rooms_quiet {o : Op} (hX : p ≠ .dispatch → X = ∅) (ho : o.retryQuiet) :
    Triple exec retryContract (Rooms p X) (op o) (fun _ => Rooms p X) E :=
  Triple.op (stable_rooms p X) (fun _ => stable_rooms p X) fun _ _ hs ha => ho.step hX hs ha

/-- The same with a job that has attempts left. -/
theorem rooms_quiet_room {o : Op} {k : ℕ} (hX : p ≠ .dispatch → X = ∅) (ho : o.retryQuiet) :
    Triple exec retryContract (fun w => Rooms p X w ∧ w.Room k) (op o)
      (fun _ w => Rooms p X w ∧ w.Room k) E := by
  have hst := (stable_rooms p X).and (stable_room k)
  apply Triple.op hst (fun _ => hst)
  intro s i hs ha
  obtain ⟨hg, hs'⟩ := ho.step (i := i) hX hs.1 ha
  exact ⟨hg, hs', hs.2.exec (ho k).1⟩

theorem rooms_of_emits {α : Type} {q : Py α} (hX : p ≠ .dispatch → X = ∅)
    (hq : q.Emits Op.retryQuiet) :
    Triple exec retryContract (Rooms p X) q (fun _ => Rooms p X) fun _ => Rooms p X := by
  apply Triple.of_emits (stable_rooms p X)
  apply hq.mono
  intro o ho s i hs ha
  exact ho.step hX hs ha

/-! ## Recovery -/

/-- `transition_job(j, "queued")` for a job with attempts left. -/
theorem rooms_requeue (j : ℕ) :
    Triple exec retryContract (fun w => Rooms p ∅ w ∧ w.Room j) (transitionJob j .queued)
      (fun _ => Rooms p ∅) fun _ _ => True := by
  refine (rooms_quiet_room (fun _ => rfl) (Op.retryQuiet_of_isRead rfl)).bind fun r => ?_
  have hst := (stable_rooms p ∅).and (stable_room j)
  cases r with
  | none => exact Triple.raise hst fun _ _ => trivial
  | some job =>
    simp only []
    split_ifs
    · apply Triple.op hst (fun _ => stable_rooms p ∅)
      intro s i hs ha
      have hins : ∀ k, ¬ (Op.updateJobState j job.state .queued none).insertsAttempt k := by
        rintro k ⟨_, _, h⟩
        cases h
      have hrooms : ∀ k, (exec (.updateJobState j job.state .queued none) i s).2.QueuedRoom k := by
        intro k
        by_cases hk : k = j
        · subst hk
          exact .of_room (hs.2.exec (hins k))
        · refine (hs.1.2 k (by simp)).exec ha.1 (hins k) ?_
          rintro ⟨_, _, h⟩
          cases h
          exact hk rfl
      refine ⟨⟨?_, fun _ => hrooms, ?_⟩, ?_, fun k _ => hrooms k⟩
      · exact ha.1.exec fun k hk => absurd hk (hins k)
      · rintro k ⟨_, _, h⟩ _
        cases h
        exact hs.2
      · rw [exec_phase]
        exact hs.1.1
    · exact Triple.raise hst fun _ _ => trivial

theorem rooms_requeueJob (j : ℕ) :
    Triple exec retryContract (Rooms p ∅) (Scheduler.requeueJob j) (fun _ => Rooms p ∅)
      fun _ _ => True := by
  have hst := stable_rooms p ∅
  have hmax : ∀ m, retryContract.Stable fun w => Rooms p ∅ w ∧ w.HasMax j m := by
    intro m
    exact hst.and fun s t h hm => h.2.2.1 j m hm
  refine Triple.bind (M := fun r w => Rooms p ∅ w ∧ ∀ job, r = some job →
    w.HasMax j job.maxRetries) ?_ fun r => ?_
  · refine Triple.op hst (fun r => hst.and ?_) ?_
    · intro s t h hs job hj
      exact h.2.2.1 j _ (hs job hj)
    · intro s i hs ha
      have hquiet : (Op.getJob j).retryQuiet := Op.retryQuiet_of_isRead rfl
      obtain ⟨hg, hs'⟩ := hquiet.step (i := i) (fun _ => rfl) hs ha
      exact ⟨hg, hs', fun job hj => ⟨job, hj, rfl⟩⟩
  · cases r with
    | none => exact Triple.ret_of hst fun _ h => h.1
    | some job =>
      refine Triple.pre (P := fun w => Rooms p ∅ w ∧ w.HasMax j job.maxRetries) ?_
        fun s hs => ⟨hs.1, hs.2 job rfl⟩
      refine Triple.bind (M := fun attempts w => (Rooms p ∅ w ∧ w.HasMax j job.maxRetries) ∧
        w.attemptCount j = attempts.length) ?_ fun attempts => ?_
      · refine Triple.op (hmax _) (fun r => (hmax _).and ?_) ?_
        · intro s t h hs
          rw [h.2.1, hs]
        · intro s i hs ha
          have hquiet : (Op.getAttempts j).retryQuiet := Op.retryQuiet_of_isRead rfl
          obtain ⟨hg, hs'⟩ := hquiet.step (i := i) (fun _ => rfl) hs.1 ha
          exact ⟨hg, ⟨hs', hs.2⟩, rfl⟩
      · split
        · refine Triple.bind (M := fun _ => Rooms p ∅) ?_ fun _ => Triple.skip hst _
          refine Triple.post (Triple.pre (rooms_of_emits (fun _ => rfl) ?_) fun _ h => h.1.1)
            (fun _ _ h => h) fun _ _ _ => trivial
          exact emits_transitionJob (fun _ => Op.retryQuiet_of_isRead) fun c _ =>
            Op.retryQuiet_of_new (by simp) j c _
        · next hlt =>
          split
          · refine Triple.pre (Triple.bind (rooms_requeue j) fun _ =>
              Triple.skip hst _) fun s hs => ⟨hs.1.1, _, hs.1.2, fun _ => ?_⟩
            rw [hs.2]
            omega
          · exact Triple.ret_of hst fun _ h => h.1.1

theorem rooms_driveRecovery :
    Triple exec retryContract (Rooms .recovery ∅) Scheduler.driveRecovery
      (fun _ => Rooms .recovery ∅) fun _ _ => True := by
  have hX : Phase.recovery ≠ .dispatch → (∅ : Set ℕ) = ∅ := fun _ => rfl
  have hst := stable_rooms .recovery ∅
  have hread : ∀ {o : Op}, o.isRead = true → Triple exec retryContract (Rooms .recovery ∅) (op o)
      (fun _ => Rooms .recovery ∅) fun _ _ => True := by
    intro o h
    exact rooms_quiet hX (Op.retryQuiet_of_isRead h)
  have hq : ∀ j, Triple exec retryContract (Rooms .recovery ∅)
      ((Scheduler.requeueJob j).bind fun ok => .ret (if ok then some j else none))
      (fun _ => Rooms .recovery ∅) fun _ _ => True := by
    intro j
    exact (rooms_requeueJob j).bind fun _ => Triple.skip hst _
  refine (hread rfl).bind fun limited => Triple.bind (M := fun _ => Rooms .recovery ∅) ?_
    fun actions => Triple.bind (M := fun _ => Rooms .recovery ∅) ?_ fun _ =>
    (hread rfl).bind fun failed => ?_
  · refine Triple.collect (J := fun _ _ => Rooms .recovery ∅) (fun _ => hst) (fun job _ _ => ?_) _ _
    refine ((rooms_of_emits hX (emits_isBackedOff (fun _ => Op.retryQuiet_of_isRead) _)).post
      (fun _ _ h => h) fun _ _ _ => trivial).bind fun b => ?_
    split
    · exact Triple.skip hst _
    · exact hq job.id
  · exact Triple.forEach (J := fun _ => Rooms .recovery ∅) hst (fun repoId _ =>
      rooms_quiet hX (Op.retryQuiet_of_ne (by simp) (by simp))) _
  · exact Triple.collect (J := fun _ _ => Rooms .recovery ∅) (fun _ => hst)
      (fun job _ _ => hq job.id) _ _

/-! ## Dispatch -/

/-- All queued jobs have attempts left; the listed jobs have attempts left. -/
def RoomsAnd (js : List Job) (w : World) : Prop := Rooms .dispatch ∅ w ∧ ∀ job ∈ js, w.Room job.id

theorem stable_roomsAnd (js : List Job) : retryContract.Stable (RoomsAnd js) := by
  apply (stable_rooms .dispatch ∅).and
  intro s t h hs job hj
  exact stable_room job.id s t h (hs job hj)

theorem RoomsAnd.mono {js ks : List Job} (h : RoomsAnd js w) (hk : ∀ job ∈ ks, job ∈ js) :
    RoomsAnd ks w := ⟨h.1, fun job hj => h.2 job (hk job hj)⟩

theorem roomsAnd_of_emits {α : Type} {q : Py α} (js : List Job) (hq : q.Emits Op.retryQuiet) :
    Triple exec retryContract (RoomsAnd js) q (fun _ => RoomsAnd js) fun _ _ => True := by
  refine (Triple.of_emits (stable_roomsAnd js) (hq.mono fun o ho => ?_)).anyError
  intro s i hs ha
  obtain ⟨hg, hs'⟩ := ho.step (i := i) (fun _ => rfl) hs.1 ha
  exact ⟨hg, hs', fun job hj => (hs.2 job hj).exec (ho job.id).1⟩

/-- The job that `next_job` returns was queued when it was listed, so it has
    attempts left. -/
theorem rooms_nextJob (cfg : Settings) :
    Triple exec retryContract (Rooms .dispatch ∅) (Scheduler.nextJob cfg none)
      (fun job => RoomsAnd job.toList) fun _ _ => True := by
  have hX : Phase.dispatch ≠ .dispatch → (∅ : Set ℕ) = ∅ := fun _ => rfl
  refine (rooms_quiet hX (Op.retryQuiet_of_isRead rfl)).bind fun now => ?_
  refine Triple.bind (M := RoomsAnd) ?_ fun jobs => ?_
  · apply Triple.op (stable_rooms _ _) stable_roomsAnd
    intro s i hs ha
    have hquiet : (Op.listJobs none (some .queued) 50 (some now)).retryQuiet :=
      Op.retryQuiet_of_isRead rfl
    obtain ⟨hg, hs'⟩ := hquiet.step (i := i) hX hs ha
    refine ⟨hg, hs', ?_⟩
    intro job hj
    have hmem := List.mem_of_mem_take hj
    rw [Sql.mem_orderBy, Sql.Table.select, List.mem_filter] at hmem
    have hq : job.state = .queued := by
      have := hmem.2
      simp only [Option.all_none, Option.all_some, Bool.true_and, Bool.and_eq_true,
        beq_iff_eq] at this
      exact this.1
    have hget : s.db.getJob job.id = some job := Sql.Table.get?_of_mem hmem.1
    exact ⟨_, ⟨job, hget, rfl⟩, hs.2 job.id (by simp) job hget hq⟩
  · refine Triple.bind (M := fun out => RoomsAnd out) ?_ fun out => ?_
    · refine Triple.pre (Triple.post (Triple.collect (J := fun xs out => RoomsAnd (out ++ xs))
        (fun _ => stable_roomsAnd _) (fun job xs out => ?_) jobs []) (fun out s hs => ?_)
        fun _ _ h => h) fun s hs => by simpa using hs
      · refine (roomsAnd_of_emits _ (emits_canRun (fun _ => Op.retryQuiet_of_isRead) cfg _)).bind
          fun b => ?_
        split
        · apply Triple.ret (stable_roomsAnd _)
          intro s hs
          apply hs.mono
          intro k hk
          simpa using hk
        · apply Triple.ret (stable_roomsAnd _)
          intro s hs
          apply hs.mono
          intro k hk
          simp only [Option.toList_none, List.append_nil, List.mem_append] at hk
          simp only [List.mem_append, List.mem_cons]
          exact hk.imp_right .inr
      · simpa using hs
    · apply Triple.ret (stable_roomsAnd _)
      intro s hs
      apply hs.mono
      intro job hj
      exact List.mem_of_mem_head? (Option.mem_toList.mp hj)

/-- `create_attempt` uses one of the attempts that the job has left. -/
theorem rooms_createAttempt (j : ℕ) (sessionId : Option ℕ) :
    Triple exec retryContract (fun w => Rooms .dispatch ∅ w ∧ w.Room j)
      (createAttempt j sessionId) (fun _ => Rooms .dispatch {j}) E := by
  refine (rooms_quiet_room (fun _ => rfl) (Op.retryQuiet_of_isRead rfl)).bind fun num => ?_
  apply Triple.op ((stable_rooms _ _).and (stable_room j)) (fun _ => stable_rooms _ _)
  intro s i hs ha
  have hins : ∀ k, (Op.insertAttempt j sessionId (num + 1)).insertsAttempt k → k = j := by
    rintro k ⟨_, _, h⟩
    cases h
    rfl
  have hreq : ∀ k, ¬ (Op.insertAttempt j sessionId (num + 1)).requeues k := by
    rintro k ⟨_, _, h⟩
    cases h
  have hphase : (exec (.insertAttempt j sessionId (num + 1)) i s).2.phase = .dispatch := by
    rw [exec_phase]
    exact hs.1.1
  refine ⟨⟨?_, fun hp => absurd hphase hp, fun k hk => absurd hk (hreq k)⟩, hphase, ?_⟩
  · apply ha.1.exec
    intro k hk
    rw [hins k hk]
    exact hs.2
  · intro k hk
    exact (hs.1.2 k (by simp)).exec ha.1 (fun h => hk (hins k h)) (hreq k)

/-- After `transition_job(j, "starting")` the job is not queued, whether the
    transition succeeds or raises. -/
theorem rooms_starting (j : ℕ) :
    Triple exec retryContract (Rooms .dispatch {j}) (transitionJob j .starting)
      (fun _ => Rooms .dispatch ∅) fun _ => Rooms .dispatch ∅ := by
  let left (r : Option Job) : Set ℕ := {k | k = j ∧ ∃ job, r = some job ∧ job.state = .queued}
  have hX : ∀ {X : Set ℕ}, Phase.dispatch ≠ .dispatch → X = ∅ := fun h => absurd rfl h
  refine Triple.bind (M := fun r => Rooms .dispatch (left r)) ?_ fun r => ?_
  · apply Triple.op (stable_rooms _ _) (fun r => stable_rooms _ _)
    intro s i hs ha
    have hquiet : (Op.getJob j).retryQuiet := Op.retryQuiet_of_isRead rfl
    obtain ⟨hg, -⟩ := hquiet.step (i := i) hX hs ha
    refine ⟨hg, hs.1, ?_⟩
    intro k hk r hr hq hmax
    by_cases hkj : k = j
    · subst hkj
      exact absurd ⟨rfl, r, hr, hq⟩ hk
    · exact hs.2 k hkj r hr hq hmax
  · have hraise : ∀ e, (∀ job, r = some job → job.state ≠ .queued) →
        Triple exec retryContract (Rooms .dispatch (left r)) (.raise e : Py Unit)
          (fun _ => Rooms .dispatch ∅) fun _ => Rooms .dispatch ∅ := by
      intro e hr
      apply Triple.raise (stable_rooms _ _)
      intro s hs
      refine ⟨hs.1, fun k _ => hs.2 k ?_⟩
      rintro ⟨-, job, hj, hq⟩
      exact hr job hj hq
    cases r with
    | none => exact hraise _ fun _ h => by cases h
    | some job =>
      simp only []
      split_ifs with hv
      · apply Triple.op (stable_rooms _ _) (fun _ => stable_rooms _ _)
        intro s i hs ha
        have hquiet : (Op.updateJobState j job.state .starting none).retryQuiet :=
          Op.retryQuiet_of_new (by simp) j job.state none
        obtain ⟨hg, hs'⟩ := hquiet.step (i := i) hX hs ha
        refine ⟨hg, hs'.1, ?_⟩
        intro k _
        by_cases hkj : k = j
        · subst hkj
          intro r hr hq
          rw [exec_update, if_pos rfl] at hr
          obtain ⟨r', -, rfl⟩ := Option.map_eq_some_iff.mp hr
          cases hq
        · exact hs'.2 k fun hk => hkj hk.1
      · apply hraise
        rintro job' ⟨⟩ hq
        rw [hq] at hv
        exact hv (by decide)

theorem rooms_runJob (j sessionId : ℕ) (model : String) :
    Triple exec retryContract (fun w => Rooms .dispatch ∅ w ∧ w.Room j)
      (Runner.runJob j sessionId model) (fun _ => Rooms .dispatch ∅)
      fun _ => Rooms .dispatch ∅ := by
  have hX : Phase.dispatch ≠ .dispatch → (∅ : Set ℕ) = ∅ := fun _ => rfl
  have hst := stable_rooms .dispatch ∅
  have hread : ∀ {o : Op}, o.isRead = true → Triple exec retryContract
      (fun w => Rooms .dispatch ∅ w ∧ w.Room j) (op o)
      (fun _ w => Rooms .dispatch ∅ w ∧ w.Room j) fun _ => Rooms .dispatch ∅ := by
    intro o h
    exact rooms_quiet_room hX (Op.retryQuiet_of_isRead h)
  have hraise : ∀ e, Triple exec retryContract (fun w => Rooms .dispatch ∅ w ∧ w.Room j)
      (.raise e : Py ℕ) (fun _ => Rooms .dispatch ∅) fun _ => Rooms .dispatch ∅ := by
    intro e
    exact Triple.raise (hst.and (stable_room j)) fun _ h => h.1
  refine triple_runJob_of hread hraise fun job repo => ?_
  refine (rooms_createAttempt j _).bind fun attemptId => (rooms_starting j).bind fun _ => ?_
  refine rooms_of_emits hX (emits_launch (fun _ => Op.retryQuiet_of_isRead) ?_ ?_ ?_ ?_ ?_ _ _ _)
  · exact fun _ _ => Op.retryQuiet_of_ne (by simp) (by simp)
  · exact fun _ _ _ _ _ _ _ => Op.retryQuiet_of_ne (by simp) (by simp)
  · exact fun _ => Op.retryQuiet_of_ne (by simp) (by simp)
  · exact fun _ _ _ => Op.retryQuiet_of_ne (by simp) (by simp)
  · intro current new _ hn
    apply Op.retryQuiet_of_new
    rintro rfl
    simp at hn

theorem rooms_dispatchOne (cfg : Settings) :
    Triple exec retryContract (Rooms .dispatch ∅) (Daemon.dispatchOne cfg)
      (fun _ => Rooms .dispatch ∅) fun _ _ => True := by
  have hst := stable_rooms .dispatch ∅
  refine (rooms_nextJob cfg).bind fun job => ?_
  cases job with
  | none => exact Triple.ret_of hst fun _ h => h.1
  | some job =>
    refine Triple.bind (roomsAnd_of_emits [job] ?_) fun sessionId =>
      (roomsAnd_of_emits [job] (emits_read (fun _ => Op.retryQuiet_of_isRead) rfl)).bind
        fun repo => ?_
    · refine (emits_read (fun _ => Op.retryQuiet_of_isRead) rfl).bind fun sessions => ?_
      split
      · exact emits_op (Op.retryQuiet_of_ne (by simp) (by simp))
      · trivial
    · refine Triple.tryCatch (M := fun _ => Rooms .dispatch ∅) ?_ fun _ => Triple.skip hst _
      refine Triple.bind (M := fun _ => Rooms .dispatch ∅) ?_ fun _ => Triple.skip hst _
      apply (rooms_runJob job.id sessionId _).pre
      intro s hs
      exact ⟨hs.1, hs.2 job (by simp)⟩

end Triples

/-! ## Runs -/

namespace Sys

variable {cfg : Settings} {c c' : Sys} {e : Event}

/-- The watchdog requeues only jobs whose attempts have not reached
    `max_retries`. The daemon is not killed inside its dispatch phase. -/
def retriesLeft (c : Sys) : Event → Bool
  | .run .daemon _ =>
    match c.shared.phase, c.next? .daemon with
    | .watchdog, some (.updateJobState j _ .queued _) => (c.shared.db.getJob j).all fun r =>
      r.maxRetries < 1 || decide ((c.shared.attemptCount j : ℤ) < r.maxRetries)
    | _, _ => true
  | .restart _ => c.shared.phase != .dispatch
  | _ => true

/-- What the condition says about a requeue of the watchdog. -/
theorem room_of_retriesLeft {i : Inputs} {o : Op} {j : ℕ}
    (hok : c.retriesLeft (.run .daemon i) = true) (hn : c.next? .daemon = some o)
    (hp : c.shared.phase = .watchdog) (hj : o.requeues j)
    (hsome : ∃ r, c.shared.db.getJob j = some r) : c.shared.Room j := by
  obtain ⟨current, result, rfl⟩ := hj
  obtain ⟨r, hr⟩ := hsome
  simp only [retriesLeft, hp, hn, hr, Option.all_some, Bool.or_eq_true, decide_eq_true_eq] at hok
  exact ⟨r.maxRetries, ⟨r, hr, rfl⟩, fun h => by omega⟩

/-- What the other threads do leaves attempts and the queue alone. -/
theorem Footprint.retryQuiet (hc : c.Footprint) {t : Tid} {o : Op} (ht : t ≠ .daemon)
    (hn : c.next? t = some o) : o.retryQuiet := by
  have hp := hc.next? hn
  intro j
  constructor
  · rintro ⟨s, n, rfl⟩
    exact ht (home_of_performs hp rfl).1
  · rintro ⟨current, result, rfl⟩
    cases t <;> simp [performs, Op.ofReader, Op.ofCli, Op.isRead, Op.isTransition] at hp ht

/-- In the phases without a check of its own nothing but the watchdog requeues. -/
theorem rooms_phase (cfg : Settings) {p : Phase} (hp : p ≠ .dispatch) (hp' : p ≠ .recovery) :
    Triple exec retryContract (Rooms p ∅) (Daemon.phaseProg cfg p) (fun _ => Rooms p ∅)
      fun _ _ => True := by
  refine (Triple.of_emits (stable_rooms p ∅) ((emits_phaseProg cfg p).mono fun o ho =>
    ?_)).anyError
  intro s i hs ha
  have hins : ∀ j, ¬ o.insertsAttempt j := by
    rintro j ⟨_, _, rfl⟩
    exact hp (ho.home rfl)
  have hreq : ∀ j, o.requeues j → s.db.getJob j ≠ none → s.Room j := by
    intro j hj
    apply ha.2 j _ hj
    obtain ⟨_, _, rfl⟩ := hj
    rw [hs.1]
    cases p <;> simp [Phase.performs, Op.isRead, Op.isTransition] at ho hp' ⊢
  have hrooms : ∀ j, (exec o i s).2.QueuedRoom j := by
    intro j
    by_cases hj : o.requeues j
    · by_cases hn : s.db.getJob j = none
      · intro r hr
        rw [exec_noJob i hn] at hr
        · cases hr
        · obtain ⟨_, _, rfl⟩ := hj
          simp
      · exact .of_room ((hreq j hj hn).exec (hins j))
    · exact (hs.2 j (by simp)).exec ha.1 (hins j) hj
  refine ⟨⟨?_, fun _ => hrooms, hreq⟩, ?_, fun j _ => hrooms j⟩
  · exact ha.1.exec fun j hj => absurd hj (hins j)
  · rw [exec_phase]
    exact hs.1

/-- Every phase leaves room for all queued jobs. -/
theorem rooms_phaseProg (cfg : Settings) (p : Phase) :
    Triple exec retryContract (Rooms p ∅) (Daemon.phaseProg cfg p)
      (fun _ w => ∀ j, w.QueuedRoom j) fun _ _ => True := by
  suffices h : Triple exec retryContract (Rooms p ∅) (Daemon.phaseProg cfg p)
      (fun _ => Rooms p ∅) fun _ _ => True from
    h.post (fun _ _ hs j => hs.2 j (by simp)) fun _ _ _ => trivial
  by_cases hd : p = .dispatch
  · subst hd
    exact (rooms_dispatchOne cfg).bind fun _ => Triple.skip (stable_rooms _ _) _
  · by_cases hr : p = .recovery
    · subst hr
      exact rooms_driveRecovery.bind fun _ => Triple.skip (stable_rooms _ _) _
    · exact rooms_phase cfg hd hr

/-- The daemon keeps `retryContract`. -/
def retryProof (cfg : Settings) : DaemonProof cfg fun c e => c.retriesLeft e = true where
  K := retryContract
  inv w := w.Bounded ∧ (w.phase ≠ .dispatch → ∀ j, w.QueuedRoom j)
  post _ w := ∀ j, w.QueuedRoom j
  other {c t i o} hc hi ht _ hn := by
    have ho := hc.retryQuiet ht hn
    have hb : (exec o i c.shared).2.Bounded := hi.1.exec fun j hj => absurd hj (ho j).1
    have hq : ∀ j, c.shared.QueuedRoom j → (exec o i c.shared).2.QueuedRoom j := by
      intro j hj
      exact hj.exec hi.1 (ho j).1 (ho j).2
    refine ⟨⟨hb, ?_⟩, exec_phase _ _ _, fun j => attemptCount_exec (ho j).1,
      fun j m hm => hm.exec, hq⟩
    intro hp j
    rw [exec_phase] at hp
    exact hq j (hi.2 hp j)
  assume {_ _ _} _ hi hok hn := by
    refine ⟨hi.1, ?_⟩
    intro j hp hj hsome
    exact room_of_retriesLeft hok hn hp hj (Option.ne_none_iff_exists'.mp hsome)
  own _ _ hg := ⟨hg.1, hg.2.1⟩
  enter {c p} _ hi hpost := by
    constructor
    · exact ⟨⟨hi.1.bound, hi.1.orphan⟩, fun _ => hpost⟩
    · exact rooms_phaseProg cfg p _ ⟨rfl, fun j _ => hpost j⟩
  reap hi := ⟨⟨⟨hi.1.bound, hi.1.orphan⟩, hi.2⟩, rfl, fun _ => rfl, fun _ _ h => h, fun _ h => h⟩
  reboot {c environ} _ hi hok := by
    have hp : c.shared.phase ≠ .dispatch := by simpa [retriesLeft] using hok
    constructor
    · exact ⟨⟨hi.1.bound, hi.1.orphan⟩, fun _ => hi.2 hp⟩
    · intro w hw j
      exact hw.2.2.2 j (hi.2 hp j)

/-- `requeue_job` alone, on a job without attempts left. -/
theorem requeueJob_exhausted (ω : ℕ → Inputs) (w : World) {j : ℕ} {r : Job}
    (hr : w.db.getJob j = some r) (hst : .failedPermanent ∈ r.state.validTransitions)
    (hmax : r.maxRetries ≤ w.attemptCount j) :
    ((Scheduler.requeueJob j).eval exec ω w).1 = .ok false ∧
      ∃ r', ((Scheduler.requeueJob j).eval exec ω w).2.db.getJob j = some r' ∧
        r'.state = .failedPermanent := by
  have hget : exec (.getJob j) (ω 0) w = (some r, w) := by simp only [exec, hr]
  have hlist : exec (.getAttempts j) (ω 1) w = (w.db.getAttempts j, w) := rfl
  have hge : ((w.db.getAttempts j).length : ℤ) ≥ r.maxRetries := hmax
  have hrun : (Scheduler.requeueJob j).eval exec ω w =
      (.ok false, (exec (.updateJobState j r.state .failedPermanent
        (some "Max retries exceeded")) (ω 3) w).2) := by
    simp only [Scheduler.requeueJob, Prog.bind_eq, Prog.perform_bind, Prog.eval]
    rw [hget]
    simp only [Prog.eval]
    rw [hlist]
    simp only [if_pos hge]
    exact eval_transitionJob (fun n => ω (n + 2)) hr hst _ _
  rw [hrun]
  refine ⟨rfl, r.transition .failedPermanent (some "Max retries exceeded") (ω 3).now, ?_, rfl⟩
  simp only []
  rw [exec_update, if_pos rfl, hr, Option.map_some]

/-- As long as the watchdog only requeues jobs with attempts left, no job has
    more attempts than `max_retries`, no thread queues a job that has used them
    up, and `requeue_job` moves such a job to `failed_permanent`. -/
theorem attempts_bounded {db : Db} {environ : Environ} (hdb : ∀ j, db.getAttempts j = [])
    (h : Runs cfg (fun c e => c.retriesLeft e = true) (boot db environ) c) :
    (∀ j r, c.shared.db.getJob j = some r → 1 ≤ r.maxRetries →
      ((c.shared.db.getAttempts j).length : ℤ) ≤ r.maxRetries) ∧
    (∀ t i j current result, c.retriesLeft (.run t i) = true →
      c.next? t = some (.updateJobState j current .queued result) →
      ∀ r, c.shared.db.getJob j = some r → 1 ≤ r.maxRetries →
        ((c.shared.db.getAttempts j).length : ℤ) < r.maxRetries) ∧
    (∀ ω j r, c.shared.db.getJob j = some r → .failedPermanent ∈ r.state.validTransitions →
      r.maxRetries ≤ (c.shared.db.getAttempts j).length →
        ((Scheduler.requeueJob j).eval exec ω c.shared).1 = .ok false ∧
          ∃ r', ((Scheduler.requeueJob j).eval exec ω c.shared).2.db.getJob j = some r' ∧
            r'.state = .failedPermanent) := by
  have hcount : ∀ w : World, w.db = db → ∀ j, w.attemptCount j = 0 := by
    rintro w rfl j
    simp [World.attemptCount, hdb]
  have hroom : ∀ w : World, w.db = db → ∀ j, w.QueuedRoom j := by
    intro w hw j r _ _ hmax
    rw [hcount w hw]
    omega
  have hbounded : (boot db environ).shared.Bounded := by
    refine ⟨?_, fun j _ => hcount _ rfl j⟩
    intro j r _ hmax
    rw [hcount _ rfl]
    omega
  have hgood := (retryProof cfg).sound (DaemonProof.good_boot ⟨hbounded, fun _ => hroom _ rfl⟩
    fun w hw j => hw.2.2.2 j (hroom _ rfl j)) h
  refine ⟨hgood.inv.1.bound, ?_, ?_⟩
  · intro t i j current result hok hn r hr hmax
    by_cases ht : t = .daemon
    · subst ht
      obtain ⟨-, -, hg⟩ := hgood.guarantee hok hn
      obtain ⟨m, ⟨r', hr', rfl⟩, hlt⟩ := hg j ⟨_, _, rfl⟩ (by simp [hr])
      rw [hr] at hr'
      cases hr'
      exact hlt hmax
    · exact absurd ⟨_, _, rfl⟩ (hgood.footprint.retryQuiet ht hn j).2
  · intro ω j r hr hst hmax
    exact requeueJob_exhausted ω c.shared hr hst hmax

theorem attempts_bounded_running : ∃ c : Sys, c.jobState 1 = some .running ∧
    (∀ j r, c.shared.db.getJob j = some r → 1 ≤ r.maxRetries →
      ((c.shared.db.getAttempts j).length : ℤ) ≤ r.maxRetries) := by
  obtain ⟨c, hrun, hp⟩ := exists_run retriesLeft (startJob oneJob)
    (fun c => c.jobState 1 == some .running) (by decide +kernel)
  exact ⟨c, by simpa using hp, (attempts_bounded (fun j => rfl) hrun).1⟩

/-- A job that may have one attempt times out and is dispatched again. -/
theorem attempts_unbounded : ¬ ∀ (cfg : Settings) (db : Db) (environ : Environ) (c : Sys),
    (∀ j, db.getAttempts j = []) → Runs cfg (fun _ _ => True) (boot db environ) c →
    ∀ j r, c.shared.db.getJob j = some r → 1 ≤ r.maxRetries →
      ((c.shared.db.getAttempts j).length : ℤ) ≤ r.maxRetries := by
  intro hall
  obtain ⟨c, hrun, hp⟩ := exists_run (fun _ _ => true)
    (startJob { oneJob with maxRetries := 1 } ++ timeOut ++ redispatch 13)
    (fun c => (c.shared.db.getJob 1).any (fun r => r.maxRetries == 1) &&
      (c.shared.db.getAttempts 1).length == 2) (by decide +kernel)
  simp only [Bool.and_eq_true, Option.any_eq_true, beq_iff_eq] at hp
  obtain ⟨⟨r, hr, hmax⟩, hlen⟩ := hp
  have := hall _ _ _ c (fun _ => rfl) (hrun.mono fun _ _ _ => trivial) 1 r hr (by omega)
  omega

end Sys

end DiscordAgent
