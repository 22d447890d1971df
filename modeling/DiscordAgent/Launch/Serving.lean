import DiscordAgent.Launch.Sessions
import DiscordAgent.Scheduling.Concurrency

/-!
# One attempt for each session

`_dispatch_queued_jobs` looks up an idle session, and `run_job` marks it `busy`
several statements later, after it has created the attempt and moved the job to
`starting`. In between only the daemon itself could hand the session out.

* `Db.Settled`: the last attempt of every job in `starting` or `running` is
  finished or entered in its session.
* `Db.Opening`: what holds of the one job for which `run_job` has not got that far.
* `serving_dispatchOne`: a round of the dispatch loop ends settled, whatever the
  other threads do and even if `run_job` raises.
-/

namespace DiscordAgent

open Interleave Sql

variable {o : Op} {i : Inputs} {w : World} {j a S : ℕ} {db db' db'' : Db} {p : Phase}

/-! ## Jobs and their last attempts -/

namespace Db

/-- The last attempt of the job. -/
def lastAttempt (db : Db) (j : ℕ) : Option ℕ := (db.attemptIds j).getLast?

/-- The job is neither `starting` nor `running`. -/
def Resting (j : ℕ) (db : Db) : Prop := ∀ r, db.getJob j = some r → r.state.active = false

/-- The last attempt of every job in `starting` or `running`, except that of job
    `x`, is finished or entered in its session. -/
def Settled (x : Option ℕ) (db : Db) : Prop :=
  ∀ j r a, db.getJob j = some r → r.state.active = true → x ≠ some j →
    db.lastAttempt j = some a → db.Entered a

/-- `run_job` has created the attempt of the job and not yet entered it in the
    session. -/
structure Opening (j a S : ℕ) (db : Db) : Prop where
  last : db.lastAttempt j = some a
  runsIn : db.RunsIn a S
  idle : db.Idle S
  notRunning : ∀ r, db.getJob j = some r → r.state ≠ .running

/-- `run_job` has entered the attempt of the job in the session. -/
structure Launched (j a S : ℕ) (db : Db) : Prop where
  settled : db.Settled none
  last : db.lastAttempt j = some a
  runsIn : db.RunsIn a S
  names : db.Names S a

/-- At most one attempt is not yet entered in its session. -/
inductive AlmostSettled (db : Db) : Prop
  | settled (h : db.Settled none)
  | opening {j a S : ℕ} (h : db.Settled (some j)) (ho : db.Opening j a S)

theorem Settled.mono {x : Option ℕ} (h : db.Settled none) : db.Settled x :=
  fun j r a hr hact _ hlast => h j r a hr hact (by simp) hlast

/-- The job that is left out is not active, or its attempt is entered. -/
theorem Settled.all (h : db.Settled (some j)) (hj : db.Resting j ∨
    ∀ a, db.lastAttempt j = some a → db.Entered a) : db.Settled none := by
  intro k r a hr hact _ hlast
  by_cases hjk : j = k
  · subst hjk
    rcases hj with hrest | hentered
    · rw [hrest r hr] at hact
      cases hact
    · exact hentered a hlast
  · exact h k r a hr hact (by simpa using hjk) hlast

theorem Names.unique {b : ℕ} (h : db.Names S a) (h' : db.Names S b) : a = b := by
  obtain ⟨s, hs, ha⟩ := h
  obtain ⟨t, ht, hb⟩ := h'
  rw [hs] at ht
  cases ht
  rw [ha] at hb
  exact Option.some.inj hb

theorem lastAttempt_exec (i : Inputs) (h : ∀ s n, o ≠ .insertAttempt j s n) :
    (DiscordAgent.exec o i w).2.db.lastAttempt j = w.db.lastAttempt j := by
  unfold lastAttempt
  rw [exec_attemptIds i h]

/-- `create_attempt` adds the last attempt. -/
theorem lastAttempt_insert (j : ℕ) (s : Option ℕ) (i : Inputs) :
    (DiscordAgent.exec (.insertAttempt j s (w.db.maxAttemptNum j + 1)) i w).2.db.lastAttempt j =
      some (w.db.attempts.seq + 1) := by
  have hnew := mem_attemptIds_insert (i := i) (w := w) j s (w.db.maxAttemptNum j + 1)
  obtain ⟨b, hb, hbj, hid⟩ := mem_attemptIds.mp hnew
  have hmem := mem_getAttempts.mpr ⟨hb, hbj⟩
  cases hlast : ((DiscordAgent.exec (.insertAttempt j s (w.db.maxAttemptNum j + 1)) i
      w).2.db.getAttempts j).getLast? with
  | none =>
    rw [List.getLast?_eq_none_iff.mp hlast] at hmem
    cases hmem
  | some r =>
    have hnum : b.attemptNum = w.db.maxAttemptNum j + 1 := by
      rcases Table.mem_insert.mp hb with hold | rfl
      · have hle : b.id ≤ w.db.attempts.seq := w.db.attempts.bounded b hold
        omega
      · rfl
    have hle := le_of_getLast?_orderBy hlast (List.mem_filter.mpr ⟨hb, by simpa using hbj⟩)
    obtain ⟨hr, hrj⟩ := mem_getAttempts.mp (List.mem_of_getLast? hlast)
    have hrid : r.id = w.db.attempts.seq + 1 := by
      rcases Table.mem_insert.mp hr with hold | rfl
      · have hmax := le_maxAttemptNum hold
        rw [hrj] at hmax
        omega
      · rfl
    unfold lastAttempt attemptIds
    rw [List.getLast?_map, hlast, Option.map_some, hrid]

/-! ## One operation -/

theorem Resting.exec (h : w.db.Resting j) (ho : ¬ o.activates j) :
    (DiscordAgent.exec o i w).2.db.Resting j := by
  intro r' hr'
  by_contra hne
  have hact : r'.state.active = true := by simpa using hne
  rcases exec_active hr' hact with ⟨r, hr, hstate, -⟩ | ⟨current, result, rfl⟩
  · rw [← hstate, h r hr] at hact
    cases hact
  · exact ho ⟨rfl, hact⟩

/-- Attempts are created for resting jobs, and a job becomes active with an
    attempt that is entered in its session. -/
theorem Settled.exec {x : Option ℕ} (h : w.db.Settled x) (hr : w.db.Released)
    (ho : o.Orderly w.db) (hins : ∀ k s n, o = .insertAttempt k s n → w.db.Resting k)
    (hact : ∀ k, o.activates k → x = some k ∨ ∀ a, w.db.lastAttempt k = some a → w.db.Entered a) :
    (DiscordAgent.exec o i w).2.db.Settled x := by
  intro k r' b hr' hactive hx hlast
  by_cases hk : ∃ s n, o = .insertAttempt k s n
  · obtain ⟨s, n, rfl⟩ := hk
    rw [(hins k s n rfl).exec id r' hr'] at hactive
    cases hactive
  push Not at hk
  rw [lastAttempt_exec i hk] at hlast
  suffices hold : w.db.Entered b from hold.exec hr ho
  rcases exec_active hr' hactive with ⟨r, hrow, hstate, -⟩ | ⟨current, result, rfl⟩
  · rw [← hstate] at hactive
    exact h k r b hrow hactive hx hlast
  · exact (hact k ⟨rfl, hactive⟩).resolve_left hx b hlast

theorem Opening.exec (h : w.db.Opening j a S) (ho : o.Orderly w.db)
    (hins : ∀ k s n, o ≠ .insertAttempt k s n) (hno : ∀ S u, o ≠ .updateSession S u)
    (hrun : ∀ current result, o ≠ .updateJobState j current .running result) :
    (DiscordAgent.exec o i w).2.db.Opening j a S where
  last := (lastAttempt_exec i (hins j)).trans h.last
  runsIn := h.runsIn.exec o i
  idle := h.idle.exec ho (hno S)
  notRunning := by
    intro r' hr' hstate
    rcases exec_active hr' (by rw [hstate]; rfl) with ⟨r, hr, heq, -⟩ | ⟨current, result, ho⟩
    · exact h.notRunning r hr (heq.trans hstate)
    · rw [hstate] at ho
      exact hrun current result ho

theorem Launched.exec (h : w.db.Launched j a S) (hr : w.db.Released) (ho : o.Orderly w.db)
    (hins : ∀ k s n, o ≠ .insertAttempt k s n)
    (hno : ∀ S u, o = .updateSession S u → u.currentAttemptId = none)
    (hact : ∀ k, o.activates k → k = j) :
    (DiscordAgent.exec o i w).2.db.Launched j a S where
  settled := by
    refine h.settled.exec hr ho (fun k s n heq => absurd heq (hins k s n)) fun k hk => .inr ?_
    rw [hact k hk, h.last]
    rintro b ⟨⟩
    exact .inr ⟨S, h.runsIn, h.names⟩
  last := (lastAttempt_exec i (hins j)).trans h.last
  runsIn := h.runsIn.exec o i
  names := h.names.exec ho (hno S)

/-- `run_job` enters the attempt. -/
theorem Opening.launched (h : w.db.Opening j a S) (hset : w.db.Settled (some j))
    (hr : w.db.Released) {u : SessionPatch} (ho : (Op.updateSession S u).Orderly w.db)
    (hu : u.currentAttemptId = some a) :
    (DiscordAgent.exec (.updateSession S u) i w).2.db.Launched j a S := by
  have hlast := (lastAttempt_exec (w := w) (o := .updateSession S u) i (by simp)).trans h.last
  refine ⟨?_, hlast, h.runsIn.exec _ i, names_update ho hu⟩
  refine (hset.exec hr ho (by simp) fun _ hk => hk.elim).all (.inr fun b hb => ?_)
  rw [hlast] at hb
  cases hb
  exact entered_update ho hu

/-! ## What the other threads leave alone -/

/-- What everything but the daemon does. -/
structure Calm (db db' : Db) : Prop where
  jobs : ∀ j r', db'.getJob j = some r' → r'.state.active = true →
    ∃ r, db.getJob j = some r ∧ r.state = r'.state
  num : ∀ j, db'.maxAttemptNum j = db.maxAttemptNum j
  last : ∀ j, db'.lastAttempt j = db.lastAttempt j
  finished : ∀ a, db.finished a = true → db'.finished a = true
  runsIn : ∀ a S, db.RunsIn a S → db'.RunsIn a S
  names : ∀ S a, db.Names S a → db'.Names S a
  idle : ∀ S, db.Idle S → db'.Idle S

theorem Calm.refl (db : Db) : db.Calm db where
  jobs _ r hr _ := ⟨r, hr, rfl⟩
  num _ := rfl
  last _ := rfl
  finished _ h := h
  runsIn _ _ h := h
  names _ _ h := h
  idle _ h := h

theorem Calm.trans (h : db.Calm db') (h' : db'.Calm db'') : db.Calm db'' where
  jobs j r hr hact := by
    obtain ⟨r', hr', hs'⟩ := h'.jobs j r hr hact
    obtain ⟨r'', hr'', hs''⟩ := h.jobs j r' hr' (by rw [hs']; exact hact)
    exact ⟨r'', hr'', hs''.trans hs'⟩
  num j := (h'.num j).trans (h.num j)
  last j := (h'.last j).trans (h.last j)
  finished a ha := h'.finished a (h.finished a ha)
  runsIn a S ha := h'.runsIn a S (h.runsIn a S ha)
  names S a ha := h'.names S a (h.names S a ha)
  idle S hS := h'.idle S (h.idle S hS)

theorem calm_exec (ho : o.Orderly w.db) (hins : ∀ k s n, o ≠ .insertAttempt k s n)
    (hno : ∀ S u, o ≠ .updateSession S u) (hact : ∀ k, ¬ o.activates k) :
    w.db.Calm (DiscordAgent.exec o i w).2.db where
  jobs j r' hr' hactive := by
    rcases exec_active hr' hactive with ⟨r, hr, hstate, -⟩ | ⟨current, result, rfl⟩
    · exact ⟨r, hr, hstate⟩
    · exact absurd ⟨rfl, hactive⟩ (hact j)
  num j := exec_maxAttemptNum i hins j
  last j := lastAttempt_exec i (hins j)
  finished a ha := finished_exec o i ha
  runsIn a S ha := ha.exec o i
  names S a ha := ha.exec ho fun u heq => absurd heq (hno S u)
  idle S hS := hS.exec ho (hno S)

/-- A condition that the other threads do not destroy. -/
def Persists (P : Db → Prop) : Prop := ∀ db db' : Db, db.Calm db' → P db → P db'

theorem Entered.calm (h : db.Entered a) (hc : db.Calm db') : db'.Entered a := by
  rcases h with hfin | ⟨S, hruns, hnames⟩
  · exact .inl (hc.finished a hfin)
  · exact .inr ⟨S, hc.runsIn a S hruns, hc.names S a hnames⟩

theorem persists_settled (x : Option ℕ) : Persists (Settled x) := by
  intro db db' hc h k r' b hr' hact hx hlast
  obtain ⟨r, hr, hstate⟩ := hc.jobs k r' hr' hact
  rw [hc.last k] at hlast
  exact (h k r b hr (by rw [hstate]; exact hact) hx hlast).calm hc

theorem persists_resting (j : ℕ) : Persists (Resting j) := by
  intro db db' hc h r' hr'
  by_contra hne
  have hact : r'.state.active = true := by simpa using hne
  obtain ⟨r, hr, hstate⟩ := hc.jobs j r' hr' hact
  rw [← hstate, h r hr] at hact
  cases hact

theorem persists_idle (S : ℕ) : Persists fun db => db.Idle S := fun _ _ hc h => hc.idle S h

theorem persists_opening (j a S : ℕ) : Persists (Opening j a S) := by
  intro db db' hc h
  refine ⟨(hc.last j).trans h.last, hc.runsIn a S h.runsIn, hc.idle S h.idle, ?_⟩
  intro r' hr' hstate
  obtain ⟨r, hr, heq⟩ := hc.jobs j r' hr' (by rw [hstate]; rfl)
  exact h.notRunning r hr (heq.trans hstate)

theorem persists_launched (j a S : ℕ) : Persists (Launched j a S) := fun db db' hc h =>
  ⟨persists_settled none db db' hc h.settled, (hc.last j).trans h.last, hc.runsIn a S h.runsIn,
    hc.names S a h.names⟩

theorem persists_almostSettled : Persists AlmostSettled := by
  rintro db db' hc (h | ⟨h, ho⟩)
  · exact .settled (persists_settled none db db' hc h)
  · exact .opening (persists_settled _ db db' hc h) (persists_opening _ _ _ db db' hc ho)

theorem Persists.and {P Q : Db → Prop} (hP : Persists P) (hQ : Persists Q) :
    Persists fun db => P db ∧ Q db :=
  fun db db' hc h => ⟨hP db db' hc h.1, hQ db db' hc h.2⟩

end Db

/-! ## The contract of the daemon -/

/-- The session that an update marks as `idle`. -/
def Op.released : Op → Option ℕ
  | updateSession S u => if u.state = some .idle then some S else none
  | _ => none

/-- The watchdog is promised that the sessions which it releases are vacant. -/
def servingContract : Contract Op World where
  rely s t := s.db.Calm t.db ∧ t.phase = s.phase
  refl s := ⟨Db.Calm.refl s.db, rfl⟩
  trans h h' := ⟨h.1.trans h'.1, h'.2.trans h.2⟩
  assume o s := s.db.Released ∧
    (s.phase = .watchdog → ∀ S ∈ o.released, s.db.vacant S = true)
  guar o s t := o.Orderly s.db ∧ t.db.AlmostSettled ∧ (t.phase ≠ .dispatch → t.db.Settled none)

/-- In a phase of the daemon the database satisfies `P`. -/
def InPhase (p : Phase) (P : Db → Prop) (w : World) : Prop := w.phase = p ∧ P w.db

theorem stable_inPhase {P : Db → Prop} (hP : Db.Persists P) :
    servingContract.Stable (InPhase p P) :=
  fun s t hst hs => ⟨hst.2.trans hs.1, hP s.db t.db hst.1 hs.2⟩

theorem Op.orderly_of_isRead (h : o.isRead = true) (db : Db) : o.Orderly db := by
  cases o <;> trivial

section Triples

variable {E : PyErr → World → Prop} {P : Db → Prop} {α : Type}

/-- One operation of the dispatch loop. -/
theorem serving_op {Q : o.Res → Db → Prop} (hP : Db.Persists P) (hQ : ∀ r, Db.Persists (Q r))
    (halmost : ∀ r db, Q r db → db.AlmostSettled)
    (h : ∀ s i, P s.db → s.db.Released →
      o.Orderly s.db ∧ Q (exec o i s).1 (exec o i s).2.db) :
    Triple exec servingContract (InPhase .dispatch P) (op o) (fun r => InPhase .dispatch (Q r))
      E := by
  refine Triple.op (stable_inPhase hP) (fun r => stable_inPhase (hQ r)) ?_
  intro s i hs ha
  obtain ⟨ho, hq⟩ := h s i hs.2 ha.1
  have hphase : (exec o i s).2.phase = .dispatch := (exec_phase o i s).trans hs.1
  exact ⟨⟨ho, halmost _ _ hq, fun hne => absurd hphase hne⟩, hphase, hq⟩

theorem serving_read {Q : o.Res → Db → Prop} (ho : o.isRead = true) (hP : Db.Persists P)
    (hQ : ∀ r, Db.Persists (Q r)) (halmost : ∀ r db, Q r db → db.AlmostSettled)
    (h : ∀ s i, P s.db → Q (exec o i s).1 s.db) :
    Triple exec servingContract (InPhase .dispatch P) (op o) (fun r => InPhase .dispatch (Q r))
      E := by
  refine serving_op hP hQ halmost fun s i hs _ => ⟨Op.orderly_of_isRead ho _, ?_⟩
  rw [exec_isRead ho]
  exact h s i hs

/-- A program of the dispatch loop that keeps a condition. -/
theorem serving_keeps {p : Py α} (hP : Db.Persists P) (halmost : ∀ db, P db → db.AlmostSettled)
    (hp : p.Emits fun o => ∀ (s : World) i, P s.db → s.db.Released →
      o.Orderly s.db ∧ P (exec o i s).2.db) :
    Triple exec servingContract (InPhase .dispatch P) p (fun _ => InPhase .dispatch P)
      fun _ => InPhase .dispatch P := by
  refine Triple.of_emits (stable_inPhase hP) (hp.mono fun o ho s i hs ha => ?_)
  obtain ⟨hord, hk⟩ := ho s i hs.2 ha.1
  have hphase : (exec o i s).2.phase = .dispatch := (exec_phase o i s).trans hs.1
  exact ⟨⟨hord, halmost _ hk, fun hne => absurd hphase hne⟩, hphase, hk⟩

theorem serving_reads {p : Py α} (hP : Db.Persists P) (halmost : ∀ db, P db → db.AlmostSettled)
    (hp : p.Emits fun o => o.isRead = true) :
    Triple exec servingContract (InPhase .dispatch P) p (fun _ => InPhase .dispatch P)
      fun _ => InPhase .dispatch P := by
  refine serving_keeps hP halmost (hp.mono fun o ho s i hs _ => ⟨Op.orderly_of_isRead ho _, ?_⟩)
  rw [exec_isRead ho]
  exact hs

/-- The last attempts are settled, and job `j` is not active. -/
def Db.Ready (j : ℕ) (db : Db) : Prop := db.Settled none ∧ db.Resting j

theorem persists_ready (j : ℕ) : Db.Persists (Db.Ready j) :=
  (Db.persists_settled none).and (Db.persists_resting j)

/-- `next_job` returns a queued job. -/
theorem serving_nextJob (cfg : Settings) :
    Triple exec servingContract (InPhase .dispatch (Db.Settled none)) (Scheduler.nextJob cfg none)
      (fun q => InPhase .dispatch fun db => db.Settled none ∧ ∀ r ∈ q, db.Resting r.id)
      fun _ _ => True := by
  have hall : ∀ xs : List Job, Db.Persists fun db => ∀ r ∈ xs, db.Resting r.id :=
    fun xs db db' hc h r hr => Db.persists_resting r.id db db' hc (h r hr)
  have hJ : ∀ xs out : List Job, Db.Persists fun db =>
      db.Settled none ∧ (∀ r ∈ xs, db.Resting r.id) ∧ ∀ r ∈ out, db.Resting r.id :=
    fun xs out => (Db.persists_settled none).and ((hall xs).and (hall out))
  refine (serving_reads (Db.persists_settled none) (fun _ => .settled)
    (Prog.emits_perform rfl)).anyError.bind fun now => ?_
  refine Triple.bind (serving_read (o := .listJobs none (some .queued) 50 (some now))
    (Q := fun jobs db => db.Settled none ∧ (∀ r ∈ jobs, db.Resting r.id) ∧
      ∀ r ∈ ([] : List Job), db.Resting r.id) rfl (Db.persists_settled none)
    (fun jobs => hJ jobs []) (fun _ _ h => .settled h.1) fun s i hs => ?_) fun jobs => ?_
  · refine ⟨hs, fun r hr r' hr' => ?_, fun r hr => absurd hr List.not_mem_nil⟩
    rw [Db.getJob_of_mem_listJobs hr] at hr'
    cases hr'
    rw [Db.state_of_mem_listJobs hr]
    rfl
  · refine Triple.bind (Triple.collect (J := fun xs out => InPhase .dispatch fun db =>
      db.Settled none ∧ (∀ r ∈ xs, db.Resting r.id) ∧ ∀ r ∈ out, db.Resting r.id)
      (fun out => stable_inPhase (hJ [] out)) (fun r xs out => ?_) jobs []) fun out => ?_
    · refine (serving_reads (hJ (r :: xs) out) (fun _ h => .settled h.1)
        (emits_canRun (fun _ ho => ho) cfg r.repoId)).anyError.bind fun b => ?_
      have hrest : ∀ {w : World} {ys : List Job}, (∀ y ∈ ys, y = r) →
          InPhase .dispatch (fun db => db.Settled none ∧ (∀ x ∈ r :: xs, db.Resting x.id) ∧
            ∀ x ∈ out, db.Resting x.id) w →
          InPhase .dispatch (fun db => db.Settled none ∧ (∀ x ∈ xs, db.Resting x.id) ∧
            ∀ x ∈ out ++ ys, db.Resting x.id) w := by
        intro w ys hys hs
        obtain ⟨hphase, hset, hxs, hout⟩ := hs
        refine ⟨hphase, hset, fun x hx => hxs x (List.mem_cons_of_mem r hx), fun x hx => ?_⟩
        rcases List.mem_append.mp hx with hx | hx
        · exact hout x hx
        · rw [hys x hx]
          exact hxs r List.mem_cons_self
      cases b with
      | true => exact Triple.ret_of (stable_inPhase (hJ xs _)) fun s hs => hrest (by simp) hs
      | false => exact Triple.ret_of (stable_inPhase (hJ xs _)) fun s hs => hrest (by simp) hs
    · apply Triple.ret (stable_inPhase (hJ [] out))
      intro s hs
      exact ⟨hs.1, hs.2.1, fun r hr => hs.2.2.2 r (List.mem_of_head? hr)⟩

/-- The session of a new attempt is idle. -/
theorem serving_sessionFor (j R : ℕ) :
    Triple exec servingContract (InPhase .dispatch (Db.Ready j)) (Daemon.sessionFor R)
      (fun S => InPhase .dispatch fun db => db.Ready j ∧ db.Idle S) fun _ _ => True := by
  have hidle : ∀ S, Db.Persists fun db => db.Ready j ∧ db.Idle S :=
    fun S => (persists_ready j).and (Db.persists_idle S)
  have hlist : ∀ sessions : List Session, Db.Persists fun db =>
      db.Ready j ∧ ∀ s ∈ sessions, db.Idle s.id :=
    fun sessions => (persists_ready j).and fun db db' hc h s hs => hc.idle s.id (h s hs)
  refine Triple.bind (serving_read (o := .listSessions (some R) (some .idle))
    (Q := fun sessions db => db.Ready j ∧ ∀ s ∈ sessions, db.Idle s.id) rfl (persists_ready j)
    hlist (fun _ _ h => .settled h.1.1) fun s i hs => ?_) fun sessions => ?_
  · refine ⟨hs, fun t ht => ?_⟩
    have hsel := List.mem_filter.mp (mem_orderBy.mp ht)
    have hstate := ((Bool.and_eq_true _ _).mp hsel.2).2
    exact ⟨t, Table.get?_of_mem hsel.1, by simpa using hstate⟩
  · split
    · refine serving_op (hlist sessions) hidle (fun _ _ h => .settled h.1.1) fun s i hs hr => ?_
      refine ⟨trivial, ⟨hs.1.1.exec hr trivial (by simp) fun _ hk => hk.elim,
        hs.1.2.exec fun hk => hk.elim⟩, ?_⟩
      refine ⟨_, Table.get?_insert.trans (if_pos rfl), rfl⟩
    · next t ht =>
      apply Triple.ret (stable_inPhase (hlist sessions))
      intro s hs
      exact ⟨hs.1, hs.2.1, hs.2.2 t (List.mem_of_head? ht)⟩

/-- `create_attempt` begins to open the session for the job. -/
theorem serving_createAttempt (j S : ℕ) :
    Triple exec servingContract (InPhase .dispatch fun db => db.Ready j ∧ db.Idle S)
      (createAttempt j (some S))
      (fun a => InPhase .dispatch fun db => db.Ready j ∧ db.Opening j a S) fun _ _ => True := by
  have hnum : ∀ num, Db.Persists fun db =>
      (db.Ready j ∧ db.Idle S) ∧ db.maxAttemptNum j = num :=
    fun num => ((persists_ready j).and (Db.persists_idle S)).and
      fun db db' hc h => (hc.num j).trans h
  refine Triple.bind (serving_read (o := .maxAttemptNum j)
    (Q := fun num db => (db.Ready j ∧ db.Idle S) ∧ db.maxAttemptNum j = num) rfl
    ((persists_ready j).and (Db.persists_idle S)) hnum (fun _ _ h => .settled h.1.1.1)
    fun s i hs => ⟨hs, rfl⟩) fun num => ?_
  refine serving_op (hnum num) (fun a : ℕ => (persists_ready j).and (Db.persists_opening j a S))
    (fun _ _ h => .settled h.1.1) ?_
  rintro s i ⟨⟨⟨hset, hrest⟩, hidle⟩, rfl⟩ hr
  refine ⟨trivial, ⟨hset.exec hr trivial ?_ fun _ hk => hk.elim, hrest.exec id⟩, ?_⟩
  · rintro k t n ⟨⟩
    exact hrest
  · refine ⟨Db.lastAttempt_insert j (some S) i, ?_, hidle.exec trivial (by simp), ?_⟩
    · refine ⟨_, (Db.attempt_insertAttempt _ _ _ _ _ _).trans (if_pos rfl), rfl⟩
    · intro r hr hstate
      have hrest' := hrest.exec (i := i) (o := .insertAttempt j (some S) _) id r hr
      rw [hstate] at hrest'
      cases hrest'

/-- `run_job` moves the job to `starting`, or raises and leaves the attempt
    behind. -/
theorem serving_starting (j a S : ℕ) :
    Triple exec servingContract (InPhase .dispatch fun db => db.Ready j ∧ db.Opening j a S)
      (transitionJob j .starting)
      (fun _ => InPhase .dispatch fun db => db.Settled (some j) ∧ db.Opening j a S)
      fun _ => InPhase .dispatch (Db.Settled none) := by
  have hP : Db.Persists fun db => db.Ready j ∧ db.Opening j a S :=
    (persists_ready j).and (Db.persists_opening j a S)
  refine Triple.bind (serving_read (o := .getJob j) (Q := fun _ db => db.Ready j ∧ db.Opening j a S)
    rfl hP (fun _ => hP) (fun _ _ h => .settled h.1.1) fun s i hs => hs) fun row => ?_
  cases row with
  | none => exact Triple.raise (stable_inPhase hP) fun s hs => ⟨hs.1, hs.2.1.1⟩
  | some job =>
    simp only []
    split_ifs
    · refine serving_op hP (fun _ => (Db.persists_settled (some j)).and (Db.persists_opening j a S))
        (fun _ _ h => .opening h.1 h.2) ?_
      rintro s i ⟨⟨hset, -⟩, hopen⟩ hr
      refine ⟨trivial, hset.mono.exec hr trivial (by simp) fun k hk => .inl ?_,
        hopen.exec trivial (by simp) (by simp) (by simp)⟩
      rw [hk.1]
    · exact Triple.raise (stable_inPhase hP) fun s hs => ⟨hs.1, hs.2.1.1⟩

section Launched

variable {j a S : ℕ}

/-- An operation after the session has been entered. -/
theorem launched_keeps (ho : ∀ db, o.Orderly db) (hins : ∀ k s n, o ≠ .insertAttempt k s n)
    (hno : ∀ S u, o = .updateSession S u → u.currentAttemptId = none)
    (hact : ∀ k, o.activates k → k = j) (s : World) (i : Inputs) (hs : s.db.Launched j a S)
    (hr : s.db.Released) : o.Orderly s.db ∧ (exec o i s).2.db.Launched j a S :=
  ⟨ho s.db, hs.exec hr (ho s.db) hins hno hact⟩

theorem serving_running :
    Triple exec servingContract (InPhase .dispatch (Db.Launched j a S)) (transitionJob j .running)
      (fun _ => InPhase .dispatch (Db.Launched j a S))
      fun _ => InPhase .dispatch (Db.Launched j a S) := by
  refine serving_keeps (Db.persists_launched j a S) (fun _ h => .settled h.settled)
    (emits_transitionJob (fun o ho => ?_) fun current _ => ?_)
  · intro s i hs _
    rw [exec_isRead ho]
    exact ⟨Op.orderly_of_isRead ho _, hs⟩
  · exact launched_keeps (fun _ => trivial) (by simp) (by simp) fun k hk => hk.1.symm

/-- A failed start finishes the attempt before it releases the session. -/
theorem serving_failedStart (e : PyErr) :
    Triple exec servingContract (InPhase .dispatch (Db.Launched j a S))
      (do
        op (.finishAttempt a (some (-1)) (some "Failed to start claude process"))
        op (.updateSession S { state := some .idle })
        transitionJob j .failedRetryable
        .raise e : Py ℕ)
      (fun _ => InPhase .dispatch (Db.Settled none))
      fun _ => InPhase .dispatch (Db.Settled none) := by
  have hfin : Db.Persists fun db => db.Launched j a S ∧ db.finished a = true :=
    (Db.persists_launched j a S).and fun db db' hc h => hc.finished a h
  refine Triple.bind (serving_op (Q := fun _ db => db.Launched j a S ∧ db.finished a = true)
    (Db.persists_launched j a S) (fun _ => hfin) (fun _ _ h => .settled h.1.settled)
    fun s i hs hr => ?_) fun _ => Triple.bind (serving_op (Q := fun _ => Db.Settled none) hfin
      (fun _ => Db.persists_settled none) (fun _ _ h => .settled h) fun s i hs hr => ?_) fun _ => ?_
  · refine ⟨trivial, hs.exec hr trivial (by simp) (by simp) fun _ hk => hk.elim, ?_⟩
    obtain ⟨r, hrow, -⟩ := hs.runsIn
    have hrow' := s.db.attempt_finishAttempt a a i.now (some (-1))
      (some "Failed to start claude process")
    rw [if_pos rfl, hrow] at hrow'
    exact (Option.any_eq_true _ _).mpr ⟨_, hrow', rfl⟩
  · have hord : (Op.updateSession S { state := some .idle }).Orderly s.db := by
      refine ⟨by simp, fun _ => Db.vacant_iff.mpr fun b hb => ?_⟩
      rw [← hs.1.names.unique hb]
      exact hs.2
    exact ⟨hord, hs.1.settled.exec hr hord (by simp) fun _ hk => hk.elim⟩
  · have hraise : Triple exec servingContract (InPhase .dispatch (Db.Settled none))
        (.raise e : Py ℕ) (fun _ => InPhase .dispatch (Db.Settled none))
        fun _ => InPhase .dispatch (Db.Settled none) :=
      Triple.raise (stable_inPhase (Db.persists_settled none)) fun _ hs => hs
    refine Triple.bind (serving_keeps (Db.persists_settled none) (fun _ h => .settled h)
      (emits_transitionJob (fun o ho => ?_) fun current _ => ?_)) fun _ => hraise
    · intro s i hs _
      rw [exec_isRead ho]
      exact ⟨Op.orderly_of_isRead ho _, hs⟩
    · intro s i hs hr
      exact ⟨trivial, hs.exec hr trivial (by simp) fun k hk => absurd hk.2 (by decide)⟩

theorem serving_tryStart (job : Job) (repo : Repo) (model : String) (prompt : Option String) :
    Triple exec servingContract (InPhase .dispatch (Db.Launched j a S))
      (Runner.tryStart j job repo S model a prompt)
      (fun _ => InPhase .dispatch (Db.Settled none))
      fun _ => InPhase .dispatch (Db.Settled none) := by
  have hkeep : ∀ {o : Op}, (∀ db, o.Orderly db) → (∀ k s n, o ≠ .insertAttempt k s n) →
      (∀ S u, o = .updateSession S u → u.currentAttemptId = none) →
      (∀ k, o.activates k → k = j) → (op o).Emits fun o => ∀ (s : World) i,
        s.db.Launched j a S → s.db.Released →
          o.Orderly s.db ∧ (exec o i s).2.db.Launched j a S :=
    fun ho hins hno hact => emits_op (launched_keeps ho hins hno hact)
  refine Triple.tryCatch (M := fun _ => InPhase .dispatch (Db.Launched j a S))
    ((serving_keeps (Db.persists_launched j a S) (fun _ h => .settled h.settled) ?_).post
      (fun _ s hs => ⟨hs.1, hs.2.settled⟩) fun _ _ hs => hs) fun e => ?_
  · refine Prog.Emits.bind (Prog.Emits.bind ?_ fun _ => emits_ofExcept _) fun pid =>
      Prog.Emits.bind ?_ fun _ => Prog.Emits.bind ?_ fun _ => trivial
    · exact hkeep (fun _ => trivial) (by simp) (by simp) fun _ hk => hk.elim
    · refine hkeep (fun _ => ⟨by simp, by simp⟩) (by simp) ?_ fun _ hk => hk.elim
      rintro S u ⟨⟩
      rfl
    · exact hkeep (fun _ => trivial) (by simp) (by simp) fun _ hk => hk.elim
  · split_ifs
    · exact serving_failedStart e
    · exact Triple.raise (stable_inPhase (Db.persists_launched j a S)) fun s hs =>
        ⟨hs.1, hs.2.settled⟩

/-- `run_job` enters the attempt in the session before it starts the worker. -/
theorem serving_launch (job : Job) (repo : Repo) (model : String) :
    Triple exec servingContract
      (InPhase .dispatch fun db => db.Settled (some j) ∧ db.Opening j a S)
      (Runner.launch j job repo S model a) (fun _ => InPhase .dispatch (Db.Settled none))
      fun _ => InPhase .dispatch (Db.Settled none) := by
  have hP : Db.Persists fun db => db.Settled (some j) ∧ db.Opening j a S :=
    (Db.persists_settled (some j)).and (Db.persists_opening j a S)
  refine Triple.bind (serving_read (Q := fun _ db => db.Settled (some j) ∧ db.Opening j a S) rfl hP
    (fun _ => hP) (fun _ _ h => .opening h.1 h.2) fun s i hs => hs) fun prompt => ?_
  refine Triple.bind (serving_op (Q := fun _ => Db.Launched j a S) hP
    (fun _ => Db.persists_launched j a S) (fun _ _ h => .settled h.settled)
    fun s i hs hr => ?_) fun _ => ?_
  · obtain ⟨hset, hopen⟩ := hs
    have hord : (Op.updateSession S
        { state := some .busy, heartbeat := true, currentAttemptId := some a }).Orderly s.db := by
      refine ⟨?_, by simp⟩
      rintro b ⟨⟩
      exact ⟨rfl, hopen.idle, hopen.runsIn⟩
    exact ⟨hord, hopen.launched hset hr hord rfl⟩
  · exact Triple.bind (serving_running.post (fun _ _ hs => hs) fun _ s hs =>
      ⟨hs.1, hs.2.settled⟩) fun _ => serving_tryStart job repo model prompt

end Launched

theorem serving_runJob (j S : ℕ) (model : String) :
    Triple exec servingContract (InPhase .dispatch fun db => db.Ready j ∧ db.Idle S)
      (Runner.runJob j S model) (fun _ => InPhase .dispatch (Db.Settled none))
      fun _ => InPhase .dispatch (Db.Settled none) := by
  have hP : Db.Persists fun db => db.Ready j ∧ db.Idle S :=
    (persists_ready j).and (Db.persists_idle S)
  have hread : ∀ {o : Op}, o.isRead = true → Triple exec servingContract
      (InPhase .dispatch fun db => db.Ready j ∧ db.Idle S) (op o)
      (fun _ => InPhase .dispatch fun db => db.Ready j ∧ db.Idle S)
      fun _ => InPhase .dispatch (Db.Settled none) := fun ho =>
    serving_read (Q := fun _ db => db.Ready j ∧ db.Idle S) ho hP (fun _ => hP)
      (fun _ _ h => .settled h.1.1) fun _ _ hs => hs
  have hraise : ∀ e, Triple exec servingContract
      (InPhase .dispatch fun db => db.Ready j ∧ db.Idle S) (.raise e : Py ℕ)
      (fun _ => InPhase .dispatch (Db.Settled none))
      fun _ => InPhase .dispatch (Db.Settled none) := fun e =>
    Triple.raise (stable_inPhase hP) fun _ hs => ⟨hs.1, hs.2.1.1⟩
  refine triple_runJob_of hread hraise fun job repo => ?_
  refine Triple.bind (M := fun a => InPhase .dispatch fun db => db.Ready j ∧ db.Opening j a S)
    ?_ fun a => (serving_starting j a S).bind fun _ => serving_launch job repo model
  exact serving_createAttempt j S

theorem serving_dispatchOne (cfg : Settings) :
    Triple exec servingContract (InPhase .dispatch (Db.Settled none)) (Daemon.dispatchOne cfg)
      (fun _ => InPhase .dispatch (Db.Settled none)) fun _ _ => True := by
  have hret : Triple exec servingContract (InPhase .dispatch (Db.Settled none))
      (.ret true : Py Bool) (fun _ => InPhase .dispatch (Db.Settled none)) fun _ _ => True :=
    Triple.ret (stable_inPhase (Db.persists_settled none)) fun _ hs => hs
  refine (serving_nextJob cfg).bind fun q => ?_
  cases q with
  | none =>
    refine Triple.ret_of (stable_inPhase (Db.persists_settled none)) fun s hs => ?_
    exact ⟨hs.1, hs.2.1⟩
  | some job =>
    refine Triple.bind (M := fun S => InPhase .dispatch fun db => db.Ready job.id ∧ db.Idle S)
      ((serving_sessionFor job.id job.repoId).pre fun s hs => ⟨hs.1, hs.2.1, hs.2.2 job rfl⟩)
      fun S => ?_
    have hP : Db.Persists fun db => db.Ready job.id ∧ db.Idle S :=
      (persists_ready job.id).and (Db.persists_idle S)
    refine Triple.bind (serving_read (Q := fun _ db => db.Ready job.id ∧ db.Idle S) rfl hP
      (fun _ => hP) (fun _ _ h => .settled h.1.1) fun _ _ hs => hs) fun repo => ?_
    exact Triple.tryCatch ((serving_runJob job.id S _).bind fun _ => Triple.ret
      (stable_inPhase (Db.persists_settled none)) fun _ hs => hs) fun _ => hret

end Triples

end DiscordAgent
