import DiscordAgent.System.Contract

/-!
# The numbers of the attempts

`create_attempt` reads the largest `attempt_num` of the job and inserts the next
one in a second statement. Only the daemon creates attempts, so the last row of
`get_attempts`, which is ordered by `attempt_num`, is the newest attempt.

* `Db.Numbered`: among the attempts of a run, a later one has a larger number.
* `World.Known`: a callback belongs to an attempt of its job that was created in
  this run.
* `numberProof`: both hold along every run.
* `Db.Numbered.newest`: the last row of `get_attempts` is the newest attempt.
-/

namespace DiscordAgent

open Interleave Sql

variable {o : Op} {i : Inputs} {w s t : World} {j k base : ℕ}

namespace Db

variable {db : Db} {a b : Attempt} {id : ℕ}

/-- Among the attempts of a job, one with an id above `base` has a larger number
    than all earlier ones. -/
structure Numbered (base : ℕ) (db : Db) : Prop where
  seq : base ≤ db.attempts.seq
  later : ∀ a ∈ db.attempts.rows, ∀ b ∈ db.attempts.rows, base < b.id → a.jobId = b.jobId →
    a.id < b.id → a.attemptNum < b.attemptNum

theorem mem_getAttempts : a ∈ db.getAttempts j ↔ a ∈ db.attempts.rows ∧ a.jobId = j := by
  simp [getAttempts, Table.select]

theorem mem_attemptIds :
    id ∈ db.attemptIds j ↔ ∃ a ∈ db.attempts.rows, a.jobId = j ∧ a.id = id := by
  simp [attemptIds, mem_getAttempts, and_assoc]

theorem le_maxAttemptNum (ha : a ∈ db.attempts.rows) : a.attemptNum ≤ db.maxAttemptNum a.jobId := by
  have hmem : a ∈ db.attempts.select fun b => b.jobId == a.jobId := by
    simp [Table.select, ha]
  unfold maxAttemptNum
  generalize (db.attempts.select fun b => b.jobId == a.jobId) = rows at hmem
  induction rows with
  | nil => cases hmem
  | cons b rows ih =>
    simp only [List.map_cons, List.foldr_cons]
    rcases List.mem_cons.mp hmem with rfl | hmem
    · exact le_max_left _ _
    · exact (ih hmem).trans (le_max_right _ _)

theorem numbered_self (db : Db) : Numbered db.attempts.seq db where
  seq := le_refl _
  later _ _ b hb h := absurd h (Nat.not_lt.mpr (db.attempts.bounded b hb))

theorem Numbered.insertAttempt (h : Numbered base db) (sessionId : Option ℕ) (now : ℚ) :
    Numbered base (db.insertAttempt j sessionId (db.maxAttemptNum j + 1) now).2 where
  seq := h.seq.trans (Nat.le_succ _)
  later a ha b hb hbase hj hlt := by
    rcases Table.mem_insert.mp ha with ha | rfl
    · rcases Table.mem_insert.mp hb with hb | rfl
      · exact h.later a ha b hb hbase hj hlt
      · have := le_maxAttemptNum ha
        rw [hj] at this
        exact Nat.lt_succ_of_le this
    · -- no id is larger than the new one
      have hb := (db.insertAttempt j sessionId _ now).2.attempts.bounded b hb
      exact absurd hlt (Nat.not_lt.mpr hb)

theorem Numbered.finishAttempt (h : Numbered base db) (id : ℕ) (code : Option ℤ)
    (error : Option String) (now : ℚ) : Numbered base (db.finishAttempt id code error now) where
  seq := h.seq
  later a ha b hb := by
    obtain ⟨a', ha', rfl⟩ := List.mem_map.mp ha
    obtain ⟨b', hb', rfl⟩ := List.mem_map.mp hb
    have := h.later a' ha' b' hb'
    split_ifs <;> exact this

theorem maxAttemptNum_finishAttempt (db : Db) (id : ℕ) (code : Option ℤ) (error : Option String)
    (now : ℚ) (j : ℕ) :
    (db.finishAttempt id code error now).maxAttemptNum j = db.maxAttemptNum j := by
  simp only [maxAttemptNum, Db.finishAttempt, Table.update, Table.updateWhere, Table.select,
    List.filter_map, List.map_map]
  congr 2
  · funext a
    simp only [Function.comp]
    split_ifs <;> rfl
  · congr 1
    funext a
    simp only [Function.comp]
    split_ifs <;> rfl

/-- The last row of `get_attempts` is the newest attempt. -/
theorem Numbered.newest (h : Numbered base db) (ha : (db.getAttempts j).getLast? = some a)
    (hbase : base < a.id) (hb : b ∈ db.getAttempts j) : b.id ≤ a.id := by
  obtain ⟨har, haj⟩ := mem_getAttempts.mp (List.mem_of_getLast? ha)
  obtain ⟨hbr, hbj⟩ := mem_getAttempts.mp hb
  by_contra hlt
  have hnum := h.later a har b hbr (by omega) (haj.trans hbj.symm) (by omega)
  have hle := le_of_getLast?_orderBy ha (List.mem_filter.mpr ⟨hbr, by simpa using hbj⟩)
  omega

end Db

/-! ## Operations -/

/-- The numbers are changed by `create_attempt` only. -/
theorem exec_maxAttemptNum (i : Inputs) (h : ∀ k s n, o ≠ .insertAttempt k s n) (j : ℕ) :
    (exec o i w).2.db.maxAttemptNum j = w.db.maxAttemptNum j := by
  by_cases hf : ∃ a c e, o = .finishAttempt a c e
  · obtain ⟨a, c, e, rfl⟩ := hf
    exact Db.maxAttemptNum_finishAttempt _ _ _ _ _ _
  · push Not at hf
    simp only [Db.maxAttemptNum]
    rw [exec_sameAttempts i h hf]

theorem Db.Numbered.exec (h : w.db.Numbered base)
    (ho : ∀ k s n, o = .insertAttempt k s n → n = w.db.maxAttemptNum k + 1) :
    (DiscordAgent.exec o i w).2.db.Numbered base := by
  by_cases hi : ∃ k s n, o = .insertAttempt k s n
  · obtain ⟨k, s, n, rfl⟩ := hi
    obtain rfl := ho k s n rfl
    exact h.insertAttempt s i.now
  by_cases hf : ∃ a c e, o = .finishAttempt a c e
  · obtain ⟨a, c, e, rfl⟩ := hf
    exact h.finishAttempt a c e i.now
  push Not at hi hf
  have hrows : (DiscordAgent.exec o i w).2.db.attempts = w.db.attempts := exec_sameAttempts i hi hf
  constructor
  · rw [hrows]
    exact h.seq
  · rw [hrows]
    exact h.later

theorem mem_attemptIds_insert (k : ℕ) (sessionId : Option ℕ) (n : ℕ) :
    w.db.attempts.seq + 1 ∈ (exec (.insertAttempt k sessionId n) i w).2.db.attemptIds k :=
  Db.mem_attemptIds.2 ⟨_, Table.mem_insert.mpr (.inr rfl), rfl, rfl⟩

/-- An attempt stays in its job. -/
theorem mem_attemptIds_exec {a : ℕ} (o : Op) (i : Inputs) (h : a ∈ w.db.attemptIds j) :
    a ∈ (exec o i w).2.db.attemptIds j := by
  by_cases hi : ∃ s n, o = .insertAttempt j s n
  · obtain ⟨s, n, rfl⟩ := hi
    obtain ⟨r, hr, hj, hid⟩ := Db.mem_attemptIds.1 h
    exact Db.mem_attemptIds.2 ⟨r, Table.mem_insert.mpr (.inl hr), hj, hid⟩
  · push Not at hi
    rw [exec_attemptIds i hi]
    exact h

/-- The callback belongs to an attempt of its job with an id above `base`. -/
def World.Known (base : ℕ) (cb : Callback) (w : World) : Prop :=
  base < cb.attemptId ∧ cb.attemptId ∈ w.db.attemptIds cb.jobId

theorem World.Known.exec {cb : Callback} (h : w.Known base cb) (o : Op) (i : Inputs) :
    (DiscordAgent.exec o i w).2.Known base cb := ⟨h.1, mem_attemptIds_exec o i h.2⟩

/-! ## The contract -/

/-- What the daemon guarantees: the next number for a new attempt, and a worker
    for a known attempt only. -/
structure Numbers (base : ℕ) (o : Op) (s : World) : Prop where
  insert : ∀ k sessionId n, o = .insertAttempt k sessionId n → n = s.db.maxAttemptNum k + 1
  popen : ∀ argv cwd env cb, o = .popen argv cwd env cb → s.Known base cb

/-- The others create no attempts. -/
def numberContract (base : ℕ) : Contract Op World where
  rely s t := ∀ j, t.db.maxAttemptNum j = s.db.maxAttemptNum j ∧
    t.db.attemptIds j = s.db.attemptIds j
  refl _ _ := ⟨rfl, rfl⟩
  trans h h' j := ⟨(h' j).1.trans (h j).1, (h' j).2.trans (h j).2⟩
  assume _ s := base ≤ s.db.attempts.seq
  guar o s _ := Numbers base o s

section Triples

variable {E : PyErr → World → Prop}

/-- An operation that neither creates an attempt nor starts a worker. -/
def Op.numberQuiet (o : Op) : Prop :=
  (∀ k s n, o ≠ .insertAttempt k s n) ∧ ∀ argv cwd env cb, o ≠ .popen argv cwd env cb

theorem Op.numberQuiet_of_isRead (h : o.isRead = true) : o.numberQuiet := by
  constructor
  · rintro k s n rfl
    cases h
  · rintro argv cwd env cb rfl
    cases h

theorem Op.numberQuiet.numbers (ho : o.numberQuiet) (s : World) : Numbers base o s := by
  constructor
  · intro k sessionId n h
    exact absurd h (ho.1 k sessionId n)
  · intro argv cwd env cb h
    exact absurd h (ho.2 argv cwd env cb)

theorem number_of_emits {α : Type} {p : Py α} (hp : p.Emits Op.numberQuiet) :
    Triple exec (numberContract base) (fun _ => True) p (fun _ _ => True) fun _ _ => True := by
  apply Triple.of_emits (Contract.stable_const _)
  apply hp.mono
  intro o ho s i _ _
  exact ⟨ho.numbers s, trivial⟩

/-- Attempts stay in their job. -/
theorem stable_created (a j : ℕ) :
    (numberContract base).Stable fun w => base < a ∧ a ∈ w.db.attemptIds j := by
  intro s t hst hs
  rw [(hst j).2]
  exact hs

/-- `create_attempt` numbers the attempt and returns an attempt of the job. -/
theorem number_createAttempt (j : ℕ) (sessionId : Option ℕ) :
    Triple exec (numberContract base) (fun _ => True) (createAttempt j sessionId)
      (fun a w => base < a ∧ a ∈ w.db.attemptIds j) E := by
  have hnum : ∀ num, (numberContract base).Stable fun w => w.db.maxAttemptNum j = num := by
    intro num s t hst hs
    exact (hst j).1.trans hs
  refine Triple.bind (M := fun num w => w.db.maxAttemptNum j = num) ?_ fun num => ?_
  · apply Triple.op (Contract.stable_const _) hnum
    intro s i _ _
    exact ⟨(Op.numberQuiet_of_isRead rfl).numbers s, rfl⟩
  · refine Triple.op (hnum num) (fun a : ℕ => stable_created a j) ?_
    intro s i hs ha
    refine ⟨⟨?_, by simp⟩, Nat.lt_succ_of_le ha, mem_attemptIds_insert j sessionId _⟩
    rintro k sessionId n ⟨⟩
    rw [hs]

/-- `run_job` starts a worker for the attempt that it created. -/
theorem number_runJob (j sessionId : ℕ) (model : String) :
    Triple exec (numberContract base) (fun _ => True) (Runner.runJob j sessionId model)
      (fun _ _ => True) fun _ _ => True := by
  have hread : ∀ {o : Op}, o.isRead = true → Triple exec (numberContract base) (fun _ => True)
      (op o) (fun _ _ => True) fun _ _ => True := by
    intro o h
    exact number_of_emits (Prog.emits_perform (Op.numberQuiet_of_isRead h))
  refine triple_runJob_of hread (fun _ => Triple.raise (Contract.stable_const _) fun _ _ => trivial)
    fun job repo => ?_
  refine (number_createAttempt j _).bind fun a => ?_
  have hquiet : ∀ {o : Op}, o.numberQuiet → (numberContract base).Keeps exec
      (fun w => base < a ∧ a ∈ w.db.attemptIds j) o := by
    intro o ho s i hs _
    exact ⟨ho.numbers s, hs.1, mem_attemptIds_exec _ i hs.2⟩
  refine (Triple.of_emits (stable_created a j) (Prog.Emits.bind ?_ fun _ =>
    emits_launch ?_ ?_ ?_ ?_ ?_ ?_ _ _ _)).post (fun _ _ _ => trivial) fun _ _ _ => trivial
  · exact emits_transitionJob (fun _ ho => hquiet (Op.numberQuiet_of_isRead ho)) fun _ _ =>
      hquiet ⟨by simp, by simp⟩
  · exact fun o ho => hquiet (Op.numberQuiet_of_isRead ho)
  · exact fun _ _ => hquiet ⟨by simp, by simp⟩
  · rintro argv cwd env ⟨_, _, _, _⟩ rfl rfl - s i hs _
    refine ⟨⟨by simp, ?_⟩, hs.1, mem_attemptIds_exec _ i hs.2⟩
    rintro _ _ _ _ ⟨⟩
    exact hs
  · exact fun _ => hquiet ⟨by simp, by simp⟩
  · exact fun _ _ _ => hquiet ⟨by simp, by simp⟩
  · exact fun _ _ _ _ => hquiet ⟨by simp, by simp⟩

theorem number_dispatchOne (cfg : Settings) :
    Triple exec (numberContract base) (fun _ => True) (Daemon.dispatchOne cfg) (fun _ _ => True)
      fun _ _ => True := by
  have hret : ∀ b, Triple exec (numberContract base) (fun _ => True) (.ret b : Py Bool)
      (fun _ _ => True) fun _ _ => True := by
    intro b
    exact Triple.skip (Contract.stable_const _) b
  have hread : ∀ o : Op, o.isRead = true → o.numberQuiet := fun _ => Op.numberQuiet_of_isRead
  refine (number_of_emits (emits_nextJob hread cfg)).bind fun job => ?_
  cases job with
  | none => exact hret false
  | some job =>
    refine (number_of_emits ?_).bind fun sessionId =>
      (number_of_emits (emits_read hread rfl)).bind fun repo =>
        ((number_runJob _ _ _).bind fun _ => hret true).tryCatch fun _ => hret true
    refine (emits_read hread rfl).bind fun sessions => ?_
    split
    · exact emits_op ⟨by simp, by simp⟩
    · trivial

end Triples

/-- Attempts are numbered in the order of their ids, and workers run known ones. -/
def NumberInv (base : ℕ) (w : World) : Prop :=
  w.db.Numbered base ∧ ∀ k ∈ w.workers, w.Known base k.callback

theorem NumberInv.exec (h : NumberInv base w) (hg : Numbers base o w) :
    NumberInv base (DiscordAgent.exec o i w).2 := by
  refine ⟨h.1.exec hg.insert, ?_⟩
  intro k hk
  rcases mem_workers_exec hk with hk | ⟨argv, cwd, env, ho⟩
  · exact (h.2 k hk).exec _ _
  · exact (hg.popen argv cwd env k.callback ho).exec _ _

theorem Sys.numberQuiet_of_other {c : Sys} {u : Tid} (hu : u ≠ .daemon) (h : c.performs u o) :
    o.numberQuiet := by
  constructor
  · rintro k s n rfl
    exact hu (home_of_performs h rfl).1
  · rintro argv cwd env cb rfl
    exact hu (home_of_performs h rfl).1

theorem numberQuiet_of_phase {p : Phase} (hp : p ≠ .dispatch) (h : p.performs o) :
    o.numberQuiet := by
  constructor
  · rintro k s n rfl
    exact hp (h.home rfl)
  · rintro argv cwd env cb rfl
    exact hp (h.home rfl)

/-- The contract holds along every run. -/
def numberProof (cfg : Settings) (base : ℕ) (ok : Sys → Event → Prop) : DaemonProof cfg ok where
  K := numberContract base
  inv := NumberInv base
  post _ _ := True
  other {c t i o} hc hi ht _ hn := by
    have hq := Sys.numberQuiet_of_other ht (hc.next? hn)
    exact ⟨hi.exec (hq.numbers _), fun j => ⟨exec_maxAttemptNum i hq.1 j,
      exec_attemptIds i fun s n => hq.1 j s n⟩⟩
  assume _ hi _ _ := hi.1.seq
  own hi _ hg := hi.exec hg
  enter {c p} _ hi _ := by
    refine ⟨hi, ?_⟩
    by_cases hp : p = .dispatch
    · subst hp
      exact ((number_dispatchOne cfg).bind fun _ =>
        Triple.skip (Contract.stable_const _) _) _ trivial
    · exact number_of_emits ((emits_phaseProg cfg p).mono fun o => numberQuiet_of_phase hp) _
        trivial
  reap hi := ⟨⟨hi.1, fun k hk => hi.2 k (List.mem_filter.mp hk).1⟩, fun _ => ⟨rfl, rfl⟩⟩
  reboot _ hi _ := ⟨⟨hi.1, fun _ hk => by cases hk⟩, fun _ _ => trivial⟩

end DiscordAgent
