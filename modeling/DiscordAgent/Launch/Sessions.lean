import DiscordAgent.Lifecycle.Numbering

/-!
# Sessions and their attempts

A session row names its current attempt. `run_job` enters the new attempt in an
idle session, `on_complete` releases the session by compare-and-set, and the
watchdog and the error path of `run_job` release it without a comparison.

* `exec_session`: what an operation does to one session row.
* `Op.Orderly`: the session that is taken is idle, and the attempt of a session
  that is released is finished.
* `Db.Released.exec`: the attempt that an idle session names is finished.
* `Db.Entered.exec`: an attempt that its session names keeps it until it is
  finished.
-/

namespace DiscordAgent

open Interleave Sql

variable {o : Op} {i : Inputs} {w : World} {a S : ℕ} {s s' : Session}

/-! ## Rows -/

namespace Db

/-- The attempt is finished. -/
def finished (db : Db) (a : ℕ) : Bool := (db.attempts.get? a).any fun r => r.finishedAt.isSome

/-- The attempt runs in session `S`. -/
def RunsIn (db : Db) (a S : ℕ) : Prop := ∃ r, db.attempts.get? a = some r ∧ r.sessionId = some S

/-- The session names the attempt as its current one. -/
def Names (db : Db) (S a : ℕ) : Prop :=
  ∃ s, db.sessions.get? S = some s ∧ s.currentAttemptId = some a

/-- The session is marked `idle`. -/
def Idle (db : Db) (S : ℕ) : Prop := ∃ s, db.sessions.get? S = some s ∧ s.state = .idle

/-- The session names no unfinished attempt. -/
def vacant (db : Db) (S : ℕ) : Bool :=
  (db.sessions.get? S).all fun s => s.currentAttemptId.all db.finished

/-- Idle sessions are vacant. -/
def Released (db : Db) : Prop := ∀ S, db.Idle S → db.vacant S = true

/-- The attempt is finished or its session names it. -/
def Entered (db : Db) (a : ℕ) : Prop := db.finished a = true ∨ ∃ S, db.RunsIn a S ∧ db.Names S a

variable {db : Db}

theorem vacant_iff : db.vacant S = true ↔ ∀ a, db.Names S a → db.finished a = true := by
  unfold vacant
  rw [Option.all_eq_true]
  constructor
  · rintro h a ⟨s, hs, ha⟩
    exact (Option.all_eq_true _ _).mp (h s hs) a ha
  · intro h s hs
    exact (Option.all_eq_true _ _).mpr fun a ha => h a ⟨s, hs, ha⟩

end Db

/-- What an operation does to an attempt row. -/
theorem exec_attempt (o : Op) (i : Inputs) {r : Attempt} (h : w.db.attempts.get? a = some r) :
    ∃ r', (exec o i w).2.db.attempts.get? a = some r' ∧ r'.sessionId = r.sessionId ∧
      (r.finishedAt.isSome = true → r'.finishedAt.isSome = true) := by
  by_cases hi : ∃ k s n, o = .insertAttempt k s n
  · obtain ⟨k, s, n, rfl⟩ := hi
    exact ⟨r, Table.get?_insert_of_some (h := fun _ => rfl) h, rfl, id⟩
  by_cases hf : ∃ b c e, o = .finishAttempt b c e
  · obtain ⟨b, c, e, rfl⟩ := hf
    have hrow := w.db.attempt_finishAttempt a b i.now c e
    rw [h] at hrow
    by_cases hab : a = b
    · rw [if_pos hab] at hrow
      exact ⟨_, hrow, rfl, fun _ => rfl⟩
    · rw [if_neg hab] at hrow
      exact ⟨r, hrow, rfl, id⟩
  push Not at hi hf
  refine ⟨r, ?_, rfl, id⟩
  rw [exec_sameAttempts i hi hf]
  exact h

/-- What an operation does to a session row. -/
theorem exec_session (o : Op) (i : Inputs) (h : w.db.sessions.get? S = some s) :
    ∃ s', (exec o i w).2.db.sessions.get? S = some s' ∧
      (s' = s ∨ (∃ u, o = .updateSession S u ∧ s' = u.apply i.now s) ∨
        ∃ a u, o = .casUpdateSession S a u ∧ s.currentAttemptId = some a ∧
          s' = u.apply i.now s) := by
  by_cases hc : ∃ R, o = .createSession R
  · obtain ⟨R, rfl⟩ := hc
    exact ⟨s, Table.get?_insert_of_some (h := fun _ => rfl) h, .inl rfl⟩
  by_cases hu : ∃ S' u, o = .updateSession S' u
  · obtain ⟨S', u, rfl⟩ := hu
    have hrow := w.db.session_updateSession S S' i.now u
    rw [h] at hrow
    by_cases hS : S = S'
    · subst hS
      rw [if_pos rfl] at hrow
      exact ⟨_, hrow, .inr (.inl ⟨u, rfl, rfl⟩)⟩
    · rw [if_neg hS] at hrow
      exact ⟨s, hrow, .inl rfl⟩
  by_cases hs : ∃ S' a u, o = .casUpdateSession S' a u
  · obtain ⟨S', a, u, rfl⟩ := hs
    have hrow := w.db.session_casUpdateSession S S' i.now a u
    rw [h, Option.map_some] at hrow
    refine ⟨_, hrow, ?_⟩
    split_ifs with hcond
    · obtain ⟨hid, hcur⟩ := (Bool.and_eq_true _ _).mp hcond
      have hS : S = S' := (Table.id_of_get? h).symm.trans (eq_of_beq hid)
      subst hS
      exact .inr (.inr ⟨a, u, rfl, eq_of_beq hcur, rfl⟩)
    · exact .inl rfl
  push Not at hc hu hs
  refine ⟨s, ?_, .inl rfl⟩
  rw [exec_sameSessions i hc hu hs]
  exact h

/-- A new session names no attempt. -/
theorem exec_newSession (hn : w.db.sessions.get? S = none)
    (h : (exec o i w).2.db.sessions.get? S = some s) : s.currentAttemptId = none := by
  by_cases hc : ∃ R, o = .createSession R
  · obtain ⟨R, rfl⟩ := hc
    have heq : (exec (.createSession R) i w).2.db.sessions.get? S =
        if S = w.db.sessions.seq + 1 then
          some ⟨w.db.sessions.seq + 1, R, none, .idle, none, i.now, some i.now⟩
        else w.db.sessions.get? S := Table.get?_insert (h := fun _ => rfl)
    rw [hn, h] at heq
    split_ifs at heq
    cases heq
    rfl
  by_cases hu : ∃ S' u, o = .updateSession S' u
  · obtain ⟨S', u, rfl⟩ := hu
    have hrow := w.db.session_updateSession S S' i.now u
    rw [hn, Option.map_none, ite_self] at hrow
    exact absurd (hrow.symm.trans h) (by simp)
  by_cases hs : ∃ S' a u, o = .casUpdateSession S' a u
  · obtain ⟨S', a, u, rfl⟩ := hs
    have hrow := w.db.session_casUpdateSession S S' i.now a u
    rw [hn, Option.map_none] at hrow
    exact absurd (hrow.symm.trans h) (by simp)
  push Not at hc hu hs
  rw [exec_sameSessions i hc hu hs, hn] at h
  cases h

/-! ## Orderly operations -/

/-- `run_job` takes an idle session, and the attempt of a session that is
    released is finished. -/
def Op.Orderly (db : Db) : Op → Prop
  | updateSession S u =>
    (∀ a ∈ u.currentAttemptId, u.state = some .busy ∧ db.Idle S ∧ db.RunsIn a S) ∧
      (u.state = some .idle → db.vacant S = true)
  | casUpdateSession _ a u =>
    u.currentAttemptId = none ∧ u.state = some .idle ∧ db.finished a = true
  | _ => True

namespace Db

theorem finished_exec (o : Op) (i : Inputs) (h : w.db.finished a = true) :
    (exec o i w).2.db.finished a = true := by
  obtain ⟨r, hr, hfin⟩ := (Option.any_eq_true _ _).mp h
  obtain ⟨r', hr', -, hkeep⟩ := exec_attempt o i hr
  exact (Option.any_eq_true _ _).mpr ⟨r', hr', hkeep hfin⟩

theorem RunsIn.exec (h : w.db.RunsIn a S) (o : Op) (i : Inputs) :
    (DiscordAgent.exec o i w).2.db.RunsIn a S := by
  obtain ⟨r, hr, hS⟩ := h
  obtain ⟨r', hr', hsession, -⟩ := exec_attempt o i hr
  exact ⟨r', hr', hsession.trans hS⟩

/-- A session names an attempt until `run_job` enters another one. -/
theorem Names.exec (h : w.db.Names S a) (ho : o.Orderly w.db)
    (hno : ∀ u, o = .updateSession S u → u.currentAttemptId = none) :
    (DiscordAgent.exec o i w).2.db.Names S a := by
  obtain ⟨s, hs, ha⟩ := h
  obtain ⟨s', hs', hstep⟩ := exec_session o i hs
  refine ⟨s', hs', ?_⟩
  rcases hstep with rfl | ⟨u, rfl, rfl⟩ | ⟨b, u, rfl, -, rfl⟩
  · exact ha
  · simp only [SessionPatch.apply, hno u rfl, Option.none_or, ha]
  · simp only [SessionPatch.apply, ho.1, Option.none_or, ha]

/-- Only an update marks a session as something else. -/
theorem Idle.exec (h : w.db.Idle S) (ho : o.Orderly w.db) (hno : ∀ u, o ≠ .updateSession S u) :
    (DiscordAgent.exec o i w).2.db.Idle S := by
  obtain ⟨s, hs, hidle⟩ := h
  obtain ⟨s', hs', hstep⟩ := exec_session o i hs
  refine ⟨s', hs', ?_⟩
  rcases hstep with rfl | ⟨u, rfl, rfl⟩ | ⟨b, u, rfl, -, rfl⟩
  · exact hidle
  · exact absurd rfl (hno u)
  · simp only [SessionPatch.apply, ho.2.1, Option.getD_some]

/-- The step lemma for idle sessions. -/
theorem Released.exec (h : w.db.Released) (ho : o.Orderly w.db) :
    (DiscordAgent.exec o i w).2.db.Released := by
  rintro S ⟨s', hs', hidle⟩
  refine vacant_iff.mpr ?_
  rintro a ⟨t, ht, ha⟩
  rw [hs'] at ht
  cases ht
  apply finished_exec
  cases hs : w.db.sessions.get? S with
  | none =>
    rw [exec_newSession hs hs'] at ha
    cases ha
  | some s =>
    obtain ⟨t, ht, hstep⟩ := exec_session o i hs
    rw [hs'] at ht
    cases ht
    rcases hstep with rfl | ⟨u, rfl, rfl⟩ | ⟨b, u, rfl, hcur, rfl⟩
    · exact vacant_iff.mp (h S ⟨_, hs, hidle⟩) a ⟨_, hs, ha⟩
    · obtain ⟨htake, hrelease⟩ := ho
      simp only [SessionPatch.apply] at hidle ha
      cases hu : u.currentAttemptId with
      | some b =>
        rw [(htake b hu).1] at hidle
        cases hidle
      | none =>
        rw [hu, Option.none_or] at ha
        refine vacant_iff.mp ?_ a ⟨s, hs, ha⟩
        cases hstate : u.state with
        | none =>
          rw [hstate, Option.getD_none] at hidle
          exact h S ⟨s, hs, hidle⟩
        | some state =>
          rw [hstate, Option.getD_some] at hidle
          rw [hidle] at hstate
          exact hrelease hstate
    · obtain ⟨hnone, -, hfin⟩ := ho
      simp only [SessionPatch.apply, hnone, Option.none_or, hcur] at ha
      cases ha
      exact hfin

/-- The step lemma for entered attempts: the session is taken over only when it
    is idle. -/
theorem Entered.exec (h : w.db.Entered a) (hr : w.db.Released) (ho : o.Orderly w.db) :
    (DiscordAgent.exec o i w).2.db.Entered a := by
  rcases h with hfin | ⟨S, hruns, hnames⟩
  · exact .inl (finished_exec o i hfin)
  by_cases htaken : ∃ u b, o = .updateSession S u ∧ u.currentAttemptId = some b
  · obtain ⟨u, b, rfl, hb⟩ := htaken
    have hidle := (ho.1 b hb).2.1
    exact .inl (finished_exec _ i (vacant_iff.mp (hr S hidle) a hnames))
  · refine .inr ⟨S, hruns.exec o i, hnames.exec ho ?_⟩
    rintro u rfl
    cases hu : u.currentAttemptId with
    | none => rfl
    | some b => exact absurd ⟨u, b, rfl, hu⟩ htaken

/-- `run_job` enters its attempt. -/
theorem names_update {u : SessionPatch} (ho : (Op.updateSession S u).Orderly w.db)
    (hu : u.currentAttemptId = some a) :
    (DiscordAgent.exec (.updateSession S u) i w).2.db.Names S a := by
  obtain ⟨s, hs, -⟩ := (ho.1 a hu).2.1
  have hrow := w.db.session_updateSession S S i.now u
  rw [hs, if_pos rfl] at hrow
  exact ⟨_, hrow, by simp only [SessionPatch.apply, hu, Option.some_or]⟩

theorem entered_update {u : SessionPatch} (ho : (Op.updateSession S u).Orderly w.db)
    (hu : u.currentAttemptId = some a) :
    (DiscordAgent.exec (.updateSession S u) i w).2.db.Entered a :=
  .inr ⟨S, (ho.1 a hu).2.2.exec _ i, names_update ho hu⟩

end Db

end DiscordAgent
