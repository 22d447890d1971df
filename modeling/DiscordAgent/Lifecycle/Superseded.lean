import DiscordAgent.Lifecycle.Numbering

/-!
# Superseded attempts

`on_complete` compares its attempt with the latest one of the job in its first
statement and writes the state of the job in its last. Between the two the
daemon can time the attempt out, put the job back and start a new attempt.

Results:
* `Sys.latest_decides`: along every run in which no attempt is created while the
  latest one is between the two statements, a reader thread of an attempt that
  is not the newest one of the job leaves the job alone.
* `Sys.superseded_decides`: without the condition it decides the job.
-/

namespace DiscordAgent

open Interleave Orchestrator

variable {o : Op} {i : Inputs} {w : World} {j k base : ℕ}

/-! ## The operations of `on_complete` -/

/-- The job whose state the operation can write. -/
def Op.target : Op → Option ℕ
  | updateJobState j .. | onSuccess _ j _ | onRateLimit _ _ j => some j
  | _ => none

/-- What `on_complete` performs between its check and its write. -/
def Op.inWindow : Op → Bool
  | finishAttempt .. | casUpdateSession .. | popProcess _ | getJob _ | onSuccess ..
  | onRateLimit .. | updateJobState .. => true
  | _ => false

/-- The same, for a callback of job `j`. -/
def Op.window (j : ℕ) (o : Op) : Prop := o.inWindow = true ∧ ∀ k, o.target = some k → k = j

theorem Op.target_of_isRead (h : o.isRead = true) : o.target = none := by
  cases o <;> first | rfl | cases h

/-- A reader thread changes the row that it targets. -/
theorem row_of_reader (h : o.ofReader) (ht : o.target ≠ some j) {r : Job}
    (hr : w.db.getJob j = some r) : (exec o i w).2.db.getJob j = some r := by
  obtain ⟨r', hr', hs⟩ := exec_job o i hr
  have hid := Db.getJob_id hr
  cases hs with
  | keep => exact hr'
  | transition | rateLimit | succeed => exact absurd (congrArg some hid) ht
  | _ => simp [Op.ofReader, Op.isRead, Op.isTransition] at h

theorem Op.window_of_target (hw : o.inWindow = true) (ht : o.target = none) : o.window j := by
  refine ⟨hw, ?_⟩
  intro k hk
  rw [ht] at hk
  cases hk

theorem Op.window_self (hw : o.inWindow = true) (ht : o.target = some j) : o.window j := by
  refine ⟨hw, ?_⟩
  intro k hk
  rw [ht] at hk
  cases hk
  rfl

theorem window_transitionJob (j : ℕ) (new : JobState) (result : Option String) :
    (transitionJob j new result).Emits (Op.window j) := by
  refine (emits_op (Op.window_of_target rfl rfl)).bind fun r => ?_
  cases r with
  | none => trivial
  | some job =>
    simp only []
    split_ifs
    · exact emits_op (Op.window_self rfl rfl)
    · trivial

/-- `on_complete` reads the attempts. If it is not the latest it decides nothing,
    otherwise it is in its window until its write. -/
theorem onComplete_cases (cfg : Settings) (cb : Callback) (exitCode : ℤ) (result : Option String)
    (isRateLimited : Bool) :
    ∃ k, Runner.onComplete cfg cb exitCode result isRateLimited = .call (.getAttempts cb.jobId) k ∧
      ∀ attempts : List Attempt,
        (k attempts).Emits (fun o => o.target = none) ∨
          (attempts.getLast?.any (·.id ≠ cb.attemptId) = false ∧
            (k attempts).EmitsUntil (Op.window cb.jobId) fun o => o.target = none) := by
  have hread : ∀ o : Op, o.isRead = true → o.target = none := fun _ => Op.target_of_isRead
  have hw : ∀ {o : Op} {f : o.Res → Py Unit}, o.window cb.jobId →
      (∀ r, (f r).EmitsUntil (Op.window cb.jobId) fun o => o.target = none) →
      ((op o).bind f).EmitsUntil (Op.window cb.jobId) fun o => o.target = none := by
    intro o f ho hf
    exact (emits_op ho).bind_emitsUntil hf
  refine ⟨_, rfl, ?_⟩
  intro attempts
  simp only [Prog.ret_bind]
  by_cases hlast : attempts.getLast?.any (·.id ≠ cb.attemptId) = true
  · rw [if_pos hlast]
    exact .inl (emits_op rfl)
  · rw [if_neg hlast]
    refine .inr ⟨by simpa using hlast, ?_⟩
    refine hw (Op.window_of_target rfl rfl) fun _ => hw (Op.window_of_target rfl rfl) fun _ =>
      hw (Op.window_of_target rfl rfl) fun _ => hw (Op.window_of_target rfl rfl) fun job => ?_
    cases job with
    | none => trivial
    | some job =>
      simp only []
      split_ifs
      · trivial
      · refine hw (Op.window_self rfl rfl) fun info => Prog.Emits.emitsUntil ?_
        cases info with
        | none => trivial
        | some info =>
          simp only []
          split
          · trivial
          · exact emits_dispatchChainNext hread (fun _ => rfl) _ _ _ _
      · refine Prog.Emits.emitsUntil_left (Prog.Emits.bind ?_ fun _ => trivial)
        exact (emits_op (Op.window_self rfl rfl)).bind fun _ => emits_ofExcept _
      · exact (emits_ignoreValueError (window_transitionJob _ _ _)).emitsUntil_left
      · exact (window_transitionJob _ _ _).emitsUntil_left

/-! ## Runs -/

namespace Sys

variable {cfg : Settings} {c c' : Sys} {e : Event} {a : ℕ}

/-- A new attempt of a job is not created while the reader thread of the latest
    one is between its check and its write. -/
def handedOver (c : Sys) : Event → Bool
  | .run .daemon _ =>
    match c.next? .daemon with
    | some (.insertAttempt j _ _) =>
      (c.shared.db.attemptIds j).getLast?.all fun a => !(c.next? (.reader a)).any Op.inWindow
    | _ => true
  | _ => true

/-- Where the reader thread of attempt `a` is: it has nothing to decide, or it
    is about to check that it is the latest attempt, or it is the latest. -/
inductive Reader (cfg : Settings) (base : ℕ) (c : Sys) (a : ℕ) : Prop
  | quiet (hp : (c.prog (.reader a)).Emits fun o => o.target = none)
  | starting (cb : Callback) (exitCode : ℤ) (result : Option String) (isRateLimited : Bool)
      (ha : cb.attemptId = a) (hk : c.shared.Known base cb)
      (hp : c.prog (.reader a) = Runner.onComplete cfg cb exitCode result isRateLimited)
  | latest (j : ℕ) (hbase : base < a) (hl : (c.shared.db.attemptIds j).getLast? = some a)
      (hp : (c.prog (.reader a)).EmitsUntil (Op.window j) fun o => o.target = none)

/-- A step of another thread. -/
theorem Reader.other (h : Reader cfg base c a) (hp : c'.prog (.reader a) = c.prog (.reader a))
    (hk : ∀ cb, c.shared.Known base cb → c'.shared.Known base cb)
    (hl : ∀ j, (c.shared.db.attemptIds j).getLast? = some a →
      (c'.shared.db.attemptIds j).getLast? = some a ∨
        (c.next? (.reader a)).any Op.inWindow = false) :
    Reader cfg base c' a := by
  cases h with
  | quiet h =>
    apply Reader.quiet
    rw [hp]
    exact h
  | starting cb code result rl ha hknown h =>
    exact .starting cb code result rl ha (hk cb hknown) (hp.trans h)
  | latest j hbase hlast h =>
    rcases hl j hlast with hlast | hwin
    · apply Reader.latest j hbase hlast
      rw [hp]
      exact h
    · -- the next operation is not in the window, so the write is behind it
      apply Reader.quiet
      rw [hp]
      rw [Pool.next?] at hwin
      cases hprog : c.prog (.reader a) with
      | ret => trivial
      | raise => trivial
      | call o k =>
        rw [hprog] at h hwin
        rcases h with ⟨h, -⟩ | h
        · simp [h.1] at hwin
        · exact h

/-- An own step. -/
theorem Reader.self (hs : Reader cfg base c a) (hf : c.Footprint)
    (h : step cfg c (.run (.reader a) i) = some c') : Reader cfg base c' a := by
  obtain ⟨o, k, hprog, hn, hshared, hk, -⟩ := Pool.step_cases h
  cases hs with
  | quiet hp =>
    rw [hprog] at hp
    apply Reader.quiet
    rw [hk]
    exact hp.2 _
  | starting cb code result rl ha hknown hp =>
    obtain ⟨k', hcall, hcases⟩ := onComplete_cases cfg cb code result rl
    rw [hp, hcall] at hprog
    cases hprog
    have hdb : c'.shared = c.shared := hshared
    rcases hcases (c.shared.db.getAttempts cb.jobId) with hq | ⟨hlast, hwin⟩
    · apply Reader.quiet
      rw [hk]
      exact hq
    · refine .latest cb.jobId (ha ▸ hknown.1) ?_ (by rw [hk]; exact hwin)
      -- the attempt is one of the job, so the list is not empty
      rw [hdb, Db.attemptIds, List.getLast?_map]
      cases hl : (c.shared.db.getAttempts cb.jobId).getLast? with
      | none =>
        have hmem := hknown.2
        rw [Db.attemptIds, List.getLast?_eq_none_iff.mp hl] at hmem
        cases hmem
      | some b =>
        rw [hl] at hlast
        simpa [ha] using hlast
  | latest j hbase hlast hp =>
    rw [hprog] at hp
    rcases hp with ⟨-, hp⟩ | hp
    · refine .latest j hbase ?_ (by rw [hk]; exact hp _)
      have hins := (numberQuiet_of_other (by simp) (hf.next? hn)).1
      rw [hshared, exec_attemptIds i fun s n => hins j s n]
      exact hlast
    · apply Reader.quiet
      rw [hk]
      exact hp.2 _

theorem Reader.step (hs : Reader cfg base c a) (hf : c.Footprint)
    (hworkers : ∀ w ∈ c.shared.workers, c.shared.Known base w.callback)
    (hok : c.handedOver e = true) (h : Sys.step cfg c e = some c') : Reader cfg base c' a := by
  have hsame : c'.shared.db = c.shared.db → c'.prog (.reader a) = c.prog (.reader a) →
      Reader cfg base c' a := by
    intro hdb hp
    apply hs.other hp
    · intro cb hk
      rw [World.Known, hdb]
      exact hk
    · intro j hl
      rw [hdb]
      exact .inl hl
  cases e with
  | run t i =>
    obtain ⟨o, k, -, hn, hshared, -, hother⟩ := Pool.step_cases h
    by_cases ht : t = .reader a
    · subst ht
      exact hs.self hf h
    apply hs.other (hother _ (Ne.symm ht))
    · intro cb hk
      rw [hshared]
      exact hk.exec o i
    · intro j hl
      by_cases hins : ∃ s n, o = .insertAttempt j s n
      · obtain ⟨s, n, rfl⟩ := hins
        by_cases hd : t = .daemon
        · subst hd
          right
          simpa [handedOver, hn, hl] using hok
        · exact absurd rfl ((numberQuiet_of_other hd (hf.next? hn)).1 j s n)
      · push Not at hins
        rw [hshared, exec_attemptIds i hins]
        exact .inl hl
  | next =>
    obtain ⟨p, -, -, rfl⟩ := step_next h
    exact hsame rfl (Pool.load_prog_of_ne _ _ (by simp))
  | exit b code result rl =>
    obtain ⟨w, hw, hb, rfl⟩ := step_exit h
    by_cases hab : a = b
    · subst hab
      exact .starting w.callback code result rl hb (hworkers w hw) (Pool.load_prog_self _ _ _)
    · exact hsame rfl (Pool.load_prog_of_ne _ _ (by simpa using hab))
  | invoke n cmd =>
    cases h
    exact hsame rfl (Pool.load_prog_of_ne _ _ (by simp))
  | restart environ =>
    cases h
    exact .quiet trivial

/-- A reader thread that changes a job is the one of its latest attempt. -/
theorem Reader.latest_of_change (hs : Reader cfg base c a) (hf : c.Footprint)
    (h : Sys.step cfg c (.run (.reader a) i) = some c') {r : Job}
    (hr : c.shared.db.getJob j = some r) (hne : c'.shared.db.getJob j ≠ some r) :
    base < a ∧ (c.shared.db.attemptIds j).getLast? = some a := by
  obtain ⟨o, k, hprog, hn, hshared, -, -⟩ := Pool.step_cases h
  have ht : o.target = some j := by
    by_contra ht
    rw [hshared] at hne
    exact hne (row_of_reader (hf.next? hn) ht hr)
  have hquiet : o.target ≠ none := by simp [ht]
  cases hs with
  | quiet hp =>
    rw [hprog] at hp
    exact absurd hp.1 hquiet
  | starting cb code result rl ha hknown hp =>
    obtain ⟨k', hcall, -⟩ := onComplete_cases cfg cb code result rl
    rw [hp, hcall] at hprog
    cases hprog
    cases ht
  | latest l hbase hlast hp =>
    rw [hprog] at hp
    rcases hp with ⟨hwin, -⟩ | hp
    · obtain rfl := hwin.2 j ht
      exact ⟨hbase, hlast⟩
    · exact absurd hp.1 hquiet

/-- In a run that meets the condition a superseded attempt leaves every job
    alone, and only the last attempt of `get_attempts` decides. -/
theorem latest_decides {db : Db} {environ : Environ}
    (h : Runs cfg (fun c e => c.handedOver e = true) (boot db environ) c)
    (hstep : step cfg c (.run (.reader a) i) = some c') (j : ℕ) (r : Job)
    (hr : c.shared.db.getJob j = some r) :
    ((∃ b ∈ c.shared.db.getAttempts j, a < b.id) → c'.shared.db.getJob j = some r) ∧
      (c'.shared.db.getJob j ≠ some r → (c.shared.db.attemptIds j).getLast? = some a) := by
  let D := numberProof cfg db.attempts.seq fun c e => c.handedOver e = true
  have hinv : D.Good c ∧ ∀ a, Reader cfg db.attempts.seq c a := by
    have hboot : NumberInv db.attempts.seq (boot db environ).shared :=
      ⟨Db.numbered_self db, fun _ hk => by cases hk⟩
    refine h.invariant (I := fun c => D.Good c ∧ ∀ a, Reader cfg db.attempts.seq c a) ?_
      ⟨DaemonProof.good_boot hboot fun _ _ => trivial, fun _ => .quiet trivial⟩
    intro c e c' hc hok he
    exact ⟨hc.1.step hok he, fun a => (hc.2 a).step hc.1.footprint hc.1.inv.2 hok he⟩
  have hlatest : c'.shared.db.getJob j ≠ some r →
      db.attempts.seq < a ∧ (c.shared.db.attemptIds j).getLast? = some a := by
    intro hne
    exact (hinv.2 a).latest_of_change hinv.1.footprint hstep hr hne
  constructor
  · rintro ⟨b, hb, hlt⟩
    by_contra hne
    obtain ⟨hbase, hl⟩ := hlatest hne
    rw [Db.attemptIds, List.getLast?_map] at hl
    obtain ⟨x, hx, rfl⟩ := Option.map_eq_some_iff.mp hl
    have := hinv.1.inv.1.newest hx hbase hb
    omega
  · intro hne
    exact (hlatest hne).2

/-- Attempt 1 ends after attempt 2 was started. Its callback leaves the job
    alone. -/
theorem latest_decides_second : ∃ (c c' : Sys) (r : Job), r.state = .running ∧
    step Settings.plain c (.run (.reader 1) {}) = some c' ∧ c'.shared.db.getJob 1 = some r := by
  obtain ⟨c, hrun, hp⟩ := exists_run handedOver
    (startJob oneJob ++ timeOut ++ redispatch 22 ++ [.exit 1 0 (some "done") false] ++
      readerSteps 1 1)
    (fun c => (c.shared.db.getJob 1).any (·.state == .running) &&
      (c.shared.db.getAttempts 1).any (fun b => decide (1 < b.id)) &&
      (step Settings.plain c (.run (.reader 1) {})).isSome) (by decide +kernel)
  simp only [Bool.and_eq_true, Option.any_eq_true, List.any_eq_true, Option.isSome_iff_exists,
    beq_iff_eq, decide_eq_true_eq] at hp
  obtain ⟨⟨⟨r, hr, hst⟩, hb⟩, c', hstep⟩ := hp
  exact ⟨c, c', r, hst, hstep, (latest_decides hrun hstep 1 r hr).1 hb⟩

/-- Attempt 1 ends and its callback passes its check. Then the job times out and
    attempt 2 is started, and the callback of attempt 1 moves the job to
    `succeeded`. -/
theorem superseded_decides : ¬ ∀ (cfg : Settings) (db : Db) (environ : Environ) (c c' : Sys)
    (a : ℕ) (i : Inputs), Runs cfg (fun _ _ => True) (boot db environ) c →
    step cfg c (.run (.reader a) i) = some c' → ∀ j r, c.shared.db.getJob j = some r →
      (∃ b ∈ c.shared.db.getAttempts j, a < b.id) → c'.shared.db.getJob j = some r := by
  intro hall
  obtain ⟨c, hrun, hp⟩ := exists_run (fun _ _ => true)
    (startJob oneJob ++ [.exit 1 0 (some "done") false] ++ readerSteps 1 1 ++ timeOut ++
      redispatch 22 ++ readerSteps 1 4)
    (fun c => (c.shared.db.getJob 1).any (·.state == .running) &&
      (c.shared.db.getAttempts 1).any (fun b => decide (1 < b.id)) &&
      (step Settings.plain c (.run (.reader 1) {})).any fun c' =>
        c'.jobState 1 == some .succeeded) (by decide +kernel)
  simp only [Bool.and_eq_true, Option.any_eq_true, List.any_eq_true, beq_iff_eq,
    decide_eq_true_eq] at hp
  obtain ⟨⟨⟨r, hr, hst⟩, hb⟩, c', hstep, hdone⟩ := hp
  have hsame := hall _ _ _ c c' 1 {} (hrun.mono fun _ _ _ => trivial) hstep 1 r hr hb
  simp [jobState, hsame, hst] at hdone

end Sys

end DiscordAgent
