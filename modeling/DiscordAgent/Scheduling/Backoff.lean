import DiscordAgent.Interleave.Watch
import DiscordAgent.System.Callbacks

/-!
# The backoff of a repo

`on_rate_limit` stores a new `backoff_until` and a higher `backoff_count` in one
transaction with the state of the job; `on_success` and `drive_recovery` clear
both columns in a transaction that has found no rate-limited job of the repo.

Specification: `History`, what the committed transactions have recorded so far.

Results:
* `Sys.rateLimited_recorded`: in every state of every run the repo of a
  rate-limited job has the backoff that the last `on_rate_limit` stored.
* `Sys.backoff_counts`: the `n`-th rate limit since the columns were cleared
  stores `n` and waits `2 ^ (n - 1)` times the base delay up to the maximum.
* `Sys.backoff_restarts`: the columns do not count the rate limits since the last
  success, after a recovery pass and after a success beside a rate-limited job.
-/

namespace DiscordAgent

open Interleave Orchestrator

/-- What the transactions on the backoff have committed: the value of the last
    `on_rate_limit` of each repo, and how many there were since the columns
    were cleared. -/
structure History where
  last : ℕ → Option ℚ
  count : ℕ → ℕ

namespace History

/-- What a new daemon finds. -/
def ofDb (db : Db) : History where
  last R := if (db.getBackoff R).2 = 0 then none else some (db.getBackoff R).1
  count R := (db.getBackoff R).2

/-- One more transaction. -/
def add (g : History) : BackoffEvent → History
  | .recorded R next =>
    ⟨Function.update g.last R (some next), Function.update g.count R (g.count R + 1)⟩
  | .reset R => ⟨g.last, Function.update g.count R 0⟩

end History

/-- The history after an event of the system. -/
def watchBackoff (c : Sys) (e : Event) (g : History) : History :=
  match e with
  | .run t i => (((c.next? t).bind fun o => o.backoffEvent i c.shared).map g.add).getD g
  | _ => g

/-! ## One operation -/

section Operation

variable {o : Op} {i : Inputs} {w : World} {R : ℕ}

theorem getBackoff_of_none {db : Db} (h : db.getRepoById R = none) : db.getBackoff R = (0, 0) := by
  unfold Db.getBackoff
  rw [h]

/-- The columns of a new repo. -/
theorem getBackoff_new (h : w.db.getRepoById R = none) :
    (exec o i w).2.db.getBackoff R = (0, 0) := by
  cases hp : (exec o i w).2.db.getRepoById R with
  | none => exact getBackoff_of_none hp
  | some p =>
    obtain ⟨n, -, hrow⟩ := exec_newRepo h hp
    rw [Db.getBackoff_of_some hp, hrow]
    rfl

/-- The columns of a repo that the operation does not change. -/
theorem getBackoff_keep (h : ∀ e, o.backoffEvent i w = some e → e.repoId ≠ R) :
    (exec o i w).2.db.getBackoff R = w.db.getBackoff R := by
  cases hp : w.db.getRepoById R with
  | none => rw [getBackoff_of_none hp, getBackoff_new hp]
  | some p =>
    obtain ⟨p', hp', hstep⟩ := exec_repo o i hp
    have hid := Db.getRepoById_id hp
    rw [Db.getBackoff_of_some hp, Db.getBackoff_of_some hp']
    cases hstep with
    | keep _ => rfl
    | recorded next he => exact absurd hid (h _ he)
    | reset he => exact absurd hid (h _ he)
    | patch name u => rfl

/-- The columns after an `on_rate_limit`. -/
theorem getBackoff_recorded {next : ℚ} (hp : ∃ p, w.db.getRepoById R = some p)
    (h : o.backoffEvent i w = some (.recorded R next)) :
    (exec o i w).2.db.getBackoff R = (next, (w.db.getBackoff R).2 + 1) := by
  obtain ⟨p, hp⟩ := hp
  obtain ⟨p', hp', hstep⟩ := exec_repo o i hp
  have hid := Db.getRepoById_id hp
  rw [Db.getBackoff_of_some hp, Db.getBackoff_of_some hp']
  cases hstep with
  | keep hk => exact absurd hid.symm (hk _ h)
  | recorded next' he =>
    rw [h] at he
    cases he
    rfl
  | reset he =>
    rw [h] at he
    cases he
  | patch name u => cases h

/-- The columns after they were cleared. -/
theorem getBackoff_reset (h : o.backoffEvent i w = some (.reset R)) :
    (exec o i w).2.db.getBackoff R = (0, 0) := by
  cases hp : w.db.getRepoById R with
  | none => exact getBackoff_new hp
  | some p =>
    obtain ⟨p', hp', hstep⟩ := exec_repo o i hp
    have hid := Db.getRepoById_id hp
    rw [Db.getBackoff_of_some hp']
    cases hstep with
    | keep hk => exact absurd hid.symm (hk _ h)
    | recorded next' he =>
      rw [h] at he
      cases he
    | reset he => rfl
    | patch name u => cases h

/-- A rate-limited job is counted. -/
theorem countRateLimited_ne_zero {db : Db} {j : ℕ} {r : Job} (hr : db.getJob j = some r)
    (hst : r.state = .rateLimited) : db.countRateLimited r.repoId ≠ 0 := by
  have hmem : r ∈ db.jobs.select fun j => j.repoId == r.repoId && j.state == .rateLimited := by
    apply List.mem_filter.mpr
    exact ⟨Sql.Table.mem_of_get? hr, by simp [hst]⟩
  exact Nat.ne_of_gt (List.length_pos_of_mem hmem)

/-- The columns are cleared only when no job of the repo is rate-limited. -/
theorem countRateLimited_of_reset (h : o.backoffEvent i w = some (.reset R)) :
    (exec o i w).2.db.countRateLimited R = 0 := by
  cases o with
  | onRateLimit t R' j =>
    simp only [Op.backoffEvent] at h
    split at h
    · cases h
    · cases h
  | onSuccess R' j result =>
    simp only [Op.backoffEvent] at h
    split_ifs at h with hc
    cases h
    exact hc.2
  | clearBackoffIfRecovered R' =>
    simp only [Op.backoffEvent] at h
    split_ifs at h with hc
    cases h
    simp only [exec, World.setDb_db, Db.clearBackoffIfRecovered]
    rw [if_pos hc]
    exact hc
  | _ => cases h

/-- Only a completion records a backoff. -/
theorem callsBack_of_recorded {next : ℚ} (h : o.backoffEvent i w = some (.recorded R next)) :
    ∃ t j, o = .onRateLimit t R j ∧ (exec (.onRateLimit t R j) i w).1 = .ok next := by
  cases o with
  | onRateLimit t R' j =>
    simp only [Op.backoffEvent] at h
    split at h
    · next hres =>
      cases h
      exact ⟨t, j, rfl, hres⟩
    · cases h
  | onSuccess R' j result =>
    simp only [Op.backoffEvent] at h
    split_ifs at h
    cases h
  | clearBackoffIfRecovered R' =>
    simp only [Op.backoffEvent] at h
    split_ifs at h
    cases h
  | _ => cases h

end Operation

/-! ## The invariant -/

/-- The columns hold what the history says, and a rate-limited job has one. -/
structure Recorded (db : Db) (g : History) : Prop where
  count : ∀ R, (db.getBackoff R).2 = g.count R
  last : ∀ R, (db.getBackoff R).2 ≠ 0 → g.last R = some (db.getBackoff R).1

/-- The repo of every rate-limited job has a backoff. -/
def Db.Limited (db : Db) : Prop :=
  ∀ j r, db.getJob j = some r → r.state = .rateLimited → (db.getBackoff r.repoId).2 ≠ 0

theorem recorded_ofDb (db : Db) : Recorded db (.ofDb db) := by
  constructor
  · intro R
    rfl
  · intro R hne
    exact if_neg hne

section Step

variable {o : Op} {i : Inputs} {w : World} {g : History}

theorem Recorded.exec (h : Recorded w.db g) (ho : o.Owned w.db) :
    Recorded (DiscordAgent.exec o i w).2.db (((o.backoffEvent i w).map g.add).getD g) := by
  cases he : o.backoffEvent i w with
  | none =>
    have hkeep : ∀ R, (DiscordAgent.exec o i w).2.db.getBackoff R = w.db.getBackoff R := by
      intro R
      apply getBackoff_keep
      intro e he'
      rw [he] at he'
      cases he'
    constructor
    · intro R
      rw [hkeep]
      exact h.count R
    · intro R
      rw [hkeep]
      exact h.last R
  | some e =>
    have hkeep : ∀ R, R ≠ e.repoId →
        (DiscordAgent.exec o i w).2.db.getBackoff R = w.db.getBackoff R := by
      intro R hR
      apply getBackoff_keep
      intro e' he'
      rw [he] at he'
      cases he'
      exact Ne.symm hR
    cases e with
    | recorded R next =>
      obtain ⟨t, j, hop, -⟩ := callsBack_of_recorded he
      have howned : w.db.JobOfRepo j R := by
        apply ho
        rw [hop]
        exact ⟨rfl, rfl⟩
      have hnew := getBackoff_recorded howned.repo he
      constructor
      · intro R'
        by_cases hR : R' = R
        · subst hR
          rw [hnew]
          simp [History.add, h.count]
        · rw [hkeep R' hR]
          simp [History.add, Function.update_of_ne hR, h.count]
      · intro R'
        by_cases hR : R' = R
        · subst hR
          intro _
          rw [hnew]
          simp [History.add]
        · rw [hkeep R' hR]
          simpa [History.add, Function.update_of_ne hR] using h.last R'
    | reset R =>
      have hnew := getBackoff_reset he
      constructor
      · intro R'
        by_cases hR : R' = R
        · subst hR
          rw [hnew]
          simp [History.add]
        · rw [hkeep R' hR]
          simp [History.add, Function.update_of_ne hR, h.count]
      · intro R'
        by_cases hR : R' = R
        · subst hR
          rw [hnew]
          intro hne
          exact absurd rfl hne
        · rw [hkeep R' hR]
          exact h.last R'

/-- A job that becomes rate-limited does so in a transaction that records the
    backoff of its repo. -/
theorem recorded_of_rateLimited {j : ℕ} {r r' : Job}
    (hw : ∀ k current new result, o = .updateJobState k current new result → new ≠ .rateLimited)
    (ho : o.Owned w.db) (hr : w.db.getJob j = some r)
    (hr' : (DiscordAgent.exec o i w).2.db.getJob j = some r') (hstep : JobStep i o r r')
    (hold : r.state ≠ .rateLimited) (hnew : r'.state = .rateLimited) :
    ∃ next, o.backoffEvent i w = some (.recorded r'.repoId next) := by
  cases hstep with
  | transition current new result => exact absurd hnew (hw _ _ _ _ rfl)
  | rateLimit t R hv =>
    cases hres : (DiscordAgent.exec (.onRateLimit t R r.id) i w).1 with
    | error e =>
      have hdb : (DiscordAgent.exec (.onRateLimit t R r.id) i w).2.db = w.db :=
        Db.onRateLimit_error hres
      rw [hdb, hr] at hr'
      rw [← Option.some.inj hr'] at hnew
      exact absurd hnew hold
    | ok next =>
      obtain ⟨s, hs, hrepo⟩ := (ho r.id R ⟨rfl, rfl⟩).job
      rw [Db.getJob_id hr, hr] at hs
      cases hs
      refine ⟨next, ?_⟩
      have hR : (r.rateLimit i.now).repoId = R := hrepo
      simp only [Op.backoffEvent, hres, hR]
  | succeed R result hv => cases hnew
  | _ => exact absurd hnew hold

theorem repoId_of_jobStep {r r' : Job} (h : JobStep i o r r') : r'.repoId = r.repoId := by
  cases h <;> rfl

theorem limited_exec (h : w.db.Limited) (ho : o.Owned w.db)
    (hw : ∀ k current new result, o = .updateJobState k current new result → new ≠ .rateLimited) :
    (DiscordAgent.exec o i w).2.db.Limited := by
  intro j r' hr' hst
  cases hr : w.db.getJob j with
  | none =>
    obtain ⟨n, -, -, hrow⟩ := exec_newJob hr hr'
    rw [hrow] at hst
    cases hst
  | some r =>
    obtain ⟨s, hs, hstep⟩ := exec_job o i hr
    rw [hr'] at hs
    cases hs
    by_cases hold : r.state = .rateLimited
    · -- no transaction clears the columns while the job is rate-limited
      have hcount := h j r hr hold
      rw [← repoId_of_jobStep hstep] at hcount
      by_cases he : ∃ e, o.backoffEvent i w = some e ∧ e.repoId = r'.repoId
      · obtain ⟨e, he, hid⟩ := he
        cases e with
        | recorded R next =>
          have hid : R = r'.repoId := hid
          subst hid
          obtain ⟨t, k, hop, -⟩ := callsBack_of_recorded he
          have howned : w.db.JobOfRepo k r'.repoId := ho k r'.repoId (by rw [hop]; exact ⟨rfl, rfl⟩)
          rw [getBackoff_recorded howned.repo he]
          exact Nat.succ_ne_zero _
        | reset R =>
          have hid : R = r'.repoId := hid
          subst hid
          exact absurd (countRateLimited_of_reset he) (countRateLimited_ne_zero hr' hst)
      · push Not at he
        rw [getBackoff_keep he]
        exact hcount
    · obtain ⟨next, he⟩ := recorded_of_rateLimited hw ho hr hr' hstep hold hst
      obtain ⟨t, k, hop, -⟩ := callsBack_of_recorded he
      have howned : w.db.JobOfRepo k r'.repoId := ho k r'.repoId (by rw [hop]; exact ⟨rfl, rfl⟩)
      rw [getBackoff_recorded howned.repo he]
      exact Nat.succ_ne_zero _

end Step

namespace Sys

variable {cfg : Settings} {c c' : Sys} {e : Event} {g : History}

/-- `transition_job` never writes `rate_limited`. -/
theorem not_rateLimited_of_performs {t : Tid} {j : ℕ} {current new : JobState}
    {result : Option String} (h : c.performs t (.updateJobState j current new result)) :
    new ≠ .rateLimited := by
  have hmem : ∀ targets : List JobState, .rateLimited ∉ targets → new ∈ targets →
      new ≠ .rateLimited := by
    intro targets hnot hnew heq
    exact hnot (heq ▸ hnew)
  cases t with
  | daemon =>
    have h : c.shared.phase.performs _ := h
    exact hmem c.shared.phase.targets (by cases c.shared.phase <;> decide) h.target.2
  | reader a => exact hmem _ (by decide) (Op.ofReader.target h).2
  | cli n => exact absurd h Op.not_ofCli_transition

/-- One step and the history. -/
theorem recorded_step (hown : c.Owned cfg) (hrec : Recorded c.shared.db g)
    (h : Sys.step cfg c e = some c') : Recorded c'.shared.db (watchBackoff c e g) := by
  cases e with
  | run t i =>
    have h : Pool.step exec c t i = some c' := h
    obtain ⟨o, -, -, hn, hs, -, -⟩ := Pool.step_cases h
    have ho : o.Owned c.shared.db := fun j R hj => hown.jobOfRepo hn hj
    rw [hs]
    unfold watchBackoff
    simp only [hn, Option.bind_some]
    exact hrec.exec ho
  | next =>
    obtain ⟨p, -, -, rfl⟩ := step_next h
    exact hrec
  | exit a code result rl =>
    obtain ⟨w, -, -, rfl⟩ := step_exit h
    exact hrec
  | invoke n cmd =>
    cases h
    exact hrec
  | restart environ =>
    cases h
    exact hrec

/-- One step and the rate-limited jobs. -/
theorem limited_step (hown : c.Owned cfg) (hlim : c.shared.db.Limited)
    (h : Sys.step cfg c e = some c') : c'.shared.db.Limited := by
  rcases step_shared h with ⟨t, i, o, -, hn, hs⟩ | ⟨hs, -⟩
  · have ho : o.Owned c.shared.db := fun j R hj => hown.jobOfRepo hn hj
    rw [hs]
    apply limited_exec hlim ho
    rintro k current new result rfl
    exact not_rateLimited_of_performs (hown.good.footprint.next? hn)
  · rw [hs]
    exact hlim

/-- Runs with the history of the backoff. -/
abbrev BackoffRuns (cfg : Settings) : Sys × History → Sys × History → Prop :=
  Run (watch (step cfg) watchBackoff) fun _ _ => True

theorem recorded_run {db : Db} {environ : Environ}
    (h : BackoffRuns cfg (boot db environ, .ofDb db) (c, g)) :
    c.Owned cfg ∧ Recorded c.shared.db g := by
  refine h.watch_invariant (I := fun c g => c.Owned cfg ∧ Recorded c.shared.db g) ?_
    ⟨owned_boot cfg db environ, recorded_ofDb db⟩
  intro c g e t hs _ he
  obtain ⟨hown, hrec⟩ := hs
  exact ⟨hown.step he, recorded_step hown hrec he⟩

theorem limited_run {db : Db} {environ : Environ} (hdb : db.Limited)
    (h : Runs cfg (fun _ _ => True) (boot db environ) c) : c.shared.db.Limited := by
  refine (h.invariant (I := fun c => c.Owned cfg ∧ c.shared.db.Limited) ?_
    ⟨owned_boot cfg db environ, hdb⟩).2
  intro s e s' hs _ he
  exact ⟨hs.1.step he, limited_step hs.1 hs.2 he⟩

theorem rateLimited_recorded {db : Db} {environ : Environ} (hdb : db.Limited)
    (h : BackoffRuns cfg (boot db environ, .ofDb db) (c, g)) :
    (∀ j r, c.shared.db.getJob j = some r → r.state = .rateLimited →
      ∃ p, c.shared.db.getRepoById r.repoId = some p ∧ 1 ≤ p.backoffCount ∧
        g.last r.repoId = some p.backoffUntil) ∧
    ∀ t R j i err, (exec (.onRateLimit t R j) i c.shared).1 = .error err →
      (exec (.onRateLimit t R j) i c.shared).2 = c.shared := by
  obtain ⟨-, hrec⟩ := recorded_run h
  have hlim := limited_run hdb (h.forget fun _ _ ho => ho)
  constructor
  · intro j r hr hst
    have hcount := hlim j r hr hst
    have hlast := hrec.last r.repoId hcount
    cases hp : c.shared.db.getRepoById r.repoId with
    | none =>
      rw [getBackoff_of_none hp] at hcount
      exact absurd rfl hcount
    | some p =>
      rw [Db.getBackoff_of_some hp] at hcount hlast
      exact ⟨p, rfl, Nat.one_le_iff_ne_zero.mpr hcount, hlast⟩
  · intro t R j i err herr
    have hdb := Db.onRateLimit_error herr
    show c.shared.setDb (c.shared.db.onRateLimit t R j i.now i.rand).2 = c.shared
    rw [hdb]
    rfl

/-- A concrete run with its history. -/
theorem watched_of_run {b : Sys → Event → Bool}
    (h : Runs Settings.plain (fun c e => b c e = true) (boot default fun _ => none) c) :
    ∃ g, BackoffRuns Settings.plain (boot default fun _ => none, .ofDb default) (c, g) := by
  have h : Runs Settings.plain (fun _ _ => True) (boot default fun _ => none) c :=
    h.mono fun _ _ _ => trivial
  exact h.watched (History.ofDb default)

/-- The first attempt of job 1 ends with a rate limit. -/
def rateLimitJob : List Event := startJob oneJob ++ [.exit 1 1 none true] ++ readerSteps 1 6

/-- A job that has just been rate-limited. -/
theorem rateLimited_recorded_once : ∃ (c : Sys) (g : History) (r : Job),
    c.shared.db.getJob 1 = some r ∧ r.state = .rateLimited ∧
      ∃ p, c.shared.db.getRepoById r.repoId = some p ∧ 1 ≤ p.backoffCount ∧
        g.last r.repoId = some p.backoffUntil := by
  obtain ⟨c, hrun, hc⟩ := exists_run (fun _ _ => true) rateLimitJob
    (fun c => (c.shared.db.getJob 1).any fun r => r.state == .rateLimited) (by decide +kernel)
  obtain ⟨g, hg⟩ := watched_of_run hrun
  obtain ⟨r, hr, hst⟩ := (Option.any_eq_true _ _).mp hc
  have hst : r.state = .rateLimited := by simpa using hst
  have hdb : (default : Db).Limited := by
    intro j r hr
    cases hr
  exact ⟨c, g, r, hr, hst, (rateLimited_recorded hdb hg).1 1 r hr hst⟩

/-! ## The delay -/

/-- The count that `on_rate_limit` stores and the time that it waits until. -/
theorem backoff_counts {db : Db} {environ : Environ}
    (h : BackoffRuns cfg (boot db environ, .ofDb db) (c, g)) :
    (∀ R, (c.shared.db.getBackoff R).2 = g.count R) ∧
    ∀ t i tr R j next c', c.next? t = some (.onRateLimit tr R j) →
      (exec (.onRateLimit tr R j) i c.shared).1 = .ok next →
      Sys.step cfg c (.run t i) = some c' →
      (watchBackoff c (.run t i) g).count R = g.count R + 1 ∧
      c'.shared.db.getBackoff R = (next, g.count R + 1) ∧
      next = tr.nextAvailable i.now i.rand (min (tr.baseDelay * 2 ^ g.count R) tr.maxDelay) := by
  obtain ⟨hown, hrec⟩ := recorded_run h
  refine ⟨hrec.count, ?_⟩
  intro t i tr R j next c' hn hres hs
  have he : (Op.onRateLimit tr R j).backoffEvent i c.shared = some (.recorded R next) := by
    simp only [Op.backoffEvent, hres]
  have howned := hown.jobOfRepo hn (j := j) (R := R) ⟨rfl, rfl⟩
  have hs : Pool.step exec c t i = some c' := hs
  have hshared := Pool.shared_step hs hn
  refine ⟨?_, ?_, ?_⟩
  · unfold watchBackoff
    simp only [hn, Option.bind_some, he]
    simp [History.add]
  · rw [hshared, getBackoff_recorded howned.repo he, hrec.count]
  · obtain ⟨r, delay, -, -, hdelay, hnext, -⟩ := Db.onRateLimit_ok hres
    unfold BackoffTracker.delay at hdelay
    split_ifs at hdelay
    cases hdelay
    rw [hnext, hrec.count, Nat.add_sub_cancel]

/-- After its rate limit job 1 is put back into the queue at 100 s, which clears
    the columns, and its second attempt ends with a rate limit. The daemon and
    the reader stop before the second `on_rate_limit`. -/
def rateLimitAgain : List Event :=
  rateLimitJob ++ idleRest ++ daemonSteps 1 { now := 100 } ++ [.next] ++
    daemonSteps 9 { now := 100 } ++ [.next] ++ daemonSteps 22 { now := 100 } ++
    [.exit 2 1 none true] ++ readerSteps 2 5

/-- The next operation of reader `a` is an `on_rate_limit` of repo 1 that stores
    `count`. -/
def limits (c : Sys) (a count : ℕ) : Bool :=
  match c.next? (.reader a) with
  | some (.onRateLimit tr 1 j) =>
    match exec (.onRateLimit tr 1 j) {} c.shared with
    | (.ok _, w) => (w.db.getBackoff 1).2 == count
    | _ => false
  | _ => false

theorem of_limits {a count : ℕ} (h : c.limits a count = true) : ∃ tr j next,
    c.next? (.reader a) = some (.onRateLimit tr 1 j) ∧
      (exec (.onRateLimit tr 1 j) {} c.shared).1 = .ok next ∧
      ((exec (.onRateLimit tr 1 j) {} c.shared).2.db.getBackoff 1).2 = count := by
  unfold limits at h
  split at h
  · next tr j hn =>
    split at h
    · next next w hres =>
      refine ⟨tr, j, next, hn, ?_, ?_⟩
      · rw [hres]
      · rw [hres]
        exact eq_of_beq h
    · cases h
  · cases h

/-- The first rate limit after a recovery pass. -/
theorem backoff_counts_again : ∃ (c c' : Sys) (g : History) (tr : BackoffTracker) (j : ℕ)
    (next : ℚ), c.next? (.reader 2) = some (.onRateLimit tr 1 j) ∧
      Sys.step Settings.plain c (.run (.reader 2) {}) = some c' ∧
      c'.shared.db.getBackoff 1 = (next, g.count 1 + 1) ∧
      next = tr.nextAvailable 0 0 (min (tr.baseDelay * 2 ^ g.count 1) tr.maxDelay) := by
  obtain ⟨c, hrun, hc⟩ := exists_run (fun _ _ => true) rateLimitAgain (fun c => c.limits 2 1)
    (by decide +kernel)
  obtain ⟨g, hg⟩ := watched_of_run hrun
  obtain ⟨tr, j, next, hn, hres, -⟩ := of_limits hc
  obtain ⟨c', hs⟩ := Pool.exists_step hn ({} : Inputs)
  obtain ⟨-, hget, hnext⟩ := (backoff_counts hg).2 _ _ _ _ _ _ _ hn hres hs
  exact ⟨c, c', g, tr, j, next, hn, hs, hget, hnext⟩

/-- The count of the claim: rate limits of a repo since its last success. -/
def watchLimits (c : Sys) (e : Event) (n : ℕ → ℕ) : ℕ → ℕ :=
  match e with
  | .run t i =>
    match c.next? t with
    | some (.onRateLimit tr R j) =>
      match (exec (.onRateLimit tr R j) i c.shared).1 with
      | .ok _ => Function.update n R (n R + 1)
      | .error _ => n
    | some (.onSuccess R j result) =>
      if (exec (.onSuccess R j result) i c.shared).1.isSome then Function.update n R 0 else n
    | _ => n
  | _ => n

/-- Every `on_rate_limit` stores how many there were since the last success. -/
def CountsLimits (cfg : Settings) : Prop := ∀ (db : Db) (environ : Environ) (c : Sys) (n : ℕ → ℕ),
  Run (watch (step cfg) watchLimits) (fun _ _ => True)
    (boot db environ, fun R => (db.getBackoff R).2) (c, n) →
  ∀ t tr R j i next, c.next? t = some (.onRateLimit tr R j) →
    (exec (.onRateLimit tr R j) i c.shared).1 = .ok next →
    ((exec (.onRateLimit tr R j) i c.shared).2.db.getBackoff R).2 = n R + 1

/-- A run to an `on_rate_limit` that stores another number. -/
theorem not_countsLimits (es : List Event) (a count n : ℕ) (hne : count ≠ n + 1)
    (h : (runList (watch (step cfg) watchLimits) (fun _ _ => true)
      (boot default fun _ => none, fun R => ((default : Db).getBackoff R).2) es).any
      (fun s => s.1.limits a count && s.2 1 == n) = true) : ¬ CountsLimits cfg := by
  intro hall
  obtain ⟨s, hrun, hs⟩ := Run.exists_of_runList h
  obtain ⟨hl, hn⟩ := (Bool.and_eq_true _ _).mp hs
  obtain ⟨tr, j, next, hop, hres, hcount⟩ := of_limits hl
  have heq := hall default (fun _ => none) s.1 s.2 (hrun.mono fun _ _ _ => trivial) (.reader a) tr 1
    j {} next hop hres
  rw [hcount, eq_of_beq hn] at heq
  exact hne heq

/-- Three jobs of one repo run. Job 1 is rate-limited, then job 2 succeeds while
    job 1 is still rate-limited, and job 3 is about to be rate-limited. -/
def successBetween : List Event :=
  cli (.createRepo { oneRepo with maxConcurrency := 3 }) ++ cli (.dispatch oneJob) ++
    cli (.dispatch oneJob) ++ cli (.dispatch oneJob) ++ [.next] ++ daemonSteps 1 ++ [.next] ++
    daemonSteps 2 ++ [.next] ++ daemonSteps 33 ++ [.next] ++ daemonSteps 28 ++ [.next] ++
    daemonSteps 23 ++ [.exit 1 1 none true] ++ readerSteps 1 6 ++ [.exit 2 0 none false] ++
    readerSteps 2 6 ++ [.exit 3 1 none true] ++ readerSteps 3 5

theorem backoff_restarts :
    -- a recovery pass between two rate limits
    ¬ CountsLimits Settings.plain ∧
    -- a success while another job is rate-limited
    ¬ CountsLimits { Settings.plain with globalMaxConcurrency := 3 } := by
  constructor
  · exact not_countsLimits rateLimitAgain 2 1 1 (by decide) (by decide +kernel)
  · exact not_countsLimits successBetween 3 2 0 (by decide) (by decide +kernel)

end Sys

end DiscordAgent
