import Mathlib.Tactic.Linarith
import Mathlib.Tactic.Positivity
import Mathlib.Tactic.Ring
import DiscordAgent.System.Callbacks

/-!
# The two copies of the backoff formula

`BackoffTracker.record_rate_limit` and `Scheduler.on_rate_limit` compute the same
delay. Both compute `2 ** (count - 1)` before they cap the delay, and the product
with `base_delay` raises `OverflowError` when the power leaves the range of a
`float`. Sums and products are exact here.

Specification: `RecordsBackoff`, both store the next count and the same time, which
the jitter keeps close to the capped delay.

Results:
* `delay_succ`, `delay_overflow`: the delay, and the counts that have none.
* `recordsBackoff_iff`: the two record a backoff exactly if the stored count is
  less than 1024.
* `recordsBackoff_overflow`: both raise at the count 1024.
-/

namespace DiscordAgent

open Interleave

namespace BackoffTracker

/-! ## Specification -/

/-- A tracker with sensible parameters. -/
structure Sensible (t : BackoffTracker) : Prop where
  base_pos : 0 < t.baseDelay
  base_le : t.baseDelay ≤ t.maxDelay
  jitter_nonneg : 0 ≤ t.jitter
  jitter_lt : t.jitter < 1

/-- The delay before the jitter, at the stored count `n`. -/
def capped (t : BackoffTracker) (n : ℕ) : ℚ := min (t.baseDelay * 2 ^ n) t.maxDelay

/-- From the stored count `n` both implementations record the same backoff. -/
structure RecordsBackoff (t : BackoffTracker) (db : Db) (repoId jobId n : ℕ) (now rand next : ℚ) :
    Prop where
  tracker : (t.recordRateLimit db repoId now rand).1 = .ok next
  scheduler : (db.onRateLimit t repoId jobId now rand).1 = .ok next
  tracker_stores : (t.recordRateLimit db repoId now rand).2.getBackoff repoId = (next, n + 1)
  scheduler_stores : (db.onRateLimit t repoId jobId now rand).2.getBackoff repoId = (next, n + 1)
  lower : now + t.capped n * (1 - t.jitter) ≤ next
  upper : next ≤ now + t.capped n * (1 + t.jitter)
  mono : ∀ m ≤ n, t.capped m ≤ t.capped n

/-! ## The delay -/

variable {t : BackoffTracker} {db : Db} {repoId jobId n : ℕ} {now rand : ℚ} {p : Repo} {r : Job}

theorem delay_succ (hn : n < 1024) : t.delay (n + 1) = .ok (t.capped n) := if_pos hn

theorem delay_overflow (hn : ¬ n < 1024) : t.delay (n + 1) = .error .overflowError := if_neg hn

theorem capped_mono (ht : t.Sensible) {m : ℕ} (h : m ≤ n) : t.capped m ≤ t.capped n := by
  have hpow : (2 : ℚ) ^ m ≤ 2 ^ n := pow_le_pow_right₀ (by norm_num) h
  exact min_le_min_right _ (mul_le_mul_of_nonneg_left hpow ht.base_pos.le)

theorem capped_nonneg (ht : t.Sensible) (n : ℕ) : 0 ≤ t.capped n := by
  have hbase := ht.base_pos
  exact le_min (by positivity) (hbase.le.trans ht.base_le)

/-- The jitter is at most its share of the delay. -/
theorem nextAvailable_bounds (ht : t.Sensible) (hrand : 0 ≤ rand) (hrand' : rand < 1) (now : ℚ)
    (n : ℕ) :
    now + t.capped n * (1 - t.jitter) ≤ t.nextAvailable now rand (t.capped n) ∧
      t.nextAvailable now rand (t.capped n) ≤ now + t.capped n * (1 + t.jitter) := by
  have hamount : 0 ≤ t.capped n * t.jitter := mul_nonneg (capped_nonneg ht n) ht.jitter_nonneg
  have hlow : -(t.capped n * t.jitter) ≤ t.capped n * t.jitter * (2 * rand - 1) := by
    have h := mul_le_mul_of_nonneg_left (show -1 ≤ 2 * rand - 1 by linarith) hamount
    linarith
  have hhigh : t.capped n * t.jitter * (2 * rand - 1) ≤ t.capped n * t.jitter := by
    have h := mul_le_mul_of_nonneg_left (show 2 * rand - 1 ≤ 1 by linarith) hamount
    linarith
  unfold nextAvailable
  constructor
  · linarith
  · linarith

/-! ## The two implementations -/

theorem recordRateLimit_error (hp : db.getRepoById repoId = some p) {e : PyErr}
    (hd : t.delay (p.backoffCount + 1) = .error e) :
    t.recordRateLimit db repoId now rand = (.error e, db) := by
  unfold recordRateLimit
  rw [Db.getBackoff_of_some hp]
  simp only [hd]

theorem recordRateLimit_ok (hp : db.getRepoById repoId = some p) {delay : ℚ}
    (hd : t.delay (p.backoffCount + 1) = .ok delay) (now rand : ℚ) :
    t.recordRateLimit db repoId now rand = (.ok (t.nextAvailable now rand delay),
      db.setBackoff repoId (t.nextAvailable now rand delay) (p.backoffCount + 1)) := by
  have hsum : now + (delay + delay * t.jitter * (2 * rand - 1)) = t.nextAvailable now rand delay :=
    (add_assoc ..).symm
  unfold recordRateLimit
  rw [Db.getBackoff_of_some hp]
  simp only [hd, hsum]

theorem onRateLimit_ok (hp : db.getRepoById repoId = some p) (hr : db.getJob jobId = some r)
    (hs : .rateLimited ∈ r.state.validTransitions) {delay : ℚ}
    (hd : t.delay (p.backoffCount + 1) = .ok delay) (now rand : ℚ) :
    db.onRateLimit t repoId jobId now rand = (.ok (t.nextAvailable now rand delay),
      (db.updateJob jobId (Job.rateLimit now) fun _ => rfl).setBackoff repoId
        (t.nextAvailable now rand delay) (p.backoffCount + 1)) := by
  unfold Db.onRateLimit
  rw [hr, Db.getBackoff_of_some hp]
  simp only [hs, if_true, hd]

theorem getBackoff_setBackoff (hp : db.getRepoById repoId = some p) (next : ℚ) :
    (db.setBackoff repoId next n).getBackoff repoId = (next, n) := by
  have hrow : (db.setBackoff repoId next n).getRepoById repoId =
      some { p with backoffUntil := next, backoffCount := n } := by
    rw [Db.getRepoById_setBackoff, if_pos rfl, hp, Option.map_some]
  exact Db.getBackoff_of_some hrow

/-- For a repo with `n` rate limits and a job that can become rate limited, both
    implementations record the backoff exactly if `2 ** n` fits a `float`. -/
theorem recordsBackoff_iff (ht : t.Sensible) (hrand : 0 ≤ rand) (hrand' : rand < 1)
    (hp : db.getRepoById repoId = some p) (hn : p.backoffCount = n)
    (hr : db.getJob jobId = some r) (hs : .rateLimited ∈ r.state.validTransitions) :
    (∃ next, t.RecordsBackoff db repoId jobId n now rand next) ↔ n < 1024 := by
  subst hn
  constructor
  · rintro ⟨next, h⟩
    by_contra hover
    have htracker := h.tracker
    rw [recordRateLimit_error hp (delay_overflow hover)] at htracker
    cases htracker
  · intro hlt
    have htracker := recordRateLimit_ok hp (delay_succ (t := t) hlt) now rand
    have hscheduler := onRateLimit_ok hp hr hs (delay_succ (t := t) hlt) now rand
    obtain ⟨hlower, hupper⟩ := nextAvailable_bounds ht hrand hrand' now p.backoffCount
    refine ⟨t.nextAvailable now rand (t.capped p.backoffCount), ?_, ?_, ?_, ?_, hlower, hupper,
      fun m hm => capped_mono ht hm⟩
    · rw [htracker]
    · rw [hscheduler]
    · rw [htracker]
      exact getBackoff_setBackoff hp _
    · have hp' : (db.updateJob jobId (Job.rateLimit now) fun _ => rfl).getRepoById repoId =
          some p := hp
      rw [hscheduler]
      exact getBackoff_setBackoff hp' _

/-- The default tracker. -/
theorem sensible_default : Sensible {} := by
  constructor
  all_goals norm_num

/-- A repo with the backoff count `n`, and a running job. -/
def limited (n : ℕ) : Db :=
  ((((default : Db).createRepo Sys.oneRepo 0).2.setBackoff 1 0 n).createJob Sys.oneJob
    0).2.updateJobState 1 .running none 0

theorem recordsBackoff_third : ∃ next, RecordsBackoff {} (limited 2) 1 1 2 0 0 next :=
  (recordsBackoff_iff sensible_default le_rfl (by norm_num)
    (p := ⟨1, "app", "/srv/app", [], none, "sonnet", 1, 0, 2, 0⟩) rfl rfl
    (r := { Sys.oneJob.row 0 1 with state := .running }) rfl (by decide)).mpr (by decide)

/-- With 1024 rate limits on record both raise. -/
theorem recordsBackoff_overflow :
    (recordRateLimit {} (limited 1024) 1 0 0).1 = .error .overflowError ∧
      ((limited 1024).onRateLimit {} 1 1 0 0).1 = .error .overflowError ∧
      ¬ ∃ next, RecordsBackoff {} (limited 1024) 1 1 1024 0 0 next := by
  refine ⟨by rfl, by rfl, ?_⟩
  rintro ⟨next, h⟩
  have htracker := h.tracker
  cases htracker

end BackoffTracker

end DiscordAgent
