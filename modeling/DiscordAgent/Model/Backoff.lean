import DiscordAgent.Model.Database
import DiscordAgent.Model.Py

/-!
# Backoff and the two completion transactions

`BackoffTracker` (`lib/scheduler.py` lines 18–77) and the `BEGIN IMMEDIATE`
blocks of `Scheduler.on_rate_limit` and `Scheduler.on_success`. A transaction
that raises is rolled back, so it returns the database it started from.

`BackoffTracker._cache` is left out: with a database every read goes through
`get_backoff`.
-/

namespace DiscordAgent

/-- `BackoffTracker` (lines 18–34). -/
structure BackoffTracker where
  baseDelay : ℚ := 30
  maxDelay : ℚ := 300
  jitter : ℚ := 3 / 10

namespace BackoffTracker

/-- `min(self.base_delay * (2 ** (count - 1)), self.max_delay)`. The product
    converts the integer to `float`, which raises from `2 ** 1024` on. -/
def delay (t : BackoffTracker) (count : ℕ) : Except PyErr ℚ :=
  if count - 1 < 1024 then .ok (min (t.baseDelay * 2 ^ (count - 1)) t.maxDelay)
  else .error .overflowError

/-- `now + delay + delay * jitter * (2 * random() - 1)`. -/
def nextAvailable (t : BackoffTracker) (now rand delay : ℚ) : ℚ :=
  now + delay + delay * t.jitter * (2 * rand - 1)

end BackoffTracker

/-- What `on_success` reads from the job row for the chain dispatch. -/
structure ChainInfo where
  notifyChatId : Option String
  nextDispatchPayload : Option String
  chainDepth : ℕ

/-- `record_rate_limit` (lines 50–59) of a tracker with a database. -/
def BackoffTracker.recordRateLimit (t : BackoffTracker) (db : Db) (repoId : ℕ) (now rand : ℚ) :
    Except PyErr ℚ × Db :=
  let count := (db.getBackoff repoId).2 + 1
  match t.delay count with
  | .error e => (.error e, db)
  | .ok delay =>
    let actualDelay := delay + delay * t.jitter * (2 * rand - 1)
    (.ok (now + actualDelay), db.setBackoff repoId (now + actualDelay) count)

namespace Db

/-- The transaction of `on_rate_limit` (lines 140–166). -/
def onRateLimit (db : Db) (t : BackoffTracker) (repoId jobId : ℕ) (now rand : ℚ) :
    Except PyErr ℚ × Db :=
  match db.getJob jobId with
  | none => (.error (.jobNotFound jobId), db)
  | some job =>
    if JobState.rateLimited ∈ job.state.validTransitions then
      let count := (db.getBackoff repoId).2 + 1
      match t.delay count with
      | .error e => (.error e, db)
      | .ok delay =>
        let next := t.nextAvailable now rand delay
        (.ok next,
          (db.updateJob jobId (Job.rateLimit now) fun _ => rfl).setBackoff repoId next count)
    else (.error (.invalidTransition job.state.text JobState.rateLimited.text), db)

/-- The transaction of `on_success` (lines 177–204). The result is `none` where
    the method returns early. -/
def onSuccess (db : Db) (repoId jobId : ℕ) (result : Option String) (now : ℚ) :
    Option ChainInfo × Db :=
  match db.getJob jobId with
  | none => (none, db)
  | some job =>
    if JobState.succeeded ∈ job.state.validTransitions then
      (some ⟨job.notifyChatId, job.nextDispatchPayload, job.chainDepth⟩,
        (db.updateJob jobId (Job.succeed result now) fun _ => rfl).clearBackoffIfRecovered repoId)
    else (none, db)

end Db

end DiscordAgent
