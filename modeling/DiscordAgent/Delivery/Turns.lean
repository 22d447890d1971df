import DiscordAgent.Delivery.Episodes
import DiscordAgent.Interleave.Monitor
import DiscordAgent.Interleave.Watch

/-!
# The turns of a Supervisor tick

A tick lists the undelivered jobs and gives each of them a turn. `Turn` is what
the operations of a tick say about it: the listed rows still to come, the row
that has its turn, the time it has read, and how far its wake or its fallback
has come.

* `follows_tick`: the order of the operations in a tick.
* `Sys.TurnInv`: the listed rows and the database while the tick goes on.
-/

namespace DiscordAgent

open Interleave Supervisor

/-- The command succeeded. -/
def TmuxResult.isOk : TmuxResult → Bool
  | .ok _ => true
  | .raised _ => false

/-- How far the wake text of a turn has come. -/
inductive WakeStage where
  | ready
  | typed
  | entered
  | counted
  | ended
  deriving DecidableEq

/-- The wake of the turn has not been counted. -/
def WakeStage.uncounted : WakeStage → Bool
  | ready | typed | entered => true
  | counted | ended => false

/-- The state of a tick. -/
structure Turn where
  rows : List Job := []
  row : Option Job := none
  now : ℚ := 0
  wake : WakeStage := .ready
  pane : Option String := none
  lost : Bool := false
  claimed : Bool := false

namespace Turn

/-- The start of the grace period: `job.get("terminal_at") or
    job.get("updated_at", now)`. -/
def graceStart (job : Job) : ℚ := (job.terminalAt.filter (· ≠ 0)).getD job.updatedAt

/-- The grace period of the row has expired at the time that its turn has
    read. -/
def expired (cfg : Settings) (m : Turn) (job : Job) : Bool :=
  decide (m.now - graceStart job > cfg.wakeGraceSeconds)

/-- The turn may lead to a POST. -/
def due (cfg : Settings) (m : Turn) (job : Job) : Bool :=
  !cfg.autoWake || job.wakeState == some .fallback || m.expired cfg job || m.lost || m.claimed

/-- The pane ID that `_load_pane` finds. -/
def paneOf : Except PyErr String → Option String
  | .ok text => (some (Py.strip text)).filter fun pane => isPaneId pane
  | .error _ => none

/-- What `_pane_exists` makes of `list-panes`. -/
def lists (pane : String) : TmuxResult → Bool
  | .ok stdout => (Py.splitWords stdout).contains pane
  | .raised _ => false

/-- The stage after a `send-keys`. -/
def sent (stage : WakeStage) : TmuxResult → WakeStage
  | .ok _ => stage
  | .raised _ => .ended

/-- The state after an operation. -/
def next (m : Turn) : (o : Op) → o.Res → Turn
  | .listUndeliveredTerminalJobs, rows => { rows := rows }
  | .time, now => { rows := m.rows.tail, row := m.rows.head?, now := now }
  | .readPaneFile, text => { m with pane := paneOf text, lost := (paneOf text).isNone }
  | .tmux .listPanes, out => { m with lost := !(m.pane.any fun pane => lists pane out) }
  | .tmux (.sendText ..), out => { m with wake := sent .typed out }
  | .tmux (.sendEnter _), out => { m with wake := sent .entered out }
  | .incrWakeAttempts _, _ => { m with wake := .counted }
  | .markWoken _, _ => { m with wake := .ended }
  | .claimForFallback _, won => { m with claimed := m.claimed || won }
  | _, _ => m

/-- No wake text waits for its bookkeeping. -/
def Settled (m : Turn) : Prop := m.wake ≠ .typed ∧ m.wake ≠ .entered

/-- Between two turns: the rows still to come are `rows`. -/
def Between (rows : List Job) (m : Turn) : Prop := m.rows = rows ∧ m.Settled

theorem settled_of_ready {m : Turn} (h : m.wake = .ready) : m.Settled := by
  simp [Settled, h]

theorem settled_of_ended {m : Turn} (h : m.wake = .ended) : m.Settled := by
  simp [Settled, h]

/-- Job `j` has its turn. -/
def Of (m : Turn) (j : ℕ) : Prop := ∃ job, m.row = some job ∧ job.id = j

theorem Of.unique {m : Turn} {j k : ℕ} (h : m.Of j) (h' : m.Of k) : j = k := by
  obtain ⟨job, hrow, rfl⟩ := h
  obtain ⟨job', hrow', rfl⟩ := h'
  rw [hrow] at hrow'
  rw [Option.some.inj hrow']

/-- Job `j` has its turn and its fallback has not been claimed. -/
def Unclaimed (m : Turn) (j : ℕ) : Prop :=
  ∃ job, m.row = some job ∧ job.id = j ∧ job.wakeState ≠ some .fallback ∧ m.claimed = false

theorem Unclaimed.of {m : Turn} {j : ℕ} (h : m.Unclaimed j) : m.Of j := by
  obtain ⟨job, hrow, hid, -, -⟩ := h
  exact ⟨job, hrow, hid⟩

/-- The order of the operations of a tick. -/
def ok (cfg : Settings) (m : Turn) : Op → Prop
  | .listUndeliveredTerminalJobs | .time => m.Settled
  | .tmux (.sendText _ j _) => m.wake = .ready ∧ m.Unclaimed j ∧
      ∀ job, m.row = some job → (job.wakeAttempts : ℤ) < cfg.maxWakeAttempts
  | .tmux (.sendEnter _) => m.wake = .typed ∧ ∃ j, m.Unclaimed j
  | .incrWakeAttempts j => m.wake = .entered ∧ m.Unclaimed j
  | .markWoken j => m.wake = .counted ∧ m.Unclaimed j
  | .claimForFallback j | .postBegin j _ _ => ∃ job, m.row = some job ∧ job.id = j ∧
      m.wake = .ready ∧ m.due cfg job = true
  | _ => True

end Turn

/-- `Turn` as a monitor. The row that `get_job` finds has the id it was asked
    for. -/
def turnMonitor (cfg : Settings) : Monitor Op Op.Res Turn where
  answers
    | .getJob j, row => ∀ job : Job, row = some job → job.id = j
    | _, _ => True
  ok := Turn.ok cfg
  next := Turn.next

theorem turnMonitor_answers (cfg : Settings) (o : Op) (i : Inputs) (w : World) :
    (turnMonitor cfg).answers o (exec o i w).1 := by
  cases o with
  | getJob j =>
    intro job hjob
    exact Db.getJob_id hjob
  | _ => trivial

/-! ## The programs of a tick -/

section Programs

variable {cfg : Settings} {m : Turn} {job : Job} {rows : List Job}

theorem follows_attemptFallbackNotify {job' : Job} (hid : job'.id = job.id)
    (hrow : m.row = some job) (hwake : m.wake = .ready) (hdue : m.due cfg job = true) :
    (attemptFallbackNotify cfg job').Follows (turnMonitor cfg) (fun _ m' => m' = m)
      (fun _ m' => m' = m) m := by
  refine Prog.follows_of_emits (I := fun m' => m' = m) (emits_attemptFallbackNotify cfg job') ?_ rfl
  rintro o m' ho rfl
  rw [hid] at ho
  cases o with
  | postBegin j chatId text =>
    have hj : job.id = j := Eq.symm ho
    exact ⟨⟨job, hrow, hj, hwake, hdue⟩, fun _ _ => rfl⟩
  | loadToken | postEnd | setUndeliverable | markReported => exact ⟨trivial, fun _ _ => rfl⟩
  | _ => exact ho.elim

theorem follows_claimAndFallback (hrows : m.rows = rows) (hrow : m.row = some job)
    (hwake : m.wake = .ready) (hdue : m.due cfg job = true) :
    (claimAndFallback cfg job).Follows (turnMonitor cfg) (fun _ => Turn.Between rows)
      (fun _ => Turn.Between rows) m := by
  refine ⟨⟨job, hrow, rfl, hwake, hdue⟩, ?_⟩
  intro won _
  cases won with
  | false => exact ⟨hrows, Turn.settled_of_ready hwake⟩
  | true =>
    refine ⟨trivial, ?_⟩
    intro fresh hfresh
    have hid : (fresh.getD job).id = job.id := by
      cases fresh with
      | none => rfl
      | some row => exact hfresh row rfl
    have hdue' : ({ m with claimed := m.claimed || true } : Turn).due cfg job = true := by
      simp [Turn.due]
    refine (follows_attemptFallbackNotify (m := { m with claimed := m.claimed || true }) hid hrow
      hwake hdue').mono ?_ ?_
    · rintro _ m' rfl
      exact ⟨hrows, Turn.settled_of_ready hwake⟩
    · rintro _ m' rfl
      exact ⟨hrows, Turn.settled_of_ready hwake⟩

theorem follows_loadPane {Q : Option String → Turn → Prop} {E : PyErr → Turn → Prop}
    (hQ : ∀ pane, Q pane { m with pane := pane, lost := pane.isNone })
    (hE : ∀ e, E e { m with pane := none, lost := true }) :
    loadPane.Follows (turnMonitor cfg) Q E m := by
  refine ⟨trivial, ?_⟩
  intro text _
  cases text with
  | ok text => exact hQ _
  | error e =>
    cases e with
    | osError => exact hQ none
    | _ => exact hE _

theorem follows_paneExists {pane : String} {Q : Bool → Turn → Prop} {E : PyErr → Turn → Prop}
    (hpane : m.pane = some pane) (hQ : ∀ found, Q found { m with lost := !found }) :
    (paneExists pane).Follows (turnMonitor cfg) Q E m := by
  have hlost : ∀ out, m.next (.tmux .listPanes) out = { m with lost := !Turn.lists pane out } := by
    intro out
    show ({ m with lost := !(m.pane.any fun pane => Turn.lists pane out) } : Turn) = _
    rw [hpane, Option.any_some]
  refine ⟨trivial, ?_⟩
  intro out _
  show Prog.Follows _ _ _ _ (m.next (.tmux .listPanes) out)
  rw [hlost]
  cases out with
  | ok stdout => exact hQ _
  | raised e => exact hQ false

theorem follows_isPaneBusy (pane : String) :
    (isPaneBusy pane).Follows (turnMonitor cfg) (fun _ m' => m' = m) (fun _ m' => m' = m) m := by
  refine ⟨trivial, ?_⟩
  intro mode _
  cases mode with
  | raised e => rfl
  | ok mode =>
    simp only [Prog.ret_bind]
    split
    · rfl
    · refine ⟨trivial, ?_⟩
      intro out _
      cases out <;> rfl

theorem follows_sendWake (pane repoName : String) (hrows : m.rows = rows)
    (hrow : m.row = some job) (hwake : m.wake = .ready) (hclaimed : m.claimed = false)
    (hstate : job.wakeState ≠ some .fallback)
    (hattempts : (job.wakeAttempts : ℤ) < cfg.maxWakeAttempts) :
    (sendWake job pane repoName).Follows (turnMonitor cfg) (fun _ => Turn.Between rows)
      (fun _ => Turn.Between rows) m := by
  refine Prog.Follows.tryCatch (R := fun _ => Turn.Between rows) ?_ fun e m hm => ?_
  · have hun : m.Unclaimed job.id := ⟨job, hrow, rfl, hstate, hclaimed⟩
    have hatt : ∀ job', m.row = some job' → (job'.wakeAttempts : ℤ) < cfg.maxWakeAttempts := by
      intro job' hrow'
      rw [hrow] at hrow'
      rw [← Option.some.inj hrow']
      exact hattempts
    refine ⟨⟨hwake, hun, hatt⟩, ?_⟩
    intro text _
    cases text with
    | raised e => exact ⟨hrows, Turn.settled_of_ended rfl⟩
    | ok stdout =>
      refine ⟨⟨rfl, job.id, hun⟩, ?_⟩
      intro enter _
      cases enter with
      | raised e => exact ⟨hrows, Turn.settled_of_ended rfl⟩
      | ok stdout =>
        refine ⟨⟨rfl, hun⟩, ?_⟩
        intro _ _
        refine ⟨⟨rfl, hun⟩, ?_⟩
        intro _ _
        exact ⟨hrows, Turn.settled_of_ended rfl⟩
  · show Prog.Follows _ _ _ (if e = .calledProcessError ∨ e = .timeoutExpired then _ else _) m
    split
    · exact hm
    · exact hm

theorem follows_tryWake (hrows : m.rows = rows) (hrow : m.row = some job)
    (hwake : m.wake = .ready) (hclaimed : m.claimed = false)
    (hstate : job.wakeState ≠ some .fallback)
    (hattempts : (job.wakeAttempts : ℤ) < cfg.maxWakeAttempts) :
    (tryWake cfg job).Follows (turnMonitor cfg) (fun _ => Turn.Between rows)
      (fun _ => Turn.Between rows) m := by
  have hsettled : m.Settled := Turn.settled_of_ready hwake
  have hgive : ∀ pane : Option String, ((claimAndFallback cfg job).bind fun _ => .ret false).Follows
      (turnMonitor cfg) (fun _ => Turn.Between rows) (fun _ => Turn.Between rows)
      { m with pane := pane, lost := true } := by
    intro pane
    have hdue : ({ m with pane := pane, lost := true } : Turn).due cfg job = true := by
      simp [Turn.due]
    exact (follows_claimAndFallback (m := { m with pane := pane, lost := true }) hrows hrow hwake
      hdue).bind fun _ _ hm => hm
  unfold tryWake
  split
  · exact ⟨hrows, hsettled⟩
  · refine Prog.Follows.bind (R := fun pane m' => m' = { m with pane := pane, lost := pane.isNone })
      (follows_loadPane (fun _ => rfl) fun _ => ⟨hrows, hsettled⟩) fun pane m' hm => ?_
    subst hm
    cases pane with
    | none => exact hgive none
    | some pane =>
      refine Prog.Follows.bind (R := fun found m' => m' =
        { m with pane := some pane, lost := !found })
        (follows_paneExists rfl fun _ => rfl) fun found m' hm => ?_
      subst hm
      cases found with
      | false => exact hgive (some pane)
      | true =>
        refine Prog.Follows.bind ((follows_isPaneBusy pane).mono (fun _ _ h => h) ?_)
          fun busy m' hm => ?_
        · rintro _ m' rfl
          exact ⟨hrows, hsettled⟩
        · subst hm
          show Prog.Follows _ _ _ (if busy = true then _ else _) _
          split
          · exact ⟨hrows, hsettled⟩
          · refine ⟨trivial, ?_⟩
            intro repo _
            exact follows_sendWake pane _ hrows hrow hwake hclaimed hstate hattempts

theorem follows_driveDelivery (hm : m.Between (job :: rows)) :
    (driveDelivery cfg job).Follows (turnMonitor cfg) (fun _ => Turn.Between rows)
      (fun _ => Turn.Between rows) m := by
  refine ⟨hm.2, ?_⟩
  intro now _
  have hnext : m.next .time now = { rows := rows, row := some job, now := now } := by
    show ({ rows := m.rows.tail, row := m.rows.head?, now := now } : Turn) = _
    rw [hm.1]
    rfl
  show Prog.Follows _ _ _ _ (m.next .time now)
  rw [hnext]
  have hrest : ({ rows := rows, row := some job, now := now } : Turn).Between rows :=
    ⟨rfl, Turn.settled_of_ready rfl⟩
  have hclaim : ({ rows := rows, row := some job, now := now } : Turn).due cfg job = true →
      (claimAndFallback cfg job).Follows (turnMonitor cfg) (fun _ => Turn.Between rows)
        (fun _ => Turn.Between rows) { rows := rows, row := some job, now := now } := fun hdue =>
    follows_claimAndFallback rfl rfl rfl hdue
  simp only [Prog.ret_bind]
  split_ifs with hrep hund hfb hauto hexp hattempts
  · exact hrest
  · exact hrest
  · refine (follows_attemptFallbackNotify rfl rfl rfl (by simp [Turn.due, hfb])).mono ?_ ?_
    · rintro _ m' rfl
      exact hrest
    · rintro _ m' rfl
      exact hrest
  · exact hclaim (by simp [Turn.due, hauto])
  · have hexp : ({ rows := rows, row := some job, now := now } : Turn).expired cfg job = true :=
      decide_eq_true hexp
    exact hclaim (by simp [Turn.due, hexp])
  · have hwake := follows_tryWake (m := { rows := rows, row := some job, now := now }) rfl rfl rfl
      rfl hfb hattempts
    exact hwake.bind fun _ _ hm => hm
  · exact hrest

theorem follows_tick (hm : m.Settled) :
    (tick cfg).Follows (turnMonitor cfg) (fun _ => Turn.Settled) (fun _ _ => True) m := by
  refine ⟨hm, ?_⟩
  intro rows _
  refine (Prog.follows_forEach (J := Turn.Between) (E := fun _ _ => True)
    (fun job rows m hm => ?_) rows _ ⟨rfl, Turn.settled_of_ready rfl⟩).mono
    (fun _ _ hm => hm.2) fun _ _ _ => trivial
  exact (follows_driveDelivery hm).tryCatch fun _ _ hm => hm

end Programs

/-! ## The listed rows and the database -/

section Rows

variable {o : Op} {i : Inputs} {w : World} {j : ℕ} {job : Job}

/-- Only `incr_wake_attempts` and a requeue write `wake_attempts`. -/
theorem wakeAttempts_exec (hincr : o ≠ .incrWakeAttempts j)
    (hq : ∀ current result, o ≠ .updateJobState j current .queued result) {r : Job}
    (hr : w.db.getJob j = some r) :
    ∃ r', (exec o i w).2.db.getJob j = some r' ∧ r'.wakeAttempts = r.wakeAttempts := by
  obtain ⟨r', hr', hs⟩ := exec_job o i hr
  refine ⟨r', hr', ?_⟩
  have hid := Db.getJob_id hr
  cases hs with
  | transition current new result =>
    have hn : new ≠ .queued := by
      rintro rfl
      exact hq current result (by rw [hid])
    simp only [Job.transition, if_neg hn]
  | attempt => exact absurd (by rw [hid]) hincr
  | _ => rfl

/-- Only `claim_for_fallback` writes `fallback`. -/
theorem fallback_exec (hclaim : o ≠ .claimForFallback j) {r : Job}
    (hr : w.db.getJob j = some r) :
    ∃ r', (exec o i w).2.db.getJob j = some r' ∧
      (r'.wakeState = some .fallback → r.wakeState = some .fallback) := by
  obtain ⟨r', hr', hs⟩ := exec_job o i hr
  refine ⟨r', hr', ?_⟩
  intro hw
  cases hs with
  | transition current new result =>
    by_cases hn : new = .queued
    · simp [Job.transition, hn] at hw
    · simpa [Job.transition, hn] using hw
  | claim => exact absurd (by rw [Db.getJob_id hr]) hclaim
  | wake | undeliverable => cases hw
  | _ => exact hw

/-- What the Supervisor relies on while it works on a row. -/
theorem row_exec (hclaim : o ≠ .claimForFallback j)
    (hq : ∀ current result, o ≠ .updateJobState j current .queued result) {r : Job}
    (hr : w.db.getJob j = some r) :
    ∃ r', (exec o i w).2.db.getJob j = some r' ∧
      (o ≠ .incrWakeAttempts j → r'.wakeAttempts = r.wakeAttempts) ∧
      (r'.wakeState = some .fallback → r.wakeState = some .fallback) := by
  obtain ⟨r', hr', hw⟩ := fallback_exec hclaim (i := i) hr
  refine ⟨r', hr', ?_, hw⟩
  intro hincr
  obtain ⟨r'', hr'', hatt⟩ := wakeAttempts_exec hincr hq (i := i) hr
  rw [hr'] at hr''
  cases hr''
  exact hatt

/-- A claim that is lost changes nothing. -/
theorem claim_lost (h : (w.db.claimForFallback j).1 = false) :
    (exec (.claimForFallback j) i w).2 = w := by
  have hdb : (w.db.claimForFallback j).2 = w.db := by
    unfold Db.claimForFallback at h ⊢
    split at h
    · split_ifs at h with hp
      rw [if_neg hp]
    · rfl
  simp only [exec, World.logIf, h, hdb]
  rfl

/-- The row in the database still has the wake counter of the listed one, and is
    in `fallback` only if that is. -/
def World.AsListed (w : World) (job : Job) : Prop :=
  ∃ r, w.db.getJob job.id = some r ∧ r.wakeAttempts = job.wakeAttempts ∧
    (r.wakeState = some .fallback → job.wakeState = some .fallback)

theorem World.AsListed.exec (h : w.AsListed job) (hincr : o ≠ .incrWakeAttempts job.id)
    (hclaim : o ≠ .claimForFallback job.id)
    (hq : ∀ current result, o ≠ .updateJobState job.id current .queued result) :
    (exec o i w).2.AsListed job := by
  obtain ⟨r, hr, hatt, hw⟩ := h
  obtain ⟨r', hr', hatt', hw'⟩ := row_exec hclaim hq (i := i) hr
  exact ⟨r', hr', (hatt' hincr).trans hatt, fun hf => hw (hw' hf)⟩

/-- The same for the row that has its turn, as far as its turn has not changed
    it. -/
def World.InTurn (w : World) (m : Turn) (job : Job) : Prop :=
  ∃ r, w.db.getJob job.id = some r ∧
    (m.wake.uncounted = true → r.wakeAttempts = job.wakeAttempts) ∧
    (r.wakeState = some .fallback → job.wakeState = some .fallback ∨ m.claimed = true)

end Rows

namespace Turn

variable {cfg : Settings} {m : Turn} {o : Op}

/-- What only listing, reading the time and claiming change. -/
theorem next_same (hlist : o ≠ .listUndeliveredTerminalJobs) (htime : o ≠ .time)
    (hclaim : ∀ j, o ≠ .claimForFallback j) (r : o.Res) :
    (m.next o r).rows = m.rows ∧ (m.next o r).row = m.row ∧ (m.next o r).claimed = m.claimed := by
  cases o with
  | listUndeliveredTerminalJobs => exact absurd rfl hlist
  | time => exact absurd rfl htime
  | claimForFallback j => exact absurd rfl (hclaim j)
  | tmux cmd => cases cmd <;> exact ⟨rfl, rfl, rfl⟩
  | _ => exact ⟨rfl, rfl, rfl⟩

/-- A wake that is not counted was not counted before, and is not being
    counted. -/
theorem uncounted_of_next (hok : m.ok cfg o) (hlist : o ≠ .listUndeliveredTerminalJobs)
    (htime : o ≠ .time) {r : o.Res} (hu : (m.next o r).wake.uncounted = true) :
    m.wake.uncounted = true ∧ ∀ j, o ≠ .incrWakeAttempts j := by
  cases o with
  | listUndeliveredTerminalJobs => exact absurd rfl hlist
  | time => exact absurd rfl htime
  | incrWakeAttempts j => cases hu
  | markWoken j => cases hu
  | tmux cmd =>
    refine ⟨?_, fun _ => by simp⟩
    cases cmd with
    | sendText pane j msg =>
      rw [hok.1]
      rfl
    | sendEnter pane =>
      rw [hok.1]
      rfl
    | _ => exact hu
  | _ => exact ⟨hu, fun _ => by simp⟩

/-- The state after the next event: a phase starts from the empty one. -/
def update (c : Sys) (e : Event) (m : Turn) : Turn :=
  match e with
  | .run .daemon i =>
    if c.shared.phase = .supervisor then
      ((c.next? .daemon).map fun o => m.next o (exec o i c.shared).1).getD m
    else m
  | .next | .restart _ => {}
  | _ => m

theorem update_daemon {c : Sys} {i : Inputs} (hp : c.shared.phase = .supervisor)
    (hn : c.next? .daemon = some o) :
    update c (.run .daemon i) m = m.next o (exec o i c.shared).1 := by
  show (if c.shared.phase = .supervisor then
    ((c.next? .daemon).map fun o => m.next o (exec o i c.shared).1).getD m else m) = _
  rw [if_pos hp, hn]
  rfl

end Turn

namespace Sys

variable {cfg : Settings} {c c' : Sys} {e : Event} {m : Turn}

/-- The daemon follows the tick, and the database agrees with what it has
    listed. -/
structure TurnInv (cfg : Settings) (c : Sys) (m : Turn) : Prop where
  footprint : c.Footprint
  follows : c.shared.phase = .supervisor →
    (c.prog .daemon).Follows (turnMonitor cfg) (fun _ => Turn.Settled) (fun _ _ => True) m
  idle : c.shared.phase ≠ .supervisor → m = {}
  nodup : ((m.row.toList ++ m.rows).map Job.id).Nodup
  rows : ∀ job ∈ m.rows, c.shared.AsListed job
  row : ∀ job, m.row = some job → c.shared.InTurn m job

namespace TurnInv

/-- The operation of the daemon is allowed. -/
theorem ok (hi : TurnInv cfg c m) (hp : c.shared.phase = .supervisor) {o : Op}
    (hn : c.next? .daemon = some o) : m.ok cfg o := by
  obtain ⟨k, hprog⟩ := Pool.exists_of_next? hn
  have hfol := hi.follows hp
  rw [hprog] at hfol
  exact hfol.1

/-- The row that has its turn is not among those still to come. -/
theorem ne_of_mem (hi : TurnInv cfg c m) {j : ℕ} (hj : m.Of j) {job : Job} (hm : job ∈ m.rows) :
    job.id ≠ j := by
  obtain ⟨row, hrow, rfl⟩ := hj
  have hnd := hi.nodup
  rw [hrow, Option.toList_some, List.singleton_append, List.map_cons, List.nodup_cons] at hnd
  intro heq
  apply hnd.1
  rw [← heq]
  exact List.mem_map_of_mem hm

/-- Nothing is listed. -/
theorem new (hf : c.Footprint) (hfol : c.shared.phase = .supervisor →
    (c.prog .daemon).Follows (turnMonitor cfg) (fun _ => Turn.Settled) (fun _ _ => True) {}) :
    TurnInv cfg c {} where
  footprint := hf
  follows := hfol
  idle _ := rfl
  nodup := List.nodup_nil
  rows job hm := by cases hm
  row job hrow := by cases hrow

theorem boot (cfg : Settings) (db : Db) (environ : Environ) :
    TurnInv cfg (Sys.boot db environ) {} := .new (footprint_boot db environ) fun hp => by cases hp

/-- A step that leaves the tick where it is. -/
theorem keep (hi : TurnInv cfg c m) (hf : c'.Footprint)
    (hphase : c'.shared.phase = c.shared.phase) (hprog : c'.prog .daemon = c.prog .daemon)
    (hrows : ∀ job ∈ m.rows, c'.shared.AsListed job)
    (hrow : ∀ job, m.row = some job → c'.shared.InTurn m job) : TurnInv cfg c' m where
  footprint := hf
  follows hp := by
    rw [hphase] at hp
    rw [hprog]
    exact hi.follows hp
  idle hp := by
    rw [hphase] at hp
    exact hi.idle hp
  nodup := hi.nodup
  rows := hrows
  row := hrow

/-- An operation of another thread. -/
theorem other (hi : TurnInv cfg c m) {t : Tid} {i : Inputs} (ht : t ≠ .daemon)
    (h : Sys.step cfg c (.run t i) = some c') : TurnInv cfg c' m := by
  obtain ⟨o, -, -, hn, hs, -, hother⟩ := Pool.step_cases h
  have hperf := hi.footprint.next? hn
  have hq := ne_requeue_of_other ht hperf
  have hincr : ∀ j, o ≠ .incrWakeAttempts j := by
    rintro j rfl
    exact ht (home_of_performs hperf rfl).1
  have hclaim : ∀ j, o ≠ .claimForFallback j := by
    rintro j rfl
    exact ht (home_of_performs hperf rfl).1
  refine hi.keep (hi.footprint.step h) (by rw [hs, exec_phase]) (hother _ (Ne.symm ht)) ?_ ?_
  · intro job hm
    rw [hs]
    exact (hi.rows job hm).exec (hincr _) (hclaim _) (hq _)
  · intro job hrow
    rw [hs]
    obtain ⟨r, hr, hatt, hw⟩ := hi.row job hrow
    obtain ⟨r', hr', hatt', hw'⟩ := row_exec (hclaim job.id) (hq job.id) (i := i) hr
    exact ⟨r', hr', fun hu => (hatt' (hincr job.id)).trans (hatt hu), fun hf => hw (hw' hf)⟩

/-- The Supervisor never requeues. -/
theorem ne_requeue_of_supervisor {o : Op} (h : Phase.supervisor.performs o) (j : ℕ)
    (current : JobState) (result : Option String) :
    o ≠ .updateJobState j current .queued result := by
  rintro rfl
  simp [Phase.performs, Op.isRead] at h

/-- An operation that neither lists, reads the time nor claims. -/
theorem act (hi : TurnInv cfg c m) {i : Inputs} {o : Op} (hp : c.shared.phase = .supervisor)
    (hn : c.next? .daemon = some o) (hlist : o ≠ .listUndeliveredTerminalJobs) (htime : o ≠ .time)
    (hclaim : ∀ j, o ≠ .claimForFallback j) (r : o.Res) :
    (∀ job ∈ (m.next o r).rows, (exec o i c.shared).2.AsListed job) ∧
      (∀ job, (m.next o r).row = some job → (exec o i c.shared).2.InTurn (m.next o r) job) := by
  have hperf : c.shared.phase.performs o := hi.footprint.next? hn
  rw [hp] at hperf
  have hq := ne_requeue_of_supervisor hperf
  have hok := hi.ok hp hn
  obtain ⟨hrows, hrow, hclaimed⟩ := Turn.next_same (m := m) hlist htime hclaim r
  constructor
  · intro job hm
    rw [hrows] at hm
    refine (hi.rows job hm).exec ?_ (hclaim _) (hq _)
    rintro rfl
    exact hi.ne_of_mem hok.2.of hm rfl
  · intro job hjob
    rw [hrow] at hjob
    obtain ⟨r₀, hr, hatt, hw⟩ := hi.row job hjob
    obtain ⟨r', hr', hatt', hw'⟩ := row_exec (hclaim job.id) (hq job.id) (i := i) hr
    refine ⟨r', hr', ?_, ?_⟩
    · intro hu
      obtain ⟨hu, hincr⟩ := Turn.uncounted_of_next hok hlist htime hu
      exact (hatt' (hincr job.id)).trans (hatt hu)
    · intro hf
      rw [hclaimed]
      exact hw (hw' hf)

/-- The claim of the row that has its turn. -/
theorem claim (hi : TurnInv cfg c m) {i : Inputs} {j : ℕ} (hp : c.shared.phase = .supervisor)
    (hn : c.next? .daemon = some (.claimForFallback j)) {won : Bool}
    (hwon : (c.shared.db.claimForFallback j).1 = won) :
    (∀ job ∈ m.rows, (exec (.claimForFallback j) i c.shared).2.AsListed job) ∧
      (∀ job, m.row = some job →
        (exec (.claimForFallback j) i c.shared).2.InTurn
          { m with claimed := m.claimed || won } job) := by
  have hperf : c.shared.phase.performs (.claimForFallback j) := hi.footprint.next? hn
  rw [hp] at hperf
  have hq := ne_requeue_of_supervisor hperf
  obtain ⟨job₀, hrow, hid, -, -⟩ := hi.ok hp hn
  constructor
  · intro job hm
    refine (hi.rows job hm).exec (by simp) ?_ (hq _)
    intro heq
    cases heq
    exact hi.ne_of_mem ⟨job₀, hrow, hid⟩ hm rfl
  · intro job hjob
    obtain ⟨r, hr, hatt, hw⟩ := hi.row job hjob
    cases won with
    | true =>
      obtain ⟨r', hr', hatt'⟩ := wakeAttempts_exec (o := .claimForFallback j) (by simp) (hq job.id)
        (i := i) hr
      exact ⟨r', hr', fun hu => hatt'.trans (hatt hu), fun _ => .inr (Bool.or_true _)⟩
    | false =>
      rw [claim_lost hwon, Bool.or_false]
      exact ⟨r, hr, hatt, hw⟩

/-- The next row gets its turn. -/
theorem pop (hi : TurnInv cfg c m) {now : ℚ} :
    (((m.next .time now).row.toList ++ (m.next .time now).rows).map Job.id).Nodup ∧
      (∀ job ∈ (m.next .time now).rows, c.shared.AsListed job) ∧
      ∀ job, (m.next .time now).row = some job → c.shared.InTurn (m.next .time now) job := by
  have hrows : (m.next .time now).row.toList ++ (m.next .time now).rows = m.rows := by
    show m.rows.head?.toList ++ m.rows.tail = m.rows
    cases m.rows <;> rfl
  refine ⟨?_, ?_, ?_⟩
  · rw [hrows]
    have hnd := hi.nodup
    rw [List.map_append] at hnd
    exact (List.nodup_append.mp hnd).2.1
  · intro job hm
    exact hi.rows job (List.mem_of_mem_tail hm)
  · intro job hrow
    have hm : job ∈ m.rows := List.mem_of_mem_head? hrow
    obtain ⟨r, hr, hatt, hw⟩ := hi.rows job hm
    exact ⟨r, hr, fun _ => hatt, fun hf => .inl (hw hf)⟩

/-- An operation of the daemon. -/
theorem daemon (hi : TurnInv cfg c m) {i : Inputs} (h : Sys.step cfg c (.run .daemon i) = some c') :
    TurnInv cfg c' (Turn.update c (.run .daemon i) m) := by
  obtain ⟨o, -, -, hn, hs, -, -⟩ := Pool.step_cases h
  have hf := hi.footprint.step h
  have hphase : c'.shared.phase = c.shared.phase := by rw [hs, exec_phase]
  by_cases hp : c.shared.phase = .supervisor
  · rw [Turn.update_daemon hp hn]
    have hfol : c'.shared.phase = .supervisor → (c'.prog .daemon).Follows (turnMonitor cfg)
        (fun _ => Turn.Settled) (fun _ _ => True) (m.next o (exec o i c.shared).1) := fun _ =>
      (Pool.follows_step h hn (turnMonitor_answers cfg o i c.shared) (hi.follows hp)).2
    have hidle : c'.shared.phase ≠ .supervisor → m.next o (exec o i c.shared).1 = {} := by
      intro hne
      rw [hphase] at hne
      exact absurd hp hne
    suffices hrest : (((m.next o (exec o i c.shared).1).row.toList ++
        (m.next o (exec o i c.shared).1).rows).map Job.id).Nodup ∧
        (∀ job ∈ (m.next o (exec o i c.shared).1).rows, c'.shared.AsListed job) ∧
        ∀ job, (m.next o (exec o i c.shared).1).row = some job →
          c'.shared.InTurn (m.next o (exec o i c.shared).1) job from
      ⟨hf, hfol, hidle, hrest.1, hrest.2.1, hrest.2.2⟩
    rw [hs]
    by_cases hlist : o = .listUndeliveredTerminalJobs
    · subst hlist
      refine ⟨nodup_undelivered c.shared.db, fun job hm => ?_, fun job hrow => by cases hrow⟩
      exact ⟨job, (mem_undelivered hm).1, rfl, id⟩
    by_cases htime : o = .time
    · subst htime
      exact hi.pop
    by_cases hclaim : ∃ j, o = .claimForFallback j
    · obtain ⟨j, rfl⟩ := hclaim
      obtain ⟨hrows, hrow⟩ := hi.claim (i := i) hp hn rfl
      exact ⟨hi.nodup, hrows, hrow⟩
    · have hclaim : ∀ j, o ≠ .claimForFallback j := fun j ho => hclaim ⟨j, ho⟩
      obtain ⟨hrows, hrow, -⟩ := Turn.next_same (m := m) hlist htime hclaim (exec o i c.shared).1
      refine ⟨?_, hi.act hp hn hlist htime hclaim _⟩
      rw [hrows, hrow]
      exact hi.nodup
  · have hm := hi.idle hp
    subst hm
    have hup : Turn.update c (.run .daemon i) {} = {} := if_neg hp
    rw [hup]
    refine .new hf ?_
    intro hp'
    rw [hphase] at hp'
    exact absurd hp' hp

/-- Along every run the tick is what `Turn` says. -/
theorem step (hi : TurnInv cfg c m) (h : Sys.step cfg c e = some c') :
    TurnInv cfg c' (Turn.update c e m) := by
  have hf := hi.footprint.step h
  cases e with
  | run t i =>
    cases t with
    | daemon => exact hi.daemon h
    | reader a => exact hi.other (by simp) h
    | cli n => exact hi.other (by simp) h
  | next =>
    obtain ⟨p, -, -, rfl⟩ := step_next h
    refine .new hf ?_
    intro hp
    have hp : p = .supervisor := hp
    subst hp
    rw [Pool.load_prog_self]
    exact (follows_tick (Turn.settled_of_ready rfl)).bind fun _ _ hm => hm
  | exit a code result rl =>
    obtain ⟨w, -, -, rfl⟩ := step_exit h
    exact hi.keep hf rfl (Pool.load_prog_of_ne _ _ (by simp)) hi.rows hi.row
  | invoke n cmd =>
    cases h
    exact hi.keep hf rfl (Pool.load_prog_of_ne _ _ (by simp)) hi.rows hi.row
  | restart environ =>
    cases h
    exact .new hf fun hp => by cases hp

end TurnInv

/-! ## Concrete ticks -/

/-- The default configuration with `--auto-wake`. -/
def waking : Settings := { Settings.plain with autoWake := true }

/-- A tick lists its only job at time `now`, finds the Controller idle in pane
    `%3`, types the text and gets this answer for Enter. -/
def wakeTurn (now : ℚ) (enter : TmuxResult) : List Event :=
  daemonSteps 2 { now := now } ++ [.run .daemon { now := now, paneFile := .ok "%3" }] ++
    daemonSteps 1 { now := now, tmux := .ok "%3" } ++
    daemonSteps 1 { now := now, tmux := .ok "0" } ++
    daemonSteps 1 { now := now, tmux := .ok "claude>" } ++ daemonSteps 2 { now := now } ++
    daemonSteps 1 { now := now, tmux := enter }

/-- The daemon sleeps and goes on to its next Supervisor phase; `n` is the number
    of operations of its watchdog phase. -/
def nextTick (now : ℚ) (n : ℕ) : List Event :=
  [.next, .next] ++ daemonSteps 1 { now := now } ++ [.next] ++ daemonSteps 2 { now := now } ++
    [.next] ++ daemonSteps 2 { now := now } ++ [.next] ++ daemonSteps n { now := now } ++ [.next]

end Sys

end DiscordAgent
