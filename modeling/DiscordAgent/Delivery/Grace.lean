import DiscordAgent.Delivery.Turns

/-!
# The grace period of a woken Controller

`_drive_delivery` counts the grace period from `terminal_at`, not from the wake,
and `_try_wake` falls back at once when the pane is gone. A Controller that was
woken late in the period, or whose pane is missing in a later tick, does not get
the time that it was given.

Results:
* `Sys.grace_kept`: along every run in which no tick finds the period expired or
  the pane missing for a job that was woken less than `wake_grace_seconds` ago,
  every fallback is posted more than `wake_grace_seconds` after the last wake.
* `Sys.grace_cut`: a Controller that was busy for the first 80 of 90 seconds is
  posted for 11 seconds after its wake.
-/

namespace DiscordAgent

open Interleave Supervisor

/-- Only a claim puts a row into `fallback`, and no row is created there. -/
theorem fallback_stored {o : Op} {i : Inputs} {w : World} {j : ℕ} {r' : Job}
    (hclaim : o ≠ .claimForFallback j) (hr' : (exec o i w).2.db.getJob j = some r')
    (hf : r'.wakeState = some .fallback) :
    ∃ r, w.db.getJob j = some r ∧ r.wakeState = some .fallback := by
  cases hr : w.db.getJob j with
  | none =>
    obtain ⟨n, -, -, hrow⟩ := exec_newJob hr hr'
    rw [hrow] at hf
    cases hf
  | some r =>
    obtain ⟨r'', hr'', hw⟩ := fallback_exec hclaim (i := i) hr
    rw [hr'] at hr''
    cases hr''
    exact ⟨r, rfl, hw hf⟩

/-- The operations whose answer decides on an immediate fallback: the time, the
    pane file and the list of the panes. -/
def Op.decides : Op → Bool
  | .time | .readPaneFile | .tmux .listPanes => true
  | _ => false

namespace Turn

variable {cfg : Settings} {m : Turn} {o : Op} {job : Job}

/-- The tick may fall back for a row that nobody has claimed yet. -/
def gives (cfg : Settings) (m : Turn) (job : Job) : Bool := m.expired cfg job || m.lost

theorem due_iff (hauto : cfg.autoWake = true) :
    m.due cfg job = true ↔
      job.wakeState = some .fallback ∨ m.claimed = true ∨ m.gives cfg job = true := by
  unfold due gives
  rw [hauto]
  simp only [Bool.not_true, Bool.false_or, Bool.or_eq_true, beq_iff_eq]
  tauto

/-- The other operations make no turn due. -/
theorem due_of_next (hok : m.ok cfg o) (hd : o.decides = false) {r : o.Res}
    (hrow : (m.next o r).row = some job) (hwake : (m.next o r).wake = .ready)
    (hdue : (m.next o r).due cfg job = true) :
    m.row = some job ∧ m.wake = .ready ∧ m.due cfg job = true := by
  cases o with
  | listUndeliveredTerminalJobs => cases hrow
  | time | readPaneFile => cases hd
  | incrWakeAttempts j | markWoken j => cases hwake
  | claimForFallback j =>
    obtain ⟨job', hrow', -, hwake', hdue'⟩ := hok
    have hrow : m.row = some job := hrow
    rw [hrow] at hrow'
    cases hrow'
    exact ⟨hrow, hwake', hdue'⟩
  | tmux cmd =>
    cases cmd with
    | listPanes => cases hd
    | sendText pane j msg =>
      have hsent : sent .typed r = .ready := hwake
      cases r <;> cases hsent
    | sendEnter pane =>
      have hsent : sent .entered r = .ready := hwake
      cases r <;> cases hsent
    | _ => exact ⟨hrow, hwake, hdue⟩
  | _ => exact ⟨hrow, hwake, hdue⟩

/-- What an answer that does not give up leaves due was so before. -/
theorem due_of_decides (hauto : cfg.autoWake = true) (hd : o.decides = true) {r : o.Res}
    (hrow : (m.next o r).row = some job) (hwake : (m.next o r).wake = .ready)
    (hdue : (m.next o r).due cfg job = true) (hgives : (m.next o r).gives cfg job = false) :
    (job ∈ m.rows ∧ job.wakeState = some .fallback) ∨
      (m.row = some job ∧ m.wake = .ready ∧ m.due cfg job = true) := by
  have hleft : job.wakeState = some .fallback ∨ (m.next o r).claimed = true := by
    rw [due_iff hauto, hgives] at hdue
    simpa using hdue
  cases o with
  | time =>
    left
    refine ⟨List.mem_of_mem_head? hrow, ?_⟩
    rcases hleft with hf | hclaimed
    · exact hf
    · cases hclaimed
  | readPaneFile =>
    right
    exact ⟨hrow, hwake, (due_iff hauto).mpr (hleft.imp_right .inl)⟩
  | tmux cmd =>
    cases cmd with
    | listPanes =>
      right
      exact ⟨hrow, hwake, (due_iff hauto).mpr (hleft.imp_right .inl)⟩
    | _ => cases hd
  | _ => cases hd

end Turn

namespace Sys

/-- The tick, the time of the last successful wake of each job in its current
    episode, and the last time on the daemon's clock. -/
structure Grace where
  turn : Turn := {}
  wokenAt : ℕ → Option ℚ := fun _ => none
  clock : ℚ := 0

namespace Grace

/-- The wakes after an operation of the daemon: an Enter that succeeds wakes the
    Controller for the row that has its turn, and a requeue starts a new episode. -/
def wake (g : Grace) (i : Inputs) : Op → ℕ → Option ℚ
  | .tmux (.sendEnter _) =>
    if i.tmux.isOk then
      g.turn.row.elim g.wokenAt fun job => Function.update g.wokenAt job.id (some i.now)
    else g.wokenAt
  | .updateJobState j _ .queued _ => Function.update g.wokenAt j none
  | _ => g.wokenAt

theorem wake_cases (g : Grace) (i : Inputs) (o : Op) (j : ℕ) :
    g.wake i o j = g.wokenAt j ∨ g.wake i o j = none ∨
      ∃ pane, o = .tmux (.sendEnter pane) ∧ g.turn.Of j := by
  unfold wake
  split
  · next pane =>
    split_ifs with hok
    · cases hrow : g.turn.row with
      | none => exact .inl rfl
      | some job =>
        by_cases hj : j = job.id
        · exact .inr (.inr ⟨pane, rfl, job, hrow, hj.symm⟩)
        · exact .inl (Function.update_of_ne hj ..)
    · exact .inl rfl
  · next k current result =>
    by_cases hj : j = k
    · subst hj
      exact .inr (.inl (Function.update_self ..))
    · exact .inl (Function.update_of_ne hj ..)
  · exact .inl rfl

/-- The history after the next event. The other threads neither send keys nor
    requeue. -/
def update (c : Sys) (e : Event) (g : Grace) : Grace where
  turn := g.turn.update c e
  wokenAt :=
    match e with
    | .run .daemon i => ((c.next? .daemon).map (g.wake i)).getD g.wokenAt
    | _ => g.wokenAt
  clock :=
    match e with
    | .run .daemon i => i.now
    | _ => g.clock

/-- At time `now` the Controller has had its time for job `j`. -/
def elapsed (cfg : Settings) (g : Grace) (j : ℕ) (now : ℚ) : Bool :=
  (g.wokenAt j).all fun woken => decide (woken + cfg.wakeGraceSeconds < now)

/-- The Controller has had its time for job `j`. -/
def Past (cfg : Settings) (g : Grace) (j : ℕ) : Prop := g.elapsed cfg j g.clock = true

end Grace

/-- The daemon's clock does not go back. -/
def clockForward (s : Sys × Grace) : Event → Bool
  | .run .daemon i => decide (s.2.clock ≤ i.now)
  | _ => true

/-- The clock does not go back, and no tick finds the grace period of a row
    expired or its pane missing while the Controller still has time for it. -/
def afterGrace (cfg : Settings) (s : Sys × Grace) (e : Event) : Bool :=
  clockForward s e &&
    match e with
    | .run .daemon i =>
      (s.1.next? .daemon).all fun o => !o.decides || (s.2.turn.update s.1 e).row.all fun job =>
        !(s.2.turn.update s.1 e).gives cfg job || s.2.elapsed cfg job.id i.now
    | _ => true

variable {cfg : Settings} {c c' : Sys} {e : Event} {g : Grace} {j : ℕ}

theorem Grace.elapsed_mono {g' : Grace} {now now' : ℚ} (h : g.elapsed cfg j now = true)
    (hw : g'.wokenAt j = g.wokenAt j ∨ g'.wokenAt j = none) (hnow : now ≤ now') :
    g'.elapsed cfg j now' = true := by
  unfold elapsed at h ⊢
  rcases hw with hw | hw
  · rw [hw]
    cases hj : g.wokenAt j with
    | none => rfl
    | some woken =>
      rw [hj, Option.all_some, decide_eq_true_iff] at h
      rw [Option.all_some, decide_eq_true_iff]
      exact lt_of_lt_of_le h hnow
  · rw [hw]
    rfl

/-- Where a fallback has been claimed, is listed or is due, the Controller has
    had its time. -/
structure GraceInv (cfg : Settings) (c : Sys) (g : Grace) : Prop where
  turn : TurnInv cfg c g.turn
  stored : ∀ j r, c.shared.db.getJob j = some r → r.wakeState = some .fallback → g.Past cfg j
  listed : ∀ job ∈ g.turn.rows, job.wakeState = some .fallback → g.Past cfg job.id
  due : ∀ job, g.turn.row = some job → g.turn.wake = .ready → g.turn.due cfg job = true →
    g.Past cfg job.id

namespace GraceInv

theorem boot (cfg : Settings) (db : Db) (environ : Environ) :
    GraceInv cfg (Sys.boot db environ) {} where
  turn := .boot cfg db environ
  stored _ _ _ _ := rfl
  listed _ hm := by cases hm
  due _ hrow := by cases hrow

/-- An event of another thread, or one that is no operation. -/
theorem keep (hi : GraceInv cfg c g) {m : Turn} (ht : TurnInv cfg c' m)
    (hdb : ∀ k r', c'.shared.db.getJob k = some r' → r'.wakeState = some .fallback →
      ∃ r, c.shared.db.getJob k = some r ∧ r.wakeState = some .fallback)
    (hm : m = g.turn ∨ m = {}) : GraceInv cfg c' ⟨m, g.wokenAt, g.clock⟩ where
  turn := ht
  stored k r' hr' hf := by
    obtain ⟨r, hr, hf⟩ := hdb k r' hr' hf
    exact hi.stored k r hr hf
  listed job hmem hf := by
    rcases hm with rfl | rfl
    · exact hi.listed job hmem hf
    · cases hmem
  due job hrow hwake hdue := by
    rcases hm with rfl | rfl
    · exact hi.due job hrow hwake hdue
    · cases hrow

/-- An operation of another thread. -/
theorem other (hi : GraceInv cfg c g) {t : Tid} {i : Inputs} (ht : t ≠ .daemon)
    (h : Sys.step cfg c (.run t i) = some c') :
    GraceInv cfg c' (Grace.update c (.run t i) g) := by
  have hturn := hi.turn.step h
  obtain ⟨o, -, -, hn, hs, -, -⟩ := Pool.step_cases h
  have hperf := hi.turn.footprint.next? hn
  have hclaim : ∀ k, o ≠ .claimForFallback k := by
    rintro k rfl
    exact ht (home_of_performs hperf rfl).1
  have hdb : ∀ k r', c'.shared.db.getJob k = some r' → r'.wakeState = some .fallback →
      ∃ r, c.shared.db.getJob k = some r ∧ r.wakeState = some .fallback := by
    intro k r' hr' hf
    rw [hs] at hr'
    exact fallback_stored (hclaim k) hr' hf
  cases t with
  | daemon => exact absurd rfl ht
  | _ => exact hi.keep hturn hdb (.inl rfl)

section Daemon

variable {i : Inputs} {o : Op}

/-- Only an Enter wakes, and only for the row that has its turn. -/
theorem woken_run (hn : c.next? .daemon = some o)
    (hj : ∀ pane, o = .tmux (.sendEnter pane) → ¬ g.turn.Of j) :
    (Grace.update c (.run .daemon i) g).wokenAt j = g.wokenAt j ∨
      (Grace.update c (.run .daemon i) g).wokenAt j = none := by
  have hwoken : (Grace.update c (.run .daemon i) g).wokenAt = g.wake i o := by
    show ((c.next? .daemon).map (g.wake i)).getD g.wokenAt = _
    rw [hn]
    rfl
  rw [hwoken]
  rcases g.wake_cases i o j with hw | hw | ⟨pane, ho, hof⟩
  · exact .inl hw
  · exact .inr hw
  · exact absurd hof (hj pane ho)

theorem past_run (hn : c.next? .daemon = some o)
    (hclock : clockForward (c, g) (.run .daemon i) = true)
    (hj : ∀ pane, o = .tmux (.sendEnter pane) → ¬ g.turn.Of j) (h : g.Past cfg j) :
    (Grace.update c (.run .daemon i) g).Past cfg j :=
  Grace.elapsed_mono h (woken_run hn hj) (of_decide_eq_true hclock)

/-- A phase that is not the Supervisor's. -/
theorem elsewhere (hi : GraceInv cfg c g) (hp : c.shared.phase ≠ .supervisor)
    (hclock : clockForward (c, g) (.run .daemon i) = true)
    (h : Sys.step cfg c (.run .daemon i) = some c') :
    GraceInv cfg c' (Grace.update c (.run .daemon i) g) := by
  have hturn := hi.turn.step h
  obtain ⟨o, -, -, hn, hs, -, -⟩ := Pool.step_cases h
  have hperf := hi.turn.footprint.next? hn
  have hm : g.turn = {} := hi.turn.idle hp
  have hsame : (Grace.update c (.run .daemon i) g).turn = {} := by
    show g.turn.update c (.run .daemon i) = {}
    rw [hm]
    exact if_neg hp
  have hclaim : ∀ k, o ≠ .claimForFallback k := by
    rintro k rfl
    exact hp (home_of_performs hperf rfl).2
  refine ⟨hturn, ?_, ?_, ?_⟩
  · intro k r' hr' hf
    rw [hs] at hr'
    obtain ⟨r, hr, hf⟩ := fallback_stored (hclaim k) hr' hf
    refine past_run hn hclock ?_ (hi.stored k r hr hf)
    rintro pane - ⟨job, hrow, -⟩
    rw [hm] at hrow
    cases hrow
  · intro job hmem
    rw [hsame] at hmem
    cases hmem
  · intro job hrow
    rw [hsame] at hrow
    cases hrow

/-- The row that an Enter wakes is not in `fallback`. -/
theorem not_stored (hi : GraceInv cfg c g) (hok : g.turn.ok cfg o) {pane : String} {r : Job}
    (ho : o = .tmux (.sendEnter pane)) (hr : c.shared.db.getJob j = some r)
    (hf : r.wakeState = some .fallback) : ¬ g.turn.Of j := by
  subst ho
  intro hof
  obtain ⟨-, k, hun⟩ := hok
  obtain rfl := hof.unique hun.of
  obtain ⟨job, hrow, rfl, hstate, hclaimed⟩ := hun
  obtain ⟨r', hr', -, hw⟩ := hi.turn.row job hrow
  rw [hr] at hr'
  cases hr'
  rcases hw hf with hw | hw
  · exact hstate hw
  · rw [hclaimed] at hw
    cases hw

/-- Where `_drive_delivery` claims a fallback, the Controller has had its time. -/
theorem claim_stored (hi : GraceInv cfg c g) (hn : c.next? .daemon = some o)
    (hok : g.turn.ok cfg o) (hclock : clockForward (c, g) (.run .daemon i) = true) {r' : Job}
    (hr' : (exec o i c.shared).2.db.getJob j = some r') (hf : r'.wakeState = some .fallback) :
    (Grace.update c (.run .daemon i) g).Past cfg j := by
  by_cases hclaim : o = .claimForFallback j
  · subst hclaim
    obtain ⟨job, hrow, rfl, hwake, hdue⟩ := hok
    exact past_run hn hclock (by simp) (hi.due job hrow hwake hdue)
  · obtain ⟨r, hr, hf⟩ := fallback_stored hclaim hr' hf
    exact past_run hn hclock (fun _ ho => hi.not_stored hok ho hr hf) (hi.stored j r hr hf)

/-- A row that is listed has been stored, or was listed before. -/
theorem listed_next (hi : GraceInv cfg c g) (hn : c.next? .daemon = some o)
    (hok : g.turn.ok cfg o) (hclock : clockForward (c, g) (.run .daemon i) = true) {job : Job}
    (hm : job ∈ (g.turn.next o (exec o i c.shared).1).rows)
    (hf : job.wakeState = some .fallback) :
    (Grace.update c (.run .daemon i) g).Past cfg job.id := by
  have hrest : job ∈ g.turn.rows → (Grace.update c (.run .daemon i) g).Past cfg job.id := by
    intro hmem
    refine past_run hn hclock ?_ (hi.listed job hmem hf)
    intro pane _ hof
    exact hi.turn.ne_of_mem hof hmem rfl
  by_cases hlist : o = .listUndeliveredTerminalJobs
  · subst hlist
    have hmem : job ∈ c.shared.db.listUndeliveredTerminalJobs := hm
    exact past_run hn hclock (by simp) (hi.stored _ job (mem_undelivered hmem).1 hf)
  by_cases htime : o = .time
  · subst htime
    exact hrest (List.mem_of_mem_tail hm)
  · apply hrest
    cases o with
    | listUndeliveredTerminalJobs => exact absurd rfl hlist
    | time => exact absurd rfl htime
    | tmux cmd => cases cmd <;> exact hm
    | _ => exact hm

/-- A turn becomes due through an answer that gives up, or was due before. -/
theorem due_next (hi : GraceInv cfg c g) (hauto : cfg.autoWake = true)
    (hn : c.next? .daemon = some o) (hok : g.turn.ok cfg o)
    (hclock : clockForward (c, g) (.run .daemon i) = true) {job : Job}
    (hgives : o.decides = true → (g.turn.next o (exec o i c.shared).1).gives cfg job = true →
      g.elapsed cfg job.id i.now = true)
    (hrow : (g.turn.next o (exec o i c.shared).1).row = some job)
    (hwake : (g.turn.next o (exec o i c.shared).1).wake = .ready)
    (hdue : (g.turn.next o (exec o i c.shared).1).due cfg job = true) :
    (Grace.update c (.run .daemon i) g).Past cfg job.id := by
  by_cases hd : o.decides = true
  · have hne : ∀ pane, o ≠ .tmux (.sendEnter pane) := by
      rintro pane rfl
      cases hd
    have hj : ∀ pane, o = .tmux (.sendEnter pane) → ¬ g.turn.Of job.id := fun pane ho =>
      absurd ho (hne pane)
    by_cases hg : (g.turn.next o (exec o i c.shared).1).gives cfg job = true
    · exact Grace.elapsed_mono (hgives hd hg) (woken_run hn hj) le_rfl
    · rw [Bool.not_eq_true] at hg
      rcases Turn.due_of_decides hauto hd hrow hwake hdue hg with ⟨hm, hf⟩ | ⟨hrow, hwake, hdue⟩
      · exact past_run hn hclock hj (hi.listed job hm hf)
      · exact past_run hn hclock hj (hi.due job hrow hwake hdue)
  · rw [Bool.not_eq_true] at hd
    obtain ⟨hrow', hwake', hdue'⟩ := Turn.due_of_next hok hd hrow hwake hdue
    refine past_run hn hclock ?_ (hi.due job hrow' hwake' hdue')
    rintro pane rfl -
    rw [hok.1] at hwake'
    cases hwake'

/-- An operation of the Supervisor. -/
theorem supervisor (hi : GraceInv cfg c g) (hauto : cfg.autoWake = true)
    (hp : c.shared.phase = .supervisor) (hok : afterGrace cfg (c, g) (.run .daemon i) = true)
    (h : Sys.step cfg c (.run .daemon i) = some c') :
    GraceInv cfg c' (Grace.update c (.run .daemon i) g) := by
  have hturn := hi.turn.step h
  obtain ⟨o, -, -, hn, hs, -, -⟩ := Pool.step_cases h
  have hallowed := hi.turn.ok hp hn
  have hnext : g.turn.update c (.run .daemon i) = g.turn.next o (exec o i c.shared).1 :=
    Turn.update_daemon hp hn
  unfold afterGrace at hok
  rw [Bool.and_eq_true] at hok
  obtain ⟨hclock, hgives⟩ := hok
  simp only [hn, hnext, Option.all_some] at hgives
  refine ⟨hturn, ?_, ?_, ?_⟩
  · intro k r' hr' hf
    rw [hs] at hr'
    exact hi.claim_stored hn hallowed hclock hr' hf
  · intro job hm hf
    have hm : job ∈ (g.turn.update c (.run .daemon i)).rows := hm
    rw [hnext] at hm
    exact hi.listed_next hn hallowed hclock hm hf
  · intro job (hrow : (g.turn.update c (.run .daemon i)).row = some job)
      (hwake : (g.turn.update c (.run .daemon i)).wake = .ready)
      (hdue : (g.turn.update c (.run .daemon i)).due cfg job = true)
    rw [hnext] at hrow hwake hdue
    refine hi.due_next hauto hn hallowed hclock ?_ hrow hwake hdue
    intro hd hg
    rw [hd, hrow] at hgives
    simpa [hg] using hgives

end Daemon

theorem step (hi : GraceInv cfg c g) (hauto : cfg.autoWake = true)
    (hok : afterGrace cfg (c, g) e = true) (h : Sys.step cfg c e = some c') :
    GraceInv cfg c' (Grace.update c e g) := by
  cases e with
  | run t i =>
    cases t with
    | daemon =>
      by_cases hp : c.shared.phase = .supervisor
      · exact hi.supervisor hauto hp hok h
      · unfold afterGrace at hok
        rw [Bool.and_eq_true] at hok
        exact hi.elsewhere hp hok.1 h
    | reader a => exact hi.other (by simp) h
    | cli n => exact hi.other (by simp) h
  | next =>
    have ht := hi.turn.step h
    obtain ⟨p, -, -, rfl⟩ := step_next h
    exact hi.keep ht (fun k r hr hf => ⟨r, hr, hf⟩) (.inr rfl)
  | exit a code result rl =>
    have ht := hi.turn.step h
    obtain ⟨w, -, -, rfl⟩ := step_exit h
    exact hi.keep ht (fun k r hr hf => ⟨r, hr, hf⟩) (.inl rfl)
  | invoke n cmd =>
    have ht := hi.turn.step h
    cases h
    exact hi.keep ht (fun k r hr hf => ⟨r, hr, hf⟩) (.inl rfl)
  | restart environ =>
    have ht := hi.turn.step h
    cases h
    exact hi.keep ht (fun k r hr hf => ⟨r, hr, hf⟩) (.inr rfl)

end GraceInv

/-- Runs with their history. -/
abbrev GraceRuns (cfg : Settings) (ok : Sys × Grace → Event → Prop) :
    Sys × Grace → Sys × Grace → Prop := Run (watch (step cfg) Grace.update) ok

theorem grace_kept {db : Db} {environ : Environ} (hauto : cfg.autoWake = true)
    (h : GraceRuns cfg (fun s e => afterGrace cfg s e = true) (boot db environ, {}) (c, g))
    {chatId text : String} (hn : c.next? .daemon = some (.postBegin j chatId text)) {i : Inputs}
    (hnow : g.clock ≤ i.now) {woken : ℚ} (hwoken : g.wokenAt j = some woken) :
    i.now > woken + cfg.wakeGraceSeconds := by
  have hi : GraceInv cfg c g := by
    refine h.watch_invariant (I := GraceInv cfg) ?_ (GraceInv.boot cfg db environ)
    intro c g e t hi hok ht
    exact hi.step hauto hok ht
  have hp : c.shared.phase = .supervisor :=
    (home_of_performs (hi.turn.footprint.next? hn) rfl).2
  obtain ⟨job, hrow, rfl, hwake, hdue⟩ := hi.turn.ok hp hn
  have hpast := hi.due job hrow hwake hdue
  unfold Grace.Past Grace.elapsed at hpast
  rw [hwoken, Option.all_some, decide_eq_true_iff] at hpast
  exact lt_of_lt_of_le hpast hnow

/-- The daemon is about to post for job `j`. -/
def posting (c : Sys) (j : ℕ) : Bool :=
  match c.next? .daemon with
  | some (.postBegin k _ _) => k == j
  | _ => false

theorem next?_of_posting (h : c.posting j = true) :
    ∃ chatId text, c.next? .daemon = some (.postBegin j chatId text) := by
  unfold posting at h
  split at h
  · next k chatId text hn =>
    rw [eq_of_beq h] at hn
    exact ⟨chatId, text, hn⟩
  · cases h

/-- The Controller is woken at once and has not reported after 91 seconds. -/
theorem grace_kept_woken : ∃ (c : Sys) (g : Grace) (chatId text : String) (i : Inputs),
    c.next? .daemon = some (.postBegin 1 chatId text) ∧ g.wokenAt 1 = some 0 ∧
      i.now > 0 + waking.wakeGraceSeconds := by
  have hlist : (runList (watch (step waking) Grace.update) (afterGrace waking)
      (boot default fun _ => none, {})
      (killedTick ++ wakeTurn 0 (.ok "") ++ daemonSteps 2 ++ nextTick 91 5 ++
        daemonSteps 5 { now := 91, envFile := some "DISCORD_BOT_TOKEN=t" })).any
      (fun s => s.1.posting 1 && s.2.wokenAt 1 == some 0 && s.2.clock == 91) = true := by
    decide +kernel
  obtain ⟨⟨c, g⟩, hrun, hs⟩ := Run.exists_of_runList hlist
  simp only [Bool.and_eq_true, beq_iff_eq] at hs
  obtain ⟨⟨hpost, hwoken⟩, hclock⟩ := hs
  obtain ⟨chatId, text, hn⟩ := next?_of_posting hpost
  have hnow : g.clock ≤ ({ now := 91 } : Inputs).now := by rw [hclock]
  exact ⟨c, g, chatId, text, _, hn, hwoken, grace_kept rfl hrun hn hnow hwoken⟩

/-- The Controller is busy when the job ends. -/
def busyTurn : List Event :=
  daemonSteps 2 ++ [.run .daemon { paneFile := .ok "%3" }] ++
    daemonSteps 1 { tmux := .ok "%3" } ++ daemonSteps 1 { tmux := .ok "1" }

/-- It is woken after 80 seconds, and its job is posted for after 91. -/
theorem grace_cut : ¬ ∀ (cfg : Settings) (db : Db) (environ : Environ) (c : Sys) (g : Grace)
    (j : ℕ) (chatId text : String) (i : Inputs) (woken : ℚ), cfg.autoWake = true →
      1 ≤ cfg.maxWakeAttempts →
      GraceRuns cfg (fun s e => clockForward s e = true) (boot db environ, {}) (c, g) →
      c.next? .daemon = some (.postBegin j chatId text) → g.clock ≤ i.now →
      g.wokenAt j = some woken → i.now > woken + cfg.wakeGraceSeconds := by
  intro hall
  have hlist : (runList (watch (step waking) Grace.update) clockForward
      (boot default fun _ => none, {})
      (killedTick ++ busyTurn ++ nextTick 80 5 ++ wakeTurn 80 (.ok "") ++
        daemonSteps 2 { now := 80 } ++ nextTick 91 2 ++
        daemonSteps 5 { now := 91, envFile := some "DISCORD_BOT_TOKEN=t" })).any
      (fun s => s.1.posting 1 && s.2.wokenAt 1 == some 80 && s.2.clock == 91) = true := by
    decide +kernel
  obtain ⟨⟨c, g⟩, hrun, hs⟩ := Run.exists_of_runList hlist
  simp only [Bool.and_eq_true, beq_iff_eq] at hs
  obtain ⟨⟨hpost, hwoken⟩, hclock⟩ := hs
  obtain ⟨chatId, text, hn⟩ := next?_of_posting hpost
  have hnow : g.clock ≤ ({ now := 91 } : Inputs).now := by rw [hclock]
  have hlate := hall waking _ _ c g 1 chatId text _ 80 rfl (by decide) hrun hn hnow hwoken
  exact absurd hlate (by decide +kernel)

end Sys

end DiscordAgent
