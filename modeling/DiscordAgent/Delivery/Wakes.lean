import DiscordAgent.Delivery.Turns

/-!
# How often a wake text is typed

`_try_wake` types the text, sends Enter, and only then counts the attempt. If
Enter fails, the text stands in the Controller's pane and the counter in the
database does not know of it.

Results:
* `Sys.wakes_limited`: along every run in which every text that is typed is
  followed by an Enter that succeeds, the text of a job is typed at most
  `max_wake_attempts` times in each of its terminal episodes.
* `Sys.wakes_unlimited`: with an Enter that fails in every tick, the text is
  typed in every tick.
-/

namespace DiscordAgent

open Interleave Supervisor

/-- The text may be in the pane: the command succeeded, or it was given up after
    its timeout. -/
def TmuxResult.typed : TmuxResult → Bool
  | .ok _ => true
  | .raised e => e == .timeoutExpired

/-- `wake_attempts` of job `j`. -/
def World.wakeAttempts (w : World) (j : ℕ) : ℕ := ((w.db.getJob j).map Job.wakeAttempts).getD 0

section Attempts

variable {o : Op} {i : Inputs} {w : World} {j : ℕ}

theorem wakeAttempts_of_row {r : Job} (hr : w.db.getJob j = some r) :
    w.wakeAttempts j = r.wakeAttempts := by
  unfold World.wakeAttempts
  rw [hr]
  rfl

/-- Only a requeue takes attempts back. -/
theorem wakeAttempts_le (hq : ∀ current result, o ≠ .updateJobState j current .queued result) :
    w.wakeAttempts j ≤ (exec o i w).2.wakeAttempts j := by
  cases hr : w.db.getJob j with
  | none =>
    have hzero : w.wakeAttempts j = 0 := by
      unfold World.wakeAttempts
      rw [hr]
      rfl
    omega
  | some r =>
    rw [wakeAttempts_of_row hr]
    by_cases hincr : o = .incrWakeAttempts j
    · subst hincr
      obtain ⟨r', hr', hs⟩ := exec_job (.incrWakeAttempts j) i hr
      rw [wakeAttempts_of_row hr']
      cases hs with
      | keep => exact le_rfl
      | attempt => exact Nat.le_succ _
    · obtain ⟨r', hr', hatt⟩ := wakeAttempts_exec hincr hq (i := i) hr
      rw [wakeAttempts_of_row hr', hatt]

theorem wakeAttempts_incr {r : Job} (hr : w.db.getJob j = some r) :
    (exec (.incrWakeAttempts j) i w).2.wakeAttempts j = r.wakeAttempts + 1 := by
  have hrow : (exec (.incrWakeAttempts j) i w).2.db.getJob j =
      some { r with wakeAttempts := r.wakeAttempts + 1 } := Db.getJob_updateJob_self hr
  rw [wakeAttempts_of_row hrow]

end Attempts

/-- A text of job `j` has been typed and is not counted yet. -/
def Turn.Pending (m : Turn) (j : ℕ) : Prop := (m.wake = .typed ∨ m.wake = .entered) ∧ m.Of j

namespace Turn

variable {cfg : Settings} {m : Turn} {o : Op} {j : ℕ}

theorem not_pending_of_settled (h : m.Settled) : ¬ m.Pending j := by
  rintro ⟨hw | hw, -⟩
  · exact h.1 hw
  · exact h.2 hw

/-- The text has been sent. -/
theorem update_text {c : Sys} {i : Inputs} {pane msg : String} (hp : c.shared.phase = .supervisor)
    (hn : c.next? .daemon = some (.tmux (.sendText pane j msg))) (hok : i.tmux.isOk = true) :
    m.update c (.run .daemon i) = { m with wake := .typed } := by
  rw [Turn.update_daemon hp hn]
  show ({ m with wake := sent .typed i.tmux } : Turn) = _
  cases htmux : i.tmux with
  | ok stdout => rfl
  | raised e =>
    rw [htmux] at hok
    cases hok

/-- A pending text stays pending until it is counted, if its Enter succeeds. -/
theorem Pending.next (h : m.Pending j) (hok : m.ok cfg o) (hincr : ∀ k, o ≠ .incrWakeAttempts k)
    {i : Inputs} (w : World) (henter : ∀ pane, o = .tmux (.sendEnter pane) → i.tmux.isOk = true) :
    (m.next o (exec o i w).1).Pending j := by
  obtain ⟨hw, hof⟩ := h
  cases o with
  | listUndeliveredTerminalJobs | time => exact absurd ⟨hw, hof⟩ (not_pending_of_settled hok)
  | incrWakeAttempts k => exact absurd rfl (hincr k)
  | markWoken k =>
    obtain ⟨hcounted, -⟩ := hok
    rw [hcounted] at hw
    rcases hw with hw | hw <;> cases hw
  | tmux cmd =>
    cases cmd with
    | sendText pane k msg =>
      rw [hok.1] at hw
      rcases hw with hw | hw <;> cases hw
    | sendEnter pane =>
      have hout := henter pane rfl
      show ({ m with wake := sent .entered i.tmux } : Turn).Pending j
      cases htmux : i.tmux with
      | ok stdout => exact ⟨.inr rfl, hof⟩
      | raised e =>
        rw [htmux] at hout
        cases hout
    | _ => exact ⟨hw, hof⟩
  | _ => exact ⟨hw, hof⟩

end Turn

namespace Sys

/-- The tick, and how often the text of each job has been typed in its current
    episode. -/
structure Wakes where
  turn : Turn := {}
  typed : ℕ → ℕ := fun _ => 0

namespace Wakes

/-- The counts after an operation; a requeue starts a new episode. -/
def count (n : ℕ → ℕ) (i : Inputs) : Op → ℕ → ℕ
  | .tmux (.sendText _ j _) => if i.tmux.typed then Function.update n j (n j + 1) else n
  | .updateJobState j _ .queued _ => Function.update n j 0
  | _ => n

theorem count_same {n : ℕ → ℕ} {i : Inputs} {o : Op} {j : ℕ}
    (htext : ∀ pane k msg, o ≠ .tmux (.sendText pane k msg))
    (hq : ∀ current result, o ≠ .updateJobState j current .queued result) :
    count n i o j = n j := by
  unfold count
  split
  · next pane k msg => exact absurd rfl (htext pane k msg)
  · next k current result =>
    have hne : j ≠ k := by
      rintro rfl
      exact hq current result rfl
    exact Function.update_of_ne hne ..
  · rfl

/-- The history after the next event. -/
def update (c : Sys) (e : Event) (g : Wakes) : Wakes where
  turn := g.turn.update c e
  typed :=
    match e with
    | .run t i => ((c.next? t).map (count g.typed i)).getD g.typed
    | _ => g.typed

end Wakes

/-- A text that is typed gets its Enter: the command does not run into its
    timeout, the Enter after it succeeds, and the daemon is not killed before
    the attempt is counted. -/
def entersText (s : Sys × Wakes) : Event → Bool
  | .run .daemon i =>
    match s.1.next? .daemon with
    | some (.tmux (.sendText ..)) => i.tmux.isOk || !i.tmux.typed
    | some (.tmux (.sendEnter _)) => i.tmux.isOk
    | _ => true
  | .restart _ => s.2.turn.wake != .typed && s.2.turn.wake != .entered
  | _ => true

variable {cfg : Settings} {c c' : Sys} {e : Event} {g : Wakes} {j : ℕ}

/-- The database has counted what was typed for job `j`, but for a text that is
    waiting for it. -/
def Wakes.Counted (c : Sys) (g : Wakes) (j : ℕ) : Prop :=
  g.typed j ≤ c.shared.wakeAttempts j ∨
    (g.turn.Pending j ∧ g.typed j ≤ c.shared.wakeAttempts j + 1)

structure WakesInv (cfg : Settings) (c : Sys) (g : Wakes) : Prop where
  turn : TurnInv cfg c g.turn
  limit : ∀ j, (g.typed j : ℤ) ≤ max cfg.maxWakeAttempts 0
  counted : ∀ j, g.Counted c j

/-- The typed text of a row that has its turn is a new one. -/
theorem TurnInv.typed_lt {m : Turn} (hi : TurnInv cfg c m) {pane msg : String}
    (hok : m.ok cfg (.tmux (.sendText pane j msg))) :
    (∀ k, ¬ m.Pending k) ∧ (c.shared.wakeAttempts j : ℤ) < cfg.maxWakeAttempts ∧ m.Of j := by
  obtain ⟨hwake, hun, hatt⟩ := hok
  obtain ⟨job, hrow, rfl⟩ := hun.of
  obtain ⟨r, hr, hsame, -⟩ := hi.row job hrow
  refine ⟨fun k => Turn.not_pending_of_settled (Turn.settled_of_ready hwake), ?_, job, hrow, rfl⟩
  rw [wakeAttempts_of_row hr, hsame (by rw [hwake]; rfl)]
  exact hatt job hrow

theorem TurnInv.supervisor_of_pending {m : Turn} (hi : TurnInv cfg c m) (h : m.Pending j) :
    c.shared.phase = .supervisor := by
  by_contra hne
  have hm := hi.idle hne
  subst hm
  exact Turn.not_pending_of_settled (Turn.settled_of_ready rfl) h

/-- A phase ends without a pending text. -/
theorem TurnInv.settled_of_ret {m : Turn} (hi : TurnInv cfg c m) {p : Phase}
    (hp : c.prog .daemon = .ret p) : m.Settled := by
  by_cases hsup : c.shared.phase = .supervisor
  · have hfol := hi.follows hsup
    rw [hp] at hfol
    exact hfol
  · rw [hi.idle hsup]
    exact Turn.settled_of_ready rfl

namespace WakesInv

/-- A step that types nothing: every text that is pending stays so or gets
    counted. -/
theorem silent {n : ℕ → ℕ} (hi : WakesInv cfg c g) (ht : TurnInv cfg c' (g.turn.update c e))
    (hle : ∀ j, n j = 0 ∨ (n j = g.typed j ∧ c.shared.wakeAttempts j ≤ c'.shared.wakeAttempts j))
    (hpend : ∀ j, g.turn.Pending j → n j = 0 ∨ (g.turn.update c e).Pending j ∨
      c.shared.wakeAttempts j + 1 ≤ c'.shared.wakeAttempts j) :
    WakesInv cfg c' ⟨g.turn.update c e, n⟩ where
  turn := ht
  limit j := by
    have hlim := hi.limit j
    show (n j : ℤ) ≤ _
    rcases hle j with hj | ⟨hj, -⟩ <;> omega
  counted j := by
    show n j ≤ _ ∨ ((g.turn.update c e).Pending j ∧ n j ≤ _)
    rcases hle j with hj | ⟨hj, hatt⟩
    · exact .inl (by omega)
    · rcases hi.counted j with hcount | ⟨hp, hcount⟩
      · exact .inl (by omega)
      · rcases hpend j hp with hzero | hp' | hlt
        · exact .inl (by omega)
        · exact .inr ⟨hp', by omega⟩
        · exact .inl (by omega)

theorem update_run {t : Tid} {i : Inputs} {o : Op} (hn : c.next? t = some o) :
    Wakes.update c (.run t i) g = ⟨g.turn.update c (.run t i), Wakes.count g.typed i o⟩ := by
  show (⟨g.turn.update c (.run t i), ((c.next? t).map (Wakes.count g.typed i)).getD g.typed⟩ :
    Wakes) = _
  rw [hn]
  rfl

/-- The daemon types the text of job `j`. -/
theorem text (hi : WakesInv cfg c g) {i : Inputs} {pane msg : String}
    (hp : c.shared.phase = .supervisor)
    (hn : c.next? .daemon = some (.tmux (.sendText pane j msg)))
    (hok : entersText (c, g) (.run .daemon i) = true)
    (h : step cfg c (.run .daemon i) = some c') :
    WakesInv cfg c' (Wakes.update c (.run .daemon i) g) := by
  have ht := hi.turn.step h
  have hs := Pool.shared_step h hn
  have hle : ∀ k, c.shared.wakeAttempts k ≤ c'.shared.wakeAttempts k := by
    intro k
    rw [hs]
    exact wakeAttempts_le (by simp)
  obtain ⟨hnone, hlt, hof⟩ := hi.turn.typed_lt (hi.turn.ok hp hn)
  have hcount : ∀ k, g.typed k ≤ c.shared.wakeAttempts k := fun k =>
    (hi.counted k).resolve_right fun hk => hnone k hk.1
  rw [update_run hn]
  unfold Wakes.count
  split_ifs with htyped
  · -- the text is typed, and its Enter is to come
    have hisOk : i.tmux.isOk = true := by
      simp only [entersText, hn, htyped, Bool.not_true, Bool.or_false] at hok
      exact hok
    refine ⟨ht, ?_, ?_⟩
    · intro k
      by_cases hk : k = j
      · subst hk
        have := hcount k
        simp only [Function.update_self]
        omega
      · simp only [Function.update_of_ne hk]
        exact hi.limit k
    · intro k
      by_cases hk : k = j
      · subst hk
        refine .inr ⟨?_, ?_⟩
        · rw [Turn.update_text hp hn hisOk]
          exact ⟨.inl rfl, hof⟩
        · have h₁ := hcount k
          have h₂ := hle k
          simp only [Function.update_self]
          omega
      · left
        simp only [Function.update_of_ne hk]
        exact (hcount k).trans (hle k)
  · exact hi.silent ht (fun k => .inr ⟨rfl, hle k⟩) fun k hk => absurd hk (hnone k)

/-- Any other operation. -/
theorem op (hi : WakesInv cfg c g) {t : Tid} {i : Inputs} {o : Op} (hn : c.next? t = some o)
    (htext : ∀ pane k msg, o ≠ .tmux (.sendText pane k msg))
    (hok : entersText (c, g) (.run t i) = true) (h : step cfg c (.run t i) = some c') :
    WakesInv cfg c' (Wakes.update c (.run t i) g) := by
  have ht := hi.turn.step h
  have hs := Pool.shared_step h hn
  rw [update_run hn]
  apply hi.silent ht
  · intro k
    by_cases hq : ∃ current result, o = .updateJobState k current .queued result
    · obtain ⟨current, result, rfl⟩ := hq
      exact .inl (Function.update_self ..)
    · right
      have hq : ∀ current result, o ≠ .updateJobState k current .queued result :=
        fun current result ho => hq ⟨current, result, ho⟩
      refine ⟨Wakes.count_same htext hq, ?_⟩
      rw [hs]
      exact wakeAttempts_le hq
  · intro k hk
    right
    by_cases htd : t = .daemon
    · subst htd
      have hp : c.shared.phase = .supervisor := hi.turn.supervisor_of_pending hk
      by_cases hincr : ∃ k', o = .incrWakeAttempts k'
      · obtain ⟨k', rfl⟩ := hincr
        obtain ⟨-, hun⟩ := hi.turn.ok hp hn
        obtain rfl := hk.2.unique hun.of
        obtain ⟨job, hrow, rfl⟩ := hun.of
        obtain ⟨r, hr, -, -⟩ := hi.turn.row job hrow
        right
        rw [hs, wakeAttempts_of_row hr, wakeAttempts_incr hr]
      · left
        rw [Turn.update_daemon hp hn]
        refine hk.next (hi.turn.ok hp hn) (fun k' ho => hincr ⟨k', ho⟩) _ ?_
        rintro pane rfl
        simpa only [entersText, hn] using hok
    · left
      have hturn : g.turn.update c (.run t i) = g.turn := by
        cases t with
        | daemon => exact absurd rfl htd
        | _ => rfl
      rw [hturn]
      exact hk

theorem step (hi : WakesInv cfg c g) (hok : entersText (c, g) e = true)
    (h : Sys.step cfg c e = some c') : WakesInv cfg c' (Wakes.update c e g) := by
  cases e with
  | run t i =>
    obtain ⟨o, -, -, hn, -, -, -⟩ := Pool.step_cases h
    by_cases htext : ∃ pane k msg, o = .tmux (.sendText pane k msg)
    · obtain ⟨pane, k, msg, rfl⟩ := htext
      obtain ⟨rfl, hp⟩ := home_of_performs (hi.turn.footprint.next? hn) rfl
      exact hi.text hp hn hok h
    · exact hi.op hn (fun pane k msg ho => htext ⟨pane, k, msg, ho⟩) hok h
  | next =>
    have ht := hi.turn.step h
    obtain ⟨p, hprog, -, rfl⟩ := step_next h
    refine hi.silent ht (fun k => .inr ⟨rfl, le_rfl⟩) fun k hk => ?_
    exact absurd hk (Turn.not_pending_of_settled (hi.turn.settled_of_ret hprog))
  | exit a code result rl =>
    have ht := hi.turn.step h
    obtain ⟨w, -, -, rfl⟩ := step_exit h
    exact hi.silent ht (fun k => .inr ⟨rfl, le_rfl⟩) fun k hk => .inr (.inl hk)
  | invoke n cmd =>
    have ht := hi.turn.step h
    cases h
    exact hi.silent ht (fun k => .inr ⟨rfl, le_rfl⟩) fun k hk => .inr (.inl hk)
  | restart environ =>
    have ht := hi.turn.step h
    cases h
    refine hi.silent ht (fun k => .inr ⟨rfl, le_rfl⟩) fun k hk => ?_
    simp only [entersText, Bool.and_eq_true, bne_iff_ne] at hok
    exact absurd hk (Turn.not_pending_of_settled hok)

theorem boot (cfg : Settings) (db : Db) (environ : Environ) :
    WakesInv cfg (Sys.boot db environ) {} where
  turn := .boot cfg db environ
  limit _ := by simp
  counted _ := .inl (Nat.zero_le _)

end WakesInv

/-- Runs with their history. -/
abbrev WakeRuns (cfg : Settings) (ok : Sys × Wakes → Event → Prop) :
    Sys × Wakes → Sys × Wakes → Prop := Run (watch (step cfg) Wakes.update) ok

theorem wakes_limited {db : Db} {environ : Environ}
    (h : WakeRuns cfg (fun s e => entersText s e = true) (boot db environ, {}) (c, g)) (j : ℕ) :
    (g.typed j : ℤ) ≤ max cfg.maxWakeAttempts 0 := by
  have hi : WakesInv cfg c g := by
    refine h.watch_invariant (I := WakesInv cfg) ?_ (WakesInv.boot cfg db environ)
    intro c g e t hi hok ht
    exact hi.step hok ht
  exact hi.limit j

/-- The Controller is woken once. -/
theorem wakes_limited_once : ∃ (c : Sys) (g : Wakes), c.shared.wakeAttempts 1 = 1 ∧
    g.typed 1 = 1 ∧ (g.typed 1 : ℤ) ≤ max waking.maxWakeAttempts 0 := by
  have hlist : (runList (watch (step waking) Wakes.update) entersText
      (boot default fun _ => none, {})
      (killedTick ++ wakeTurn 0 (.ok "") ++ daemonSteps 2)).any
      (fun s => s.1.shared.wakeAttempts 1 == 1 && s.2.typed 1 == 1) = true := by decide +kernel
  obtain ⟨⟨c, g⟩, hrun, hs⟩ := Run.exists_of_runList hlist
  simp only [Bool.and_eq_true, beq_iff_eq] at hs
  exact ⟨c, g, hs.1, hs.2, wakes_limited hrun 1⟩

/-- Enter fails in two ticks. -/
theorem wakes_unlimited : ¬ ∀ (cfg : Settings) (db : Db) (environ : Environ) (c : Sys) (g : Wakes),
    cfg.autoWake = true → WakeRuns cfg (fun _ _ => True) (boot db environ, {}) (c, g) →
      ∀ j, (g.typed j : ℤ) ≤ max cfg.maxWakeAttempts 0 := by
  intro hall
  have hlist : (runList (watch (step waking) Wakes.update) (fun _ _ => true)
      (boot default fun _ => none, {})
      (killedTick ++ wakeTurn 0 (.raised .calledProcessError) ++ nextTick 0 2 ++
        wakeTurn 0 (.raised .calledProcessError))).any (fun s => s.2.typed 1 == 2) = true := by
    decide +kernel
  obtain ⟨⟨c, g⟩, hrun, hs⟩ := Run.exists_of_runList hlist
  have hlim := hall _ _ _ c g rfl (hrun.mono fun _ _ _ => trivial) 1
  rw [eq_of_beq hs] at hlim
  exact absurd hlim (by decide)

end Sys

end DiscordAgent
