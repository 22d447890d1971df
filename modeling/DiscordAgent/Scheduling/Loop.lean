import DiscordAgent.Interleave.Trace
import DiscordAgent.Interleave.Watch
import DiscordAgent.Scheduling.Balance

/-!
# The dispatch loop

`_dispatch_queued_jobs` starts jobs until `next_job` finds none. While it runs,
workers end: they free slots, and a completion can put the next job of its chain
into the queue.

Specification: `Sys.dispatchBound`, the jobs that are queued or running and what
can still come of their chains and of the completions in progress.

Results:
* `Sys.dispatchLoop_terminates`: the loop starts at most so many jobs, with a bounded
  number of operations for each, and when it ends `next_job` has returned `None`.
* `Sys.dispatchLoop_exceeds`: a completion that is past its transaction adds a job to
  a loop that starts with none.
-/

namespace DiscordAgent

open Interleave Sys Orchestrator

variable {cfg : Settings}

/-! ## Specification -/

/-- What the loop has done: the rounds that found a job, the operations of the daemon,
    and those of the last round with their answers. -/
structure LoopLog where
  rounds : ℕ := 0
  ops : ℕ := 0
  trace : List ((o : Op) × o.Res) := []

/-- The log after an event of the loop. -/
def watchLoop (c : Sys) (e : Event) (g : LoopLog) : LoopLog :=
  match e with
  | .run .daemon i =>
    match c.next? .daemon with
    | some o => { g with ops := g.ops + 1, trace := g.trace ++ [⟨o, (exec o i c.shared).1⟩] }
    | none => g
  | .next => { g with rounds := g.rounds + 1, trace := [] }
  | _ => g

namespace Sys

/-- The daemon begins the loop. The state is one of a run, or the database and the
    workers are any at all and no other thread is within a call. -/
structure AtLoop (cfg : Settings) (c : Sys) : Prop where
  phase : c.shared.phase = .dispatch
  prog : c.prog .daemon = Daemon.phaseProg cfg .dispatch
  others : (∃ db environ, Runs cfg (fun _ _ => True) (boot db environ) c) ∨
    ∀ t, t ≠ .daemon → c.next? t = none

/-- The daemon stays in the loop, and no job comes from outside. -/
def inLoop (c : Sys) : Event → Bool
  | .next => c.returned .dispatch
  | .restart _ => false
  | .run (.cli n) _ =>
    match c.next? (.cli n) with
    | some (.createJob _) => false
    | _ => true
  | _ => true

/-- The jobs that are queued or running. -/
def pending (c : Sys) : List Job :=
  c.shared.db.jobs.rows.filter fun r => r.state == .queued || r.state == .running

/-- The attempts whose call of `on_complete` is in progress. -/
def calls (c : Sys) : List Attempt :=
  c.shared.db.attempts.rows.filter fun a => (c.next? (.reader a.id)).isSome

/-- The length of the chain that follows job `j`. -/
def chainOf (py : PyLib) (c : Sys) (j : ℕ) : ℕ :=
  remainingChain py ((c.shared.db.getJob j).bind Job.nextDispatchPayload)

/-- One for every job that is queued or running, and what follows it. -/
def pendingBound (py : PyLib) (c : Sys) : ℕ :=
  (c.pending.map fun r => remainingChain py r.nextDispatchPayload + 1).sum

/-- The same, and what follows the jobs of the calls in progress. -/
def dispatchBound (py : PyLib) (c : Sys) : ℕ :=
  c.pendingBound py + (c.calls.map fun a => c.chainOf py a.jobId).sum

/-! ## The loop -/

section Loop

variable {c₀ c c' : Sys} {g : LoopLog} {e : Event} {i : Inputs} {a bound : ℕ}

/-- The invariant of the loop: the credits pay for what is still to come, and the
    budget of the round for its operations. -/
structure InLoop (cfg : Settings) (bound : ℕ) (c : Sys) (g : LoopLog) : Prop where
  paid : ∃ f m, Balanced cfg c f m ∧ g.rounds + (m.cost + f.total) ≤ bound
  budget : ∃ n, (c.prog .daemon).Follows (budget withinLimit) (fun _ _ => True) (fun _ _ => True)
    n ∧ g.ops + n ≤ 272 * (g.rounds + 1)
  traced : ∀ x es, (c.prog .daemon).Ends x es →
    (Daemon.phaseProg cfg .dispatch).Ends x (g.trace ++ es)

theorem within_start (cfg : Settings) : (Daemon.phaseProg cfg .dispatch).Follows
    (Interleave.budget withinLimit) (fun _ _ => True) (fun _ _ => True) 272 :=
  ((within_phaseProg cfg).of_le (m := 0) (by omega)).mono (fun _ _ _ => trivial)
    fun _ _ _ => trivial

/-- An event that leaves the daemon where it is. -/
theorem InLoop.other (h : InLoop cfg bound c g)
    (hpaid : ∀ f m, Balanced cfg c f m → ∃ f', Balanced cfg c' f' m ∧ f'.total ≤ f.total)
    (hp : c'.prog .daemon = c.prog .daemon) : InLoop cfg bound c' g := by
  obtain ⟨f, m, hbal, hle⟩ := h.paid
  obtain ⟨f', hbal', hle'⟩ := hpaid f m hbal
  refine ⟨⟨f', m, hbal', by omega⟩, ?_, ?_⟩
  · rw [hp]
    exact h.budget
  · rw [hp]
    exact h.traced

theorem InLoop.daemon (h : InLoop cfg bound c g)
    (hs : Sys.step cfg c (.run .daemon i) = some c') :
    InLoop cfg bound c' (watchLoop c (.run .daemon i) g) := by
  have hs' : Pool.step exec c .daemon i = some c' := hs
  obtain ⟨o, -, -, hn, -, -, -⟩ := Pool.step_cases hs'
  have hlog : watchLoop c (.run .daemon i) g =
      { g with ops := g.ops + 1, trace := g.trace ++ [⟨o, (exec o i c.shared).1⟩] } := by
    simp only [watchLoop, hn]
  rw [hlog]
  obtain ⟨f, m, hbal, hle⟩ := h.paid
  obtain ⟨f', m', hbal', hle'⟩ := hbal.daemon_run hs
  obtain ⟨n, hbudget, hops⟩ := h.budget
  obtain ⟨hpos, hbudget'⟩ := Pool.follows_step hs' hn (withinLimit_exec o i c.shared) hbudget
  refine ⟨⟨f', m', hbal', by simp only; omega⟩, ⟨n - 1, hbudget', ?_⟩, fun x es hx => ?_⟩
  · have hpos : 0 < n := hpos
    simp only
    omega
  · have htrace := h.traced x _ (Pool.ends_step hs' hn hx)
    simpa using htrace

theorem InLoop.next (h : InLoop cfg bound c g) (hok : c.inLoop .next = true)
    (hs : Sys.step cfg c .next = some c') : InLoop cfg bound c' (watchLoop c .next g) := by
  obtain ⟨f, m, hbal, hle⟩ := h.paid
  obtain ⟨hbal', hp, hcost⟩ := hbal.next (prog_of_returned hok) hs
  obtain ⟨n, -, hops⟩ := h.budget
  refine ⟨⟨f, .idle, hbal', ?_⟩, ⟨272, ?_, ?_⟩, fun x es hx => ?_⟩
  · simp only [watchLoop, Round.cost]
    omega
  · rw [hp]
    exact within_start cfg
  · simp only [watchLoop]
    omega
  · rw [hp] at hx
    exact hx

theorem InLoop.step (hpy : Reloads cfg.py) (h : InLoop cfg bound c g)
    (hok : c.inLoop e = true) (hs : Sys.step cfg c e = some c') :
    InLoop cfg bound c' (watchLoop c e g) := by
  have hsame : ∀ {f m}, Balanced cfg c' f m → ∃ f', Balanced cfg c' f' m ∧ f'.total ≤ f.total :=
    fun {f _} hbal => ⟨f, hbal, le_refl _⟩
  cases e with
  | run t i =>
    obtain ⟨o, -, -, -, -, -, hother⟩ :=
      Pool.step_cases (show Pool.step exec c t i = some c' from hs)
    cases t with
    | daemon => exact h.daemon hs
    | reader a => exact h.other (fun _ _ hbal => hbal.reader hs) (hother _ (by simp))
    | cli n =>
      refine h.other (fun _ _ hbal => hsame (hbal.cli hs fun n' hn => ?_)) (hother _ (by simp))
      simp only [inLoop, hn] at hok
      cases hok
  | next => exact h.next hok hs
  | exit b code result rl =>
    refine h.other (fun _ _ hbal => hsame (hbal.exit hpy hs)) ?_
    obtain ⟨w, -, -, rfl⟩ := step_exit hs
    exact Pool.load_prog_of_ne _ _ (by simp)
  | invoke n cmd =>
    refine h.other (fun f m hbal => hsame ?_) ?_
    · have hfoot := hbal.footprint.step hs
      cases hs
      exact hbal.fade hfoot rfl (Pool.load_prog_of_ne _ _ (by simp)) (.refl _ _ _) hbal.calls
    · cases hs
      exact Pool.load_prog_of_ne _ _ (by simp)
  | restart environ => cases hok

/-- The credits at the start of the loop. -/
noncomputable def startCredits (py : PyLib) (c : Sys) : Credits Holder :=
  .ofList ((c.pending.map fun r => (.job r.id, remainingChain py r.nextDispatchPayload + 1)) ++
    c.calls.map fun a => (.call a.id, c.chainOf py a.jobId))

theorem total_startCredits (py : PyLib) (c : Sys) :
    (c.startCredits py).total = c.dispatchBound py := by
  rw [startCredits, Credits.total_ofList, List.map_append, List.sum_append, List.map_map,
    List.map_map]
  rfl

theorem le_startCredits_job (py : PyLib) {j : ℕ} {r : Job} (hr : c.shared.db.getJob j = some r)
    (hs : r.state = .queued ∨ r.state = .running) :
    remainingChain py r.nextDispatchPayload + 1 ≤ c.startCredits py (.job j) := by
  have hmem : r ∈ c.pending := by
    refine List.mem_filter.mpr ⟨Sql.Table.mem_of_get? hr, ?_⟩
    rcases hs with hs | hs <;> rw [hs] <;> rfl
  rw [← Db.getJob_id hr]
  exact Credits.le_ofList (List.mem_append_left _ (List.mem_map_of_mem hmem))

theorem le_startCredits_call (py : PyLib) {j : ℕ} (hn : c.next? (.reader a) ≠ none)
    (hj : a ∈ c.shared.db.attemptIds j) :
    c.chainOf py j ≤ c.startCredits py (.call a) := by
  obtain ⟨x, hx, rfl, rfl⟩ := Db.mem_attemptIds.mp hj
  have hmem : x ∈ c.calls := List.mem_filter.mpr ⟨hx, Option.isSome_iff_ne_none.mpr hn⟩
  exact Credits.le_ofList (List.mem_append_right _ (List.mem_map_of_mem hmem))

/-- A call in progress has the chain of its job as its credit. -/
theorem callPaid_start (h : c.InCall cfg.py a) : CallPaid cfg.py (c.startCredits cfg.py) c a := by
  obtain ⟨j, stage, hj, hfollow, hpayload⟩ := h
  by_cases hn : c.next? (.reader a) = none
  · exact ⟨j, .done, Pool.follows_of_ended hn _ _, trivial⟩
  · have hle := le_startCredits_call cfg.py hn (hj hn)
    have hrow : ∀ r, c.shared.db.getJob j = some r →
        remainingChain cfg.py r.nextDispatchPayload ≤ c.startCredits cfg.py (.call a) := by
      intro r hr
      unfold chainOf at hle
      rwa [hr] at hle
    refine ⟨j, stage, hfollow, ?_⟩
    cases stage with
    | completing => exact fun r hr _ => hrow r hr
    | holding payload =>
      obtain ⟨r, hr, rfl⟩ := hpayload payload rfl
      exact hrow r hr
    | _ => trivial

theorem AtLoop.footprint (h : c.AtLoop cfg) : c.Footprint := by
  rcases h.others with ⟨db, environ, hrun⟩ | hended
  · exact (footprint_boot db environ).run hrun
  · intro t
    by_cases ht : t = .daemon
    · subst ht
      rw [h.prog, performs, h.phase]
      exact emits_phaseProg cfg .dispatch
    · have hn := hended t ht
      unfold Pool.next? at hn
      cases hc : c.prog t with
      | call o k =>
        rw [hc] at hn
        cases hn
      | _ => trivial

theorem AtLoop.calls (hpy : Reloads cfg.py) (h : c.AtLoop cfg) (a : ℕ) :
    CallPaid cfg.py (c.startCredits cfg.py) c a := by
  rcases h.others with ⟨db, environ, hrun⟩ | hended
  · exact callPaid_start (inCall_of_run hpy hrun a)
  · exact ⟨0, .done, Pool.follows_of_ended (hended _ (by simp)) _ _, trivial⟩

theorem AtLoop.inLoop (hpy : Reloads cfg.py) (h : c.AtLoop cfg) :
    InLoop cfg (c.dispatchBound cfg.py) c {} := by
  refine ⟨⟨c.startCredits cfg.py, .idle, ⟨h.footprint, h.phase, ?_, trivial, fun j r hr =>
    ⟨fun hq => .inr (le_startCredits_job cfg.py hr (.inl hq)), fun hrun => ?_⟩, h.calls hpy⟩, ?_⟩,
    ⟨272, ?_, le_refl _⟩, ?_⟩
  · rw [h.prog]
    exact rounds_phaseProg cfg
  · have hle := le_startCredits_job cfg.py hr (.inr hrun)
    omega
  · rw [total_startCredits]
    simp [Round.cost]
  · rw [h.prog]
    exact within_start cfg
  · rw [h.prog]
    exact fun x es hx => hx

/-- A round that ends the loop: `next_job` has returned `None`. -/
theorem nextJob_of_ends {es : List ((o : Op) × o.Res)}
    (h : (Daemon.dispatchOne cfg).Ends (.ok false) es) :
    (Scheduler.nextJob cfg none).Ends (.ok none) es := by
  obtain ⟨job, es₁, es₂, rfl, hjob, hrest⟩ := Prog.ends_bind h
  cases job with
  | none =>
    obtain ⟨rfl, -⟩ := hrest
    rwa [List.append_nil]
  | some r =>
    obtain ⟨sessionId, es₃, es₄, -, -, hrest⟩ := Prog.ends_bind hrest
    obtain ⟨repo, es₅, es₆, -, -, hrest⟩ := Prog.ends_bind hrest
    rcases Prog.ends_tryCatch hrest with hrest | ⟨e, es₇, es₈, -, -, hrest⟩
    · obtain ⟨attemptId, es₇, es₈, -, -, hret⟩ := Prog.ends_bind hrest
      cases hret.2
    · cases hrest.2

/-- The loop ends: every round takes a job out of the queue, and the jobs that come are
    those that the chains have left. While it runs the daemon performs an operation next,
    and it performs finitely many; in the last round `next_job` returns `None`. -/
theorem dispatchLoop_terminates (hpy : Reloads cfg.py) (hstart : c₀.AtLoop cfg)
    (h : Run (watch (Sys.step cfg) watchLoop) (fun s e => inLoop s.1 e = true) (c₀, {}) (c, g)) :
    g.rounds ≤ c₀.dispatchBound cfg.py ∧ g.ops ≤ 272 * (c₀.dispatchBound cfg.py + 1) ∧
      (c.next? .daemon ≠ none ∨ c.prog .daemon = .ret .dispatch ∨
        (c.prog .daemon = .ret .watchdog ∧
          (Scheduler.nextJob cfg none).Ends (.ok none) g.trace)) := by
  have hinv : InLoop cfg (c₀.dispatchBound cfg.py) c g :=
    h.watch_invariant (I := fun c g => InLoop cfg (c₀.dispatchBound cfg.py) c g)
      (fun _ _ _ _ hi hok hs => hi.step hpy hok hs) (hstart.inLoop hpy)
  obtain ⟨f, m, hbal, hle⟩ := hinv.paid
  obtain ⟨n, -, hops⟩ := hinv.budget
  have hrounds : g.rounds ≤ c₀.dispatchBound cfg.py := by omega
  refine ⟨hrounds, ?_, ?_⟩
  · have hmul := Nat.mul_le_mul_left 272 (Nat.succ_le_succ hrounds)
    omega
  · have hdaemon := hbal.daemon
    cases hc : c.prog .daemon with
    | call o k => exact .inl (by simp [Pool.next?, hc])
    | raise e =>
      rw [hc] at hdaemon
      exact hdaemon.elim
    | ret p =>
      have hends := hinv.traced (.ok p) [] (by rw [hc]; exact ⟨rfl, rfl⟩)
      rw [List.append_nil] at hends
      obtain ⟨more, es₁, es₂, hes, hone, rfl, hret⟩ := Prog.ends_bind hends
      rw [List.append_nil] at hes
      rw [hes]
      cases more with
      | true =>
        cases hret
        exact .inr (.inl rfl)
      | false =>
        cases hret
        exact .inr (.inr ⟨rfl, nextJob_of_ends hone⟩)

end Loop

/-! ## Concrete runs -/

/-- Job 1 has one job after it. -/
def chainJob : NewJob := { oneJob with nextDispatchPayload := some payloadText }

theorem reloads_decoding : Reloads (decoding barePayload).py := by
  intro s d hd hnext
  simp only [decoding] at hd
  split_ifs at hd
  cases hd
  cases hnext

/-- The daemon enters the loop. -/
def startLoop (cfg : Settings) (c : Sys) : Sys :=
  Pool.load { c with shared := c.shared.enter .dispatch } .daemon
    (Daemon.phaseProg cfg .dispatch)

/-- The events `es` up to the loop and the events `es'` in it, from an empty database. -/
def runLoop (cfg : Settings) (es es' : List Event) : Option (Sys × Sys × LoopLog) :=
  (runList (Sys.step cfg) (fun _ _ => true) (boot default fun _ => none) es).bind fun c =>
    if c.returned .dispatch && c.shared.phase == .recovery then
      (runList (watch (Sys.step cfg) watchLoop) (fun s e => inLoop s.1 e) (startLoop cfg c, {})
        es').map fun s => (startLoop cfg c, s)
    else none

/-- What `runLoop` has found. -/
theorem exists_of_runLoop {es es' : List Event} {p : Sys × Sys × LoopLog → Bool}
    (h : (runLoop cfg es es').any p = true) : ∃ c₀ c g, c₀.AtLoop cfg ∧
      Run (watch (Sys.step cfg) watchLoop) (fun s e => inLoop s.1 e = true) (c₀, {}) (c, g) ∧
      p (c₀, c, g) = true := by
  obtain ⟨⟨c₀, c, g⟩, hrun, hp⟩ := (Option.any_eq_true _ _).mp h
  obtain ⟨c₁, hboot, hrun⟩ := Option.bind_eq_some_iff.mp hrun
  split_ifs at hrun with hstart
  obtain ⟨s, hloop, heq⟩ := Option.map_eq_some_iff.mp hrun
  cases heq
  obtain ⟨hret, hphase⟩ := (Bool.and_eq_true _ _).mp hstart
  have hstep : Sys.step cfg c₁ .next = some (startLoop cfg c₁) := by
    simp only [Sys.step, prog_of_returned hret]
    rw [if_neg]
    · rfl
    · rintro ⟨hidle, -⟩
      rw [hidle] at hphase
      cases hphase
  have hrun : Runs cfg (fun _ _ => True) (boot default fun _ => none) c₁ :=
    (Run.of_runList hboot).mono fun _ _ _ => trivial
  exact ⟨_, _, _, ⟨rfl, Pool.load_prog_self _ _ _, .inl ⟨_, _, hrun.tail trivial hstep⟩⟩,
    Run.of_runList hloop, hp⟩

/-- The first tick up to its loop. -/
def firstTick (n : NewJob) : List Event :=
  cli (.createRepo oneRepo) ++ cli (.dispatch n) ++ [.next] ++ daemonSteps 1 ++ [.next] ++
    daemonSteps 2

/-- Job 1 is started and completed, and job 2 is started, all in one loop. -/
theorem dispatchLoop_terminates_two : ∃ (c₀ c : Sys) (g : LoopLog),
    c₀.dispatchBound (decoding barePayload).py = 2 ∧ g.rounds = 2 ∧
      c.prog .daemon = .ret .watchdog ∧
      (Scheduler.nextJob (decoding barePayload) none).Ends (.ok none) g.trace := by
  have hrun : (runLoop (decoding barePayload) (firstTick chainJob) (daemonSteps 23 ++
      [.exit 1 0 none false] ++ readerSteps 1 8 ++ [.next] ++ daemonSteps 22 ++ [.next] ++
      daemonSteps 2)).any (fun s => s.1.dispatchBound (decoding barePayload).py == 2 &&
        s.2.2.rounds == 2 && s.2.1.returned .watchdog) = true := by decide +kernel
  obtain ⟨c₀, c, g, hstart, hloop, hp⟩ := exists_of_runLoop hrun
  simp only [Bool.and_eq_true, beq_iff_eq] at hp
  obtain ⟨⟨hbound, hrounds⟩, hret⟩ := hp
  have hwatchdog := prog_of_returned hret
  obtain ⟨-, -, hend⟩ := dispatchLoop_terminates reloads_decoding hstart hloop
  refine ⟨c₀, c, g, hbound, hrounds, hwatchdog, ?_⟩
  rcases hend with hnext | hdispatch | ⟨-, hnone⟩
  · exact absurd (by simp [Pool.next?, hwatchdog]) hnext
  · rw [hwatchdog] at hdispatch
    cases hdispatch
  · exact hnone

/-- At the start of the loop no job is queued or running, and a completion that has
    marked job 1 as `succeeded` is about to create job 2. -/
theorem dispatchLoop_exceeds : ¬ ∀ (cfg : Settings) (c₀ c : Sys) (g : LoopLog), Reloads cfg.py →
    c₀.AtLoop cfg →
    Run (watch (Sys.step cfg) watchLoop) (fun s e => inLoop s.1 e = true) (c₀, {}) (c, g) →
    g.rounds ≤ c₀.pendingBound cfg.py := by
  intro hall
  have hrun : (runLoop (decoding barePayload) (startJob chainJob ++ idleRest ++ daemonSteps 1 ++
      [.next] ++ daemonSteps 2 ++ [.exit 1 0 none false] ++ readerSteps 1 6)
      (readerSteps 1 2 ++ daemonSteps 22 ++ [.next])).any
        (fun s => s.1.pendingBound (decoding barePayload).py == 0 && s.2.2.rounds == 1) =
          true := by decide +kernel
  obtain ⟨c₀, c, g, hstart, hloop, hp⟩ := exists_of_runLoop hrun
  simp only [Bool.and_eq_true, beq_iff_eq] at hp
  obtain ⟨hbound, hrounds⟩ := hp
  have hle := hall _ _ _ _ reloads_decoding hstart hloop
  omega

end Sys

end DiscordAgent
