import DiscordAgent.Interleave.Monitor
import DiscordAgent.Interleave.Watch
import DiscordAgent.System.Footprint

/-!
# Kill commands are carried out

A `kill_job` command is marked as processed when the daemon polls it, before
`_cmd_kill_job` looks for the worker of the job and writes the state of the job. A
command that is skipped in between would be lost, as it is when the daemon is killed.

Specification: `KillStage`, how far the daemon is with a command that it has taken.

Results:
* `Sys.kills_carried_out`: when the daemon has ended a phase, in any run, it has carried
  out every `kill_job` command that it has taken.
-/

namespace DiscordAgent

open Interleave Daemon

/-! ## Specification -/

/-- How far the daemon is with a `kill_job` command. -/
inductive KillStage where
  /-- There is none, or it is carried out: the job was written `failed_permanent`, or it was
      missing, succeeded or failed permanently. -/
  | clear
  /-- The command was taken. -/
  | due
  /-- The attempts, the newest first, that are to be looked up in the process table; none
      when the worker was stopped. -/
  | sweeping (left : List ℕ)
  /-- The process of the attempt is to be stopped. -/
  | found (attemptId : ℕ)
  deriving DecidableEq

/-- The job can become `failed_permanent`. -/
def killableRow (row : Option Job) : Bool :=
  row.any fun r => decide (JobState.failedPermanent ∈ r.state.validTransitions)

/-- What the operations of the daemon do for a command that names job `j`. -/
def KillStage.next (j : ℕ) (m : KillStage) : (o : Op) → o.Res → KillStage
  | .pollCommands _, commands => if .killJob (some j) ∈ commands then due else m
  | .getAttempts k, attempts =>
    if k = j ∧ m = due then sweeping (attempts.reverse.map Attempt.id) else m
  | .getProcess a, inTable =>
    match m with
    | sweeping (b :: left) => if a ≠ b then m else if inTable then found a else sweeping left
    | _ => m
  | .stopProcess a, _ => if m = found a then sweeping [] else m
  | .getJob k, row => if k = j ∧ m = sweeping [] ∧ !killableRow row then clear else m
  | .updateJobState k _ new _, _ =>
    if k = j ∧ m = sweeping [] ∧ new = .failedPermanent then clear else m
  | _, _ => m

/-- The monitor for job `j`. -/
def killMonitor (j : ℕ) : Monitor Op Op.Res KillStage where
  answers _ _ := True
  ok _ _ := True
  next := KillStage.next j

section Next

variable (j a : ℕ) (left : List ℕ) {row : Option Job} (attempts : List Attempt)

theorem next_getAttempts : (killMonitor j).next .due (.getAttempts j) attempts =
    .sweeping (attempts.reverse.map Attempt.id) := if_pos ⟨rfl, rfl⟩

theorem next_missing :
    (killMonitor j).next (.sweeping (a :: left)) (.getProcess a) false = .sweeping left :=
  (if_neg fun h => h rfl).trans (if_neg Bool.false_ne_true)

theorem next_running :
    (killMonitor j).next (.sweeping (a :: left)) (.getProcess a) true = .found a :=
  (if_neg fun h => h rfl).trans (if_pos rfl)

theorem next_stopProcess (r : Unit) :
    (killMonitor j).next (.found a) (.stopProcess a) r = .sweeping [] := if_pos rfl

theorem next_refused (h : killableRow row = false) :
    (killMonitor j).next (.sweeping []) (.getJob j) row = .clear :=
  if_pos ⟨rfl, rfl, by rw [h, Bool.not_false]⟩

theorem next_killable (h : killableRow row = true) :
    (killMonitor j).next (.sweeping []) (.getJob j) row = .sweeping [] := by
  refine if_neg fun hrow => ?_
  rw [h] at hrow
  exact Bool.false_ne_true hrow.2.2

theorem next_update (current : JobState) (result : Option String) (r : Unit) :
    (killMonitor j).next (.sweeping []) (.updateJobState j current .failedPermanent result) r =
      .clear := if_pos ⟨rfl, rfl, rfl⟩

variable {j}

theorem next_clear {o : Op} (h : ∀ limit, o ≠ .pollCommands limit) (r : o.Res) :
    (killMonitor j).next .clear o r = .clear := by
  cases o with
  | pollCommands limit => exact absurd rfl (h limit)
  | getAttempts k => exact if_neg fun hk => KillStage.noConfusion hk.2
  | getJob k => exact if_neg fun hk => KillStage.noConfusion hk.2.1
  | updateJobState k current new result => exact if_neg fun hk => KillStage.noConfusion hk.2.1
  | _ => rfl

/-- A command that is due stays due until the attempts of its job are read. -/
theorem next_due {o : Op} (hp : ∀ limit, o ≠ .pollCommands limit) (ha : o ≠ .getAttempts j)
    (r : o.Res) : (killMonitor j).next .due o r = .due := by
  cases o with
  | pollCommands limit => exact absurd rfl (hp limit)
  | getAttempts k =>
    have hk : k ≠ j := fun hk => ha (by rw [hk])
    exact if_neg fun h => hk h.1
  | getJob k => exact if_neg fun hk => KillStage.noConfusion hk.2.1
  | updateJobState k current new result => exact if_neg fun hk => KillStage.noConfusion hk.2.1
  | _ => rfl

end Next

section Programs

variable {j : ℕ} {m : KillStage}

/-- A program that follows the monitor from `m` to a stage with `Q`. -/
abbrev Kills {α : Type} (j : ℕ) (p : Py α) (m : KillStage) (Q : KillStage → Prop) : Prop :=
  p.Follows (killMonitor j) (fun _ => Q) (fun _ => Q) m

/-- An operation that polls no commands. -/
def Op.offQueue (o : Op) : Prop := ∀ limit, o ≠ .pollCommands limit

/-- Once the command is carried out, it is not due again before the next poll. -/
theorem kills_clear {α : Type} {p : Py α} (hp : p.Emits Op.offQueue) :
    Kills j p .clear fun m => m = .clear := by
  refine Prog.follows_of_emits (I := fun m => m = KillStage.clear) hp ?_ rfl
  rintro o m ho rfl
  exact ⟨trivial, fun r _ => next_clear ho r⟩

/-- The search for the worker ends with the worker stopped, or without one. -/
theorem kills_stopFirst (attempts : List Attempt) :
    (stopFirst attempts).Follows (killMonitor j) (fun _ m => m = .sweeping []) (fun _ _ => False)
      (.sweeping (attempts.map Attempt.id)) := by
  induction attempts with
  | nil => rfl
  | cons a as ih =>
    refine ⟨trivial, fun inTable _ => ?_⟩
    rw [List.map_cons]
    cases inTable with
    | false =>
      rw [next_missing]
      exact ih
    | true =>
      rw [next_running]
      exact ⟨trivial, fun r _ => next_stopProcess j a.id r⟩

/-- The transition to `failed_permanent`. -/
theorem kills_transitionJob (result : Option String) :
    Kills j (transitionJob j .failedPermanent result) (.sweeping []) fun m => m = .clear := by
  refine ⟨trivial, fun row _ => ?_⟩
  cases row with
  | none => exact next_refused j rfl
  | some job =>
    by_cases hv : JobState.failedPermanent ∈ job.state.validTransitions
    · have hrow : killableRow (some job) = true := decide_eq_true hv
      rw [next_killable j hrow]
      simp only [Prog.ret_bind, if_pos hv]
      exact ⟨trivial, fun r _ => next_update j job.state result r⟩
    · have hrow : killableRow (some job) = false := decide_eq_false hv
      rw [next_refused j hrow]
      simp only [Prog.ret_bind, if_neg hv]
      rfl

theorem kills_cmdKillJob : Kills j (cmdKillJob (some j)) .due fun m => m = .clear := by
  refine ⟨trivial, fun attempts _ => ?_⟩
  rw [next_getAttempts]
  refine ((kills_stopFirst attempts.reverse).mono (fun _ _ h => h) fun _ _ h => h.elim).bind
    fun _ m hm => ?_
  subst hm
  refine (kills_transitionJob (some "Killed by user")).tryCatch fun e m hm => ?_
  unfold onValueError
  split_ifs
  · exact hm
  · exact hm

/-- What `_cmd_kill_job` performs: no poll, and it reads the attempts of its own job. -/
theorem emits_cmdKillJob_own (k : Option ℕ) :
    (cmdKillJob k).Emits fun o => o.offQueue ∧ ∀ i, o = .getAttempts i → k = some i := by
  have hstop : ∀ attempts, (stopFirst attempts).Emits fun o =>
      o.offQueue ∧ ∀ i, o = .getAttempts i → k = some i := by
    intro attempts
    induction attempts with
    | nil => trivial
    | cons a as ih =>
      refine ⟨by simp [Op.offQueue], fun inTable => ?_⟩
      cases inTable with
      | false => exact ih
      | true => exact ⟨by simp [Op.offQueue], fun _ => trivial⟩
  cases k with
  | none => trivial
  | some k =>
    refine ⟨by simp [Op.offQueue], fun attempts => (hstop attempts.reverse).bind fun _ =>
      emits_ignoreValueError ⟨by simp [Op.offQueue], fun row => ?_⟩⟩
    cases row with
    | none => trivial
    | some job =>
      simp only [Prog.ret_bind]
      split_ifs
      · exact ⟨by simp [Op.offQueue], fun _ => trivial⟩
      · trivial

/-- Killing another job leaves the command due. -/
theorem kills_other {k : Option ℕ} (hk : k ≠ some j) :
    Kills j (cmdKillJob k) .due fun m => m = .due := by
  refine Prog.follows_of_emits (I := fun m => m = KillStage.due) (emits_cmdKillJob_own k) ?_ rfl
  rintro o m ⟨hp, ha⟩ rfl
  exact ⟨trivial, fun r _ => next_due hp (fun ho => hk (ha j ho)) r⟩

/-- The command is carried out, or it is due and was due before. -/
def KillStage.Kept (m m' : KillStage) : Prop := m' = clear ∨ (m' = due ∧ m = due)

theorem kills_any (k : Option ℕ) (hm : m = .clear ∨ m = .due) :
    Kills j (cmdKillJob k) m fun m' => m.Kept m' ∧ (m' = .due → k ≠ some j) := by
  have hclear : ∀ m', m' = KillStage.clear → m.Kept m' ∧ (m' = .due → k ≠ some j) := by
    rintro m' rfl
    exact ⟨.inl rfl, fun h => KillStage.noConfusion h⟩
  rcases hm with rfl | rfl
  · have hoff := (emits_cmdKillJob_own k).mono fun o ho => ho.1
    exact (kills_clear hoff).mono (fun _ => hclear) fun _ => hclear
  · by_cases hk : k = some j
    · subst hk
      exact kills_cmdKillJob.mono (fun _ => hclear) fun _ => hclear
    · have hdue : ∀ m', m' = KillStage.due → KillStage.due.Kept m' ∧ (m' = .due → k ≠ some j) :=
        fun m' hm' => ⟨.inr ⟨hm', rfl⟩, fun _ => hk⟩
      exact (kills_other hk).mono (fun _ => hdue) fun _ => hdue

theorem KillStage.Kept.refl (h : m = .clear ∨ m = .due) : m.Kept m :=
  h.imp_right fun h => ⟨h, h⟩

theorem KillStage.Kept.stage {m' : KillStage} (h : m.Kept m') : m' = clear ∨ m' = due :=
  h.imp_right And.left

theorem KillStage.Kept.trans {m' m'' : KillStage} (h : m.Kept m') (h' : m'.Kept m'') :
    m.Kept m'' := by
  rcases h' with h' | ⟨h', rfl⟩
  · exact .inl h'
  · rcases h with h | ⟨-, h⟩
    · cases h
    · exact .inr ⟨h', h⟩

theorem kills_cmdKillRepo (repoId : Option ℕ) (hm : m = .clear ∨ m = .due) :
    Kills j (cmdKillRepo repoId) m m.Kept := by
  cases repoId with
  | none => exact .refl hm
  | some repoId =>
    refine ⟨trivial, fun jobs _ => ?_⟩
    refine Prog.follows_forEach (J := fun _ m' => m.Kept m') (fun job _ m' hm' => ?_) jobs m
      (.refl hm)
    exact Prog.follows_runIf (fun _ => (kills_any (some job.id) hm'.stage).mono
      (fun _ _ h => hm'.trans h.1) fun _ _ h => hm'.trans h.1) hm'

/-- At the end of the phase no command is due. -/
theorem kills_processCommands : processCommands.Follows (killMonitor j)
    (fun _ m => m = .clear) (fun _ _ => True) .clear := by
  refine ⟨trivial, fun commands _ => ?_⟩
  have hpolled : (killMonitor j).next .clear (.pollCommands 10) commands = .clear ∨
      ((killMonitor j).next .clear (.pollCommands 10) commands = .due ∧
        Command.killJob (some j) ∈ commands) := by
    by_cases h : Command.killJob (some j) ∈ commands
    · exact .inr ⟨if_pos h, h⟩
    · exact .inl (if_neg h)
  refine (Prog.follows_forEach (E := fun _ _ => True)
    (J := fun cs m => m = KillStage.clear ∨ (m = .due ∧ Command.killJob (some j) ∈ cs))
    (fun cmd cs m hm => ?_) commands _ hpolled).mono (fun _ m hm => ?_) fun _ _ _ => trivial
  · have hstage : m = .clear ∨ m = .due := hm.imp_right And.left
    -- the command is not this one, and still to come
    have hlater : ∀ m', m.Kept m' → (m' = .due → cmd ≠ .killJob (some j)) →
        m' = .clear ∨ (m' = .due ∧ Command.killJob (some j) ∈ cs) := by
      rintro m' (rfl | ⟨rfl, rfl⟩) hne
      · exact .inl rfl
      · rcases hm with hm | ⟨-, hmem⟩
        · cases hm
        · exact .inr ⟨rfl, (List.mem_cons.mp hmem).resolve_left (Ne.symm (hne rfl))⟩
    cases cmd with
    | killJob k =>
      refine (kills_any k hstage).mono (fun _ m' h => hlater m' h.1 fun hd heq => ?_)
        fun _ _ _ => trivial
      exact h.2 hd (Command.killJob.inj heq)
    | killRepo repoId =>
      exact (kills_cmdKillRepo repoId hstage).mono
        (fun _ m' h => hlater m' h fun _ heq => Command.noConfusion heq) fun _ _ _ => trivial
    | shutdown => exact ⟨trivial, fun _ _ => hlater m (.refl hstage) fun _ => by simp⟩
    | unknown name => exact hlater m (.refl hstage) fun _ => by simp
  · exact hm.resolve_right fun h => (List.not_mem_nil h.2).elim

theorem kills_phaseProg (cfg : Settings) (p : Phase) : (phaseProg cfg p).Follows (killMonitor j)
    (fun _ m => m = .clear) (fun _ _ => True) .clear := by
  by_cases hp : p = .commands
  · subst hp
    exact kills_processCommands.bind fun _ _ h => h
  · have hoff : (phaseProg cfg p).Emits Op.offQueue := (emits_phaseProg cfg p).mono fun o ho =>
      fun limit heq => hp (ho.home (by rw [heq]; rfl))
    exact (kills_clear hoff).mono (fun _ _ h => h) fun _ _ _ => trivial

end Programs

/-! ## Runs -/

/-- How far the daemon is with the kill commands for job `j`, after an event. A new daemon
    knows nothing of what the last one has taken. -/
def watchKill (j : ℕ) (c : Sys) (e : Event) (m : KillStage) : KillStage :=
  match e with
  | .run .daemon i =>
    match c.next? .daemon with
    | some o => m.next j o (exec o i c.shared).1
    | none => m
  | .restart _ => .clear
  | _ => m

namespace Sys

variable {cfg : Settings} {c c' : Sys} {e : Event} {j : ℕ} {m : KillStage}

/-- What the daemon goes on to do clears the stage. -/
def WillClear (j : ℕ) (c : Sys) (m : KillStage) : Prop :=
  (c.prog .daemon).Follows (killMonitor j) (fun _ m => m = .clear) (fun _ _ => True) m

theorem WillClear.step (h : c.WillClear j m) (hs : Sys.step cfg c e = some c') :
    c'.WillClear j (watchKill j c e m) := by
  unfold WillClear at h ⊢
  cases e with
  | run t i =>
    have hs : Pool.step exec c t i = some c' := hs
    obtain ⟨o, -, -, hn, -, -, hother⟩ := Pool.step_cases hs
    cases t with
    | daemon =>
      simp only [watchKill, hn]
      exact (Pool.follows_step hs hn trivial h).2
    | reader a =>
      rw [hother .daemon (by simp)]
      exact h
    | cli n =>
      rw [hother .daemon (by simp)]
      exact h
  | next =>
    obtain ⟨p, hp, -, rfl⟩ := step_next hs
    rw [hp] at h
    obtain rfl : m = .clear := h
    rw [Pool.load_prog_self]
    exact kills_phaseProg cfg p
  | exit a code result rl =>
    obtain ⟨w, -, -, rfl⟩ := step_exit hs
    rw [Pool.load_prog_of_ne _ _ (by simp)]
    exact h
  | invoke n cmd =>
    cases hs
    rw [Pool.load_prog_of_ne _ _ (by simp)]
    exact h
  | restart environ =>
    cases hs
    rfl

/-- In every run, when the daemon has ended a phase it has carried out every `kill_job`
    command that it has taken: the worker that it found in the table for the job was stopped,
    and the job was written `failed_permanent` or could not become so. -/
theorem kills_carried_out {db : Db} {environ : Environ} {p : Phase}
    (h : Run (watch (Sys.step cfg) (watchKill j)) (fun _ _ => True) (boot db environ, .clear)
      (c, m)) (hp : c.prog .daemon = .ret p) : m = .clear := by
  have hclear : c.WillClear j m := h.watch_invariant (I := WillClear j)
    (fun _ _ _ _ hi _ hs => hi.step hs) rfl
  unfold WillClear at hclear
  rw [hp] at hclear
  exact hclear

/-- A worker runs for job 1, and the next tick takes a command to kill it. -/
def killRunning : List Event :=
  startJob oneJob ++ idleRest ++ cli (.kill (.killJob (some 1))) ++ daemonSteps 6

/-- The command phase has ended with the worker stopped. -/
def endedKill (s : Sys × KillStage) : Bool :=
  s.1.returned .recovery && decide (Entry.stopped 1 ∈ s.1.shared.journal)

theorem kills_carried_out_running : ∃ c m, Run (watch (Sys.step Settings.plain) (watchKill 1))
    (fun _ _ => True) (boot default fun _ => none, .clear) (c, m) ∧
      c.prog .daemon = .ret .recovery ∧ .stopped 1 ∈ c.shared.journal ∧ m = .clear := by
  have hlist : (runList (watch (Sys.step Settings.plain) (watchKill 1)) (fun _ _ => true)
      (boot default fun _ => none, .clear) killRunning).any endedKill = true := by decide +kernel
  obtain ⟨⟨c, m⟩, hrun, hc⟩ := Run.exists_of_runList hlist
  obtain ⟨hreturned, hstopped⟩ := (Bool.and_eq_true _ _).mp hc
  have hp := prog_of_returned hreturned
  have hrun := hrun.mono fun _ _ _ => trivial
  exact ⟨c, m, hrun, hp, of_decide_eq_true hstopped, kills_carried_out hrun hp⟩

end Sys

end DiscordAgent
