import DiscordAgent.System.Footprint

/-!
# Contracts for the daemon

The daemon is the thread with the long programs, so a result about its runs is
a contract for it: what it relies on while readers and command line processes
run, what each of its operations guarantees, and what holds when a phase ends.
The other threads enter through their footprints only.

* `DaemonProof`: a contract with the facts that make it sound.
* `DaemonProof.sound`: the invariant holds and the daemon's program meets the
  contract in every state of every run whose steps meet `ok`.
* `DaemonProof.guarantee`: every operation of the daemon meets its guarantee.
-/

namespace DiscordAgent

open Interleave Sys

/-- What holds when a program of the daemon ends: `post p` if it moves on to
    phase `p`, nothing if it raised. -/
abbrev atEnd (post : Phase → World → Prop) : Except PyErr Phase → World → Prop :=
  ends post fun _ _ => True

/-- `run_job` keeps `P` until it has read its job and the repo. -/
theorem triple_runJob_of {K : Contract Op World} {P : World → Prop} {Q : ℕ → World → Prop}
    {E : PyErr → World → Prop} {jobId sessionId : ℕ} {model : String}
    (hread : ∀ {o : Op}, o.isRead = true → Triple exec K P (op o) (fun _ => P) E)
    (hraise : ∀ e, Triple exec K P (.raise e : Py ℕ) Q E)
    (hrest : ∀ job repo, Triple exec K P
      ((createAttempt jobId (some sessionId)).bind fun attemptId =>
        (transitionJob jobId .starting).bind fun _ =>
          Runner.launch jobId job repo sessionId model attemptId) Q E) :
    Triple exec K P (Runner.runJob jobId sessionId model) Q E := by
  refine (hread rfl).bind fun job => ?_
  cases job with
  | none => exact hraise _
  | some job =>
    refine (hread rfl).bind fun repo => ?_
    cases repo with
    | none => exact hraise _
    | some repo => exact hrest job repo

/-- A contract for the daemon in runs whose steps meet `ok`. -/
structure DaemonProof (cfg : Settings) (ok : Sys → Event → Prop) where
  K : Contract Op World
  inv : World → Prop
  post : Phase → World → Prop
  /-- What the other threads do is within `rely`. -/
  other : ∀ {c : Sys} {t i o}, c.Footprint → inv c.shared → t ≠ .daemon → ok c (.run t i) →
    c.next? t = some o →
    inv (exec o i c.shared).2 ∧ K.rely c.shared (exec o i c.shared).2
  /-- What the run promises is enough for `assume`. -/
  assume : ∀ {c : Sys} {i o}, c.Footprint → inv c.shared → ok c (.run .daemon i) →
    c.next? .daemon = some o → K.assume o c.shared
  own : ∀ {o i w}, inv w → K.assume o w → K.guar o w (exec o i w).2 → inv (exec o i w).2
  /-- Each phase starts from the end of the previous one. -/
  enter : ∀ {c : Sys} {p}, ok c .next → inv c.shared → post p c.shared →
    inv (c.shared.enter p) ∧
      (Daemon.phaseProg cfg p).wp exec K (atEnd post) (c.shared.enter p)
  reap : ∀ {w a}, inv w → inv (w.reap a) ∧ K.rely w (w.reap a)
  reboot : ∀ {c : Sys} {environ}, c.Footprint → inv c.shared → ok c (.restart environ) →
    inv (c.shared.reboot environ) ∧
      ∀ w, K.rely (c.shared.reboot environ) w → post .commands w

namespace DaemonProof

variable {cfg : Settings} {ok : Sys → Event → Prop} (D : DaemonProof cfg ok) {c c' : Sys}
  {e : Event}

/-- The state of a run as the proof sees it. -/
structure Good (c : Sys) : Prop where
  footprint : c.Footprint
  inv : D.inv c.shared
  wp : (c.prog .daemon).wp exec D.K (atEnd D.post) c.shared

variable {D}

theorem Good.step (hc : D.Good c) (hok : ok c e) (h : Sys.step cfg c e = some c') : D.Good c' := by
  suffices hs : D.inv c'.shared ∧ (c'.prog .daemon).wp exec D.K (atEnd D.post) c'.shared from
    ⟨hc.footprint.step h, hs.1, hs.2⟩
  cases e with
  | run t i =>
    have h : Pool.step exec c t i = some c' := h
    obtain ⟨o, -, -, hn, hs, -, -⟩ := Pool.step_cases h
    by_cases ht : t = .daemon
    · subst ht
      have ha := D.assume hc.footprint hc.inv hok hn
      obtain ⟨hwp, hg⟩ := Pool.wp_self h
        (fun o' ho' => D.assume hc.footprint hc.inv hok ho') hc.wp
      have hg := hg o hn
      refine ⟨?_, hwp⟩
      rw [hs] at hg ⊢
      exact D.own hc.inv ha hg
    · obtain ⟨hi, hr⟩ := D.other hc.footprint hc.inv ht hok hn
      rw [← hs] at hi hr
      exact ⟨hi, Pool.wp_other ht h hr hc.wp⟩
  | next =>
    obtain ⟨p, hp, -, rfl⟩ := Sys.step_next h
    have hwp := hc.wp
    rw [hp] at hwp
    obtain ⟨hi, hwp'⟩ := D.enter hok hc.inv (hwp c.shared (D.K.refl _))
    exact ⟨hi, by simpa using hwp'⟩
  | exit a code result rl =>
    obtain ⟨w, -, -, rfl⟩ := Sys.step_exit h
    obtain ⟨hi, hr⟩ := D.reap (a := a) hc.inv
    exact ⟨hi, Prog.wp_rely hc.wp hr⟩
  | invoke n cmd =>
    cases h
    exact ⟨hc.inv, hc.wp⟩
  | restart environ =>
    cases h
    exact D.reboot hc.footprint hc.inv hok

/-- The contract holds along every run. -/
theorem sound (hc : D.Good c) (h : Runs cfg ok c c') : D.Good c' :=
  h.invariant (I := D.Good) (fun _ _ _ hs ho he => hs.step ho he) hc

/-- Every operation of the daemon meets its guarantee. -/
theorem Good.guarantee (hc : D.Good c) {i : Inputs} {o : Op} (hok : ok c (.run .daemon i))
    (hn : c.next? .daemon = some o) : D.K.guar o c.shared (exec o i c.shared).2 := by
  have hwp := hc.wp
  obtain ⟨k, hp⟩ := Pool.exists_of_next? hn
  rw [hp] at hwp
  exact (hwp c.shared (D.K.refl _) (D.assume hc.footprint hc.inv hok hn) i).1

/-- The daemon has just been started. -/
theorem good_boot {db : Db} {environ : Environ} (hi : D.inv (Sys.boot db environ).shared)
    (hp : ∀ w, D.K.rely (Sys.boot db environ).shared w → D.post .commands w) :
    D.Good (Sys.boot db environ) := ⟨Sys.footprint_boot db environ, hi, hp⟩

end DaemonProof

end DiscordAgent
