import DiscordAgent.System.Footprint

/-!
# The job state machine under concurrency

`transition_job` checks an edge against the state its `SELECT` read and then
writes with a separate, unconditional `UPDATE`.

Results:
* `Sys.terminal_states_absorb`: along every run in which no other thread changes
  a job between the `SELECT` and the `UPDATE` of a `transition_job` on it, the
  committed states of every job follow `VALID_TRANSITIONS`, and `succeeded` and
  `failed_permanent` are final.
* `Sys.succeeded_job_overwritten`: without that condition a job that has been
  committed as `succeeded` becomes `failed_permanent`.
-/

namespace DiscordAgent

open Interleave Orchestrator

namespace JobState

/-- The states without an edge out of them. -/
def final : JobState → Bool
  | succeeded | failedPermanent => true
  | _ => false

theorem validTransitions_of_final {s : JobState} (h : s.final = true) :
    s.validTransitions = [] := by
  cases s <;> first | rfl | cases h

/-- One committed change: the state stays or takes an edge. -/
def Moves (s t : JobState) : Prop := t = s ∨ t ∈ s.validTransitions

theorem Moves.of_final {s t : JobState} (h : s.Moves t) (hs : s.final = true) : t = s := by
  rcases h with h | h
  · exact h
  · rw [validTransitions_of_final hs] at h
    cases h

end JobState

namespace Sys

variable {cfg : Settings} {c c' : Sys} {e : Event}

/-- If the next operation is the `UPDATE` of a `transition_job`, the row still
    has the state that the `SELECT` read. -/
def fresh (c : Sys) : Event → Bool
  | .run t _ =>
    match c.next? t with
    | some (.updateJobState j current _ _) => (c.shared.db.getJob j).all (·.state == current)
    | _ => true
  | _ => true

theorem state_of_fresh {t : Tid} {i : Inputs} {j : ℕ} {current new : JobState}
    {result : Option String} {r : Job} (h : c.fresh (.run t i) = true)
    (hn : c.next? t = some (.updateJobState j current new result))
    (hr : c.shared.db.getJob j = some r) : r.state = current := by
  simp only [fresh, hn, hr] at h
  simpa using h

/-- One step: the row stays and its state stays or takes an edge. -/
theorem Footprint.moves (hc : c.Footprint) (hfresh : c.fresh e = true)
    (h : Sys.step cfg c e = some c') {j : ℕ} {r : Job} (hr : c.shared.db.getJob j = some r) :
    ∃ r', c'.shared.db.getJob j = some r' ∧ r.state.Moves r'.state := by
  obtain ⟨r', hr', hj⟩ := hc.job h hr
  refine ⟨r', hr', ?_⟩
  rcases hj with rfl | ⟨t, i, o, rfl, hn, hp, hj⟩
  · exact .inl rfl
  · cases hj with
    | transition current new result =>
      have hs := state_of_fresh hfresh hn (by rw [Db.getJob_id hr]; exact hr)
      right
      rw [hs]
      exact valid_of_performs hp
    | rateLimit t repoId hv => exact .inr hv
    | succeed repoId result hv => exact .inr hv
    | _ => exact .inl rfl

/-- One step: a final state stays. -/
theorem Footprint.final_stays (hc : c.Footprint) (hfresh : c.fresh e = true)
    (h : Sys.step cfg c e = some c') {j : ℕ} {s : JobState} (hs : c.jobState j = some s)
    (hfin : s.final = true) : c'.jobState j = some s := by
  unfold jobState at hs ⊢
  obtain ⟨r, hr, hst⟩ := Option.map_eq_some_iff.mp hs
  obtain ⟨r', hr', hm⟩ := hc.moves hfresh h hr
  rw [hst] at hm
  rw [hr', Option.map_some, hm.of_final hfin]

/-- A run: a final state stays. -/
theorem final_of_run (hc : c.Footprint) (h : Runs cfg (fun c e => c.fresh e = true) c c') {j : ℕ}
    {r : Job} (hr : c.shared.db.getJob j = some r) (hfin : r.state.final = true) :
    ∃ r', c'.shared.db.getJob j = some r' ∧ r'.state = r.state := by
  refine (h.invariant (I := fun d => d.Footprint ∧
    ∃ r', d.shared.db.getJob j = some r' ∧ r'.state = r.state) ?_ ⟨hc, r, hr, rfl⟩).2
  rintro d e d' ⟨hd, s, hs, hst⟩ hfresh he
  obtain ⟨s', hs', hm⟩ := hd.moves hfresh he hs
  refine ⟨hd.step he, s', hs', ?_⟩
  rw [← hst] at hfin
  rw [hm.of_final hfin, hst]

theorem terminal_states_absorb {db : Db} {environ : Environ}
    (h : Runs cfg (fun c e => c.fresh e = true) (boot db environ) c) :
    (∀ e c', c.fresh e = true → step cfg c e = some c' → ∀ j r, c.shared.db.getJob j = some r →
      ∃ r', c'.shared.db.getJob j = some r' ∧ r.state.Moves r'.state) ∧
    (∀ c', Runs cfg (fun c e => c.fresh e = true) c c' → ∀ j r, c.shared.db.getJob j = some r →
      r.state.final = true → (∃ r', c'.shared.db.getJob j = some r' ∧ r'.state = r.state) ∧
        ∀ i repoId result, (exec (.onSuccess repoId j result) i c'.shared).1.isNone) := by
  have hc : c.Footprint := (footprint_boot db environ).run h
  constructor
  · intro e c' hfresh he j r hr
    exact hc.moves hfresh he hr
  · intro c' hrun j r hr hfin
    obtain ⟨r', hr', hst⟩ := final_of_run hc hrun hr hfin
    refine ⟨⟨r', hr', hst⟩, ?_⟩
    intro i repoId result
    have hv : JobState.succeeded ∉ r'.state.validTransitions := by
      rw [hst, JobState.validTransitions_of_final hfin]
      simp
    simp only [exec, Db.onSuccess, hr', if_neg hv, Option.isNone_none]

/-- Job 1 is killed while it is queued. -/
def killQueued : List Event :=
  cli (.createRepo oneRepo) ++ cli (.dispatch oneJob) ++ cli (.kill (.killJob (some 1))) ++
    [.next] ++ daemonSteps 4

theorem terminal_states_absorb_killed : ∃ c, c.jobState 1 = some .failedPermanent ∧
    ∀ c', Runs Settings.plain (fun c e => c.fresh e = true) c c' →
      c'.jobState 1 = some .failedPermanent := by
  obtain ⟨c, hrun, hst⟩ := exists_run fresh killQueued
    (fun c => c.jobState 1 == some .failedPermanent) (by decide +kernel)
  have hst : c.jobState 1 = some .failedPermanent := by simpa using hst
  obtain ⟨r, hr, hrs⟩ := Option.map_eq_some_iff.mp hst
  refine ⟨c, hst, ?_⟩
  intro c' h
  obtain ⟨⟨r', hr', hst'⟩, -⟩ :=
    (terminal_states_absorb hrun).2 c' h 1 r hr (by rw [hrs]; rfl)
  simp [jobState, hr', hst', hrs]

/-- The daemon's kill of job 1 has read `running` when the worker exits with
    code 0 and `on_success` commits `succeeded`. -/
def killRaced : List Event :=
  startJob oneJob ++ cli (.kill (.killJob (some 1))) ++ idleRest ++ daemonSteps 5 ++
    [.exit 1 0 (some "done") false] ++ readerSteps 1 6

theorem succeeded_job_overwritten : ¬ ∀ (cfg : Settings) (db : Db) (environ : Environ)
    (c c' : Sys), Runs cfg (fun _ _ => True) (boot db environ) c →
      Runs cfg (fun _ _ => True) c c' → ∀ j s, c.jobState j = some s → s.final = true →
        c'.jobState j = some s := by
  intro hall
  obtain ⟨c, hc, h⟩ := exists_run (fun _ _ => true) killRaced
    (fun c => c.jobState 1 == some .succeeded &&
      (runList (step Settings.plain) (fun _ _ => true) c (daemonSteps 1)).any
        fun c' => c'.jobState 1 == some .failedPermanent) (by decide +kernel)
  simp only [Bool.and_eq_true, beq_iff_eq] at h
  obtain ⟨c', hc', h'⟩ := Run.exists_of_runList h.2
  have := hall _ _ _ c c' (hc.mono fun _ _ _ => trivial) (hc'.mono fun _ _ _ => trivial) 1 _ h.1 rfl
  simp [this] at h'

end Sys

end DiscordAgent
