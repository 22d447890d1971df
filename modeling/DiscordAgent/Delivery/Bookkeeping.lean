import DiscordAgent.Delivery.Suppression
import DiscordAgent.Interleave.Watch
import DiscordAgent.Lifecycle.Transitions

/-!
# The bookkeeping of deliveries

`terminal_at`, `wake_state` and `wake_attempts` are written by `transition_job`,
by the statements of `on_success` and `on_rate_limit`, and by the delivery
operations of the Supervisor.

* `Job.Booked`: what the columns say about the state of the job.
* `Sys.booked`: with atomic `transition_job`s this holds in every reachable
  state, and `terminal_at` is the time of the first entry into the
  delivery-terminal states since the job was last queued.
-/

namespace DiscordAgent

open Interleave Orchestrator

/-- `terminal_at` is set in the delivery-terminal states only, and so is the
    wake bookkeeping. -/
structure Job.Booked (r : Job) : Prop where
  terminal : r.terminalAt.isSome = true ↔ r.state.deliveryTerminal = true
  wake : r.wakeState ≠ none ∨ r.wakeAttempts ≠ 0 → r.state.deliveryTerminal = true

/-- Every job row is booked. -/
def World.Booked (w : World) : Prop := ∀ j r, w.db.getJob j = some r → r.Booked

/-- The time of the first entry into the delivery-terminal states since the job
    was last queued, after a step at time `now`. -/
def firstEntry (before after : Option JobState) (now : ℚ) (t : Option ℚ) : Option ℚ :=
  if after = some .queued then none
  else if !before.any JobState.deliveryTerminal && after.any JobState.deliveryTerminal then
    some (t.getD now)
  else t

variable {o : Op} {i : Inputs} {w : World} {j : ℕ} {r r' : Job}

/-! ## Operations -/

theorem Job.Booked.terminalAt_of_queued (h : r.Booked) (hq : r.state = .queued) :
    r.terminalAt = none := by
  cases ht : r.terminalAt with
  | none => rfl
  | some t =>
    have hst := h.terminal.mp (by rw [ht]; rfl)
    rw [hq] at hst
    cases hst

theorem Job.booked_new (n : NewJob) (now : ℚ) (id : ℕ) : (n.row now id).Booked where
  terminal := ⟨fun h => (by cases h), fun h => (by cases h)⟩
  wake h := by
    rcases h with h | h
    · exact absurd rfl h
    · exact absurd rfl h

/-- A change of the state that keeps the wake columns. -/
theorem Job.Booked.transition (h : r.Booked) {new : JobState} {result : Option String} {now : ℚ}
    (hnew : r.state.deliveryTerminal = true → new = .queued ∨ new.deliveryTerminal = true) :
    (r.transition new result now).Booked := by
  constructor
  · simp only [Job.transition]
    split_ifs with hterm hq
    · simp [hterm]
    · simp [hterm]
    · rw [h.terminal]
      constructor
      · intro hr
        rcases hnew hr with hq' | hterm'
        · exact absurd hq' hq
        · exact hterm'
      · intro hterm'
        exact absurd hterm' hterm
  · simp only [Job.transition]
    split_ifs with hq
    · rintro (hw | hw)
      · exact absurd rfl hw
      · exact absurd rfl hw
    · intro hw
      exact (hnew (h.wake hw)).resolve_left hq

/-- The operation writes the wake columns of delivery-terminal jobs only. -/
def Op.wakesTerminal (o : Op) (w : World) : Prop :=
  ∀ j, o.writesDelivery j → (∀ by_, o ≠ .markReported by_ j) → w.Terminal j

theorem JobStep.keepsBooked (h : JobStep i o r r') (hr : w.db.getJob j = some r) (hb : r.Booked)
    (ho : o.timely w) (hw : o.wakesTerminal w) : r'.Booked := by
  have hterm : o.writesDelivery r.id → (∀ by_, o ≠ .markReported by_ r.id) →
      r.state.deliveryTerminal = true := by
    intro hk hne
    obtain ⟨s, hs, hst⟩ := hw _ hk hne
    rw [Db.getJob_id hr, hr] at hs
    cases hs
    exact hst
  cases h with
  | keep => exact hb
  | transition current new result =>
    obtain ⟨hv, hcur⟩ := ho _ _ _ _ rfl
    apply hb.transition
    intro hst
    rw [← hcur r (by rw [Db.getJob_id hr]; exact hr) hst] at hv
    exact JobState.of_deliveryTerminal hst hv
  | rateLimit t repoId hv =>
    have hst : r.state.deliveryTerminal = false := by
      revert hv
      cases r.state <;> decide
    constructor
    · rw [show (r.rateLimit i.now).terminalAt = r.terminalAt from rfl, hb.terminal, hst]
      exact Iff.rfl
    · intro hwake
      have := hb.wake hwake
      rw [hst] at this
      cases this
  | succeed repoId result hv => exact ⟨⟨fun _ => rfl, fun _ => rfl⟩, fun _ => rfl⟩
  | report by_ hnone => exact ⟨hb.terminal, hb.wake⟩
  | claim hnone hne => exact ⟨hb.terminal, fun _ => hterm rfl (by simp)⟩
  | wake hnone => exact ⟨hb.terminal, fun _ => hterm rfl (by simp)⟩
  | attempt => exact ⟨hb.terminal, fun _ => hterm rfl (by simp)⟩
  | undeliverable => exact ⟨hb.terminal, fun _ => hterm rfl (by simp)⟩

theorem World.Booked.exec (h : w.Booked) (ho : o.timely w) (hw : o.wakesTerminal w) :
    (DiscordAgent.exec o i w).2.Booked := by
  intro j r' hr'
  cases hj : w.db.getJob j with
  | none =>
    obtain ⟨n, -, -, rfl⟩ := exec_newJob hj hr'
    exact Job.booked_new n _ _
  | some r =>
    obtain ⟨r'', hr'', hs⟩ := exec_job o i hj
    rw [hr'] at hr''
    cases hr''
    exact hs.keepsBooked hj (h j r hj) ho hw

/-- The history of a job that keeps its state. -/
theorem Job.Booked.firstEntry_same (h : r.Booked) (now : ℚ) :
    firstEntry (some r.state) (some r.state) now r.terminalAt = r.terminalAt := by
  unfold firstEntry
  split_ifs with hq hent
  · exact (h.terminalAt_of_queued (Option.some.inj hq)).symm
  · simp at hent
  · rfl

/-- The history of a job that enters a delivery-terminal state or is in one. -/
theorem Job.Booked.firstEntry_terminal (h : r.Booked) {new : JobState}
    (hnew : new.deliveryTerminal = true) (now : ℚ) :
    firstEntry (some r.state) (some new) now r.terminalAt = some (r.terminalAt.getD now) := by
  have hq : new ≠ .queued := by
    rintro rfl
    cases hnew
  unfold firstEntry
  rw [if_neg (by simpa using hq)]
  split_ifs with hent
  · rfl
  · have hst : r.state.deliveryTerminal = true := by simpa [hnew] using hent
    obtain ⟨t, ht⟩ := Option.isSome_iff_exists.mp (h.terminal.mpr hst)
    rw [ht]
    rfl

/-- `terminal_at` follows the history. -/
theorem JobStep.firstEntry (h : JobStep i o r r') (hb : r.Booked) :
    r'.terminalAt = DiscordAgent.firstEntry (some r.state) (some r'.state) i.now r.terminalAt := by
  cases h with
  | transition current new result =>
    simp only [Job.transition]
    split_ifs with hterm hq
    · exact (hb.firstEntry_terminal hterm i.now).symm
    · rw [hq]
      rfl
    · unfold DiscordAgent.firstEntry
      rw [if_neg (by simpa using hq), if_neg (by simp [hterm])]
  | rateLimit t repoId hv =>
    unfold DiscordAgent.firstEntry
    rw [if_neg (by simp [Job.rateLimit]),
      if_neg (by simp [Job.rateLimit, JobState.deliveryTerminal])]
    rfl
  | succeed repoId result hv => exact (hb.firstEntry_terminal rfl i.now).symm
  | _ => exact (hb.firstEntry_same i.now).symm

/-! ## The contract -/

/-- The daemon relies on the others to leave delivery-terminal jobs in such a
    state, and guarantees to write the delivery columns of these only. -/
def bookContract : Contract Op World :=
  { reportContract with guar := fun o s _ => ∀ j, o.writesDelivery j → s.Terminal j }

theorem guardsTerminal_book : GuardsTerminal bookContract where
  rely _ _ h := h
  assume _ _ h := h
  guar _ _ _ h := h

namespace Sys

variable {cfg : Settings} {c c' : Sys} {e : Event}

/-- Only the Supervisor writes the wake columns. -/
theorem wakesTerminal_of_other {t : Tid} (ht : t ≠ .daemon) (h : c.performs t o) :
    o.wakesTerminal c.shared := by
  intro j hj hne
  cases o with
  | markReported by_ k =>
    obtain rfl := hj
    exact absurd rfl (hne by_)
  | claimForFallback | markWoken | incrWakeAttempts | setUndeliverable =>
    exact absurd (home_of_performs h rfl).1 ht
  | _ => exact hj.elim

theorem not_writesDelivery_of_phase {p : Phase} (hp : p ≠ .supervisor) (h : p.performs o) (j : ℕ) :
    ¬ o.writesDelivery j := by
  intro hw
  cases o with
  | markReported by_ k => exact ne_mark_of_phase hp h by_ k rfl
  | claimForFallback | markWoken | incrWakeAttempts | setUndeliverable => exact hp (h.home rfl)
  | _ => exact hw

theorem timely_of_fresh (hc : c.Footprint) {t : Tid} {i : Inputs} (hok : c.fresh (.run t i) = true)
    (hn : c.next? t = some o) : o.timely c.shared := by
  rintro j current new result rfl
  refine ⟨valid_of_performs (hc.next? hn), ?_⟩
  intro r hr _
  exact state_of_fresh hok hn hr

/-- The contract along the runs with atomic `transition_job`s. -/
def bookProof (cfg : Settings) : DaemonProof cfg (fun c e => c.fresh e = true) where
  K := bookContract
  inv := World.Booked
  post _ _ := True
  other {c t i o} hc hi ht hok hn := by
    have htime := timely_of_fresh hc hok hn
    have hp := hc.next? hn
    constructor
    · exact hi.exec htime (wakesTerminal_of_other ht hp)
    · intro j hj
      exact hj.exec htime (ne_requeue_of_other ht hp j)
  assume hc _ hok hn := timely_of_fresh hc hok hn
  own {o i w} hi ha hg := hi.exec ha fun j hj _ => hg j hj
  enter {c p} _ hi _ := by
    refine ⟨hi, ?_⟩
    by_cases hp : p = .supervisor
    · subst hp
      exact ((allTerminal_tick guardsTerminal_book cfg).bind (Q := fun _ _ => True) fun _ =>
        Triple.skip (Contract.stable_const _) _) _ trivial
    · refine Triple.of_emits (Contract.stable_const True)
        ((emits_phaseProg cfg p).mono fun o ho => ?_) _ trivial
      intro s i _ _
      exact ⟨fun j hj => absurd hj (not_writesDelivery_of_phase hp ho j), trivial⟩
  reap hi := ⟨hi, fun _ h => h⟩
  reboot _ hi _ := ⟨hi, fun _ _ => trivial⟩

/-! ## Runs -/

/-- The history after the next event. -/
def Entries.update (c : Sys) (e : Event) (g : ℕ → Option ℚ) : ℕ → Option ℚ :=
  match e with
  | .run t i =>
    match c.next? t with
    | some o => fun j =>
      firstEntry (c.jobState j) (((exec o i c.shared).2.db.getJob j).map Job.state) i.now (g j)
    | none => g
  | _ => g

/-- `terminal_at` is the time that the history has. -/
def Dated (c : Sys) (g : ℕ → Option ℚ) : Prop :=
  ∀ j r, c.shared.db.getJob j = some r → r.terminalAt = g j

theorem Dated.step {g : ℕ → Option ℚ} (hg : c.Dated g) (hb : c.shared.Booked)
    (h : step cfg c e = some c') : c'.Dated (Entries.update c e g) := by
  intro j r' hr'
  cases e with
  | run t i =>
    obtain ⟨o, -, -, hn, hs, -, -⟩ := Pool.step_cases h
    unfold Entries.update
    simp only [hn]
    rw [hs] at hr'
    rw [hr', Option.map_some]
    unfold jobState
    cases hj : c.shared.db.getJob j with
    | none =>
      obtain ⟨n, -, -, rfl⟩ := exec_newJob hj hr'
      rfl
    | some r =>
      obtain ⟨r'', hr'', hstep⟩ := exec_job o i hj
      rw [hr'] at hr''
      cases hr''
      rw [← hg j r hj]
      exact hstep.firstEntry (hb j r hj)
  | next =>
    obtain ⟨p, -, -, rfl⟩ := step_next h
    exact hg j r' hr'
  | exit a code result rl =>
    obtain ⟨w, -, -, rfl⟩ := step_exit h
    exact hg j r' hr'
  | invoke n cmd =>
    cases h
    exact hg j r' hr'
  | restart environ =>
    cases h
    exact hg j r' hr'

/-- In every state that is reachable with atomic `transition_job`s the columns
    agree with the state of the job. -/
theorem booked {environ : Environ} {g : ℕ → Option ℚ}
    (h : Run (watch (step cfg) Entries.update) (fun s e => s.1.fresh e = true)
      (boot default environ, fun _ => none) (c, g)) :
    ∀ j r, c.shared.db.getJob j = some r →
      (r.terminalAt ≠ none ↔
        r.state ∈ [JobState.succeeded, .failedPermanent, .needsController]) ∧
      (r.terminalAt ≠ none → r.terminalAt = g j) ∧
      (r.wakeState ≠ none ∨ r.wakeAttempts ≠ 0 →
        r.state ∈ [JobState.succeeded, .failedPermanent, .needsController]) := by
  have hboot : (bookProof cfg).Good (boot default environ) :=
    DaemonProof.good_boot (fun _ _ h => by cases h) fun _ _ => trivial
  have hi : (bookProof cfg).Good c ∧ c.Dated g := by
    refine h.watch_invariant (I := fun c g => (bookProof cfg).Good c ∧ c.Dated g) ?_
      ⟨hboot, fun _ _ h => by cases h⟩
    rintro c g e c' ⟨hgood, hg⟩ hok hs
    exact ⟨hgood.step hok hs, hg.step hgood.inv hs⟩
  obtain ⟨hgood, hg⟩ := hi
  have hterm : ∀ s : JobState, s.deliveryTerminal = true ↔
      s ∈ [JobState.succeeded, .failedPermanent, .needsController] := by
    intro s
    cases s <;> decide
  intro j r hr
  have hb := hgood.inv j r hr
  rw [← hterm, ← hb.terminal, Option.isSome_iff_ne_none]
  exact ⟨Iff.rfl, fun _ => hg j r hr, fun hw =>
    Option.isSome_iff_ne_none.mp (hb.terminal.mpr (hb.wake hw))⟩

/-- Job 1 is killed at 50 s, while it is queued. -/
def killedAt : List Event :=
  cli (.createRepo oneRepo) ++ cli (.dispatch oneJob) ++ cli (.kill (.killJob (some 1))) ++
    [.next] ++ daemonSteps 4 { now := 50 }

theorem booked_killed : ∃ (c : Sys) (g : ℕ → Option ℚ) (r : Job), c.shared.db.getJob 1 = some r ∧
    g 1 = some 50 ∧ r.terminalAt = g 1 ∧
      r.state ∈ [JobState.succeeded, .failedPermanent, .needsController] := by
  have hlist : (runList (watch (step Settings.plain) Entries.update) (fun s e => s.1.fresh e)
      (boot default fun _ => none, fun _ => none) killedAt).any
      (fun s => s.2 1 == some 50 && (s.1.shared.db.getJob 1).any fun r => r.terminalAt.isSome) =
      true := by decide +kernel
  obtain ⟨⟨c, g⟩, hrun, hs⟩ := Run.exists_of_runList hlist
  obtain ⟨hg, hany⟩ := (Bool.and_eq_true _ _).mp hs
  obtain ⟨r, hr, hsome⟩ := (Option.any_eq_true _ _).mp hany
  obtain ⟨hstate, htime, -⟩ := booked hrun 1 r hr
  have hne := Option.isSome_iff_ne_none.mp hsome
  exact ⟨c, g, r, hr, eq_of_beq hg, htime hne, hstate.mp hne⟩

end Sys

end DiscordAgent
