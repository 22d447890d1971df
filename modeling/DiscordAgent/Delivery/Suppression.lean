import DiscordAgent.Delivery.Episodes

/-!
# Notifications suppressed in advance

`mark_reported` sets `reported_at` whatever state the job is in. A job that is
reported before it ends is never listed by `list_undelivered_terminal_jobs`.

Results:
* `Sys.reported_in_time`: along every run in which `report-done` only wins on
  delivery-terminal jobs and no late `UPDATE` hits such a job, every reported
  job is delivery-terminal, and a job that becomes delivery-terminal is listed.
* `Sys.reported_while_queued`: `report-done` reports a queued job.
-/

namespace DiscordAgent

open Interleave Orchestrator

namespace JobState

/-- From a delivery-terminal state the edges lead to `queued` or stay
    delivery-terminal. -/
theorem of_deliveryTerminal {s t : JobState} (hs : s.deliveryTerminal = true)
    (h : t ∈ s.validTransitions) : t = queued ∨ t.deliveryTerminal = true := by
  cases s <;> simp [deliveryTerminal, validTransitions] at hs h ⊢
  rcases h with rfl | rfl | rfl <;> simp

end JobState

namespace World

/-- Job `j` is in a delivery-terminal state. -/
def Terminal (w : World) (j : ℕ) : Prop :=
  ∃ r, w.db.getJob j = some r ∧ r.state.deliveryTerminal = true

/-- Every reported job is in a delivery-terminal state. -/
def ReportedTerminal (w : World) : Prop :=
  ∀ j r, w.db.getJob j = some r → r.reportedAt.isSome = true → r.state.deliveryTerminal = true

end World

variable {o : Op} {i : Inputs} {w : World} {j : ℕ}

/-- The `UPDATE` follows an edge, and on a delivery-terminal job the edge starts
    from its state. -/
def Op.timely (o : Op) (w : World) : Prop :=
  ∀ j current new result, o = .updateJobState j current new result →
    new ∈ current.validTransitions ∧
      ∀ r, w.db.getJob j = some r → r.state.deliveryTerminal = true → r.state = current

/-! ## Operations -/

/-- What an operation does to a delivery-terminal row. -/
theorem JobStep.of_terminal {r r' : Job} (hr : w.db.getJob j = some r) (h : JobStep i o r r')
    (ho : o.timely w) (hst : r.state.deliveryTerminal = true) :
    r'.state.deliveryTerminal = true ∨
      ((∃ current result, o = .updateJobState j current .queued result) ∧
        r'.reportedAt = none) := by
  cases h with
  | transition current new result =>
    obtain ⟨hv, hcur⟩ := ho _ _ _ _ rfl
    rw [← hcur r (by rw [Db.getJob_id hr]; exact hr) hst] at hv
    rcases JobState.of_deliveryTerminal hst hv with rfl | hnew
    · exact .inr ⟨⟨current, result, by rw [Db.getJob_id hr]⟩, rfl⟩
    · exact .inl hnew
  | rateLimit t repoId hv =>
    rcases JobState.of_deliveryTerminal hst hv with h | h <;> cases h
  | succeed => exact .inl rfl
  | _ => exact .inl hst

theorem World.Terminal.exec (h : w.Terminal j) (ho : o.timely w)
    (hq : ∀ current result, o ≠ .updateJobState j current .queued result) :
    (DiscordAgent.exec o i w).2.Terminal j := by
  obtain ⟨r, hr, hst⟩ := h
  obtain ⟨r', hr', hs⟩ := exec_job o i hr
  refine ⟨r', hr', (hs.of_terminal hr ho hst).resolve_right ?_⟩
  rintro ⟨⟨current, result, rfl⟩, -⟩
  exact hq current result rfl

/-- Reports of delivery-terminal jobs keep the invariant. -/
theorem World.ReportedTerminal.exec (h : w.ReportedTerminal) (ho : o.timely w)
    (hmark : ∀ by_ j r, o = .markReported by_ j → w.db.getJob j = some r → r.reportedAt = none →
      r.state.deliveryTerminal = true) : (DiscordAgent.exec o i w).2.ReportedTerminal := by
  intro j r' hr' hrep
  cases hj : w.db.getJob j with
  | none =>
    obtain ⟨n, -, -, rfl⟩ := exec_newJob hj hr'
    cases hrep
  | some r =>
    obtain ⟨r'', hr'', hs⟩ := exec_job o i hj
    rw [hr'] at hr''
    cases hr''
    by_cases hold : r.reportedAt.isSome = true
    · rcases hs.of_terminal hj ho (h j r hj hold) with hst | ⟨-, hnone⟩
      · exact hst
      · rw [hnone] at hrep
        cases hrep
    · cases hs with
      | report by_ hnone => exact hmark by_ r.id r rfl (by rw [Db.getJob_id hj]; exact hj) hnone
      | transition current new result =>
        simp only [Job.transition] at hrep
        split_ifs at hrep
        · cases hrep
        · exact absurd hrep hold
      | _ => exact absurd hrep hold

/-! ## The contract -/

/-- The operation writes a delivery column of job `j`. -/
def Op.writesDelivery (j : ℕ) : Op → Prop
  | markReported _ k | claimForFallback k | markWoken k | incrWakeAttempts k | setUndeliverable k =>
    k = j
  | _ => False

/-- The contract relies on the others to leave delivery-terminal jobs in such a
    state, and guarantees nothing but writes to these. -/
structure GuardsTerminal (K : Contract Op World) : Prop where
  rely : ∀ s t, K.rely s t → ∀ j, s.Terminal j → t.Terminal j
  assume : ∀ o s, K.assume o s → o.timely s
  guar : ∀ o i s, (∀ j, o.writesDelivery j → s.Terminal j) → K.guar o s (exec o i s).2

/-- The daemon relies on the others to leave delivery-terminal jobs in such a
    state, and guarantees to report only these. -/
def reportContract : Contract Op World where
  rely s t := ∀ j, s.Terminal j → t.Terminal j
  refl _ _ h := h
  trans h h' j hj := h' j (h j hj)
  assume := Op.timely
  guar o s _ := ∀ by_ j, o = .markReported by_ j → s.Terminal j

theorem guardsTerminal_report : GuardsTerminal reportContract where
  rely _ _ h := h
  assume _ _ h := h
  guar o i s h := by
    rintro by_ j rfl
    exact h j rfl

theorem timely_of_ne (h : ∀ j current new result, o ≠ .updateJobState j current new result) :
    o.timely w := by
  intro j current new result ho
  exact absurd ho (h j current new result)

/-- The jobs of `ids` are delivery-terminal. -/
def AllTerminal (ids : List ℕ) (w : World) : Prop := ∀ j ∈ ids, w.Terminal j

section Guards

variable {K : Contract Op World} (hK : GuardsTerminal K) {ids : List ℕ} {job : Job}
include hK

theorem stable_allTerminal (ids : List ℕ) : K.Stable (AllTerminal ids) := by
  intro s t hst hs j hj
  exact hK.rely s t hst j (hs j hj)

theorem keeps_allTerminal (hne : ∀ j current new result, o ≠ .updateJobState j current new result)
    (hids : ∀ j, o.writesDelivery j → j ∈ ids) : K.Keeps exec (AllTerminal ids) o := by
  intro s i hs _
  constructor
  · apply hK.guar
    intro j hj
    exact hs j (hids j hj)
  · intro j hj
    exact (hs j hj).exec (timely_of_ne hne) fun _ _ => hne _ _ _ _

theorem keeps_allTerminal_of_wakes (hj : j ∈ ids) (h : o.wakes j) :
    K.Keeps exec (AllTerminal ids) o := by
  apply keeps_allTerminal hK
  · rintro k current new result rfl
    simp [Op.wakes, Op.isRead] at h
  · intro k hk
    cases o with
    | incrWakeAttempts | markWoken =>
      obtain rfl := h.resolve_left (by simp [Op.isRead])
      obtain rfl := hk
      exact hj
    | markReported | claimForFallback | setUndeliverable => simp [Op.wakes, Op.isRead] at h
    | _ => exact hk.elim

theorem keeps_allTerminal_of_notifies (hj : j ∈ ids) (h : o.notifies j) :
    K.Keeps exec (AllTerminal ids) o := by
  apply keeps_allTerminal hK
  · rintro k current new result rfl
    exact h
  · intro k hk
    cases o with
    | markReported by_ =>
      obtain ⟨-, rfl⟩ := h
      obtain rfl := hk
      exact hj
    | setUndeliverable =>
      obtain rfl := h
      obtain rfl := hk
      exact hj
    | claimForFallback | markWoken | incrWakeAttempts => exact h.elim
    | _ => exact hk.elim

theorem allTerminal_notify (cfg : Settings) (hj : job.id ∈ ids) :
    Triple exec K (AllTerminal ids) (Supervisor.attemptFallbackNotify cfg job)
      (fun _ => AllTerminal ids) fun _ => AllTerminal ids := by
  apply Triple.of_emits (stable_allTerminal hK ids)
  apply (emits_attemptFallbackNotify cfg job).mono
  intro o h
  exact keeps_allTerminal_of_notifies hK hj h

theorem allTerminal_drive (cfg : Settings) (hj : job.id ∈ ids) :
    Triple exec K (AllTerminal ids) (Supervisor.driveDelivery cfg job)
      (fun _ => AllTerminal ids) fun _ => AllTerminal ids := by
  have hst := stable_allTerminal hK ids
  have hwakes : ∀ o : Op, o.wakes job.id → K.Keeps exec (AllTerminal ids) o :=
    fun _ h => keeps_allTerminal_of_wakes hK hj h
  refine Supervisor.triple_driveDelivery hst hst (fun _ _ h => h) (hwakes _ (.inl rfl))
    (fun _ => hwakes) (fun _ _ => allTerminal_notify hK cfg hj) fun _ _ _ => ?_
  refine Supervisor.triple_claimAndFallback hst hst hst (fun s i hs ha => ?_) (hwakes _ (.inl rfl))
    fun job' hid => ?_
  · have hkeeps : K.Keeps exec (AllTerminal ids) (.claimForFallback job.id) := by
      apply keeps_allTerminal hK (by simp)
      rintro k rfl
      exact hj
    obtain ⟨hguar, hall⟩ := hkeeps s i hs ha
    refine ⟨hguar, ?_⟩
    split_ifs <;> exact hall
  · apply allTerminal_notify hK
    rw [hid]
    exact hj

/-- The Supervisor lists delivery-terminal jobs and writes to these only. -/
theorem allTerminal_tick (cfg : Settings) :
    Triple exec K (fun _ => True) (Supervisor.tick cfg) (fun _ _ => True) fun _ _ => True := by
  refine (Supervisor.triple_tick (J := fun jobs => AllTerminal (jobs.map Job.id))
    (fun _ => stable_allTerminal hK _) (fun job jobs => ?_) (Contract.stable_const _)
    fun s i _ _ => ?_).post (fun _ _ _ => trivial) fun _ _ h => h
  · have htail : ∀ w, AllTerminal ((job :: jobs).map Job.id) w →
        AllTerminal (jobs.map Job.id) w := by
      intro w hw j hj
      exact hw j (List.mem_cons_of_mem _ hj)
    exact (allTerminal_drive hK cfg List.mem_cons_self).post (fun _ => htail) fun _ => htail
  · refine ⟨hK.guar _ _ _ fun _ h => h.elim, ?_⟩
    intro j hj
    obtain ⟨r, hr, rfl⟩ := List.mem_map.mp hj
    obtain ⟨hget, hst, -⟩ := mem_undelivered hr
    exact ⟨r, hget, hst⟩

end Guards

namespace Sys

variable {cfg : Settings} {c c' : Sys} {e : Event}

/-- `report-done` only wins on a job in a delivery-terminal state, and the
    `UPDATE` of a `transition_job` does not hit a job that has become
    delivery-terminal since its `SELECT`. -/
def inTime (c : Sys) : Event → Bool
  | .run t _ =>
    match c.next? t with
    | some (.markReported .reportDone j) =>
      (c.shared.db.getJob j).all fun r => r.reportedAt.isSome || r.state.deliveryTerminal
    | some (.updateJobState j current _ _) =>
      (c.shared.db.getJob j).all fun r => !r.state.deliveryTerminal || r.state == current
    | _ => true
  | _ => true

theorem timely_of_inTime (hc : c.Footprint) {t : Tid} {i : Inputs} {o : Op}
    (hok : c.inTime (.run t i) = true) (hn : c.next? t = some o) : o.timely c.shared := by
  rintro j current new result rfl
  refine ⟨valid_of_performs (hc.next? hn), ?_⟩
  intro r hr hst
  simpa [inTime, hn, hr, hst] using hok

theorem mark_of_inTime {t : Tid} {i : Inputs} {j : ℕ} {r : Job}
    (hok : c.inTime (.run t i) = true) (hn : c.next? t = some (.markReported .reportDone j))
    (hr : c.shared.db.getJob j = some r) (hrep : r.reportedAt = none) :
    r.state.deliveryTerminal = true := by
  simpa [inTime, hn, hr, hrep] using hok

/-- The Supervisor reports in its own phase only. -/
theorem ne_mark_of_phase {p : Phase} (hp : p ≠ .supervisor) {o : Op} (h : p.performs o)
    (by_ : Reporter) (j : ℕ) : o ≠ .markReported by_ j := by
  rintro rfl
  cases p <;> simp [Phase.performs, Op.isRead, Op.isTransition] at h hp

/-- The contract along the runs that meet the condition. -/
def reportProof (cfg : Settings) : DaemonProof cfg (fun c e => c.inTime e = true) where
  K := reportContract
  inv := World.ReportedTerminal
  post _ _ := True
  other {c t i o} hc hi ht hok hn := by
    have htime := timely_of_inTime hc hok hn
    have hp := hc.next? hn
    constructor
    · apply hi.exec htime
      rintro by_ j r rfl hr hrep
      obtain rfl := reporter_of_other ht hp
      exact mark_of_inTime hok hn hr hrep
    · intro j hj
      exact hj.exec htime (ne_requeue_of_other ht hp j)
  assume hc _ hok hn := timely_of_inTime hc hok hn
  own {o i w} hi ha hg := by
    apply hi.exec ha
    intro by_ j r ho hr _
    obtain ⟨r', hr', hst⟩ := hg by_ j ho
    rw [hr] at hr'
    cases hr'
    exact hst
  enter {c p} _ hi _ := by
    refine ⟨hi, ?_⟩
    by_cases hp : p = .supervisor
    · subst hp
      exact ((allTerminal_tick guardsTerminal_report cfg).bind (Q := fun _ _ => True) fun _ =>
        Triple.skip (Contract.stable_const _) _) _ trivial
    · refine Triple.of_emits (Contract.stable_const True)
        ((emits_phaseProg cfg p).mono fun o ho => ?_) _ trivial
      intro s i _ _
      refine ⟨?_, trivial⟩
      intro by_ j hm
      exact absurd hm (ne_mark_of_phase hp ho by_ j)
  reap hi := ⟨hi, fun _ h => h⟩
  reboot _ hi _ := ⟨hi, fun _ _ => trivial⟩

/-- A job that becomes delivery-terminal is unreported, so it is listed. -/
theorem listed_of_terminal (hi : c.shared.ReportedTerminal) (h : step cfg c e = some c') {j : ℕ}
    {r r' : Job} (hr : c.shared.db.getJob j = some r) (hr' : c'.shared.db.getJob j = some r')
    (hst : r.state.deliveryTerminal = false) (hst' : r'.state.deliveryTerminal = true) :
    r' ∈ c'.shared.db.listUndeliveredTerminalJobs := by
  have hnone : r.reportedAt = none := by
    by_contra hne
    rw [hi j r hr (Option.isSome_iff_ne_none.mpr hne)] at hst
    cases hst
  suffices hrep : r'.reportedAt = none from
    Sql.mem_orderBy.mpr (List.mem_filter.mpr ⟨Sql.Table.mem_of_get? hr', by simp [hst', hrep]⟩)
  rcases step_shared h with ⟨t, i, o, rfl, hn, hs⟩ | ⟨hs, -⟩
  · obtain ⟨r'', hr'', hj⟩ := exec_job o i hr
    rw [hs, hr''] at hr'
    cases hr'
    cases hj with
    | transition current new result =>
      simp only [Job.transition, hnone]
      split_ifs <;> rfl
    | report by_ hp =>
      rw [hst] at hst'
      cases hst'
    | _ => exact hnone
  · rw [hs, hr] at hr'
    cases hr'
    exact hnone

/-- In a run that meets the condition every reported job is delivery-terminal,
    and a job that becomes delivery-terminal is listed. -/
theorem reported_in_time {db : Db} {environ : Environ}
    (hdb : ∀ j r, db.getJob j = some r → r.reportedAt.isSome = true →
      r.state.deliveryTerminal = true)
    (h : Runs cfg (fun c e => c.inTime e = true) (boot db environ) c) :
    (∀ j r, c.shared.db.getJob j = some r → r.reportedAt.isSome = true →
      r.state.deliveryTerminal = true) ∧
    ∀ e c', step cfg c e = some c' → ∀ j r r', c.shared.db.getJob j = some r →
      c'.shared.db.getJob j = some r' → r.state.deliveryTerminal = false →
        r'.state.deliveryTerminal = true → r' ∈ c'.shared.db.listUndeliveredTerminalJobs := by
  have hgood := (reportProof cfg).sound (DaemonProof.good_boot hdb fun _ _ => trivial) h
  exact ⟨hgood.inv, fun e c' he j r r' hr hr' => listed_of_terminal hgood.inv he hr hr'⟩

/-- Job 1 is killed while it is queued, and then reported. -/
def killedReported : List Event :=
  cli (.createRepo oneRepo) ++ cli (.dispatch oneJob) ++ cli (.kill (.killJob (some 1))) ++
    [.next] ++ daemonSteps 4 ++ cli (.reportDone 1)

/-- Whether job `j` is reported. -/
def isReported (c : Sys) (j : ℕ) : Bool := (c.shared.db.getJob j).any fun r => r.reportedAt.isSome

theorem reported_in_time_killed : ∃ (c : Sys) (r : Job), c.shared.db.getJob 1 = some r ∧
    r.reportedAt.isSome = true ∧ r.state.deliveryTerminal = true := by
  obtain ⟨c, hrun, hrep⟩ := exists_run inTime killedReported (fun c => c.isReported 1)
    (by decide +kernel)
  simp only [isReported, Option.any_eq_true] at hrep
  obtain ⟨r, hr, hsome⟩ := hrep
  exact ⟨c, r, hr, hsome, (reported_in_time (fun _ _ h => by cases h) hrun).1 1 r hr hsome⟩

/-- `report-done` is called for job 1 while it is queued. -/
theorem reported_while_queued : ¬ ∀ (cfg : Settings) (environ : Environ) (c : Sys),
    Runs cfg (fun _ _ => True) (boot default environ) c → ∀ j r, c.shared.db.getJob j = some r →
      r.reportedAt.isSome = true → r.state.deliveryTerminal = true := by
  intro hall
  obtain ⟨c, hrun, hp⟩ := exists_run (fun _ _ => true)
    (cli (.createRepo oneRepo) ++ cli (.dispatch oneJob) ++ cli (.reportDone 1))
    (fun c => (c.shared.db.getJob 1).any fun r => r.reportedAt.isSome && r.state == .queued)
    (by decide +kernel)
  simp only [Option.any_eq_true, Bool.and_eq_true, beq_iff_eq] at hp
  obtain ⟨r, hr, hrep, hst⟩ := hp
  have := hall _ _ c (hrun.mono fun _ _ _ => trivial) 1 r hr hrep
  rw [hst] at this
  cases this

end Sys

end DiscordAgent
