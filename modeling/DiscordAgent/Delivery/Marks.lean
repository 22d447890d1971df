import DiscordAgent.Delivery.Episodes

/-!
# What an episode and its row say about a job

An episode of the journal says whether the user has been told about the job and
whether the daemon has given it up; `reported_at` and `wake_state` of the row
are meant to say the same.

* `World.Consistent`: they do.
* `consistent_of_phase`: outside the Supervisor's phase they keep doing so.
* `row_of_delivers`, `told_of_concerns`: the turn of one job leaves the rows and
  the episodes of the others alone.
-/

namespace DiscordAgent

open Interleave Orchestrator

variable {o : Op} {i : Inputs} {w : World} {j k : ℕ} {e : Entry} {es : List Entry}

/-! ## What an episode says about a job -/

/-- The user has been told about job `j`: it was reported or a POST succeeded. -/
def Told (j : ℕ) (es : List Entry) : Prop :=
  (∃ by_, .reported by_ j ∈ episode j es) ∨
    ∃ res : NotifyResult, res.success = true ∧ .postEnd j res ∈ episode j es

/-- The daemon has given job `j` up. -/
def GivenUp (j : ℕ) (es : List Entry) : Prop := .undeliverable j ∈ episode j es

theorem told_cons (h : Told j (e :: es)) :
    e ≠ .requeued j ∧ ((∃ by_, e = .reported by_ j) ∨
      (∃ res : NotifyResult, res.success = true ∧ e = .postEnd j res) ∨ Told j es) := by
  rcases h with ⟨by_, h⟩ | ⟨res, hs, h⟩ <;> obtain ⟨hne, h | h⟩ := mem_episode_cons.mp h
  · exact ⟨hne, .inl ⟨by_, h.symm⟩⟩
  · exact ⟨hne, .inr (.inr (.inl ⟨by_, h⟩))⟩
  · exact ⟨hne, .inr (.inl ⟨res, hs, h.symm⟩)⟩
  · exact ⟨hne, .inr (.inr (.inr ⟨res, hs, h⟩))⟩

theorem givenUp_cons (h : GivenUp j (e :: es)) :
    e ≠ .requeued j ∧ (e = .undeliverable j ∨ GivenUp j es) := by
  obtain ⟨hne, h | h⟩ := mem_episode_cons.mp h
  · exact ⟨hne, .inl h.symm⟩
  · exact ⟨hne, .inr h⟩

/-- Entries about another job. -/
theorem told_of_concerns (hc : e.concerns k) (hk : k ≠ j) (h : Told j (e :: es)) : Told j es := by
  obtain ⟨-, ⟨by_, rfl⟩ | ⟨res, -, rfl⟩ | h⟩ := told_cons h
  · exact absurd hc.2 hk.symm
  · exact absurd hc hk.symm
  · exact h

theorem givenUp_of_concerns (hc : e.concerns k) (hk : k ≠ j) (h : GivenUp j (e :: es)) :
    GivenUp j es := by
  obtain ⟨-, rfl | h⟩ := givenUp_cons h
  · exact absurd hc hk.symm
  · exact h

theorem told_of_silent (hs : e.silent) (h : Told j (e :: es)) : e ≠ .requeued j ∧ Told j es := by
  obtain ⟨hne, ⟨by_, rfl⟩ | ⟨res, -, rfl⟩ | h⟩ := told_cons h
  · exact hs.elim
  · exact hs.elim
  · exact ⟨hne, h⟩

theorem givenUp_of_silent (hs : e.silent) (h : GivenUp j (e :: es)) :
    e ≠ .requeued j ∧ GivenUp j es := by
  obtain ⟨hne, rfl | h⟩ := givenUp_cons h
  · exact hs.elim
  · exact ⟨hne, h⟩

/-! ## The delivery columns -/

/-- The row keeps `reported_at` and `wake_state`. -/
def SameMarks (r r' : Job) : Prop := r'.reportedAt = r.reportedAt ∧ r'.wakeState = r.wakeState

theorem marks_of_transition {r : Job} {new : JobState} {result : Option String}
    (hn : new ≠ .queued) : SameMarks r (r.transition new result i.now) := by
  simp [SameMarks, Job.transition, hn]

/-- Outside the Supervisor's phase only a requeue writes the columns. -/
theorem marks_of_phase {p : Phase} (hp : p ≠ .supervisor) (h : p.performs o) {r r' : Job}
    (hs : JobStep i o r r') :
    SameMarks r r' ∨ ∃ current result, o = .updateJobState r.id current .queued result := by
  cases hs with
  | keep | rateLimit | succeed => exact .inl ⟨rfl, rfl⟩
  | transition current new result =>
    by_cases hn : new = .queued
    · subst hn
      exact .inr ⟨current, result, rfl⟩
    · exact .inl (marks_of_transition hn)
  | report by_ => cases p <;> simp [Phase.performs, Op.isRead, Op.isTransition] at h hp
  | _ => exact absurd (h.home rfl) hp

/-- The other threads write them through `report-done` only. -/
theorem Sys.marks_of_other {c : Sys} {t : Tid} (ht : t ≠ .daemon) (h : c.performs t o)
    (hm : ∀ j, o ≠ .markReported .reportDone j) {r r' : Job} (hs : JobStep i o r r') :
    SameMarks r r' := by
  cases hs with
  | keep | rateLimit | succeed => exact ⟨rfl, rfl⟩
  | transition current new result =>
    apply marks_of_transition
    rintro rfl
    exact ne_requeue_of_other ht h _ _ _ rfl
  | report by_ =>
    obtain rfl := reporter_of_other ht h
    exact absurd rfl (hm _)
  | _ => exact absurd (home_of_performs h rfl).1 ht

/-- The turn of another job. -/
theorem row_of_delivers (ho : o.delivers k) (hk : j ≠ k) {r : Job} (hr : w.db.getJob j = some r) :
    (exec o i w).2.db.getJob j = some r := by
  obtain ⟨r', hr', hs⟩ := exec_job o i hr
  have hid := Db.getJob_id hr
  cases hs with
  | keep => exact hr'
  | transition | rateLimit | succeed =>
    simp [Op.delivers, Op.wakes, Op.notifies, Op.isRead] at ho
  | _ =>
    refine absurd ?_ hk
    simp [Op.delivers, Op.wakes, Op.notifies, Op.isRead] at ho
    omega

namespace World

/-- Job `j` is in `undeliverable`. -/
def Undeliverable (w : World) (j : ℕ) : Prop :=
  ∃ r, w.db.getJob j = some r ∧ r.wakeState = some .undeliverable

/-- The row of job `j` shows what the episode says. -/
structure Consistent (w : World) (j : ℕ) : Prop where
  told : Told j w.journal → w.Reported j
  givenUp : GivenUp j w.journal → w.Undeliverable j

/-- Job `j` is unreported and has this `wake_state`. -/
def Unreported (w : World) (j : ℕ) (wake : Option WakeState) : Prop :=
  ∃ r, w.db.getJob j = some r ∧ r.reportedAt = none ∧ r.wakeState = wake

/-- The rows keep their delivery columns. -/
def KeepsMarks (s t : World) : Prop :=
  ∀ j r, s.db.getJob j = some r → ∃ r', t.db.getJob j = some r' ∧ SameMarks r r'

variable {s t : World} {wake : Option WakeState}

theorem keepsMarks_of_same (h : t.db = s.db) : s.KeepsMarks t := by
  intro j r hr
  refine ⟨r, ?_, rfl, rfl⟩
  rw [h]
  exact hr

theorem KeepsMarks.unreported (h : s.KeepsMarks t) (hj : s.Unreported j wake) :
    t.Unreported j wake := by
  obtain ⟨r, hr, hrep, hw⟩ := hj
  obtain ⟨r', hr', hm⟩ := h j r hr
  refine ⟨r', hr', ?_, ?_⟩
  · rw [hm.1]
    exact hrep
  · rw [hm.2]
    exact hw

/-- Nothing new was said about job `j` and its row keeps the delivery columns. -/
theorem Consistent.of_row (hc : s.Consistent j) (htold : Told j t.journal → Told j s.journal)
    (hgiven : GivenUp j t.journal → GivenUp j s.journal)
    (hrow : ∀ r, s.db.getJob j = some r → ∃ r', t.db.getJob j = some r' ∧ SameMarks r r') :
    t.Consistent j := by
  constructor
  · intro ht
    obtain ⟨r, hr, hrep⟩ := hc.told (htold ht)
    obtain ⟨r', hr', hm⟩ := hrow r hr
    refine ⟨r', hr', ?_⟩
    rw [hm.1]
    exact hrep
  · intro hg
    obtain ⟨r, hr, hw⟩ := hc.givenUp (hgiven hg)
    obtain ⟨r', hr', hm⟩ := hrow r hr
    refine ⟨r', hr', ?_⟩
    rw [hm.2]
    exact hw

theorem Consistent.of_marks (hc : s.Consistent j) (hj : t.journal = s.journal)
    (h : s.KeepsMarks t) : t.Consistent j := by
  apply hc.of_row
  · rw [hj]
    exact id
  · rw [hj]
    exact id
  · exact h j

/-- Before the first entry nothing has been said. -/
theorem consistent_of_nil (h : w.journal = []) : w.Consistent j := by
  constructor
  · intro ht
    rw [h] at ht
    rcases ht with ⟨_, ht⟩ | ⟨_, -, ht⟩ <;> cases ht
  · intro hg
    rw [h] at hg
    cases hg

/-- An unreported job in `fallback` has neither been told nor given up. -/
theorem Consistent.of_fallback (hc : w.Consistent j) (hwake : wake ≠ some .undeliverable)
    (h : w.Unreported j wake) : ¬ Told j w.journal ∧ ¬ GivenUp j w.journal := by
  obtain ⟨r, hr, hrep, hw⟩ := h
  constructor
  · intro ht
    obtain ⟨r', hr', hsome⟩ := hc.told ht
    rw [hr] at hr'
    cases hr'
    simp [hrep] at hsome
  · intro hg
    obtain ⟨r', hr', hund⟩ := hc.givenUp hg
    rw [hr] at hr'
    cases hr'
    exact hwake (hw.symm.trans hund)

end World

/-- The phases before the Supervisor keep the rows consistent. -/
theorem consistent_of_phase {p : Phase} (hp : p ≠ .supervisor) (h : p.performs o)
    (hc : w.Consistent j) : (exec o i w).2.Consistent j := by
  -- either the job is requeued, which starts an episode, or its row keeps its marks
  by_cases hq : ∃ current result, o = .updateJobState j current .queued result
  · obtain ⟨current, result, rfl⟩ := hq
    have hj : (exec (.updateJobState j current .queued result) i w).2.journal =
        .requeued j :: w.journal := by simp [exec, World.logIf]
    constructor
    · intro ht
      rw [hj] at ht
      exact absurd rfl (told_cons ht).1
    · intro hg
      rw [hj] at hg
      exact absurd rfl (givenUp_cons hg).1
  · apply hc.of_row
    · rcases journal_of_phase (i := i) (w := w) hp h with hj | ⟨e, hs, hj⟩ <;> rw [hj]
      · exact id
      · exact fun ht => (told_of_silent hs ht).2
    · rcases journal_of_phase (i := i) (w := w) hp h with hj | ⟨e, hs, hj⟩ <;> rw [hj]
      · exact id
      · exact fun hg => (givenUp_of_silent hs hg).2
    · intro r hr
      obtain ⟨r', hr', hs⟩ := exec_job o i hr
      refine ⟨r', hr', (marks_of_phase hp h hs).resolve_right ?_⟩
      rw [Db.getJob_id hr]
      exact hq

end DiscordAgent
