import DiscordAgent.Delivery.Supervisor

/-!
# Terminal episodes in the journal

The journal of a run is cut into episodes by the requeues of a job. This module
says what each thread can write into the journal, and that a report stands for
the rest of its episode.

* `journal_of_delivers`, `journal_of_wakes`, `Sys.journal_of_other`: the entries
  that the Supervisor writes for one job, and those of the other threads.
* `World.ReportsStand.exec`: a job that was reported in the current episode is
  reported.
* `nodup_undelivered`: a snapshot of the undelivered jobs lists each job once.
-/

namespace DiscordAgent

open Interleave

/-- The entries since the last requeue of job `j`. -/
def episode (j : ℕ) (es : List Entry) : List Entry := es.takeWhile fun e => e != .requeued j

variable {o : Op} {i : Inputs} {w : World} {j k : ℕ} {e e' : Entry} {es : List Entry}

theorem mem_episode_cons :
    e' ∈ episode j (e :: es) ↔ e ≠ .requeued j ∧ (e' = e ∨ e' ∈ episode j es) := by
  by_cases h : e = .requeued j <;> simp [episode, h]

/-! ## What is written into the journal -/

/-- What one turn of job `j` in the Supervisor performs. -/
def Op.delivers (j : ℕ) (o : Op) : Prop := o.wakes j ∨ o.notifies j ∨ o = .claimForFallback j

/-- An entry of the Supervisor about job `j`. -/
def Entry.concerns (j : ℕ) : Entry → Prop
  | .claimed k | .postBegin k | .postEnd k _ | .undeliverable k | .typed k => k = j
  | .reported by_ k => by_ = .supervisor ∧ k = j
  | _ => False

theorem journal_of_wakes (h : o.wakes k) :
    (exec o i w).2.journal = w.journal ∨ (exec o i w).2.journal = .typed k :: w.journal := by
  rcases exec_journal o i w with hj | ⟨e, hl, hj⟩
  · exact .inl hj
  · cases hl with
    | typed pane l msg =>
      obtain rfl : l = k := by simpa [Op.wakes, Op.isRead] using h
      exact .inr hj
    | _ => simp [Op.wakes, Op.isRead] at h

theorem journal_of_delivers (h : o.delivers k) :
    (exec o i w).2.journal = w.journal ∨
      ∃ e, e.concerns k ∧ (exec o i w).2.journal = e :: w.journal := by
  rcases h with h | h
  · exact (journal_of_wakes h).imp_right fun hj => ⟨.typed k, rfl, hj⟩
  · rcases exec_journal o i w with hj | ⟨e, hl, hj⟩
    · exact .inl hj
    · refine .inr ⟨e, ?_, hj⟩
      cases hl <;> simp_all [Op.notifies, Entry.concerns]

theorem Entry.concerns.ne_reportDone (h : e.concerns k) : e ≠ .reported .reportDone j := by
  rintro rfl
  cases h.1

/-- An entry that says nothing about the delivery of a job. -/
def Entry.silent : Entry → Prop
  | .requeued _ | .recovery _ | .recovered .. | .stopped _ => True
  | _ => False

/-- Where the Supervisor is not running, the daemon writes nothing about the
    delivery of a job. -/
theorem journal_of_phase {p : Phase} (hp : p ≠ .supervisor) (h : p.performs o) :
    (exec o i w).2.journal = w.journal ∨
      ∃ e : Entry, e.silent ∧ (exec o i w).2.journal = e :: w.journal := by
  rcases exec_journal o i w with hj | ⟨e, hl, hj⟩
  · exact .inl hj
  · refine .inr ⟨e, ?_, hj⟩
    cases hl with
    | requeued | recovery | recovered | stopped => trivial
    | reported => cases p <;> simp [Phase.performs, Op.isRead, Op.isTransition] at h hp
    | _ => exact absurd (h.home rfl) hp

namespace Sys

variable {c : Sys} {t : Tid}

/-- The other threads never write `queued`. -/
theorem ne_requeue_of_other (ht : t ≠ .daemon) (h : c.performs t o) (j : ℕ)
    (current : JobState) (result : Option String) :
    o ≠ .updateJobState j current .queued result := by
  rintro rfl
  cases t with
  | daemon => exact ht rfl
  | reader a => simp [performs, Op.ofReader, Op.isRead, Op.isTransition] at h
  | cli n => simp [performs, Op.ofCli, Op.isRead] at h

/-- The other threads report through `report-done` only. -/
theorem reporter_of_other {by_ : Reporter} (ht : t ≠ .daemon)
    (h : c.performs t (.markReported by_ j)) : by_ = .reportDone := by
  cases t with
  | daemon => exact absurd rfl ht
  | reader a => simp [performs, Op.ofReader, Op.isRead, Op.isTransition] at h
  | cli n => simpa [performs, Op.ofCli, Op.isRead] using h

/-- The other threads only write that `report-done` has won. -/
theorem journal_of_other (ht : t ≠ .daemon) (h : c.performs t o) :
    (exec o i c.shared).2.journal = c.shared.journal ∨
      ∃ l, o = .markReported .reportDone l ∧ (c.shared.db.markReported l i.now).1 = true ∧
        (exec o i c.shared).2.journal = .reported .reportDone l :: c.shared.journal := by
  rcases exec_journal o i c.shared with hj | ⟨e, hl, hj⟩
  · exact .inl hj
  · cases t with
    | daemon => exact absurd rfl ht
    | reader a =>
      cases hl <;> simp [performs, Op.ofReader, Op.isRead, Op.isTransition] at h
    | cli n =>
      cases hl with
      | reported by_ l hwin =>
        obtain rfl : by_ = .reportDone := by simpa [performs, Op.ofCli, Op.isRead] using h
        exact .inr ⟨l, rfl, hwin, hj⟩
      | _ => simp [performs, Op.ofCli, Op.isRead] at h

end Sys

/-! ## Reports -/

namespace World

/-- Job `j` is reported. -/
def Reported (w : World) (j : ℕ) : Prop := ∃ r, w.db.getJob j = some r ∧ r.reportedAt.isSome = true

/-- A job that was reported in the current episode is reported. -/
def ReportsStand (w : World) : Prop :=
  ∀ j by_, .reported by_ j ∈ episode j w.journal → w.Reported j

end World

/-- A reported job stays reported until it is requeued. -/
theorem World.Reported.exec (h : w.Reported j)
    (hq : ∀ current result, o ≠ .updateJobState j current .queued result) :
    (DiscordAgent.exec o i w).2.Reported j := by
  obtain ⟨r, hr, hrep⟩ := h
  obtain ⟨r', hr', hs⟩ := exec_job o i hr
  refine ⟨r', hr', ?_⟩
  cases hs with
  | transition current new result =>
    by_cases hn : new = .queued
    · subst hn
      exact absurd (by rw [Db.getJob_id hr]) (hq current result)
    · simpa [Job.transition, hn] using hrep
  | report => rfl
  | _ => exact hrep

/-- A `mark_reported` that wins reports the job. -/
theorem reported_of_mark (by_ : Reporter) (h : (w.db.markReported j i.now).1 = true) :
    (exec (.markReported by_ j) i w).2.Reported j ∧
      ∃ r, w.db.getJob j = some r ∧ r.reportedAt = none := by
  simp only [World.Reported, exec, World.logIf_db, World.setDb_db]
  unfold Db.markReported at h ⊢
  split at h
  · next r hr =>
    split_ifs at h with hp
    refine ⟨⟨{ r with reportedAt := some i.now }, ?_, rfl⟩, r, hr, hp⟩
    simp only [if_pos hp]
    exact Db.getJob_updateJob_self hr
  · cases h

theorem World.ReportsStand.exec (h : w.ReportsStand) :
    (DiscordAgent.exec o i w).2.ReportsStand := by
  intro j by_ hmem
  rcases exec_journal o i w with hj | ⟨e, hl, hj⟩
  · rw [hj] at hmem
    refine (h j by_ hmem).exec fun current result ho => ?_
    -- a requeue writes an entry
    subst ho
    exact absurd hj (by simp [DiscordAgent.exec, World.logIf])
  · rw [hj, mem_episode_cons] at hmem
    obtain ⟨hne, rfl | hmem⟩ := hmem
    · cases hl with
      | reported _ _ hwin => exact (reported_of_mark _ hwin).1
    · refine (h j by_ hmem).exec fun current result ho => hne ?_
      subst ho
      cases hl
      rfl

/-! ## Snapshots -/

theorem mem_undelivered {db : Db} {r : Job} (h : r ∈ db.listUndeliveredTerminalJobs) :
    db.getJob r.id = some r ∧ r.state.deliveryTerminal = true ∧ r.reportedAt = none := by
  obtain ⟨hr, hp⟩ := List.mem_filter.mp (Sql.mem_orderBy.mp h)
  simp only [Bool.and_eq_true, Option.isNone_iff_eq_none] at hp
  exact ⟨Sql.Table.get?_of_mem hr, hp.1, hp.2⟩

theorem nodup_undelivered (db : Db) : (db.listUndeliveredTerminalJobs.map Job.id).Nodup := by
  have hrows : ((db.jobs.select fun j => j.state.deliveryTerminal && j.reportedAt.isNone).map
      Job.id).Nodup :=
    List.pairwise_map.mpr ((Sql.Table.pairwise_select _ _).imp fun h => Nat.ne_of_lt h)
  exact ((List.perm_insertionSort _ _).map Job.id).nodup_iff.mpr hrows

end DiscordAgent
