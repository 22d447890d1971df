import DiscordAgent.Delivery.Episodes

/-!
# Does `report-done` cancel the fallback?

`tick` works on a snapshot of the undelivered jobs and checks `reported_at` in
the snapshot only. A job that is listed in `fallback`, and a job that has just
been claimed, gets its POST whatever happens in between.

Results:
* `Sys.report_cancels`: along every run in which `report-done` never wins while
  a POST of the job is pending, no POST begins after a won `report-done` of the
  same episode.
* `Sys.report_too_late`: `report-done` wins between the claim and the POST.
-/

namespace DiscordAgent

open Interleave Orchestrator

/-- A POST of job `j` is pending: the tick has claimed the job, or has listed it
    in `fallback`, and has neither begun the POST nor given the job up. -/
def pending (j : ℕ) : List Entry → Bool
  | [] => false
  | .claimed k :: es => if k = j then true else pending j es
  | .postBegin k :: es => if k = j then false else pending j es
  | .undeliverable k :: es => if k = j then false else pending j es
  | .listed jobs :: _ => jobs.contains (j, some .fallback)
  | _ :: es => pending j es

variable {o : Op} {i : Inputs} {w : World} {j k : ℕ} {e : Entry} {es : List Entry}

theorem pending_of_concerns (h : e.concerns k) (hk : k ≠ j) :
    pending j (e :: es) = pending j es := by
  cases e <;> simp_all [Entry.concerns, pending]

namespace World

/-- The Controller has not won a `report-done` of job `j` in this episode. -/
def NoReport (w : World) (j : ℕ) : Prop := .reported .reportDone j ∉ episode j w.journal

/-- A POST of job `j` is pending and may begin. -/
def Safe (w : World) (j : ℕ) : Prop := pending j w.journal = true ∧ w.NoReport j

/-- Every POST so far began before a won `report-done` of its episode. -/
def NoLatePost (w : World) : Prop := ∀ j newer older,
  w.journal = newer ++ .postBegin j :: older → .reported .reportDone j ∉ episode j older

end World

theorem noReport_cons (h : w.NoReport j) {w' : World} (hj : w'.journal = e :: w.journal)
    (he : e ≠ .reported .reportDone j) : w'.NoReport j := by
  intro hmem
  rw [hj, mem_episode_cons] at hmem
  obtain ⟨-, rfl | hmem⟩ := hmem
  · exact he rfl
  · exact h hmem

theorem World.NoReport.delivers (h : w.NoReport j) (ho : o.delivers k) :
    (exec o i w).2.NoReport j := by
  rcases journal_of_delivers ho with hj | ⟨e, he, hj⟩
  · rw [World.NoReport, hj]
    exact h
  · exact noReport_cons h hj he.ne_reportDone

/-- The turn of another job keeps a pending POST. -/
theorem World.Safe.delivers (h : w.Safe j) (ho : o.delivers k) (hk : k ≠ j) :
    (exec o i w).2.Safe j := by
  refine ⟨?_, h.2.delivers ho⟩
  rcases journal_of_delivers ho with hj | ⟨e, he, hj⟩
  · rw [hj]
    exact h.1
  · rw [hj, pending_of_concerns he hk]
    exact h.1

theorem World.Safe.wakes (h : w.Safe j) (ho : o.wakes k) : (exec o i w).2.Safe j := by
  refine ⟨?_, h.2.delivers (.inl ho)⟩
  rcases journal_of_wakes ho with hj | hj <;> rw [hj] <;> exact h.1

/-- Neither `report-done` of another job nor a silent operation touches a
    pending POST. -/
theorem World.Safe.of_journal {w' : World} (h : w.Safe j)
    (hj : w'.journal = w.journal ∨
      ∃ l, l ≠ j ∧ w'.journal = .reported .reportDone l :: w.journal) : w'.Safe j := by
  rcases hj with hj | ⟨l, hl, hj⟩
  · rw [World.Safe, World.NoReport, hj]
    exact h
  · exact ⟨by rw [hj]; exact h.1, noReport_cons h.2 hj (by simpa using hl)⟩

theorem World.NoLatePost.exec (h : w.NoLatePost)
    (hpost : ∀ j chat text, o = .postBegin j chat text → w.NoReport j) :
    (DiscordAgent.exec o i w).2.NoLatePost := by
  rcases exec_journal o i w with hj | ⟨e, hl, hj⟩
  · rw [World.NoLatePost, hj]
    exact h
  · intro j newer older heq
    rw [hj] at heq
    cases newer with
    | nil =>
      obtain ⟨rfl, rfl⟩ := List.cons.inj heq
      cases hl with
      | postBegin _ chat text => exact hpost j chat text rfl
    | cons e' newer =>
      obtain ⟨-, heq⟩ := List.cons.inj heq
      exact h j newer older heq

theorem noReport_of_unreported (hs : w.ReportsStand) {r : Job} (hr : w.db.getJob j = some r)
    (hn : r.reportedAt = none) : w.NoReport j := by
  intro hmem
  obtain ⟨r', hr', hrep⟩ := hs j _ hmem
  rw [hr] at hr'
  cases hr'
  rw [hn] at hrep
  cases hrep

/-- A won claim makes the POST pending, and it may begin. -/
theorem safe_of_claim (hs : w.ReportsStand) (h : (w.db.claimForFallback j).1 = true) :
    (exec (.claimForFallback j) i w).2.Safe j := by
  have hj : (exec (.claimForFallback j) i w).2.journal = .claimed j :: w.journal := by
    simp [exec, World.logIf, h]
  obtain ⟨r, hr, hn⟩ : ∃ r, w.db.getJob j = some r ∧ r.reportedAt = none := by
    unfold Db.claimForFallback at h
    split at h
    · next r hr =>
      split_ifs at h with hp
      exact ⟨r, hr, hp.1⟩
    · cases h
  exact ⟨by simp [hj, pending], noReport_cons (noReport_of_unreported hs hr hn) hj (by simp)⟩

/-- The jobs that are listed in `fallback`. -/
theorem safe_of_listed (hs : w.ReportsStand) {r : Job} (hr : r ∈ w.db.listUndeliveredTerminalJobs)
    (hfb : r.wakeState = some .fallback) :
    (exec .listUndeliveredTerminalJobs i w).2.Safe r.id := by
  obtain ⟨hget, -, hn⟩ := mem_undelivered hr
  refine ⟨?_, noReport_cons (noReport_of_unreported hs hget hn) rfl (by simp)⟩
  simp only [exec, World.log_journal, pending, List.contains_iff_mem, List.mem_map]
  exact ⟨r, hr, by rw [hfb]⟩

/-! ## The contract -/

/-- While the Supervisor runs it relies on the others to leave pending POSTs
    alone. It assumes that reports stand and guarantees to begin no POST after
    a won `report-done`. -/
def cancelContract : Contract Op World where
  rely s t := t.phase = s.phase ∧ (s.phase = .supervisor → ∀ j, s.Safe j → t.Safe j)
  refl _ := ⟨rfl, fun _ _ h => h⟩
  trans h h' := ⟨h'.1.trans h.1, fun hp j hj => h'.2 (h.1.trans hp) j (h.2 hp j hj)⟩
  assume _ s := s.ReportsStand
  guar o s _ := ∀ j chat text, o = .postBegin j chat text → s.NoReport j

/-- The jobs still to come: the POSTs of those in `fallback` may begin. -/
def AllSafe (xs : List Job) (w : World) : Prop :=
  w.phase = .supervisor ∧ (xs.map Job.id).Nodup ∧
    ∀ x ∈ xs, x.wakeState = some .fallback → w.Safe x.id

/-- The same, with a pending POST of job `j` that is none of them. -/
def NowSafe (j : ℕ) (xs : List Job) (w : World) : Prop :=
  AllSafe xs w ∧ j ∉ xs.map Job.id ∧ w.Safe j

theorem stable_allSafe (xs : List Job) : cancelContract.Stable (AllSafe xs) := by
  intro s t hst hs
  refine ⟨hst.1.trans hs.1, hs.2.1, ?_⟩
  intro x hx hw
  exact hst.2 hs.1 x.id (hs.2.2 x hx hw)

theorem stable_nowSafe (j : ℕ) (xs : List Job) : cancelContract.Stable (NowSafe j xs) := by
  intro s t hst hs
  exact ⟨stable_allSafe xs s t hst hs.1, hs.2.1, hst.2 hs.1.1 j hs.2.2⟩

theorem AllSafe.tail {x : Job} {xs : List Job} (h : AllSafe (x :: xs) w) : AllSafe xs w := by
  refine ⟨h.1, (List.nodup_cons.mp h.2.1).2, ?_⟩
  intro y hy
  exact h.2.2 y (List.mem_cons_of_mem x hy)

theorem AllSafe.delivers {xs : List Job} (h : AllSafe xs w) (ho : o.delivers j)
    (hj : j ∉ xs.map Job.id) : AllSafe xs (exec o i w).2 := by
  refine ⟨?_, h.2.1, ?_⟩
  · rw [exec_phase]
    exact h.1
  · intro x hx hw
    apply (h.2.2 x hx hw).delivers ho
    rintro rfl
    exact hj (List.mem_map_of_mem hx)

theorem guar_of_ne (h : ∀ j chat text, o ≠ .postBegin j chat text) (s t : World) :
    cancelContract.guar o s t := by
  intro j chat text ho
  exact absurd ho (h j chat text)

theorem keeps_allSafe_of_wakes {xs : List Job} (h : o.wakes j) :
    cancelContract.Keeps exec (AllSafe xs) o := by
  intro s i hs _
  constructor
  · apply guar_of_ne
    rintro j chat text rfl
    simp [Op.wakes, Op.isRead] at h
  · refine ⟨?_, hs.2.1, ?_⟩
    · rw [exec_phase]
      exact hs.1
    · intro x hx hw
      exact (hs.2.2 x hx hw).wakes h

theorem keeps_nowSafe_of_read {xs : List Job} (h : o.isRead = true) :
    cancelContract.Keeps exec (NowSafe j xs) o := by
  intro s i hs ha
  rw [exec_isRead h]
  constructor
  · apply guar_of_ne
    rintro j chat text rfl
    cases h
  · exact hs

/-- The notification, from a state in which its POST may begin. -/
theorem safe_notify (cfg : Settings) {xs : List Job} {job : Job} (hj : job.id ∉ xs.map Job.id) :
    Triple exec cancelContract (NowSafe job.id xs) (Supervisor.attemptFallbackNotify cfg job)
      (fun _ => AllSafe xs) fun _ => AllSafe xs := by
  have hone : ∀ o : Op, o.notifies job.id → (∀ j chat text, o ≠ .postBegin j chat text) →
      Triple exec cancelContract (AllSafe xs) (op o) (fun _ => AllSafe xs) fun _ => AllSafe xs := by
    intro o ho hne
    apply Triple.op (stable_allSafe xs) (fun _ => stable_allSafe xs)
    intro s i hs _
    exact ⟨guar_of_ne hne _ _, hs.delivers (.inr (.inl ho)) hj⟩
  unfold Supervisor.attemptFallbackNotify
  split
  · apply (hone (.setUndeliverable job.id) rfl (by simp)).pre
    intro s hs
    exact hs.1
  · next chat _ =>
    refine Triple.bind (M := fun _ => AllSafe xs) ?_ fun result => ?_
    · refine Triple.bind (M := fun _ => NowSafe job.id xs) ?_ fun tok => ?_
      · apply Triple.op (stable_nowSafe _ _) (fun _ => stable_nowSafe _ _)
        intro s i hs _
        exact ⟨guar_of_ne (by simp) _ _, hs⟩
      split
      · apply Triple.ret (stable_nowSafe _ _)
        intro s hs
        exact hs.1
      · refine Triple.bind (M := fun _ => AllSafe xs) ?_ fun _ =>
          hone (.postEnd job.id) rfl (by simp)
        apply Triple.op (stable_nowSafe _ _) (fun _ => stable_allSafe xs)
        intro s i hs _
        constructor
        · -- The POST that was pending begins here.
          rintro j chat text ho
          cases ho
          exact hs.2.2.2
        · exact hs.1.delivers (.inr (.inl rfl)) hj
    · split
      · exact (hone (.markReported .supervisor job.id) ⟨rfl, rfl⟩ (by simp)).bind fun _ =>
        Triple.skip (stable_allSafe xs) _
      · split
        · exact hone (.setUndeliverable job.id) rfl (by simp)
        · exact Triple.skip (stable_allSafe xs) _

/-- The turn of one job. -/
theorem safe_drive (cfg : Settings) (x : Job) (xs : List Job) :
    Triple exec cancelContract (AllSafe (x :: xs)) (Supervisor.driveDelivery cfg x)
      (fun _ => AllSafe xs) fun _ => AllSafe xs := by
  by_cases hx : x.id ∈ xs.map Job.id
  · intro s hs
    exact absurd hx (List.nodup_cons.mp hs.2.1).1
  refine Supervisor.triple_driveDelivery (stable_allSafe _) (stable_allSafe _)
    (fun _ s hs => hs.tail) (keeps_allSafe_of_wakes (j := x.id) (.inl rfl))
    (fun _ o ho => keeps_allSafe_of_wakes ho) (fun _ hfb => ?_) fun _ _ _ => ?_
  · exact (safe_notify cfg hx).pre fun s hs => ⟨hs.tail, hx, hs.2.2 x (by simp) hfb⟩
  · refine Supervisor.triple_claimAndFallback (stable_allSafe _) (stable_allSafe _)
      (stable_nowSafe x.id xs) (fun s i hs ha => ⟨guar_of_ne (by simp) _ _, ?_⟩)
      (keeps_nowSafe_of_read rfl) fun job' hid => hid ▸ safe_notify cfg (hid ▸ hx)
    have hxs := hs.tail.delivers (i := i) (o := .claimForFallback x.id) (.inr (.inr rfl)) hx
    split_ifs with hwin
    · exact ⟨hxs, hx, safe_of_claim ha hwin⟩
    · exact hxs

/-- A tick. -/
theorem safe_tick (cfg : Settings) :
    Triple exec cancelContract (fun w => w.phase = .supervisor) (Supervisor.tick cfg)
      (fun _ _ => True) fun _ _ => True := by
  refine (Supervisor.triple_tick stable_allSafe (safe_drive cfg) (fun _ _ hst hs => hst.1.trans hs)
    fun s i hs ha => ⟨guar_of_ne (by simp) _ _, ?_⟩).post (fun _ _ _ => trivial) fun _ _ h => h
  exact ⟨hs, nodup_undelivered s.db, fun x hx hfb => safe_of_listed ha hx hfb⟩

namespace Sys

variable {cfg : Settings} {c c' : Sys} {e : Event}

/-- `report-done` does not win while a POST of the job is pending. -/
def cancelsInTime (c : Sys) : Event → Bool
  | .run t _ =>
    match c.next? t with
    | some (.markReported .reportDone j) =>
      (c.shared.db.getJob j).all (·.reportedAt.isSome) ||
        !(c.shared.phase == .supervisor && pending j c.shared.journal)
    | _ => true
  | _ => true

theorem not_pending_of_cancelsInTime {t : Tid} {i : Inputs}
    (hok : c.cancelsInTime (.run t i) = true) (hn : c.next? t = some (.markReported .reportDone j))
    (hwin : (c.shared.db.markReported j i.now).1 = true) (hp : c.shared.phase = .supervisor) :
    pending j c.shared.journal = false := by
  obtain ⟨-, r, hr, hnone⟩ := reported_of_mark .reportDone hwin
  simpa [cancelsInTime, hn, hr, hnone, hp] using hok

/-- Only the Supervisor begins POSTs. -/
theorem ne_postBegin_of_other {t : Tid} (ht : t ≠ .daemon) (h : c.performs t o) (j : ℕ)
    (chat text : String) : o ≠ .postBegin j chat text := by
  rintro rfl
  exact ht (home_of_performs h rfl).1

theorem ne_postBegin_of_phase {p : Phase} (hp : p ≠ .supervisor) (h : p.performs o) (j : ℕ)
    (chat text : String) : o ≠ .postBegin j chat text := by
  rintro rfl
  exact hp (h.home rfl)

/-- The contract along the runs that meet the condition. -/
def cancelProof (cfg : Settings) : DaemonProof cfg (fun c e => c.cancelsInTime e = true) where
  K := cancelContract
  inv w := w.ReportsStand ∧ w.NoLatePost
  post _ _ := True
  other {c t i o} hc hi ht hok hn := by
    have hp := hc.next? hn
    refine ⟨⟨hi.1.exec, hi.2.exec fun j chat text ho =>
      absurd ho (ne_postBegin_of_other ht hp j chat text)⟩, exec_phase _ _ _, fun hph j hj => ?_⟩
    refine hj.of_journal ((journal_of_other ht hp).imp_right ?_)
    rintro ⟨l, rfl, hwin, hl⟩
    refine ⟨l, ?_, hl⟩
    rintro rfl
    have := not_pending_of_cancelsInTime hok hn hwin hph
    rw [hj.1] at this
    cases this
  assume _ hi _ _ := hi.1
  own hi _ hg := ⟨hi.1.exec, hi.2.exec hg⟩
  enter {c p} _ hi _ := by
    refine ⟨hi, ?_⟩
    by_cases hp : p = .supervisor
    · subst hp
      exact ((safe_tick cfg).bind (Q := fun _ _ => True) fun _ =>
        Triple.skip (Contract.stable_const _) _) _ rfl
    · refine Triple.of_emits (Contract.stable_const True)
        ((emits_phaseProg cfg p).mono fun o ho => ?_) _ trivial
      intro s i _ _
      exact ⟨guar_of_ne (ne_postBegin_of_phase hp ho) _ _, trivial⟩
  reap hi := ⟨hi, rfl, fun _ _ h => h⟩
  reboot _ hi _ := ⟨hi, fun _ _ => trivial⟩

/-- In a run that meets the condition no POST of a job begins after a won
    `report-done` of the same episode. -/
theorem report_cancels {db : Db} {environ : Environ}
    (h : Runs cfg (fun c e => c.cancelsInTime e = true) (boot db environ) c) (j : ℕ)
    (newer older : List Entry) (hj : c.shared.journal = newer ++ .postBegin j :: older) :
    .reported .reportDone j ∉ episode j older := by
  have hboot : (boot db environ).shared.ReportsStand ∧ (boot db environ).shared.NoLatePost :=
    ⟨fun _ _ h => (by cases h), fun _ newer _ h => by cases newer <;> cases h⟩
  exact ((cancelProof cfg).sound (DaemonProof.good_boot hboot fun _ _ => trivial) h).inv.2 j newer
    older hj

/-- The POST fails, and then the job is reported. -/
theorem report_cancels_killed : ∃ (c : Sys) (newer older : List Entry),
    c.shared.journal = .reported .reportDone 1 :: newer ++ .postBegin 1 :: older ∧
      .reported .reportDone 1 ∉ episode 1 older := by
  obtain ⟨c, hrun, hp⟩ := exists_run cancelsInTime
    (killedTick ++ daemonSteps 7 noAnswer ++ cli (.reportDone 1))
    (fun c => c.shared.journal == [.reported .reportDone 1,
      .postEnd 1 { success := false, retry := true, reason := "timed out" }, .postBegin 1,
      .claimed 1, .listed [(1, none)]]) (by decide +kernel)
  have hj := eq_of_beq hp
  exact ⟨c, [_], _, hj, report_cancels hrun 1 [_, _] _ hj⟩

/-- The claim has been won and `report-done` wins too. The POST begins after
    it. -/
theorem report_too_late : ¬ ∀ (cfg : Settings) (db : Db) (environ : Environ) (c : Sys),
    Runs cfg (fun _ _ => True) (boot db environ) c → ∀ j newer older,
      c.shared.journal = newer ++ .postBegin j :: older →
        .reported .reportDone j ∉ episode j older := by
  intro hall
  obtain ⟨c, hrun, hp⟩ := exists_run (fun _ _ => true)
    (killedTick ++ daemonSteps 3 ++ cli (.reportDone 1) ++ daemonSteps 3 noAnswer)
    (fun c => c.shared.journal == [.postBegin 1, .reported .reportDone 1, .claimed 1,
      .listed [(1, none)]]) (by decide +kernel)
  exact hall _ _ _ c (hrun.mono fun _ _ _ => trivial) 1 [] _ (eq_of_beq hp) (by decide)

end Sys

end DiscordAgent
