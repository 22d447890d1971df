import Mathlib.Data.Finset.Card
import DiscordAgent.System.Callbacks

/-!
# Concurrency limits

`can_run` compares the number of active jobs with the limits, and `run_job`
moves the chosen job to `starting` and `running` much later. In between the
other threads can only take jobs out of the active states.

Specification: `Db.Within`, no more active jobs than the limits allow.

Result:
* `Sys.within_limits`: in every state of every run that leaves the limits alone
  the active jobs are within the limits.
-/

namespace DiscordAgent

open Interleave Orchestrator

/-- The ids of the active jobs, or of those of one repo. -/
def Db.activeIds (db : Db) (repoId : Option ℕ) : Finset ℕ :=
  ((db.jobs.select fun j => j.state.active && repoId.all (j.repoId == ·)).map Job.id).toFinset

/-- No more active jobs than the limits allow; a negative limit allows none. -/
structure Db.Within (cfg : Settings) (db : Db) : Prop where
  overall : (db.countRunningJobs none : ℤ) ≤ max cfg.globalMaxConcurrency 0
  perRepo : ∀ R p, db.getRepoById R = some p →
    (db.countRunningJobs (some R) : ℤ) ≤ max p.maxConcurrency 0
  known : ∀ j r, db.getJob j = some r → r.state.active = true →
    ∃ p, db.getRepoById r.repoId = some p

section Counting

variable {db db' : Db} {q : Option ℕ} {j : ℕ}

theorem mem_activeIds : j ∈ db.activeIds q ↔
    ∃ r, db.getJob j = some r ∧ r.state.active = true ∧ q.all (r.repoId == ·) = true := by
  unfold Db.activeIds
  rw [List.mem_toFinset, List.mem_map]
  constructor
  · rintro ⟨r, hr, rfl⟩
    obtain ⟨hmem, hp⟩ := List.mem_filter.mp hr
    rw [Bool.and_eq_true] at hp
    exact ⟨r, Sql.Table.get?_of_mem hmem, hp.1, hp.2⟩
  · rintro ⟨r, hr, hact, hq⟩
    refine ⟨r, List.mem_filter.mpr ⟨Sql.Table.mem_of_get? hr, ?_⟩, Db.getJob_id hr⟩
    rw [hact, hq]
    rfl

theorem card_activeIds (db : Db) (q : Option ℕ) :
    (db.activeIds q).card = db.countRunningJobs q := by
  have hnodup : ∀ p, ((db.jobs.select p).map Job.id).Nodup := by
    intro p
    exact List.pairwise_map.mpr ((db.jobs.pairwise_select p).imp Nat.ne_of_lt)
  unfold Db.activeIds Db.countRunningJobs
  rw [List.toFinset_card_of_nodup (hnodup _), List.length_map]

end Counting

/-! ## One operation -/

/-- The `UPDATE` of a `transition_job` that makes job `j` active. -/
def Op.activates (j : ℕ) : Op → Prop
  | updateJobState k _ new _ => k = j ∧ new.active = true
  | _ => False

/-- The operation changes the limit of a repo. -/
def Op.changesLimit : Op → Bool
  | updateRepo _ u => u.maxConcurrency.isSome
  | _ => false

/-- What everything but the activation of a job does: no new active job, and the
    repos keep their limits. -/
structure Db.Shrinks (db db' : Db) : Prop where
  keeps : db.Keeps db'
  active : ∀ q, db'.activeIds q ⊆ db.activeIds q
  limit : ∀ R p, db.getRepoById R = some p →
    ∃ p', db'.getRepoById R = some p' ∧ p'.maxConcurrency = p.maxConcurrency

section Operation

variable {o : Op} {i : Inputs} {w : World} {j : ℕ}

/-- A job is active after an operation that activates it or was active before. -/
theorem activeIds_exec (q : Option ℕ) (hj : j ∈ (exec o i w).2.db.activeIds q) :
    j ∈ w.db.activeIds q ∨ o.activates j := by
  obtain ⟨r', hr', hact, hq⟩ := mem_activeIds.mp hj
  rcases exec_active hr' hact with ⟨r, hr, hstate, hrepo⟩ | ⟨current, result, rfl⟩
  · exact .inl (mem_activeIds.mpr ⟨r, hr, by rw [hstate]; exact hact, by rw [hrepo]; exact hq⟩)
  · exact .inr ⟨rfl, hact⟩

theorem limit_exec (ho : o.changesLimit = false) {R : ℕ} {p : Repo}
    (hp : w.db.getRepoById R = some p) :
    ∃ p', (exec o i w).2.db.getRepoById R = some p' ∧ p'.maxConcurrency = p.maxConcurrency := by
  obtain ⟨p', hp', hstep⟩ := exec_repo o i hp
  refine ⟨p', hp', ?_⟩
  cases hstep with
  | patch name u =>
    have hnone : u.maxConcurrency = none := by simpa [Op.changesLimit] using ho
    show u.maxConcurrency.getD p.maxConcurrency = p.maxConcurrency
    rw [hnone]
    rfl
  | _ => rfl

theorem shrinks_exec (ho : o.changesLimit = false) (hact : ∀ j, ¬ o.activates j) :
    w.db.Shrinks (exec o i w).2.db := by
  refine ⟨keeps_exec o i w, ?_, fun R p hp => limit_exec ho hp⟩
  intro q j hj
  exact (activeIds_exec q hj).resolve_right (hact j)

theorem Db.Shrinks.refl (db : Db) : db.Shrinks db :=
  ⟨Db.Keeps.refl db, fun _ => Finset.Subset.refl _, fun _ p hp => ⟨p, hp, rfl⟩⟩

theorem Db.Shrinks.trans {db db' db'' : Db} (h : db.Shrinks db') (h' : db'.Shrinks db'') :
    db.Shrinks db'' := by
  refine ⟨h.keeps.trans h'.keeps, fun q => (h'.active q).trans (h.active q), ?_⟩
  intro R p hp
  obtain ⟨p', hp', hlim⟩ := h.limit R p hp
  obtain ⟨p'', hp'', hlim'⟩ := h'.limit R p' hp'
  exact ⟨p'', hp'', hlim'.trans hlim⟩

end Operation

/-! ## Room for one more -/

variable {cfg : Settings} {db db' : Db} {j R : ℕ}

/-- There is room for job `j` of repo `R`, which itself does not count. -/
structure Room (cfg : Settings) (j R : ℕ) (db : Db) : Prop where
  job : ∃ r, db.getJob j = some r ∧ r.repoId = R
  overall : (((db.activeIds none).erase j).card : ℤ) < cfg.globalMaxConcurrency
  perRepo : ∃ p, db.getRepoById R = some p ∧
    (((db.activeIds (some R)).erase j).card : ℤ) < p.maxConcurrency

/-- Job `j` may become active, and nothing else changes. -/
theorem Room.keep (h : Room cfg j R db) (hk : db.Keeps db')
    (hact : ∀ q, db'.activeIds q ⊆ insert j (db.activeIds q))
    (hlim : ∀ R p, db.getRepoById R = some p →
      ∃ p', db'.getRepoById R = some p' ∧ p'.maxConcurrency = p.maxConcurrency) :
    Room cfg j R db' := by
  have hcard : ∀ q, ((db'.activeIds q).erase j).card ≤ ((db.activeIds q).erase j).card := by
    intro q
    apply Finset.card_le_card
    intro k hk
    obtain ⟨hne, hk⟩ := Finset.mem_erase.mp hk
    exact Finset.mem_erase.mpr ⟨hne, Finset.mem_of_mem_insert_of_ne (hact q hk) hne⟩
  obtain ⟨r, hr, hid⟩ := h.job
  obtain ⟨p, hp, hlt⟩ := h.perRepo
  obtain ⟨r', hr', hid'⟩ := hk.job j r hr
  obtain ⟨p', hp', hmax⟩ := hlim R p hp
  refine ⟨⟨r', hr', hid'.trans hid⟩, ?_, p', hp', ?_⟩
  · have hall := h.overall
    have := hcard none
    omega
  · have := hcard (some R)
    rw [hmax]
    omega

theorem Room.shrink (h : Room cfg j R db) (hs : db.Shrinks db') : Room cfg j R db' :=
  h.keep hs.keeps (fun q => (hs.active q).trans (Finset.subset_insert j _)) hs.limit

/-- An operation that activates no other job. -/
theorem Room.exec {o : Op} {i : Inputs} {w : World} (h : Room cfg j R w.db)
    (ho : o.changesLimit = false) (hact : ∀ k, o.activates k → k = j) :
    Room cfg j R (DiscordAgent.exec o i w).2.db := by
  refine h.keep (keeps_exec o i w) ?_ fun R p hp => limit_exec ho hp
  intro q k hk
  rcases activeIds_exec q hk with hk | hk
  · exact Finset.mem_insert_of_mem hk
  · rw [hact k hk]
    exact Finset.mem_insert_self j _

/-- The repo of a job that is active after the operation was there before. -/
theorem repo_of_active {o : Op} {i : Inputs} {w : World} (h : w.db.Within cfg)
    (hg : ∀ j, o.activates j → ∃ R, Room cfg j R w.db)
    (hj : j ∈ (exec o i w).2.db.activeIds (some R)) : ∃ p, w.db.getRepoById R = some p := by
  rcases activeIds_exec _ hj with hold | hact
  · obtain ⟨r, hr, hactive, hR⟩ := mem_activeIds.mp hold
    have hR : r.repoId = R := by simpa using hR
    rw [← hR]
    exact h.known j r hr hactive
  · obtain ⟨R', hroom⟩ := hg j hact
    obtain ⟨r, hr, hid⟩ := hroom.job
    obtain ⟨r', hr', hid'⟩ := (keeps_exec o i w).job j r hr
    obtain ⟨s, hs, -, hR⟩ := mem_activeIds.mp hj
    rw [hr'] at hs
    cases hs
    have hR : r'.repoId = R := by simpa using hR
    obtain ⟨p, hp, -⟩ := hroom.perRepo
    rw [← hR, hid', hid]
    exact ⟨p, hp⟩

theorem Op.activates.unique {o : Op} {j k : ℕ} (hj : o.activates j) (hk : o.activates k) :
    k = j := by
  cases o with
  | updateJobState m current new result => exact hk.1.symm.trans hj.1
  | _ => exact hj.elim

section Cards

variable {o : Op} {i : Inputs} {w : World} {q : Option ℕ}

/-- No job of `q` is activated. -/
theorem card_activeIds_le (h : ∀ j, o.activates j → j ∉ (exec o i w).2.db.activeIds q) :
    ((exec o i w).2.db.activeIds q).card ≤ (w.db.activeIds q).card := by
  apply Finset.card_le_card
  intro j hj
  exact (activeIds_exec q hj).resolve_right fun hact => h j hact hj

/-- Job `j` is activated. -/
theorem card_activeIds_le_succ (hj : o.activates j) :
    ((exec o i w).2.db.activeIds q).card ≤ ((w.db.activeIds q).erase j).card + 1 := by
  have hsub : (exec o i w).2.db.activeIds q ⊆ insert j ((w.db.activeIds q).erase j) := by
    intro k hk
    by_cases hkj : k = j
    · rw [hkj]
      exact Finset.mem_insert_self j _
    · have hold := (activeIds_exec q hk).resolve_right fun hact => hkj (hj.unique hact)
      exact Finset.mem_insert_of_mem (Finset.mem_erase.mpr ⟨hkj, hold⟩)
  exact (Finset.card_le_card hsub).trans (Finset.card_insert_le _ _)

end Cards

/-- The step lemma: who activates a job has room for it. -/
theorem Db.Within.exec {o : Op} {i : Inputs} {w : World} (h : w.db.Within cfg)
    (ho : o.changesLimit = false) (hg : ∀ j, o.activates j → ∃ R, Room cfg j R w.db) :
    (DiscordAgent.exec o i w).2.db.Within cfg := by
  refine ⟨?_, ?_, ?_⟩
  · rw [← card_activeIds]
    by_cases hact : ∃ j, o.activates j
    · obtain ⟨j, hj⟩ := hact
      obtain ⟨R, hroom⟩ := hg j hj
      have hall := hroom.overall
      have hle := card_activeIds_le_succ (i := i) (w := w) (q := none) hj
      omega
    · push Not at hact
      have hall := h.overall
      rw [← card_activeIds] at hall
      have hle := card_activeIds_le (i := i) (w := w) (q := none) fun j hj => absurd hj (hact j)
      omega
  · intro R p' hp'
    rw [← card_activeIds]
    cases hp : w.db.getRepoById R with
    | none =>
      -- a repo that is new has no active job
      have hzero : (DiscordAgent.exec o i w).2.db.activeIds (some R) = ∅ := by
        rw [Finset.eq_empty_iff_forall_notMem]
        intro j hj
        obtain ⟨p, hp₀⟩ := repo_of_active h hg hj
        rw [hp] at hp₀
        cases hp₀
      rw [hzero, Finset.card_empty]
      exact le_max_right _ _
    | some p =>
      obtain ⟨s, hs, hmax⟩ := limit_exec (i := i) ho hp
      rw [hp'] at hs
      cases hs
      rw [hmax]
      have hrepo := h.perRepo R p hp
      rw [← card_activeIds] at hrepo
      by_cases hact : ∃ j, o.activates j ∧ j ∈ (DiscordAgent.exec o i w).2.db.activeIds (some R)
      · obtain ⟨j, hj, hmem⟩ := hact
        obtain ⟨R', hroom⟩ := hg j hj
        have hR : R' = R := by
          obtain ⟨r, hr, hid⟩ := hroom.job
          obtain ⟨r', hr', hid'⟩ := (keeps_exec o i w).job j r hr
          obtain ⟨s, hs, -, hq⟩ := mem_activeIds.mp hmem
          rw [hr'] at hs
          cases hs
          have hq : r'.repoId = R := by simpa using hq
          rw [← hq, hid', hid]
        obtain ⟨p₀, hp₀, hlt⟩ := hroom.perRepo
        rw [hR, hp] at hp₀
        cases hp₀
        rw [hR] at hlt
        have hle := card_activeIds_le_succ (i := i) (w := w) (q := some R) hj
        omega
      · push Not at hact
        have hle := card_activeIds_le (i := i) (w := w) (q := some R) hact
        omega
  · intro j r hr hact
    obtain ⟨p, hp⟩ := repo_of_active (R := r.repoId) h hg
      (mem_activeIds.mpr ⟨r, hr, hact, by simp⟩)
    exact (keeps_exec o i w).repo _ p hp

/-! ## The contract of the daemon -/

/-- The daemon activates a job only when there is room for it. -/
def limitContract (cfg : Settings) : Contract Op World where
  rely s t := s.db.Shrinks t.db
  refl s := Db.Shrinks.refl s.db
  trans h h' := h.trans h'
  assume o _ := o.changesLimit = false
  guar o s _ := ∀ j, o.activates j → ∃ R, Room cfg j R s.db

/-- The repo has a free slot. -/
structure Free (cfg : Settings) (R : ℕ) (db : Db) : Prop where
  overall : ((db.activeIds none).card : ℤ) < cfg.globalMaxConcurrency
  perRepo : ∃ p, db.getRepoById R = some p ∧ ((db.activeIds (some R)).card : ℤ) < p.maxConcurrency

theorem Free.room (h : Free cfg R db) (hj : ∃ r, db.getJob j = some r ∧ r.repoId = R) :
    Room cfg j R db := by
  have hle : ∀ q, ((db.activeIds q).erase j).card ≤ (db.activeIds q).card :=
    fun q => Finset.card_le_card (Finset.erase_subset j _)
  obtain ⟨p, hp, hlt⟩ := h.perRepo
  refine ⟨hj, ?_, p, hp, ?_⟩
  · have hall := h.overall
    have := hle none
    omega
  · have := hle (some R)
    omega

section Triples

variable {E : PyErr → World → Prop} {o : Op}

theorem Op.not_activates_of_isRead (h : o.isRead = true) (k : ℕ) : ¬ o.activates k := by
  intro ho
  cases o <;> first | exact ho | cases h

theorem stable_roomFor (j R : ℕ) : (limitContract cfg).Stable fun w => Room cfg j R w.db := by
  intro s t hst hs
  exact hs.shrink hst

theorem stable_jobOf (j R : ℕ) : (limitContract cfg).Stable fun w =>
    ∃ r, w.db.getJob j = some r ∧ r.repoId = R := by
  intro s t hst hs
  obtain ⟨r, hr, hid⟩ := hs
  obtain ⟨r', hr', hid'⟩ := (Db.Shrinks.keeps hst).job j r hr
  exact ⟨r', hr', hid'.trans hid⟩

theorem stable_card_le (q : Option ℕ) (n : ℕ) : (limitContract cfg).Stable fun w =>
    (w.db.activeIds q).card ≤ n := by
  intro s t hst hs
  exact (Finset.card_le_card (Db.Shrinks.active hst q)).trans hs

theorem stable_limit (R : ℕ) (m : ℤ) : (limitContract cfg).Stable fun w =>
    ∃ p, w.db.getRepoById R = some p ∧ p.maxConcurrency = m := by
  intro s t hst hs
  obtain ⟨p, hp, hm⟩ := hs
  obtain ⟨p', hp', hm'⟩ := Db.Shrinks.limit hst R p hp
  exact ⟨p', hp', hm'.trans hm⟩

theorem stable_all {ι : Type} {P : ι → World → Prop} {xs : List ι}
    (h : ∀ x, (limitContract cfg).Stable (P x)) :
    (limitContract cfg).Stable fun w => ∀ x ∈ xs, P x w := by
  intro s t hst hs x hx
  exact h x s t hst (hs x hx)

/-- A read between two stable conditions. -/
theorem triple_read {P : World → Prop} {Q : o.Res → World → Prop} (ho : o.isRead = true)
    (hP : (limitContract cfg).Stable P) (hQ : ∀ r, (limitContract cfg).Stable (Q r))
    (h : ∀ s i, P s → Q (exec o i s).1 s) : Triple exec (limitContract cfg) P (op o) Q E := by
  apply Triple.op hP hQ
  intro s i hs _
  refine ⟨?_, ?_⟩
  · intro j hj
    exact absurd hj (Op.not_activates_of_isRead ho j)
  · rw [exec_isRead ho]
    exact h s i hs

/-- A program that activates nothing keeps a condition that such operations
    keep. -/
theorem triple_quiet {α : Type} {p : Py α} {P : World → Prop} (hP : (limitContract cfg).Stable P)
    (hp : p.Emits fun o => (∀ j, ¬ o.activates j) ∧
      ∀ s i, P s → o.changesLimit = false → P (exec o i s).2) :
    Triple exec (limitContract cfg) P p (fun _ => P) fun _ => P := by
  apply Triple.of_emits hP
  apply hp.mono
  intro o ho s i hs hlim
  exact ⟨fun j hj => absurd hj (ho.1 j), ho.2 s i hs hlim⟩

theorem triple_reads {α : Type} {p : Py α} {P : World → Prop} (hP : (limitContract cfg).Stable P)
    (hp : p.Emits fun o => o.isRead = true) :
    Triple exec (limitContract cfg) P p (fun _ => P) fun _ => P := by
  apply triple_quiet hP
  apply hp.mono
  intro o ho
  refine ⟨Op.not_activates_of_isRead ho, ?_⟩
  intro s i hs _
  rw [exec_isRead ho]
  exact hs

/-- `can_run` answers `True` only if the repo has a free slot. -/
theorem triple_canRun (R : ℕ) {I : World → Prop} (hI : (limitContract cfg).Stable I) :
    Triple exec (limitContract cfg) I (Scheduler.canRun cfg R)
      (fun b w => I w ∧ (b = true → Free cfg R w.db)) fun _ _ => True := by
  have hno : ∀ {P : World → Prop}, (limitContract cfg).Stable P → (∀ w, P w → I w) →
      Triple exec (limitContract cfg) P (.ret false : Py Bool)
        (fun b w => I w ∧ (b = true → Free cfg R w.db)) fun _ _ => True := by
    intro P hP hPI
    apply Triple.ret hP
    intro s hs
    exact ⟨hPI s hs, fun hb => by cases hb⟩
  refine Triple.bind (triple_reads hI (emits_isBackedOff (fun _ ho => ho) R)).anyError fun b => ?_
  split_ifs
  · exact hno hI fun _ hs => hs
  · have hn : ∀ n, (limitContract cfg).Stable fun w => I w ∧ (w.db.activeIds none).card ≤ n :=
      fun n => hI.and (stable_card_le none n)
    refine Triple.bind (M := fun n w => I w ∧ (w.db.activeIds none).card ≤ n) ?_ fun n => ?_
    · apply triple_read rfl hI hn
      intro s i hs
      exact ⟨hs, (card_activeIds s.db none).le⟩
    · split_ifs with hge
      · exact hno (hn n) fun _ hs => hs.1
      · have hrepo : ∀ q : Option Repo, (limitContract cfg).Stable fun w =>
            (I w ∧ (w.db.activeIds none).card ≤ n) ∧ ∀ repo ∈ q,
              ∃ p, w.db.getRepoById R = some p ∧ p.maxConcurrency = repo.maxConcurrency := by
          intro q
          refine (hn n).and ?_
          intro s t hst hs repo hq
          exact stable_limit R repo.maxConcurrency s t hst (hs repo hq)
        refine Triple.bind (M := fun q w => (I w ∧ (w.db.activeIds none).card ≤ n) ∧
          ∀ repo ∈ q, ∃ p, w.db.getRepoById R = some p ∧
            p.maxConcurrency = repo.maxConcurrency) ?_ fun q => ?_
        · apply triple_read rfl (hn n) hrepo
          intro s i hs
          exact ⟨hs, fun repo hq => ⟨repo, hq, rfl⟩⟩
        · cases q with
          | none => exact hno (hrepo none) fun _ hs => hs.1.1
          | some repo =>
            have hm : ∀ m, (limitContract cfg).Stable fun w =>
                ((I w ∧ (w.db.activeIds none).card ≤ n) ∧ ∀ q ∈ some repo,
                  ∃ p, w.db.getRepoById R = some p ∧ p.maxConcurrency = q.maxConcurrency) ∧
                (w.db.activeIds (some R)).card ≤ m :=
              fun m => (hrepo (some repo)).and (stable_card_le (some R) m)
            refine Triple.bind (M := fun m w =>
              ((I w ∧ (w.db.activeIds none).card ≤ n) ∧ ∀ q ∈ some repo,
                ∃ p, w.db.getRepoById R = some p ∧ p.maxConcurrency = q.maxConcurrency) ∧
              (w.db.activeIds (some R)).card ≤ m) ?_ fun m => ?_
            · apply triple_read rfl (hrepo (some repo)) hm
              intro s i hs
              exact ⟨hs, (card_activeIds s.db (some R)).le⟩
            · apply Triple.ret (hm m)
              intro s hs
              obtain ⟨⟨⟨hi, hall⟩, hq⟩, hper⟩ := hs
              refine ⟨hi, ?_⟩
              intro hb
              have hlt : (m : ℤ) < repo.maxConcurrency := by simpa using hb
              obtain ⟨p, hp, hmax⟩ := hq repo rfl
              exact ⟨by omega, p, hp, by omega⟩

/-- The loop of `next_job`: the jobs still to come exist, and those collected so
    far have room. -/
def Candidates (cfg : Settings) (xs out : List Job) (w : World) : Prop :=
  (∀ r ∈ xs, ∃ r', w.db.getJob r.id = some r' ∧ r'.repoId = r.repoId) ∧
    ∀ r ∈ out, Room cfg r.id r.repoId w.db

/-- `next_job` returns a job that there is room for. -/
theorem triple_nextJob :
    Triple exec (limitContract cfg) (fun _ => True) (Scheduler.nextJob cfg none)
      (fun q w => ∀ r ∈ q, Room cfg r.id r.repoId w.db) fun _ _ => True := by
  have hT : (limitContract cfg).Stable fun _ => True := Contract.stable_const _
  have hJ : ∀ xs out, (limitContract cfg).Stable (Candidates cfg xs out) := fun xs out =>
    (stable_all fun r : Job => stable_jobOf r.id r.repoId).and
      (stable_all fun r : Job => stable_roomFor r.id r.repoId)
  refine (triple_reads hT (Prog.emits_perform rfl)).anyError.bind fun now => ?_
  refine Triple.bind (M := fun jobs => Candidates cfg jobs []) ?_ fun jobs => ?_
  · refine triple_read (o := .listJobs none (some .queued) 50 (some now)) rfl hT
      (fun jobs => hJ jobs []) ?_
    intro s i _
    refine ⟨?_, fun r hr => absurd hr List.not_mem_nil⟩
    intro r hr
    exact ⟨r, Db.getJob_of_mem_listJobs hr, rfl⟩
  · refine Triple.bind
      (Triple.collect (J := Candidates cfg) (hJ []) (fun r xs out => ?_) jobs []) fun out => ?_
    · refine (triple_canRun r.repoId (hJ (r :: xs) out)).bind fun b => ?_
      cases b with
      | true =>
        refine Triple.ret_of (hJ xs _) ?_
        intro s hs
        obtain ⟨⟨hxs, hout⟩, hfree⟩ := hs
        refine ⟨fun x hx => hxs x (List.mem_cons_of_mem r hx), ?_⟩
        intro x hx
        rcases List.mem_append.mp hx with hx | hx
        · exact hout x hx
        · have hxr : x = r := by simpa using hx
          rw [hxr]
          exact (hfree rfl).room (hxs r List.mem_cons_self)
      | false =>
        refine Triple.ret_of (hJ xs _) ?_
        intro s hs
        obtain ⟨⟨hxs, hout⟩, -⟩ := hs
        refine ⟨fun x hx => hxs x (List.mem_cons_of_mem r hx), ?_⟩
        intro x hx
        exact hout x (by simpa using hx)
    · apply Triple.ret (hJ [] out)
      intro s hs r hr
      exact hs.2 r (List.mem_of_head? hr)

/-- `run_job` activates its own job only. -/
theorem triple_runJob (j R sessionId : ℕ) (model : String) :
    Triple exec (limitContract cfg) (fun w => Room cfg j R w.db) (Runner.runJob j sessionId model)
      (fun _ w => Room cfg j R w.db) fun _ w => Room cfg j R w.db := by
  have hkeep : ∀ {o : Op}, (∀ k, o.activates k → k = j) →
      (limitContract cfg).Keeps exec (fun w => Room cfg j R w.db) o := by
    intro o ho s i hs hlim
    refine ⟨?_, hs.exec hlim ho⟩
    intro k hk
    rw [ho k hk]
    exact ⟨R, hs⟩
  have hquiet : ∀ {o : Op}, (∀ k, ¬ o.activates k) →
      (limitContract cfg).Keeps exec (fun w => Room cfg j R w.db) o :=
    fun ho => hkeep fun k hk => absurd hk (ho k)
  apply Triple.of_emits (stable_roomFor j R)
  exact emits_runJob_of (fun _ ho => hquiet (Op.not_activates_of_isRead ho))
    (fun _ _ _ => hquiet fun _ ho => ho) (fun _ _ => hquiet fun _ ho => ho)
    (fun _ _ _ _ => hquiet fun _ ho => ho) (fun _ => hquiet fun _ ho => ho)
    (fun _ _ _ => hquiet fun _ ho => ho) (fun _ _ _ _ => hkeep fun _ hk => hk.1.symm) sessionId
    model

theorem triple_dispatchOne :
    Triple exec (limitContract cfg) (fun _ => True) (Daemon.dispatchOne cfg) (fun _ _ => True)
      fun _ _ => True := by
  refine triple_nextJob.bind fun q => ?_
  cases q with
  | none =>
    apply Triple.ret ?_ fun _ _ => trivial
    exact fun s t hst hs r hr => by cases hr
  | some r =>
    have hret : ∀ {P : World → Prop}, (limitContract cfg).Stable P →
        Triple exec (limitContract cfg) P (.ret true : Py Bool) (fun _ _ => True) fun _ _ => True :=
      fun hP => Triple.ret hP fun _ _ => trivial
    have hroom : (limitContract cfg).Stable fun w => Room cfg r.id r.repoId w.db :=
      stable_roomFor r.id r.repoId
    have hquiet : ∀ {α : Type} {p : Py α},
        p.Emits (fun o => (∀ j, ¬ o.activates j)) →
        Triple exec (limitContract cfg) (fun w => Room cfg r.id r.repoId w.db) p
          (fun _ w => Room cfg r.id r.repoId w.db) fun _ _ => True := by
      intro α p hp
      refine (triple_quiet hroom (hp.mono fun o ho => ⟨ho, ?_⟩)).anyError
      intro s i hs hlim
      exact hs.exec hlim fun k hk => absurd hk (ho k)
    refine Triple.pre ?_ fun w (h : ∀ x ∈ some r, Room cfg x.id x.repoId w.db) => h r rfl
    refine Triple.bind (hquiet ?_) fun sessionId => Triple.bind (hquiet ?_) fun repo => ?_
    · refine (emits_read (fun _ => Op.not_activates_of_isRead) rfl).bind fun sessions => ?_
      split
      · exact emits_op fun _ ho => ho
      · trivial
    · exact emits_read (fun _ => Op.not_activates_of_isRead) rfl
    · exact ((triple_runJob r.id r.repoId sessionId _).anyError.bind fun _ => hret hroom).tryCatch
        fun _ => hret (Contract.stable_const _)

end Triples

/-! ## Runs -/

theorem not_activates_of_mem (targets : List JobState) {o : Op}
    (hnone : ∀ s ∈ targets, s.active = false)
    (h : ∀ k current new result, o = .updateJobState k current new result → new ∈ targets) (j : ℕ) :
    ¬ o.activates j := by
  intro ho
  cases o with
  | updateJobState k current new result =>
    have hact := hnone new (h k current new result rfl)
    rw [ho.2] at hact
    cases hact
  | _ => exact ho

theorem not_activates_of_phase {o : Op} {p : Phase} (hp : p ≠ .dispatch) (h : p.performs o)
    (j : ℕ) : ¬ o.activates j := by
  have hnone : ∀ s ∈ p.targets, s.active = false := by
    cases p with
    | dispatch => exact absurd rfl hp
    | _ => decide
  apply not_activates_of_mem p.targets hnone
  rintro k current new result rfl
  exact h.target.2

namespace Sys

variable {c : Sys} {t : Tid} {i : Inputs} {o : Op}

/-- No command of this step changes the limit of a repo. -/
def keepsLimits (c : Sys) : Event → Bool
  | .run t _ => (c.next? t).all fun o => !o.changesLimit
  | _ => true

theorem not_changesLimit (hok : c.keepsLimits (.run t i) = true) (hn : c.next? t = some o) :
    o.changesLimit = false := by
  simp only [keepsLimits, hn, Option.all_some] at hok
  simpa using hok

theorem not_activates_of_other (ht : t ≠ .daemon) (h : c.performs t o) (j : ℕ) :
    ¬ o.activates j := by
  cases t with
  | daemon => exact absurd rfl ht
  | reader a =>
    apply not_activates_of_mem [.failedRetryable, .failedPermanent] (by decide)
    rintro k current new result rfl
    exact (Op.ofReader.target h).2
  | cli n =>
    apply not_activates_of_mem [] (by decide)
    rintro k current new result rfl
    exact absurd h Op.not_ofCli_transition

/-- The contract holds along every run that leaves the limits alone. -/
def limitProof (cfg : Settings) : DaemonProof cfg fun c e => c.keepsLimits e = true where
  K := limitContract cfg
  inv w := w.db.Within cfg
  post _ _ := True
  other {c t i o} hc hi ht hok hn := by
    have hlim := not_changesLimit hok hn
    have hact := not_activates_of_other ht (hc.next? hn)
    exact ⟨hi.exec hlim fun j hj => absurd hj (hact j), shrinks_exec hlim hact⟩
  assume _ _ hok hn := not_changesLimit hok hn
  own hi hlim hg := hi.exec hlim hg
  enter {c p} _ hi _ := by
    refine ⟨hi, ?_⟩
    by_cases hp : p = .dispatch
    · subst hp
      exact (triple_dispatchOne.bind fun _ => Triple.skip (Contract.stable_const _) _) _ trivial
    · refine ((triple_quiet (Contract.stable_const True) ((emits_phaseProg cfg p).mono
        fun o ho => ⟨not_activates_of_phase hp ho, fun _ _ _ _ => trivial⟩)).post
          (fun _ _ _ => trivial) fun _ _ _ => trivial) _ trivial
  reap hi := ⟨hi, Db.Shrinks.refl _⟩
  reboot _ hi _ := ⟨hi, fun _ _ => trivial⟩

theorem within_limits {db : Db} {environ : Environ} (hdb : db.Within cfg)
    (h : Runs cfg (fun c e => c.keepsLimits e = true) (boot db environ) c) :
    (c.shared.db.countRunningJobs none : ℤ) ≤ max cfg.globalMaxConcurrency 0 ∧
      ∀ R p, c.shared.db.getRepoById R = some p →
        (c.shared.db.countRunningJobs (some R) : ℤ) ≤ max p.maxConcurrency 0 := by
  have hgood := (limitProof cfg).sound
    (DaemonProof.good_boot (D := limitProof cfg) hdb fun _ _ => trivial) h
  exact ⟨hgood.inv.overall, hgood.inv.perRepo⟩

/-- Job 1 is started and takes the only slot of its repo. The next round of the
    dispatch loop leaves job 2 in the queue. -/
def twoJobs : List Event :=
  cli (.createRepo oneRepo) ++ cli (.dispatch oneJob) ++ cli (.dispatch oneJob) ++ [.next] ++
    daemonSteps 1 ++ [.next] ++ daemonSteps 2 ++ [.next] ++ daemonSteps 28 ++ [.next] ++
    daemonSteps 7

theorem within_limits_full : ∃ c : Sys, c.jobState 1 = some .running ∧ c.jobState 2 = some .queued ∧
    (c.shared.db.countRunningJobs none : ℤ) ≤ max Settings.plain.globalMaxConcurrency 0 ∧
      ∀ R p, c.shared.db.getRepoById R = some p →
        (c.shared.db.countRunningJobs (some R) : ℤ) ≤ max p.maxConcurrency 0 := by
  obtain ⟨c, hrun, hc⟩ := exists_run keepsLimits twoJobs
    (fun c => c.jobState 1 == some .running && c.jobState 2 == some .queued) (by decide +kernel)
  obtain ⟨h₁, h₂⟩ := (Bool.and_eq_true _ _).mp hc
  have hdb : (default : Db).Within Settings.plain := by
    refine ⟨by decide, ?_, ?_⟩
    · intro R p hp
      cases hp
    · intro j r hr
      cases hr
  exact ⟨c, eq_of_beq h₁, eq_of_beq h₂, within_limits hdb hrun⟩

end Sys

end DiscordAgent
