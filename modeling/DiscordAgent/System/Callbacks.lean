import DiscordAgent.System.Contract

/-!
# The job and the repo of a callback

`run_job` reads the job row and the repo row before it starts the worker, and
its callback later completes the job for that repo. A job never changes its
repo and no repo is deleted, so the pair still fits.

* `Db.JobOfRepo`: the job exists and belongs to an existing repo.
* `Sys.Owned.run`: along every run each completion is for the repo of its job.
-/

namespace DiscordAgent

open Interleave Sys

/-- The job exists and belongs to the repo, which exists. -/
structure Db.JobOfRepo (db : Db) (j R : ℕ) : Prop where
  job : ∃ r, db.getJob j = some r ∧ r.repoId = R
  repo : ∃ p, db.getRepoById R = some p

/-- Jobs keep their repo and repos stay. -/
structure Db.Keeps (db db' : Db) : Prop where
  job : ∀ j r, db.getJob j = some r → ∃ r', db'.getJob j = some r' ∧ r'.repoId = r.repoId
  repo : ∀ R p, db.getRepoById R = some p → ∃ p', db'.getRepoById R = some p'

namespace Db

variable {db db' db'' : Db} {j R : ℕ}

theorem Keeps.refl (db : Db) : db.Keeps db :=
  ⟨fun _ r hr => ⟨r, hr, rfl⟩, fun _ p hp => ⟨p, hp⟩⟩

theorem Keeps.trans (h : db.Keeps db') (h' : db'.Keeps db'') : db.Keeps db'' := by
  constructor
  · intro j r hr
    obtain ⟨r', hr', hid⟩ := h.job j r hr
    obtain ⟨r'', hr'', hid'⟩ := h'.job j r' hr'
    exact ⟨r'', hr'', hid'.trans hid⟩
  · intro R p hp
    obtain ⟨p', hp'⟩ := h.repo R p hp
    exact h'.repo R p' hp'

theorem JobOfRepo.keep (h : db.JobOfRepo j R) (hk : db.Keeps db') : db'.JobOfRepo j R := by
  obtain ⟨⟨r, hr, hid⟩, p, hp⟩ := h
  obtain ⟨r', hr', hid'⟩ := hk.job j r hr
  exact ⟨⟨r', hr', hid'.trans hid⟩, hk.repo R p hp⟩

end Db

theorem keeps_exec (o : Op) (i : Inputs) (w : World) : w.db.Keeps (exec o i w).2.db := by
  constructor
  · intro j r hr
    obtain ⟨r', hr', hstep⟩ := exec_job o i hr
    refine ⟨r', hr', ?_⟩
    cases hstep <;> rfl
  · intro R p hp
    obtain ⟨p', hp', -⟩ := exec_repo o i hp
    exact ⟨p', hp'⟩

/-- The job and the repo that an operation completes, or starts a worker for. -/
def Op.callsBack (j R : ℕ) : Op → Prop
  | onRateLimit _ R' j' | onSuccess R' j' _ => j' = j ∧ R' = R
  | popen _ _ _ cb => cb.jobId = j ∧ cb.repoId = R
  | _ => False

/-- The job belongs to the repo. -/
def Op.Owned (db : Db) (o : Op) : Prop := ∀ j R, o.callsBack j R → db.JobOfRepo j R

variable {db db' : Db} {o : Op} {α : Type}

theorem Op.Owned.keep (h : o.Owned db) (hk : db.Keeps db') : o.Owned db' := by
  intro j R ho
  exact (h j R ho).keep hk

/-- An operation that is no completion and starts no worker. -/
theorem Op.owned_of_not (h : ∀ j R, ¬ o.callsBack j R) (db : Db) : o.Owned db := by
  intro j R ho
  exact absurd ho (h j R)

theorem Op.not_callsBack_of_isRead (h : o.isRead = true) (j R : ℕ) : ¬ o.callsBack j R := by
  intro ho
  cases o <;> first | exact ho | cases h

/-! ## The daemon -/

/-- The daemon starts workers with owned callbacks only. -/
def ownedContract : Contract Op World where
  rely s t := s.db.Keeps t.db
  refl s := Db.Keeps.refl s.db
  trans h h' := h.trans h'
  assume _ _ := True
  guar o s _ := o.Owned s.db

theorem owned_of_emits {p : Py α} (hp : p.Emits fun o => ∀ j R, ¬ o.callsBack j R) :
    Triple exec ownedContract (fun _ => True) p (fun _ _ => True) fun _ _ => True := by
  apply Triple.of_emits (Contract.stable_const _)
  apply hp.mono
  intro o ho s i _ _
  exact ⟨Op.owned_of_not ho s.db, trivial⟩

theorem stable_job (j R : ℕ) : ownedContract.Stable fun w =>
    ∃ r, w.db.getJob j = some r ∧ r.repoId = R := by
  intro s t hst hs
  obtain ⟨r, hr, hid⟩ := hs
  obtain ⟨r', hr', hid'⟩ := Db.Keeps.job hst j r hr
  exact ⟨r', hr', hid'.trans hid⟩

theorem stable_jobOfRepo (j R : ℕ) : ownedContract.Stable fun w => w.db.JobOfRepo j R := by
  intro s t hst hs
  exact hs.keep hst

/-- `run_job` starts its worker for the repo of the job. -/
theorem owned_runJob (j sessionId : ℕ) (model : String) :
    Triple exec ownedContract (fun _ => True) (Runner.runJob j sessionId model)
      (fun _ _ => True) fun _ _ => True := by
  have hjob : ∀ r : Option Job, ownedContract.Stable fun w => ∀ job, r = some job →
      ∃ r, w.db.getJob j = some r ∧ r.repoId = job.repoId := by
    intro r s t hst hs job hr
    exact stable_job j job.repoId s t hst (hs job hr)
  refine Triple.bind (M := fun r w => ∀ job, r = some job →
    ∃ r, w.db.getJob j = some r ∧ r.repoId = job.repoId) ?_ fun r => ?_
  · apply Triple.op (Contract.stable_const _) hjob
    intro s i _ _
    refine ⟨Op.owned_of_not (Op.not_callsBack_of_isRead rfl) s.db, ?_⟩
    intro job hr
    exact ⟨job, hr, rfl⟩
  · cases r with
    | none => exact Triple.raise (hjob none) fun _ _ => trivial
    | some job =>
      refine Triple.bind (M := fun q w => ∀ repo, q = some repo →
        w.db.JobOfRepo j job.repoId) ?_ fun q => ?_
      · refine Triple.op (hjob (some job)) ?_ ?_
        · intro q s t hst hs repo hq
          exact (hs repo hq).keep hst
        · intro s i hs _
          refine ⟨Op.owned_of_not (Op.not_callsBack_of_isRead rfl) s.db, ?_⟩
          intro repo hq
          exact ⟨hs job rfl, repo, hq⟩
      · cases q with
        | none =>
          apply Triple.raise ?_ fun _ _ => trivial
          intro s t _ _ repo hq
          cases hq
        | some repo =>
          have hkeep : ∀ {o : Op}, (∀ s : World, s.db.JobOfRepo j job.repoId → o.Owned s.db) →
              ownedContract.Keeps exec (fun w => w.db.JobOfRepo j job.repoId) o := by
            intro o ho s i hs _
            exact ⟨ho s hs, hs.keep (keeps_exec o i s)⟩
          have hquiet : ∀ {o : Op}, (∀ j R, ¬ o.callsBack j R) →
              ownedContract.Keeps exec (fun w => w.db.JobOfRepo j job.repoId) o :=
            fun ho => hkeep fun s _ => Op.owned_of_not ho s.db
          have hread : ∀ o : Op, o.isRead = true →
              ownedContract.Keeps exec (fun w => w.db.JobOfRepo j job.repoId) o :=
            fun o ho => hquiet (Op.not_callsBack_of_isRead ho)
          refine ((Triple.of_emits (stable_jobOfRepo j job.repoId) ?_).pre
            fun _ hs => hs repo rfl).post (fun _ _ _ => trivial) fun _ _ _ => trivial
          refine Prog.Emits.bind ((emits_read hread rfl).bind fun _ =>
            emits_op (hquiet fun _ _ ho => ho)) fun attemptId => ?_
          refine (emits_transitionJob hread fun _ _ => hquiet fun _ _ ho => ho).bind fun _ => ?_
          refine emits_launch hread (fun _ _ => hquiet fun _ _ ho => ho) ?_
            (fun _ => hquiet fun _ _ ho => ho) (fun _ _ _ => hquiet fun _ _ ho => ho)
            (fun _ _ _ _ => hquiet fun _ _ ho => ho) _ _ _
          intro argv cwd env cb _ hj hR
          apply hkeep
          intro s hs j' R' ho
          obtain ⟨hj', hR'⟩ := ho
          rw [← hj', ← hR', hj, hR]
          exact hs

theorem owned_dispatchOne (cfg : Settings) :
    Triple exec ownedContract (fun _ => True) (Daemon.dispatchOne cfg) (fun _ _ => True)
      fun _ _ => True := by
  have hret : ∀ b, Triple exec ownedContract (fun _ => True) (.ret b : Py Bool)
      (fun _ _ => True) fun _ _ => True := by
    intro b
    exact Triple.skip (Contract.stable_const _) b
  have hread : ∀ o : Op, o.isRead = true → ∀ j R, ¬ o.callsBack j R :=
    fun _ => Op.not_callsBack_of_isRead
  refine (owned_of_emits (emits_nextJob hread cfg)).bind fun job => ?_
  cases job with
  | none => exact hret false
  | some job =>
    refine (owned_of_emits ?_).bind fun sessionId =>
      (owned_of_emits (emits_read hread rfl)).bind fun repo =>
        ((owned_runJob _ _ _).bind fun _ => hret true).tryCatch fun _ => hret true
    refine (emits_read hread rfl).bind fun sessions => ?_
    split
    · exact emits_op fun _ _ ho => ho
    · trivial

theorem not_callsBack_of_phase {p : Phase} (hp : p ≠ .dispatch) (h : p.performs o) (j R : ℕ) :
    ¬ o.callsBack j R := by
  intro ho
  cases o with
  | onRateLimit t R' j' => cases p <;> simp [Phase.performs, Op.isRead, Op.isTransition] at h
  | onSuccess R' j' result => cases p <;> simp [Phase.performs, Op.isRead, Op.isTransition] at h
  | popen argv cwd env cb => exact hp (h.home rfl)
  | _ => exact ho

/-- Every worker has an owned callback. -/
def OwnedInv (w : World) : Prop :=
  ∀ k ∈ w.workers, w.db.JobOfRepo k.callback.jobId k.callback.repoId

theorem OwnedInv.exec {w : World} {i : Inputs} (h : OwnedInv w)
    (hg : ∀ argv cwd env cb, o = .popen argv cwd env cb → w.db.JobOfRepo cb.jobId cb.repoId) :
    OwnedInv (DiscordAgent.exec o i w).2 := by
  intro k hk
  suffices hw : w.db.JobOfRepo k.callback.jobId k.callback.repoId from hw.keep (keeps_exec o i w)
  rcases mem_workers_exec hk with hk | ⟨argv, cwd, env, ho⟩
  · exact h k hk
  · exact hg argv cwd env k.callback ho

theorem not_popen_of_other {c : Sys} {t : Tid} (ht : t ≠ .daemon) (h : c.performs t o)
    (argv : List String) (cwd : String) (env : Option Environ) (cb : Callback) :
    o ≠ .popen argv cwd env cb := by
  rintro rfl
  exact ht (home_of_performs h rfl).1

/-- The contract holds along every run. -/
def ownedProof (cfg : Settings) (ok : Sys → Event → Prop) : DaemonProof cfg ok where
  K := ownedContract
  inv := OwnedInv
  post _ _ := True
  other {c t i o} hc hi ht _ hn := by
    refine ⟨hi.exec ?_, keeps_exec o i c.shared⟩
    intro argv cwd env cb ho
    exact absurd ho (not_popen_of_other ht (hc.next? hn) argv cwd env cb)
  assume _ _ _ _ := trivial
  own hi _ hg := by
    apply hi.exec
    rintro argv cwd env cb rfl
    exact hg _ _ ⟨rfl, rfl⟩
  enter {c p} _ hi _ := by
    refine ⟨hi, ?_⟩
    by_cases hp : p = .dispatch
    · subst hp
      exact ((owned_dispatchOne cfg).bind fun _ =>
        Triple.skip (Contract.stable_const _) _) _ trivial
    · exact owned_of_emits ((emits_phaseProg cfg p).mono fun o => not_callsBack_of_phase hp) _
        trivial
  reap hi := ⟨fun k hk => hi k (List.mem_filter.mp hk).1, Db.Keeps.refl _⟩
  reboot _ _ _ := ⟨fun _ hk => (List.not_mem_nil hk).elim, fun _ _ => trivial⟩

/-! ## The readers -/

theorem emits_onComplete_owned {cb : Callback} (h : db.JobOfRepo cb.jobId cb.repoId)
    (cfg : Settings) (exitCode : ℤ) (result : Option String) (isRateLimited : Bool) :
    (Runner.onComplete cfg cb exitCode result isRateLimited).Emits (Op.Owned db) := by
  have hcb : ∀ {o : Op}, o.callsBack cb.jobId cb.repoId →
      (∀ j R, o.callsBack j R → cb.jobId = j ∧ cb.repoId = R) → o.Owned db := by
    intro o _ ho j R hj
    obtain ⟨hj', hR'⟩ := ho j R hj
    rw [← hj', ← hR']
    exact h
  have hquiet : ∀ {o : Op}, (∀ j R, ¬ o.callsBack j R) → o.Owned db :=
    fun ho => Op.owned_of_not ho db
  exact emits_onComplete_of (fun o ho => hquiet (Op.not_callsBack_of_isRead ho))
    (fun _ _ => hquiet fun _ _ ho => ho) (hquiet fun _ _ ho => ho)
    (hquiet fun _ _ ho => ho) (fun _ => hcb ⟨rfl, rfl⟩ fun _ _ ho => ho)
    (fun _ _ => hquiet fun _ _ ho => ho) (fun _ => hcb ⟨rfl, rfl⟩ fun _ _ ho => ho)
    (fun _ _ _ _ _ => hquiet fun _ _ ho => ho) cfg isRateLimited

namespace Sys

variable {cfg : Settings} {ok : Sys → Event → Prop} {c c' : Sys} {e : Event}

/-- Every completion is for the repo of its job. -/
structure Owned (cfg : Settings) (c : Sys) : Prop where
  good : (ownedProof cfg fun _ _ => True).Good c
  reader : ∀ a, (c.prog (.reader a)).Emits (Op.Owned c.shared.db)

theorem owned_boot (cfg : Settings) (db : Db) (environ : Environ) :
    (boot db environ).Owned cfg :=
  ⟨DaemonProof.good_boot (D := ownedProof cfg fun _ _ => True) (fun _ hk => by cases hk)
    fun _ _ => trivial, fun _ => trivial⟩

theorem keeps_step (h : step cfg c e = some c') : c.shared.db.Keeps c'.shared.db := by
  rcases step_shared h with ⟨t, i, o, -, -, hs⟩ | ⟨hs, -⟩
  · rw [hs]
    exact keeps_exec o i c.shared
  · rw [hs]
    exact Db.Keeps.refl _

theorem Owned.step (hc : c.Owned cfg) (h : Sys.step cfg c e = some c') : c'.Owned cfg := by
  refine ⟨hc.good.step trivial h, ?_⟩
  have hk := keeps_step h
  suffices hr : ∀ a, (c'.prog (.reader a)).Emits (Op.Owned c.shared.db) from
    fun a => (hr a).mono fun o ho => ho.keep hk
  intro a
  cases e with
  | run t i => exact Pool.emits_step h (hc.reader a)
  | next =>
    obtain ⟨p, -, -, rfl⟩ := step_next h
    exact hc.reader a
  | exit b code result rl =>
    obtain ⟨w, hw, -, rfl⟩ := step_exit h
    by_cases hab : a = b
    · subst hab
      rw [Pool.load_prog_self]
      exact emits_onComplete_owned (hc.good.inv w hw) cfg code result rl
    · rw [Pool.load_prog_of_ne _ _ (by simpa using hab)]
      exact hc.reader a
  | invoke n cmd =>
    cases h
    exact hc.reader a
  | restart environ =>
    cases h
    trivial

/-- Along every run. -/
theorem Owned.run (hc : c.Owned cfg) (h : Runs cfg ok c c') : c'.Owned cfg :=
  h.invariant (I := Owned cfg) (fun _ _ _ hs _ he => hs.step he) hc

/-- A completion that a thread performs next is for the repo of its job. -/
theorem Owned.jobOfRepo (hc : c.Owned cfg) {t : Tid} {o : Op} (hn : c.next? t = some o) {j R : ℕ}
    (ho : o.callsBack j R) : c.shared.db.JobOfRepo j R := by
  cases t with
  | reader a => exact Pool.of_next? (hc.reader a) hn j R ho
  | daemon => exact hc.good.guarantee (i := {}) trivial hn j R ho
  | cli n =>
    have hperf := hc.good.footprint.next? hn
    cases o <;> first | exact ho.elim | simp [performs, Op.ofCli, Op.isRead] at hperf

end Sys

end DiscordAgent
