import DiscordAgent.System.Contract

/-!
# Triples of the Supervisor

The branches of `_drive_delivery`, `_try_wake` and `_claim_and_fallback`, once
for every contract. The invariant `I` holds while the job has not had its turn
and `Q` after it; what is left to a proof are the claim, the POST and its
bookkeeping.
-/

namespace DiscordAgent

open Interleave

namespace Supervisor

section Rules

variable {K : Contract Op World} {I Q : World → Prop} {cfg : Settings} {job : Job}
variable (hI : K.Stable I) (hQ : K.Stable Q)
include hI hQ

/-- The claim leads to `M` if it is won, and the row that is read afterwards has
    the id of the job. -/
theorem triple_claimAndFallback {M : World → Prop} (hM : K.Stable M)
    (hclaim : ∀ s i, I s → K.assume (.claimForFallback job.id) s →
      K.guar (.claimForFallback job.id) s (exec (.claimForFallback job.id) i s).2 ∧
        if (s.db.claimForFallback job.id).1 then M (exec (.claimForFallback job.id) i s).2
        else Q (exec (.claimForFallback job.id) i s).2)
    (hget : K.Keeps exec M (.getJob job.id))
    (hnotify : ∀ job' : Job, job'.id = job.id →
      Triple exec K M (attemptFallbackNotify cfg job') (fun _ => Q) fun _ => Q) :
    Triple exec K I (claimAndFallback cfg job) (fun _ => Q) fun _ => Q := by
  refine Triple.bind (M := fun ok s => if ok then M s else Q s) ?_ fun ok => ?_
  · refine Triple.op hI (fun ok => ?_) hclaim
    cases ok
    · exact hQ
    · exact hM
  · cases ok with
    | false => exact Triple.ret hQ fun _ hs => hs
    | true =>
      refine Triple.bind (M := fun fresh s => M s ∧ ∀ r : Job, fresh = some r → r.id = job.id)
        (Triple.op hM (fun fresh => hM.and (Contract.stable_const _)) ?_) fun fresh => ?_
      · intro s i hs ha
        obtain ⟨hguar, hkeep⟩ := hget s i hs ha
        exact ⟨hguar, hkeep, fun r hr => Db.getJob_id hr⟩
      · rintro s ⟨hs, hid⟩
        refine hnotify (fresh.getD job) ?_ s hs
        cases hf : fresh with
        | none => rfl
        | some r => exact hid r hf

theorem triple_tryWake (hIQ : ∀ s, I s → Q s) (hwake : ∀ o : Op, o.wakes job.id → K.Keeps exec I o)
    (hclaim : Triple exec K I (claimAndFallback cfg job) (fun _ => Q) fun _ => Q) :
    Triple exec K I (tryWake cfg job) (fun _ => Q) fun _ => Q := by
  have hread : ∀ o : Op, o.isRead = true → K.Keeps exec I o := by
    intro o h
    exact hwake o (.inl h)
  have hprog : ∀ {α : Type} {p : Py α}, p.Emits (K.Keeps exec I) →
      Triple exec K I p (fun _ => I) fun _ => Q := by
    intro α p hp
    exact (Triple.of_emits hI hp).post (fun _ _ h => h) fun _ _ h => hIQ _ h
  have hgive : Triple exec K I ((claimAndFallback cfg job).bind fun _ => .ret false)
      (fun _ => Q) fun _ => Q := hclaim.bind fun _ => Triple.skip hQ _
  unfold tryWake
  split
  · exact Triple.ret hI hIQ
  · refine Triple.bind (hprog (emits_loadPane hread)) fun pane => ?_
    cases pane with
    | none => exact hgive
    | some pane =>
      refine Triple.bind (hprog (emits_paneExists hread pane)) fun found => ?_
      split
      · exact hgive
      · refine Triple.bind (hprog (emits_isPaneBusy hread pane)) fun busy => ?_
        split
        · exact Triple.ret hI hIQ
        · refine Triple.bind (hprog (emits_read hread rfl)) fun repo => ?_
          exact (hprog ((emits_sendWake _ _ _).mono hwake)).post (fun _ _ h => hIQ _ h)
            fun _ _ h => h

/-- The branches of `_drive_delivery`. -/
theorem triple_driveDelivery
    (hskip : job.reportedAt.isSome = true ∨ job.wakeState = some .undeliverable ∨
      (cfg.autoWake = true ∧ job.wakeState ≠ some .fallback) → ∀ s, I s → Q s)
    (htime : K.Keeps exec I .time)
    (hwake : cfg.autoWake = true → ∀ o : Op, o.wakes job.id → K.Keeps exec I o)
    (hretry : job.reportedAt = none → job.wakeState = some .fallback →
      Triple exec K I (attemptFallbackNotify cfg job) (fun _ => Q) fun _ => Q)
    (hclaim : job.reportedAt = none → job.wakeState ≠ some .undeliverable →
      job.wakeState ≠ some .fallback →
      Triple exec K I (claimAndFallback cfg job) (fun _ => Q) fun _ => Q) :
    Triple exec K I (driveDelivery cfg job) (fun _ => Q) fun _ => Q := by
  refine Triple.bind (M := fun _ => I) (Triple.op hI (fun _ => hI) htime) fun now => ?_
  simp only []
  split_ifs with hrep hund hfb hauto
  · exact Triple.ret hI (hskip (.inl hrep))
  · exact Triple.ret hI (hskip (.inr (.inl hund)))
  · exact hretry (by simpa using hrep) hfb
  · exact hclaim (by simpa using hrep) hund hfb
  · exact hclaim (by simpa using hrep) hund hfb
  · have hauto : cfg.autoWake = true := by simpa using hauto
    exact (triple_tryWake hI hQ (hskip (.inr (.inr ⟨hauto, hfb⟩))) (hwake hauto)
      (hclaim (by simpa using hrep) hund hfb)).bind fun _ => Triple.skip hQ _
  · have hauto : cfg.autoWake = true := by simpa using hauto
    exact Triple.ret hI (hskip (.inr (.inr ⟨hauto, hfb⟩)))

end Rules

section Loop

variable {K : Contract Op World} {cfg : Settings} {J : List Job → World → Prop}
variable {E : PyErr → World → Prop} (hJ : ∀ jobs, K.Stable (J jobs))
variable (hdrive : ∀ job jobs, Triple exec K (J (job :: jobs)) (driveDelivery cfg job)
  (fun _ => J jobs) fun _ => J jobs)
include hJ hdrive

/-- The loop of `tick`: `J` is about the jobs that have not had their turn. An
    exception ends the turn of its job only. -/
theorem triple_jobs (jobs : List Job) :
    Triple exec K (J jobs)
      (Prog.forEach jobs fun job => (driveDelivery cfg job).tryCatch fun _ => .ret ())
      (fun _ => J []) E := by
  refine Triple.forEach (J := J) (hJ []) (fun job jobs => ?_) jobs
  exact (hdrive job jobs).tryCatch fun _ => Triple.skip (hJ jobs) ()

/-- A tick whose listing establishes `J`. -/
theorem triple_tick {I : World → Prop} (hI : K.Stable I)
    (hlist : ∀ s i, I s → K.assume .listUndeliveredTerminalJobs s →
      K.guar .listUndeliveredTerminalJobs s (exec .listUndeliveredTerminalJobs i s).2 ∧
        J s.db.listUndeliveredTerminalJobs (exec .listUndeliveredTerminalJobs i s).2) :
    Triple exec K I (tick cfg) (fun _ => J []) E := by
  apply (Triple.op hI hJ hlist).bind
  intro jobs
  exact triple_jobs hJ hdrive jobs

end Loop

end Supervisor

end DiscordAgent
