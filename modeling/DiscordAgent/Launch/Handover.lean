import DiscordAgent.Interleave.Monitor
import DiscordAgent.Interleave.Watch
import DiscordAgent.Launch.Serving

/-!
# Handing sessions over

`on_complete` finishes its attempt before it releases the session of the attempt
by compare-and-set. `_cleanup_running_process` releases the session of the last
attempt of its job without a comparison, even if the attempt is long finished
and the session serves another job.

Specification: `Db.serves`, the job is in `starting` or `running` and its last
attempt is unfinished and runs in the session.

Results:
* `Sys.serves_one`: if the watchdog releases vacant sessions only, no two jobs
  are served by one session, and an idle session has no unfinished attempt that
  was entered in it.
* `Sys.serves_two`: the watchdog releases a session that is not vacant.
-/

namespace DiscordAgent

open Interleave Sql Orchestrator

variable {o : Op} {i : Inputs} {cfg : Settings} {a b S : ℕ}

/-! ## The readers -/

/-- Attempt `e` is finished before its session is released. -/
def releaseMonitor (e : ℕ) : Monitor Op Op.Res Bool where
  answers _ _ := True
  ok m
    | .casUpdateSession _ a u =>
      a = e ∧ m = true ∧ u.currentAttemptId = none ∧ u.state = some .idle
    | _ => True
  next m
    | .finishAttempt a _ _, _ => m || a == e
    | _, _ => m

theorem follows_onComplete (cfg : Settings) (cb : Callback) (exitCode : ℤ) (result : Option String)
    (isRateLimited : Bool) :
    (Runner.onComplete cfg cb exitCode result isRateLimited).Follows (releaseMonitor cb.attemptId)
      (fun _ _ => True) (fun _ _ => True) false := by
  have hemits : (Runner.onComplete cfg cb exitCode result isRateLimited).Emits
      ((releaseMonitor cb.attemptId).ok true) :=
    emits_onComplete_of (fun o ho => by cases o <;> trivial) (fun _ _ => trivial)
      ⟨rfl, rfl, rfl, rfl⟩ trivial (fun _ => trivial) (fun _ _ => trivial) (fun _ => trivial)
      (fun _ _ _ _ _ => trivial) cfg isRateLimited
  -- once the attempt is finished the monitor allows the rest
  have hrest : ∀ {α : Type} {p : Py α}, p.Emits ((releaseMonitor cb.attemptId).ok true) →
      p.Follows (releaseMonitor cb.attemptId) (fun _ _ => True) (fun _ _ => True) true := by
    intro α p hp
    refine (Prog.follows_of_emits (I := fun m => m = true) hp ?_ rfl).mono (fun _ _ _ => trivial)
      fun _ _ _ => trivial
    rintro o m ho rfl
    refine ⟨ho, fun r _ => ?_⟩
    cases o <;> rfl
  refine ⟨trivial, fun attempts _ => ?_⟩
  have hemits := hemits.2 attempts
  by_cases hstale : attempts.getLast?.any (fun x => decide (x.id ≠ cb.attemptId)) = true
  · simp only [Prog.ret_bind, if_pos hstale]
    exact ⟨trivial, fun _ _ => trivial⟩
  · simp only [Prog.ret_bind, if_neg hstale] at hemits ⊢
    have hnext : ∀ m code error r, (releaseMonitor cb.attemptId).next m
        (.finishAttempt cb.attemptId code error) r = true := by
      intro m code error r
      simp [releaseMonitor]
    refine ⟨trivial, fun r _ => ?_⟩
    rw [hnext]
    exact hrest (hemits.2 r)

namespace Sys

variable {c c' : Sys} {e : Event}

/-- The reader thread follows the monitor of an attempt, whose state is true to
    the database. -/
def Releases (c : Sys) (a : ℕ) : Prop :=
  c.prog (.reader a) = .ret () ∨ ∃ e m, (∃ r, c.shared.db.attempts.get? e = some r) ∧
    (m = true → c.shared.db.finished e = true) ∧
    (c.prog (.reader a)).Follows (releaseMonitor e) (fun _ _ => True) (fun _ _ => True) m

theorem orderly_of_ofReader {e : ℕ} {m : Bool} {db : Db} (ho : o.ofReader)
    (hm : (releaseMonitor e).ok m o) (hfin : m = true → db.finished e = true) : o.Orderly db := by
  cases o with
  | updateSession S u =>
    rcases ho with h | h | h
    · cases h
    · exact h.elim
    · exact h.elim
  | casUpdateSession S a u =>
    obtain ⟨rfl, hm, hnone, hidle⟩ := hm
    exact ⟨hnone, hidle, hfin hm⟩
  | _ => trivial

/-- A reader releases a session only after it has finished its attempt. -/
theorem Releases.orderly (h : c.Releases a) (hc : c.Footprint) (hn : c.next? (.reader a) = some o) :
    o.Orderly c.shared.db := by
  rcases h with hret | ⟨e, m, -, hfin, hp⟩
  · rw [Pool.next?, hret] at hn
    cases hn
  · obtain ⟨k, hk⟩ := Pool.exists_of_next? hn
    rw [hk] at hp
    exact orderly_of_ofReader (hc.next? hn) hp.1 hfin

theorem orderly_of_ofCli {db : Db} (ho : o.ofCli) : o.Orderly db := by
  cases o with
  | updateSession S u => rcases ho with h | h <;> cases h
  | casUpdateSession S a u => rcases ho with h | h <;> cases h
  | _ => trivial

/-- The rows that a reader speaks about stay. -/
theorem Releases.keep (h : c.Releases a) (hprog : c'.prog (.reader a) = c.prog (.reader a))
    (hrows : ∀ e, (∃ r, c.shared.db.attempts.get? e = some r) →
      ∃ r, c'.shared.db.attempts.get? e = some r)
    (hfin : ∀ e, c.shared.db.finished e = true → c'.shared.db.finished e = true) :
    c'.Releases a := by
  rcases h with hret | ⟨e, m, hrow, hm, hp⟩
  · exact .inl (hprog.trans hret)
  · refine .inr ⟨e, m, hrows e hrow, fun h => hfin e (hm h), ?_⟩
    rw [hprog]
    exact hp

/-- The reader performs an operation. -/
theorem Releases.own {i : Inputs} (h : c.Releases a)
    (hstep : Pool.step exec c (.reader a) i = some c') : c'.Releases a := by
  obtain ⟨o, k, hk, hn, hs, -, -⟩ := Pool.step_cases hstep
  rcases h with hret | ⟨e, m, ⟨r, hr⟩, hm, hp⟩
  · rw [hret] at hk
    cases hk
  obtain ⟨-, hp'⟩ := Pool.follows_step hstep hn trivial hp
  obtain ⟨r', hr', -, -⟩ := exec_attempt o i hr
  refine .inr ⟨e, _, ⟨r', by rw [hs]; exact hr'⟩, fun hnext => ?_, hp'⟩
  rw [hs]
  cases o with
  | finishAttempt b code error =>
    rcases Bool.or_eq_true_iff.mp hnext with hm' | hb
    · exact Db.finished_exec _ i (hm hm')
    · have hrow := c.shared.db.attempt_finishAttempt e b i.now code error
      rw [if_pos (eq_of_beq hb).symm, hr] at hrow
      exact (Option.any_eq_true _ _).mpr ⟨_, hrow, rfl⟩
  | _ => exact Db.finished_exec _ i (hm hnext)

/-! ## The daemon -/

/-- The sessions that the watchdog releases are vacant, and the daemon is not
    killed while it dispatches. -/
def vacates (c : Sys) : Event → Bool
  | .run .daemon _ => c.shared.phase != .watchdog ||
    ((c.next? .daemon).bind Op.released).all c.shared.db.vacant
  | .restart _ => c.shared.phase != .dispatch
  | _ => true

/-- The readers are orderly in this step. -/
def ReadersOrderly (c : Sys) (e : Event) : Prop :=
  ∀ a i, e = .run (.reader a) i → ∀ o, c.next? (.reader a) = some o → o.Orderly c.shared.db

end Sys

/-- The other threads create no attempts, enter none and activate no job. -/
theorem bystander_of_other {c : Sys} {t : Tid} (ht : t ≠ .daemon) (h : c.performs t o) :
    (∀ k s n, o ≠ .insertAttempt k s n) ∧ ∀ S u, o ≠ .updateSession S u := by
  constructor
  · rintro k s n rfl
    exact ht (Sys.home_of_performs h rfl).1
  · rintro S u rfl
    cases t with
    | daemon => exact ht rfl
    | reader a =>
      rcases h with h | h | h
      · cases h
      · exact h
      · exact h
    | cli n => rcases h with h | h <;> cases h

section Phases

variable {p : Phase}

/-- An operation of another phase than the dispatch loop. -/
theorem settled_keeps (hp : p ≠ .dispatch) (hperf : p.performs o)
    (ho : ∀ s : World, s.phase = p → servingContract.assume o s → o.Orderly s.db) :
    servingContract.Keeps exec (InPhase p (Db.Settled none)) o := by
  intro s i hs ha
  have hord := ho s hs.1 ha
  have hset : (exec o i s).2.db.Settled none := by
    refine hs.2.exec ha.1 hord ?_ fun k hk => absurd hk (not_activates_of_phase hp hperf k)
    rintro k t n rfl
    exact absurd (hperf.home rfl) hp
  exact ⟨⟨hord, .settled hset, fun _ => hset⟩, (exec_phase o i s).trans hs.1, hset⟩

/-- Every phase but the dispatch loop keeps the last attempts settled. -/
theorem serving_phase (cfg : Settings) (hp : p ≠ .dispatch) :
    Triple exec servingContract (InPhase p (Db.Settled none)) (Daemon.phaseProg cfg p)
      (fun _ => InPhase p (Db.Settled none)) fun _ => InPhase p (Db.Settled none) := by
  refine Triple.of_emits (stable_inPhase (Db.persists_settled none)) ?_
  have hno : ∀ o, p.performs o → (∀ S u, o ≠ .updateSession S u) →
      servingContract.Keeps exec (InPhase p (Db.Settled none)) o := by
    intro o ho hno
    refine settled_keeps hp ho fun s _ _ => ?_
    cases o with
    | updateSession S u => exact absurd rfl (hno S u)
    | casUpdateSession S a u =>
      cases p <;> simp [Phase.performs, Op.isRead, Op.isTransition] at ho
    | _ => trivial
  by_cases hw : p = .watchdog
  · subst hw
    refine Prog.Emits.bind (emits_watchdogStep_of hno (fun S state hbusy => ?_) cfg)
      fun _ => trivial
    refine settled_keeps hp (.inr (.inr trivial)) fun s hphase ha => ⟨by simp, fun hidle => ?_⟩
    exact ha.2 hphase S (by simp only [Op.released, if_pos hidle]; rfl)
  · refine (emits_phaseProg cfg p).mono fun o ho => hno o ho ?_
    rintro S u rfl
    cases p with
    | dispatch => exact hp rfl
    | watchdog => exact hw rfl
    | _ => simp [Phase.performs, Op.isRead, Op.isTransition] at ho

end Phases

/-- At most one attempt is not entered in its session, and none outside the
    dispatch loop. -/
structure ServingInv (w : World) : Prop where
  released : w.db.Released
  almostSettled : w.db.AlmostSettled
  settled : w.phase ≠ .dispatch → w.db.Settled none

/-- The contract holds along every run in which the watchdog releases vacant
    sessions only. -/
def servingProof (cfg : Settings) :
    DaemonProof cfg fun c e => c.vacates e = true ∧ c.ReadersOrderly e where
  K := servingContract
  inv := ServingInv
  post _ w := w.db.Settled none
  other {c t i o} hc hi ht hok hn := by
    have hperf := hc.next? hn
    obtain ⟨hins, hno⟩ := bystander_of_other ht hperf
    have ho : o.Orderly c.shared.db := by
      cases t with
      | daemon => exact absurd rfl ht
      | reader a => exact hok.2 a i rfl o hn
      | cli n => exact Sys.orderly_of_ofCli hperf
    have hcalm := Db.calm_exec (i := i) ho hins hno (Sys.not_activates_of_other ht hperf)
    have hphase := exec_phase o i c.shared
    refine ⟨⟨hi.released.exec ho, Db.persists_almostSettled _ _ hcalm hi.almostSettled,
      fun hne => ?_⟩, hcalm, hphase⟩
    rw [hphase] at hne
    exact Db.persists_settled none _ _ hcalm (hi.settled hne)
  assume {c i o} _ hi hok hn := by
    refine ⟨hi.released, fun hphase S hS => ?_⟩
    have hall := hok.1
    simp only [Sys.vacates, hphase, hn, Option.bind_some] at hall
    exact (Option.all_eq_true _ _).mp (by simpa using hall) S hS
  own hi _ hg := ⟨hi.released.exec hg.1, hg.2.1, hg.2.2⟩
  enter {c p} _ hi hpost := by
    refine ⟨⟨hi.released, .settled hpost, fun _ => hpost⟩, ?_⟩
    by_cases hp : p = .dispatch
    · subst hp
      exact ((serving_dispatchOne cfg).bind fun b => Triple.ret
        (stable_inPhase (Db.persists_settled none)) fun s hs => hs.2) _ ⟨rfl, hpost⟩
    · exact ((serving_phase cfg hp).post (fun _ _ hs => hs.2) fun _ _ _ => trivial) _ ⟨rfl, hpost⟩
  reap hi := ⟨⟨hi.released, hi.almostSettled, hi.settled⟩, Db.Calm.refl _, rfl⟩
  reboot {c environ} _ hi hok := by
    have hset := hi.settled (by simpa [Sys.vacates] using hok.1)
    exact ⟨⟨hi.released, hi.almostSettled, fun _ => hset⟩, fun w hw =>
      Db.persists_settled none _ _ hw.1 hset⟩

/-! ## Sessions in use -/

namespace Db

variable {db : Db} {j j' : ℕ} {r : Job} {t : Attempt}

/-- The job is in `starting` or `running`, and its last attempt is unfinished and
    runs in the session. -/
def serves (db : Db) (S j : ℕ) : Bool :=
  (db.getJob j).any (fun r => r.state.active) &&
    (db.getAttempts j).getLast?.any fun a => a.finishedAt.isNone && a.sessionId == some S

theorem serves_iff : db.serves S j = true ↔
    (∃ r, db.getJob j = some r ∧ r.state.active = true) ∧
      ∃ t, (db.getAttempts j).getLast? = some t ∧ t.finishedAt = none ∧ t.sessionId = some S := by
  unfold serves
  rw [Bool.and_eq_true, Option.any_eq_true, Option.any_eq_true]
  simp

theorem runsIn_of_mem (ht : t ∈ db.getAttempts j) (hS : t.sessionId = some S) :
    db.RunsIn t.id S := ⟨t, Table.get?_of_mem (mem_getAttempts.mp ht).1, hS⟩

theorem not_finished_of_mem (ht : t ∈ db.getAttempts j) (hfin : t.finishedAt = none) :
    db.finished t.id = false := by
  have hrow : db.attempts.get? t.id = some t := Table.get?_of_mem (mem_getAttempts.mp ht).1
  unfold finished
  rw [hrow, Option.any_some, hfin]
  rfl

theorem RunsIn.unique {T : ℕ} (h : db.RunsIn a S) (h' : db.RunsIn a T) : S = T := by
  obtain ⟨r, hr, hS⟩ := h
  obtain ⟨r', hr', hT⟩ := h'
  rw [hr] at hr'
  cases hr'
  rw [hS] at hT
  exact Option.some.inj hT

/-- The session of an unfinished entered attempt names it. -/
theorem Entered.names (h : db.Entered t.id) (ht : t ∈ db.getAttempts j)
    (hfin : t.finishedAt = none) (hS : t.sessionId = some S) : db.Names S t.id := by
  rcases h with hfinished | ⟨T, hruns, hnames⟩
  · rw [not_finished_of_mem ht hfin] at hfinished
    cases hfinished
  · rwa [(runsIn_of_mem ht hS).unique hruns]

/-- An idle session names no unfinished attempt. -/
theorem Released.not_idle (h : db.Released) (hnames : db.Names S t.id)
    (ht : t ∈ db.getAttempts j) (hfin : t.finishedAt = none) : ¬ db.Idle S := by
  intro hidle
  have hfinished := vacant_iff.mp (h S hidle) t.id hnames
  rw [not_finished_of_mem ht hfin] at hfinished
  cases hfinished

theorem lastAttempt_eq (ht : (db.getAttempts j).getLast? = some t) :
    db.lastAttempt j = some t.id := by
  unfold lastAttempt attemptIds
  rw [List.getLast?_map, ht]
  rfl

/-- The session of the last attempt names it, or `run_job` is opening it. -/
theorem AlmostSettled.names_or (h : db.AlmostSettled) (hr : db.getJob j = some r)
    (hact : r.state.active = true) (ht : (db.getAttempts j).getLast? = some t)
    (hfin : t.finishedAt = none) (hS : t.sessionId = some S) :
    db.Names S t.id ∨ (db.Opening j t.id S ∧ db.Settled (some j)) := by
  have hmem := List.mem_of_getLast? ht
  have hlast := lastAttempt_eq ht
  rcases h with hset | @⟨k, b, T, hset, hopen⟩
  · exact .inl ((hset j r t.id hr hact (by simp) hlast).names hmem hfin hS)
  · by_cases hjk : k = j
    · subst hjk
      have hb := hopen.last
      rw [hlast] at hb
      cases hb
      rw [hopen.runsIn.unique (runsIn_of_mem hmem hS)] at hopen
      exact .inr ⟨hopen, hset⟩
    · exact .inl ((hset j r t.id hr hact (by simpa using hjk) hlast).names hmem hfin hS)

/-- No two jobs are served by one session. -/
theorem AlmostSettled.unique (h : db.AlmostSettled) (hrel : db.Released) (hj : db.serves S j = true)
    (hj' : db.serves S j' = true) : j = j' := by
  obtain ⟨⟨r, hr, hact⟩, t, ht, hfin, hS⟩ := serves_iff.mp hj
  obtain ⟨⟨r', hr', hact'⟩, t', ht', hfin', hS'⟩ := serves_iff.mp hj'
  have hmem := List.mem_of_getLast? ht
  have hmem' := List.mem_of_getLast? ht'
  by_contra hne
  rcases h.names_or hr hact ht hfin hS with hn | ⟨ho, hset⟩
  · rcases h.names_or hr' hact' ht' hfin' hS' with hn' | ⟨ho', -⟩
    · have heq := Table.eq_of_id_eq (mem_getAttempts.mp hmem).1 (mem_getAttempts.mp hmem').1
        (hn.unique hn')
      rw [← (mem_getAttempts.mp hmem).2, ← (mem_getAttempts.mp hmem').2, heq] at hne
      exact hne rfl
    · exact hrel.not_idle hn hmem hfin ho'.idle
  · have hentered := hset j' r' t'.id hr' hact' (by simpa using hne) (lastAttempt_eq ht')
    exact hrel.not_idle (hentered.names hmem' hfin' hS') hmem' hfin' ho.idle

end Db

/-! ## Runs -/

/-- The attempt that `run_job` enters in a session. -/
def Op.launches : Op → List ℕ
  | updateSession _ u => u.currentAttemptId.toList
  | _ => []

namespace Sys

variable {c c' : Sys} {e : Event} {g : List ℕ}

/-- The attempts that have been entered in their sessions so far. -/
def launches (c : Sys) (e : Event) (g : List ℕ) : List ℕ :=
  match e with
  | .run t _ => ((c.next? t).map Op.launches).getD [] ++ g
  | _ => g

/-- The invariant of a run. -/
structure Served (cfg : Settings) (c : Sys) (g : List ℕ) : Prop where
  good : (servingProof cfg).Good c
  numbers : (numberProof cfg 0 fun _ _ => True).Good c
  releases : ∀ a, c.Releases a
  entered : ∀ a ∈ g, c.shared.db.Entered a

theorem Served.readersOrderly (h : c.Served cfg g) (e : Event) : c.ReadersOrderly e :=
  fun a _ _ _ hn => (h.releases a).orderly h.good.footprint hn

/-- Every operation of the run is orderly. -/
theorem Served.orderly (h : c.Served cfg g) {t : Tid} {i : Inputs}
    (hok : c.vacates (.run t i) = true) (hn : c.next? t = some o) : o.Orderly c.shared.db := by
  cases t with
  | daemon => exact (h.good.guarantee ⟨hok, h.readersOrderly _⟩ hn).1
  | reader a => exact (h.releases a).orderly h.good.footprint hn
  | cli n => exact orderly_of_ofCli (h.good.footprint.next? hn)

theorem Served.releases_step (h : c.Served cfg g) (hstep : step cfg c e = some c') (a : ℕ) :
    c'.Releases a := by
  have hkeep : c'.shared.db = c.shared.db → c'.prog (.reader a) = c.prog (.reader a) →
      c'.Releases a := fun hdb hprog =>
    (h.releases a).keep hprog (fun e hr => by rw [hdb]; exact hr) fun e hf => by rw [hdb]; exact hf
  cases e with
  | run t i =>
    have hstep : Pool.step exec c t i = some c' := hstep
    by_cases ht : t = .reader a
    · subst ht
      exact (h.releases a).own hstep
    · obtain ⟨o, -, -, -, hs, -, hother⟩ := Pool.step_cases hstep
      refine (h.releases a).keep (hother _ (Ne.symm ht)) (fun e hr => ?_) fun e hf => ?_
      · obtain ⟨r, hr⟩ := hr
        obtain ⟨r', hr', -⟩ := exec_attempt o i hr
        exact ⟨r', by rw [hs]; exact hr'⟩
      · rw [hs]
        exact Db.finished_exec o i hf
  | next =>
    obtain ⟨p, -, -, rfl⟩ := step_next hstep
    exact hkeep rfl (Pool.load_prog_of_ne _ _ (by simp))
  | exit b code result rl =>
    obtain ⟨k, hk, -, rfl⟩ := step_exit hstep
    by_cases hab : a = b
    · subst hab
      obtain ⟨-, hid⟩ := h.numbers.inv.2 k hk
      obtain ⟨r, hr, -, hrid⟩ := Db.mem_attemptIds.mp hid
      refine .inr ⟨k.callback.attemptId, false, ⟨r, ?_⟩, by simp, ?_⟩
      · rw [← hrid]
        exact Table.get?_of_mem hr
      · rw [Pool.load_prog_self]
        exact follows_onComplete cfg k.callback code result rl
    · exact hkeep rfl (Pool.load_prog_of_ne _ _ (by simpa using hab))
  | invoke n cmd =>
    cases hstep
    exact hkeep rfl (Pool.load_prog_of_ne _ _ (by simp))
  | restart environ =>
    cases hstep
    exact .inl rfl

/-- An attempt that is entered in a session keeps it until it is finished. -/
theorem Served.entered_step (h : c.Served cfg g) (hok : c.vacates e = true)
    (hstep : step cfg c e = some c') : ∀ a ∈ launches c e g, c'.shared.db.Entered a := by
  cases e with
  | run t i =>
    have hstep : Pool.step exec c t i = some c' := hstep
    obtain ⟨o, -, -, hn, hs, -, -⟩ := Pool.step_cases hstep
    have ho := h.orderly hok hn
    intro a ha
    rw [hs]
    simp only [launches, hn, Option.map_some, Option.getD_some] at ha
    rcases List.mem_append.mp ha with hnew | hold
    · cases o with
      | updateSession S u => exact Db.entered_update ho (Option.mem_toList.mp hnew)
      | _ => cases hnew
    · exact (h.entered a hold).exec h.good.inv.released ho
  | next =>
    obtain ⟨p, -, -, rfl⟩ := step_next hstep
    exact h.entered
  | exit b code result rl =>
    obtain ⟨k, -, -, rfl⟩ := step_exit hstep
    exact h.entered
  | invoke n cmd =>
    cases hstep
    exact h.entered
  | restart environ =>
    cases hstep
    exact h.entered

theorem Served.step (h : c.Served cfg g) (hok : c.vacates e = true)
    (hstep : Sys.step cfg c e = some c') : c'.Served cfg (launches c e g) :=
  ⟨h.good.step ⟨hok, h.readersOrderly e⟩ hstep, h.numbers.step trivial hstep,
    h.releases_step hstep, h.entered_step hok hstep⟩

theorem served_boot (cfg : Settings) (environ : Environ) :
    (boot default environ).Served cfg [] := by
  refine ⟨DaemonProof.good_boot (D := servingProof cfg) ⟨?_, .settled ?_, fun _ => ?_⟩ ?_,
    DaemonProof.good_boot (D := numberProof cfg 0 fun _ _ => True)
      ⟨Db.numbered_self default, fun _ hk => by cases hk⟩ fun _ _ => trivial,
    fun _ => .inl rfl, fun _ ha => by cases ha⟩
  · rintro S ⟨s, hs, -⟩
    cases hs
  · intro j r a hr
    cases hr
  · intro j r a hr
    cases hr
  · intro w hw
    refine Db.persists_settled none _ _ hw.1 ?_
    intro j r a hr
    cases hr

/-- A session serves one job at a time, and an idle session has no unfinished
    attempt that was entered in it. The last attempt of a job that was not
    entered yet is that of a job in `starting`. -/
theorem serves_one {environ : Environ}
    (h : Run (watch (step cfg) launches) (fun s e => s.1.vacates e = true)
      (boot default environ, []) (c, g)) :
    (∀ j j' S, c.shared.db.serves S j = true → c.shared.db.serves S j' = true → j = j') ∧
      ∀ j r a S, c.shared.db.getJob j = some r → r.state.active = true →
        a ∈ c.shared.db.getAttempts j → a.finishedAt = none → a.sessionId = some S →
        c.shared.db.Idle S →
          a.id ∉ g ∧ ((c.shared.db.getAttempts j).getLast? = some a → r.state = .starting) := by
  have hserved : c.Served cfg g := h.watch_invariant (I := Served cfg)
    (fun _ _ _ _ hs ho he => hs.step ho he) (served_boot cfg environ)
  have hrel := hserved.good.inv.released
  have halmost := hserved.good.inv.almostSettled
  refine ⟨fun j j' S => halmost.unique hrel, ?_⟩
  intro j r a S hr hact ha hfin hS hidle
  refine ⟨fun hg => ?_, fun hlast => ?_⟩
  · exact hrel.not_idle ((hserved.entered a.id hg).names ha hfin hS) ha hfin hidle
  · rcases halmost.names_or hr hact hlast hfin hS with hn | ⟨ho, -⟩
    · exact absurd hidle (hrel.not_idle hn ha hfin)
    · have hne := ho.notRunning r hr
      cases hstate : r.state with
      | starting => rfl
      | running => exact absurd hstate hne
      | _ =>
        rw [hstate] at hact
        cases hact

/-- A repo that runs two jobs at a time. -/
def twoRepo : Db.NewRepo := { oneRepo with maxConcurrency := 2 }

/-- Job 1 of such a repo is started with attempt 1 in session 1, up to operation
    `n` of the dispatch phase. -/
def startFirst (n : ℕ) : List Event :=
  cli (.createRepo twoRepo) ++ cli (.dispatch { oneJob with maxRetries := 3 }) ++ [.next] ++
    daemonSteps 1 ++ [.next] ++ daemonSteps 2 ++ [.next] ++ daemonSteps n

/-- Job 2 is started in session 2 while job 1 runs in session 1. -/
def twoServed : List Event :=
  startFirst 23 ++ cli (.dispatch oneJob) ++ [.next] ++ daemonSteps 23

theorem serves_each : ∃ (c : Sys) (g : List ℕ), c.shared.db.serves 1 1 = true ∧
    c.shared.db.serves 2 2 = true ∧
    (∀ j j' S, c.shared.db.serves S j = true → c.shared.db.serves S j' = true → j = j') ∧
      ∀ j r a S, c.shared.db.getJob j = some r → r.state.active = true →
        a ∈ c.shared.db.getAttempts j → a.finishedAt = none → a.sessionId = some S →
        c.shared.db.Idle S →
          a.id ∉ g ∧ ((c.shared.db.getAttempts j).getLast? = some a → r.state = .starting) := by
  have hlist : (runList (watch (step Settings.plain) launches) (fun s e => s.1.vacates e)
      (boot default fun _ => none, []) twoServed).any
      (fun s => s.1.shared.db.serves 1 1 && s.1.shared.db.serves 2 2) = true := by decide +kernel
  obtain ⟨⟨c, g⟩, hrun, hc⟩ := Run.exists_of_runList hlist
  obtain ⟨h₁, h₂⟩ := (Bool.and_eq_true _ _).mp hc
  exact ⟨c, g, h₁, h₂, serves_one hrun⟩

/-- The reader of attempt 1 has released session 1, which goes to job 2. Then
    job 1 times out, and the watchdog releases the session again. -/
def releaseTwice : List Event :=
  startFirst 23 ++ [.exit 1 1 none false] ++ readerSteps 1 4 ++ cli (.dispatch oneJob) ++ [.next] ++
    daemonSteps 22 { now := 3900 } ++ [.next] ++ daemonSteps 2 ++ [.next] ++
    daemonSteps 22 { now := 4000 } ++ [.next] ++ daemonSteps 1 ++ [.next, .next] ++ daemonSteps 1 ++
    [.next] ++ daemonSteps 2 ++ [.next] ++ daemonSteps 22 { now := 4000 }

/-- The reader of attempt 1 takes job 1 out of the queue behind the back of
    `run_job`, which leaves attempt 2 behind. Attempt 3 then runs in the session
    of attempt 2 and releases it. -/
def leftBehind : List Event :=
  startFirst 23 ++ [.exit 1 1 none false] ++ readerSteps 1 6 ++ [.next] ++ daemonSteps 2 ++
    [.next] ++ daemonSteps 19 { now := 4000 } ++ [.next] ++ daemonSteps 1 ++ [.next, .next] ++
    daemonSteps 1 ++ [.next] ++ daemonSteps 2 ++ [.next] ++ daemonSteps 12 { now := 4000 } ++
    readerSteps 1 1 ++ daemonSteps 2 ++ [.next] ++ daemonSteps 2 ++ [.next] ++ daemonSteps 2 ++
    [.next] ++ daemonSteps 1 ++ [.next, .next] ++ daemonSteps 1 ++ [.next] ++ daemonSteps 6 ++
    [.next] ++ daemonSteps 22 { now := 4000 } ++ [.exit 3 1 none false] ++ readerSteps 3 3

/-- The daemon is not killed. -/
def noRestart : Sys → Event → Bool
  | _, .restart _ => false
  | _, _ => true

/-- An unfinished attempt of the job runs in the session, which is idle. -/
def unserved (c : Sys) (S j : ℕ) : Bool :=
  (c.shared.db.sessions.get? S).any (fun s => s.state == .idle) &&
    (c.shared.db.getAttempts j).any fun a => a.finishedAt.isNone && a.sessionId == some S

theorem of_unserved {S j : ℕ} (h : c.unserved S j = true) : c.shared.db.Idle S ∧
    ∃ a ∈ c.shared.db.getAttempts j, a.finishedAt = none ∧ a.sessionId = some S := by
  obtain ⟨hidle, hatt⟩ := (Bool.and_eq_true _ _).mp h
  obtain ⟨s, hs, hstate⟩ := (Option.any_eq_true _ _).mp hidle
  obtain ⟨a, ha, hcond⟩ := List.any_eq_true.mp hatt
  exact ⟨⟨s, hs, eq_of_beq hstate⟩, a, ha, by simpa using hcond⟩

theorem serves_two :
    -- the watchdog releases the session of job 2
    (∃ c, Runs Settings.plain (fun c e => c.noRestart e = true) (boot default fun _ => none) c ∧
      c.shared.db.serves 1 1 = true ∧ c.shared.db.serves 1 2 = true) ∧
    -- `run_job` has not entered the attempt yet
    (∃ c, Runs Settings.plain (fun c e => (c.noRestart e && c.vacates e) = true)
      (boot default fun _ => none) c ∧ c.jobState 1 = some .starting ∧ c.shared.db.Idle 1 ∧
        ∃ a ∈ c.shared.db.getAttempts 1, a.finishedAt = none ∧ a.sessionId = some 1) ∧
    -- `run_job` never enters the attempt
    ∃ c, Runs Settings.plain (fun c e => (c.noRestart e && c.vacates e) = true)
      (boot default fun _ => none) c ∧ c.jobState 1 = some .running ∧ c.shared.db.Idle 1 ∧
        ∃ a ∈ c.shared.db.getAttempts 1, a.finishedAt = none ∧ a.sessionId = some 1 := by
  refine ⟨?_, ?_, ?_⟩
  · obtain ⟨c, hrun, hc⟩ := exists_run noRestart releaseTwice
      (fun c => c.shared.db.serves 1 1 && c.shared.db.serves 1 2) (by decide +kernel)
    obtain ⟨h₁, h₂⟩ := (Bool.and_eq_true _ _).mp hc
    exact ⟨c, hrun, h₁, h₂⟩
  · obtain ⟨c, hrun, hc⟩ := exists_run (fun c e => c.noRestart e && c.vacates e) (startFirst 16)
      (fun c => c.jobState 1 == some .starting && c.unserved 1 1) (by decide +kernel)
    obtain ⟨h₁, h₂⟩ := (Bool.and_eq_true _ _).mp hc
    exact ⟨c, hrun, eq_of_beq h₁, of_unserved h₂⟩
  · obtain ⟨c, hrun, hc⟩ := exists_run (fun c e => c.noRestart e && c.vacates e) leftBehind
      (fun c => c.jobState 1 == some .running && c.unserved 1 1) (by decide +kernel)
    obtain ⟨h₁, h₂⟩ := (Bool.and_eq_true _ _).mp hc
    exact ⟨c, hrun, eq_of_beq h₁, of_unserved h₂⟩

end Sys

end DiscordAgent
