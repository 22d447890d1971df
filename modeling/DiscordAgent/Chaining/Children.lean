import DiscordAgent.Chaining.Execution
import DiscordAgent.Interleave.Once
import DiscordAgent.Interleave.Watch
import DiscordAgent.Lifecycle.Transitions

/-!
# One child for every job

`on_success` marks the job as `succeeded` in one transaction and creates the
next job of its chain outside of it. No column of the new row names its parent,
so nothing in the database tells a second child from the first.

Here any thread may call `on_success` for any job at any time, beside the
threads of `on_complete` and everything else that runs.

Results:
* `Sys.one_child`: when every `transition_job` is atomic, the calls of
  `on_success` for a job create at most one job in total, and the job itself
  stays `succeeded` from then on.
-/

namespace DiscordAgent

open Interleave Orchestrator

/-- The transaction of `on_success`. -/
def Op.settles : Op → Prop
  | onSuccess .. => True
  | _ => False

/-- The transaction has marked the job. -/
def Op.settled : (o : Op) → o.Res → Prop
  | onSuccess .., info => Option.isSome info = true
  | _, _ => False

/-- `create_job`. -/
def Op.creates : Op → Prop
  | createJob _ => True
  | _ => False

/-! ## The threads -/

section Programs

/-- Neither of the two. -/
def Op.unrelated (o : Op) : Prop := ¬ o.settles ∧ ¬ o.creates

theorem unrelated_of_read {o : Op} (h : o.isRead = true) : o.unrelated := by
  constructor
  · intro ho
    cases o with
    | onSuccess => cases h
    | _ => exact ho
  · intro ho
    cases o with
    | createJob => cases h
    | _ => exact ho

theorem unrelated_transition (j : ℕ) (current new : JobState) (result : Option String) :
    (Op.updateJobState j current new result).unrelated := ⟨id, id⟩

variable (cfg : Settings)

theorem once_dispatchChainNext (payload : String) (depth : ℕ) (notify : Option String) :
    (Scheduler.dispatchChainNext cfg payload depth notify).Once Op.creates := by
  have hr : ∀ o : Op, o.isRead = true → ¬ o.creates := fun o h => (unrelated_of_read h).2
  have hx : ∀ {α : Type} (r : Except PyErr α), (ofExcept r).Emits fun o : Op => ¬ o.creates :=
    fun r => emits_ofExcept r
  unfold Scheduler.dispatchChainNext
  split
  · trivial
  · split
    · trivial
    · refine (hx _).bind_once fun repoName => (hx _).bind_once fun task =>
        (hx _).bind_once fun chat => (hx _).bind_once fun rest => ?_
      split
      · trivial
      · refine (emits_getRepoByAlias hr _ _).bind_once fun repo => ?_
        cases repo with
        | none => trivial
        | some repo =>
          refine (hx _).bind_once fun raw => ?_
          refine (emits_chainEnqueueAt hr cfg raw).bind_once fun at_ => ?_
          split
          · apply Prog.once_call
            intro _
            trivial
          · trivial

/-- The job is created only after the transaction has marked its parent. -/
theorem granted_onSuccess (repoId j : ℕ) (result : Option String) :
    (Scheduler.onSuccess cfg repoId j result).Granted Op.settles Op.settled Op.creates := by
  apply Prog.granted_call
  · exact id
  · trivial
  · intro info
    cases info with
    | none => trivial
    | some info =>
      simp only [Prog.ret_bind]
      split
      · trivial
      · exact emits_dispatchChainNext (fun o h => (unrelated_of_read h).1) (fun _ => id) _ _ _ _
  · intro info
    cases info with
    | none => trivial
    | some info =>
      simp only [Prog.ret_bind]
      split
      · trivial
      · exact once_dispatchChainNext cfg _ _ _
  · intro info hinfo
    cases info with
    | none => trivial
    | some info => exact absurd rfl hinfo

theorem granted_onComplete (cb : Callback) (exitCode : ℤ) (result : Option String)
    (isRateLimited : Bool) : (Runner.onComplete cfg cb exitCode result isRateLimited).Granted
      Op.settles Op.settled Op.creates := by
  have hr : ∀ o : Op, o.isRead = true → o.unrelated := fun o h => unrelated_of_read h
  have htr : ∀ (new : JobState) (text : Option String),
      (transitionJob cb.jobId new text).Emits Op.unrelated := fun new text =>
    emits_transitionJob hr fun current _ => unrelated_transition cb.jobId current new text
  have hlimit : (Scheduler.onRateLimit cfg cb.repoId cb.jobId).Emits Op.unrelated :=
    (emits_op ⟨id, id⟩).bind fun _ => emits_ofExcept _
  refine (emits_read hr rfl).bind_granted fun attempts => ?_
  split
  · exact (emits_op ⟨id, id⟩).granted
  · refine (emits_op ⟨id, id⟩).bind_granted fun _ => (emits_op ⟨id, id⟩).bind_granted fun _ =>
      (emits_op ⟨id, id⟩).bind_granted fun _ => (emits_read hr rfl).bind_granted fun job => ?_
    cases job with
    | none => trivial
    | some job =>
      simp only []
      split_ifs
      · trivial
      · exact granted_onSuccess cfg _ _ _
      · apply Prog.Emits.granted
        exact hlimit.bind fun _ => trivial
      · exact (emits_ignoreValueError (htr _ _)).granted
      · exact (htr _ _).granted

end Programs

/-! ## Calls of on_success -/

namespace Sys

/-- What happens next, when `on_success` may be called from any thread. -/
inductive Call where
  | event (e : Event)
  | onSuccess (thread repoId jobId : ℕ) (result : Option String)

/-- One event or one more call of `on_success`. -/
def stepCalls (cfg : Settings) (c : Sys) : Call → Option Sys
  | .event e => step cfg c e
  | .onSuccess a repoId jobId result =>
    some (Pool.load c (.reader a) (Scheduler.onSuccess cfg repoId jobId result))

/-- Every `transition_job` is atomic. -/
def freshCall (c : Sys) : Call → Bool
  | .event e => c.fresh e
  | .onSuccess .. => true

/-- For which job each thread has called `on_success`, and the jobs that these
    calls have created for it. -/
structure Chains where
  caller : ℕ → Option ℕ := fun _ => none
  children : ℕ → List ℕ := fun _ => []

namespace Chains

/-- Thread `a` performs `o`. -/
def perform (g : Chains) (c : Sys) (a : ℕ) (i : Inputs) : Op → Chains
  | .onSuccess _ j _ => { g with caller := Function.update g.caller a (some j) }
  | .createJob n =>
    match g.caller a with
    | some j =>
      let child := (exec (.createJob n) i c.shared).1
      { g with children := Function.update g.children j (child :: g.children j) }
    | none => g
  | _ => g

/-- Thread `a` starts a new call. -/
def start (g : Chains) (a : ℕ) : Chains := { g with caller := Function.update g.caller a none }

/-- The history after the next event. -/
def update (c : Sys) (e : Call) (g : Chains) : Chains :=
  match e with
  | .event (.run (.reader a) i) => ((c.next? (.reader a)).map (g.perform c a i)).getD g
  | .event (.exit a ..) | .onSuccess a .. => g.start a
  | .event (.restart _) => { g with caller := fun _ => none }
  | _ => g

end Chains

/-- Runs with their history. -/
abbrev ChainRuns (cfg : Settings) : Sys × Chains → Sys × Chains → Prop :=
  Run (watch (stepCalls cfg) Chains.update) fun s e => s.1.freshCall e = true

/-! ## The invariant -/

variable {cfg : Settings} {c c' : Sys} {g g' : Chains} {holder : ℕ → Option ℕ} {a : ℕ} {i : Inputs}

namespace Chains

/-- How far thread `a` is: it is done with both operations, or before the
    transaction, or its transaction has marked the job and it holds the right
    to create the child. -/
def At (g : Chains) (holder : ℕ → Option ℕ) (a : ℕ) (p : Py Unit) : Prop :=
  p.Emits Op.unrelated ∨ p.Granted Op.settles Op.settled Op.creates ∨
    ∃ j, g.caller a = some j ∧ holder j = some a ∧ (p.Emits fun o => ¬ o.settles) ∧
      p.Once Op.creates

theorem At.frame {holder' : ℕ → Option ℕ} {p : Py Unit} (h : g.At holder a p)
    (hc : g'.caller a = g.caller a) (hh : ∀ j, holder j = some a → holder' j = some a) :
    g'.At holder' a p := by
  rcases h with h | h | ⟨j, hj, ha, hp⟩
  · exact .inl h
  · exact .inr (.inl h)
  · rw [← hc] at hj
    exact .inr (.inr ⟨j, hj, hh j ha, hp⟩)

theorem perform_unrelated {o : Op} (h : o.unrelated) : g.perform c a i o = g := by
  cases o with
  | onSuccess => exact absurd trivial h.1
  | createJob => exact absurd trivial h.2
  | _ => rfl

end Chains

/-- `holder j` is the thread that has marked `j` and may still create its
    child. -/
structure ChildInv (holder : ℕ → Option ℕ) (c : Sys) (g : Chains) : Prop where
  footprint : c.Footprint
  thread : ∀ a, g.At holder a (c.prog (.reader a))
  succeeded : ∀ j, holder j ≠ none ∨ g.children j ≠ [] → c.jobState j = some .succeeded
  child : ∀ j, (g.children j).length ≤ 1
  holding : ∀ j, holder j ≠ none → g.children j = []

namespace ChildInv

/-- Thread `a` has moved, the others have not. -/
theorem threads {P : ℕ → Py Unit → Prop}
    (hother : ∀ b, b ≠ a → c'.prog (.reader b) = c.prog (.reader b))
    (ha : P a (c'.prog (.reader a))) (hb : ∀ b, b ≠ a → P b (c.prog (.reader b))) (b : ℕ) :
    P b (c'.prog (.reader b)) := by
  by_cases hba : b = a
  · rw [hba]
    exact ha
  · rw [hother b hba]
    exact hb b hba

/-- A step that neither marks a job nor creates a child. -/
theorem keep (hi : ChildInv holder c g) (hf : c'.Footprint)
    (hstay : ∀ j, c.jobState j = some .succeeded → c'.jobState j = some .succeeded)
    (hg : g'.children = g.children) (hat : ∀ b, g'.At holder b (c'.prog (.reader b))) :
    ChildInv holder c' g' where
  footprint := hf
  thread := hat
  succeeded := by
    intro j hj
    rw [hg] at hj
    exact hstay j (hi.succeeded j hj)
  child := by
    rw [hg]
    exact hi.child
  holding := by
    rw [hg]
    exact hi.holding

/-- The transaction of thread `a` marks job `j`: no other thread has marked it
    before. -/
theorem settle (hi : ChildInv holder c g) {R j : ℕ} {result : Option String} {info : ChainInfo}
    (hf : c'.Footprint) (hs : c'.shared = (exec (.onSuccess R j result) i c.shared).2)
    (hinfo : (exec (.onSuccess R j result) i c.shared).1 = some info)
    (hstay : ∀ j, c.jobState j = some .succeeded → c'.jobState j = some .succeeded)
    (hother : ∀ b, b ≠ a → c'.prog (.reader b) = c.prog (.reader b))
    (hns : (c'.prog (.reader a)).Emits fun o => ¬ o.settles)
    (honce : (c'.prog (.reader a)).Once Op.creates) :
    ChildInv (Function.update holder j (some a)) c'
      (g.perform c a i (.onSuccess R j result)) := by
  obtain ⟨r, hr, hv, -, -, -, hrows⟩ := onSuccess_some hinfo
  have hnot : c.jobState j ≠ some .succeeded := by
    unfold jobState
    rw [hr, Option.map_some]
    intro hst
    rw [Option.some.inj hst] at hv
    cases hv
  have hno : holder j = none := by
    by_contra hne
    exact hnot (hi.succeeded j (.inl hne))
  have hnil : g.children j = [] := by
    by_contra hne
    exact hnot (hi.succeeded j (.inr hne))
  refine ⟨hf, ?_, ?_, hi.child, ?_⟩
  · refine threads hother
      (.inr (.inr ⟨j, Function.update_self .., Function.update_self .., hns, honce⟩)) ?_
    intro b hb
    refine (hi.thread b).frame (Function.update_of_ne hb ..) ?_
    intro k hk
    have hkj : k ≠ j := by
      rintro rfl
      rw [hno] at hk
      cases hk
    rw [Function.update_of_ne hkj]
    exact hk
  · intro k hk
    by_cases hkj : k = j
    · subst hkj
      unfold jobState
      rw [hs]
      show ((c.shared.db.onSuccess R k result i.now).2.getJob k).map Job.state = _
      rw [hrows k, if_pos rfl]
      rfl
    · rw [Function.update_of_ne hkj] at hk
      exact hstay k (hi.succeeded k hk)
  · intro k hk
    by_cases hkj : k = j
    · rw [hkj]
      exact hnil
    · rw [Function.update_of_ne hkj] at hk
      exact hi.holding k hk

/-- Thread `a` creates the child of job `j` and gives its right up. -/
theorem create (hi : ChildInv holder c g) {j : ℕ} {n : NewJob} (hf : c'.Footprint)
    (hstay : ∀ j, c.jobState j = some .succeeded → c'.jobState j = some .succeeded)
    (hother : ∀ b, b ≠ a → c'.prog (.reader b) = c.prog (.reader b))
    (hcall : g.caller a = some j) (hhold : holder j = some a)
    (hq : (c'.prog (.reader a)).Emits Op.unrelated) :
    ChildInv (Function.update holder j none) c' (g.perform c a i (.createJob n)) := by
  have hne : holder j ≠ none := by
    rw [hhold]
    simp
  have hnil := hi.holding j hne
  have hg : g.perform c a i (.createJob n) =
      { g with children := Function.update g.children j [(exec (.createJob n) i c.shared).1] } := by
    rw [← hnil]
    unfold Chains.perform
    rw [hcall]
  rw [hg]
  refine ⟨hf, ?_, ?_, ?_, ?_⟩
  · refine threads hother (.inl hq) ?_
    intro b hb
    refine (hi.thread b).frame rfl ?_
    intro k hk
    have hkj : k ≠ j := by
      rintro rfl
      rw [hhold] at hk
      exact hb (Option.some.inj hk).symm
    rw [Function.update_of_ne hkj]
    exact hk
  · intro k hk
    by_cases hkj : k = j
    · rw [hkj]
      exact hstay j (hi.succeeded j (.inl hne))
    · simp only [Function.update_of_ne hkj] at hk
      exact hstay k (hi.succeeded k hk)
  · intro k
    by_cases hkj : k = j
    · subst hkj
      simp
    · simp only [Function.update_of_ne hkj]
      exact hi.child k
  · intro k hk
    by_cases hkj : k = j
    · rw [hkj, Function.update_self] at hk
      exact absurd rfl hk
    · simp only [Function.update_of_ne hkj] at hk ⊢
      exact hi.holding k hk

/-- An operation of thread `a`. -/
theorem run (hi : ChildInv holder c g) (hfresh : c.fresh (.run (.reader a) i) = true)
    (h : step cfg c (.run (.reader a) i) = some c') :
    ∃ holder', ChildInv holder' c' (Chains.update c (.event (.run (.reader a) i)) g) := by
  obtain ⟨o, k, hp, hn, hs, hk, hother⟩ := Pool.step_cases h
  have hf := hi.footprint.step h
  have hstay : ∀ j, c.jobState j = some .succeeded → c'.jobState j = some .succeeded :=
    fun j hj => hi.footprint.final_stays hfresh h hj rfl
  have hb : ∀ b, b ≠ a → c'.prog (.reader b) = c.prog (.reader b) := by
    intro b hba
    apply hother
    simpa using hba
  have hup : Chains.update c (.event (.run (.reader a) i)) g = g.perform c a i o := by
    unfold Chains.update
    simp only [hn, Option.map_some, Option.getD_some]
  rw [hup]
  have hkeep : o.unrelated → g.At holder a (c'.prog (.reader a)) →
      ChildInv holder c' (g.perform c a i o) := by
    intro ho hat
    refine hi.keep hf hstay (by rw [Chains.perform_unrelated ho]) ?_
    rw [Chains.perform_unrelated ho]
    exact threads hb hat fun b _ => hi.thread b
  rcases hi.thread a with hq | hgr | ⟨j, hcall, hhold, hns, honce⟩
  · exact ⟨holder, hkeep (Pool.of_next? hq hn) (.inl (Pool.emits_step h hq))⟩
  · obtain ⟨hno, hgo, hset⟩ := Pool.granted_step h hn hgr
    by_cases ho : o.settles
    · obtain ⟨hns, honce, hnone⟩ := hset ho
      cases o with
      | onSuccess R j result =>
        cases hinfo : (exec (.onSuccess R j result) i c.shared).1 with
        | some info => exact ⟨_, hi.settle hf hs hinfo hstay hb hns honce⟩
        | none =>
          have hnc := hnone (by simp [Op.settled, hinfo])
          refine ⟨holder, hi.keep hf hstay rfl (threads hb (.inl (hns.and hnc)) ?_)⟩
          intro b hba
          exact (hi.thread b).frame (Function.update_of_ne hba ..) fun _ hj => hj
      | _ => exact ho.elim
    · exact ⟨holder, hkeep ⟨ho, hno⟩ (.inr (.inl (hgo ho)))⟩
  · obtain ⟨honce', hnc⟩ := Pool.once_step h hn honce
    have hns' := Pool.emits_step h hns
    by_cases ho : o.creates
    · cases o with
      | createJob n => exact ⟨_, hi.create hf hstay hb hcall hhold (hns'.and (hnc ho))⟩
      | _ => exact ho.elim
    · have hons : ¬ o.settles := Pool.of_next? (P := fun o => ¬ o.settles) hns hn
      exact ⟨holder, hkeep ⟨hons, ho⟩ (.inr (.inr ⟨j, hcall, hhold, hns', honce'⟩))⟩

/-- Thread `a` starts a call. -/
theorem start (hi : ChildInv holder c g) (hf : c'.Footprint) (hshared : c'.shared.db = c.shared.db)
    (hother : ∀ b, b ≠ a → c'.prog (.reader b) = c.prog (.reader b))
    (hp : (c'.prog (.reader a)).Granted Op.settles Op.settled Op.creates) :
    ChildInv holder c' (g.start a) := by
  refine hi.keep hf ?_ rfl (threads hother (.inr (.inl hp)) ?_)
  · intro j hj
    unfold jobState at hj ⊢
    rw [hshared]
    exact hj
  · intro b hba
    exact (hi.thread b).frame (Function.update_of_ne hba ..) fun _ hj => hj

/-- A step in which no reader thread does anything. -/
theorem others (hi : ChildInv holder c g) (hf : c'.Footprint)
    (hstay : ∀ j, c.jobState j = some .succeeded → c'.jobState j = some .succeeded)
    (hother : ∀ b, c'.prog (.reader b) = c.prog (.reader b)) : ChildInv holder c' g := by
  refine hi.keep hf hstay rfl ?_
  intro b
  rw [hother b]
  exact hi.thread b

theorem event (hi : ChildInv holder c g) {e : Event} (hfresh : c.fresh e = true)
    (h : step cfg c e = some c') :
    ∃ holder', ChildInv holder' c' (Chains.update c (.event e) g) := by
  have hf := hi.footprint.step h
  have hstay : ∀ j, c.jobState j = some .succeeded → c'.jobState j = some .succeeded :=
    fun j hj => hi.footprint.final_stays hfresh h hj rfl
  cases e with
  | run t i =>
    cases t with
    | reader a => exact hi.run hfresh h
    | daemon | cli n =>
      obtain ⟨-, -, -, -, -, -, hother⟩ := Pool.step_cases h
      exact ⟨holder, hi.others hf hstay fun b => hother _ (by simp)⟩
  | next =>
    obtain ⟨p, -, -, rfl⟩ := step_next h
    exact ⟨holder, hi.others hf hstay fun b => Pool.load_prog_of_ne _ _ (by simp)⟩
  | exit a code result rl =>
    obtain ⟨w, -, -, rfl⟩ := step_exit h
    refine ⟨holder, hi.start hf rfl ?_ ?_⟩
    · intro b hb
      exact Pool.load_prog_of_ne _ _ (by simpa using hb)
    · rw [Pool.load_prog_self]
      exact granted_onComplete cfg w.callback code result rl
  | invoke n cmd =>
    cases h
    exact ⟨holder, hi.others hf hstay fun b => Pool.load_prog_of_ne _ _ (by simp)⟩
  | restart environ =>
    cases h
    refine ⟨holder, hi.keep hf hstay rfl ?_⟩
    intro b
    exact .inl trivial

end ChildInv

theorem emits_onSuccess (cfg : Settings) (repoId j : ℕ) (result : Option String) :
    (Scheduler.onSuccess cfg repoId j result).Emits Op.ofReader := by
  refine (emits_op (.inr (.inr trivial))).bind fun info => ?_
  cases info with
  | none => trivial
  | some info =>
    simp only []
    split
    · trivial
    · exact emits_dispatchChainNext (fun _ h => .inl h) (fun _ => .inr (.inr trivial)) _ _ _ _

theorem ChildInv.call (hi : ChildInv holder c g) {e : Call} (hfresh : c.freshCall e = true)
    (h : stepCalls cfg c e = some c') : ∃ holder', ChildInv holder' c' (Chains.update c e g) := by
  cases e with
  | event e => exact hi.event hfresh h
  | onSuccess a repoId j result =>
    cases h
    refine ⟨holder, hi.start ?_ rfl ?_ ?_⟩
    · intro t
      by_cases ht : t = .reader a
      · subst ht
        rw [Pool.load_prog_self]
        exact emits_onSuccess cfg repoId j result
      · rw [Pool.load_prog_of_ne _ _ ht]
        exact hi.footprint t
    · intro b hb
      exact Pool.load_prog_of_ne _ _ (by simpa using hb)
    · rw [Pool.load_prog_self]
      exact granted_onSuccess cfg repoId j result

theorem childInv_boot (db : Db) (environ : Environ) :
    ChildInv (fun _ => none) (boot db environ) {} where
  footprint := footprint_boot db environ
  thread _ := .inl trivial
  succeeded := by simp
  child := by simp
  holding := by simp

/-- The invariant along every run. -/
theorem childInv_of_run {s s' : Sys × Chains} (h : ChainRuns cfg s s')
    (hs : ∃ holder, ChildInv holder s.1 s.2) : ∃ holder, ChildInv holder s'.1 s'.2 := by
  refine h.watch_invariant (I := fun c g => ∃ holder, ChildInv holder c g) ?_ hs
  rintro c g e t ⟨holder, hi⟩ hfresh ht
  exact hi.call hfresh ht

/-- A job with a child stays `succeeded`. -/
theorem children_stay {s s' : Sys × Chains} (h : ChainRuns cfg s s')
    (hs : ∃ holder, ChildInv holder s.1 s.2) {j : ℕ} (hj : s.1.jobState j = some .succeeded) :
    s'.1.jobState j = some .succeeded := by
  refine (h.watch_invariant (I := fun c g => (∃ holder, ChildInv holder c g) ∧
    c.jobState j = some .succeeded) ?_ ⟨hs, hj⟩).2
  rintro c g e t ⟨⟨holder, hi⟩, hj⟩ hfresh ht
  refine ⟨hi.call hfresh ht, ?_⟩
  cases e with
  | event e => exact hi.footprint.final_stays hfresh ht hj rfl
  | onSuccess a repoId k result =>
    rw [← Option.some.inj ht]
    exact hj

theorem one_child {db : Db} {environ : Environ} (h : ChainRuns cfg (boot db environ, {}) (c, g)) :
    (∀ j, (g.children j).length ≤ 1 ∧
      (g.children j ≠ [] → ∀ c' g', ChainRuns cfg (c, g) (c', g') →
        c'.jobState j = some .succeeded)) ∧
      ∀ a n, c.next? (.reader a) = some (.createJob n) →
        ∃ j, g.caller a = some j ∧ g.children j = [] ∧ c.jobState j = some .succeeded := by
  obtain ⟨holder, hi⟩ := childInv_of_run h ⟨_, childInv_boot db environ⟩
  constructor
  · intro j
    refine ⟨hi.child j, ?_⟩
    intro hj c' g' hrun
    exact children_stay hrun ⟨holder, hi⟩ (hi.succeeded j (.inr hj))
  · intro a n hn
    rcases hi.thread a with hq | hgr | ⟨j, hcall, hhold, -, -⟩
    · exact absurd trivial (Pool.of_next? hq hn).2
    · obtain ⟨k, hp⟩ := Pool.exists_of_next? hn
      rw [hp] at hgr
      exact absurd trivial hgr.1
    · have hne : holder j ≠ none := by
        rw [hhold]
        simp
      exact ⟨j, hcall, hi.holding j hne, hi.succeeded j (.inl hne)⟩

/-- Job 1 completes. Between its transaction and its child another thread calls
    `on_success` for it. -/
def calledTwice : List Call :=
  (startJob { oneJob with nextDispatchPayload := some "b" } ++
    [Event.exit 1 0 (some "done") false] ++ readerSteps 1 6).map Call.event ++
    [.onSuccess 9 1 1 none] ++ (readerSteps 9 1 ++ readerSteps 1 2).map Call.event

theorem one_child_called_twice : ∃ (c : Sys) (g : Chains),
    g.children 1 = [2] ∧ g.caller 1 = some 1 ∧ g.caller 9 = some 1 ∧
      (∀ j, (g.children j).length ≤ 1 ∧
        (g.children j ≠ [] → ∀ c' g', ChainRuns twoSettings (c, g) (c', g') →
          c'.jobState j = some .succeeded)) ∧
      ∀ a n, c.next? (.reader a) = some (.createJob n) →
        ∃ j, g.caller a = some j ∧ g.children j = [] ∧ c.jobState j = some .succeeded := by
  have hlist : (runList (watch (stepCalls twoSettings) Chains.update)
      (fun s e => s.1.freshCall e) (boot default fun _ => none, {}) calledTwice).any
      (fun s => s.2.children 1 == [2] && (s.2.caller 1 == some 1 && s.2.caller 9 == some 1)) =
      true := by decide +kernel
  obtain ⟨⟨c, g⟩, hrun, hs⟩ := Run.exists_of_runList hlist
  simp only [Bool.and_eq_true, beq_iff_eq] at hs
  exact ⟨c, g, hs.1, hs.2.1, hs.2.2, one_child hrun⟩

end Sys

end DiscordAgent
