import DiscordAgent.Chaining.Execution
import DiscordAgent.Interleave.Monitor
import DiscordAgent.Lifecycle.Numbering

/-!
# What is left of a chain

The payload of a job holds the rest of its chain, nested one level per job. A
completion takes the payload of its job out of the transaction of `on_success` and
later creates one job from it, with one level less.

Specification: `remainingChain`, the number of levels of a stored payload.

Results:
* `remainingChain_child`: the job that a payload asks for has one level less.
* `Sys.inCall_of_run`: along every run each call is for the job of its attempt and
  holds the payload of this job.
-/

namespace DiscordAgent

open Interleave

/-! ## The length of a chain -/

mutual

/-- The number of dicts nested under `next_dispatch_payload`, with the outermost one. -/
def Json.links : Json → ℕ
  | .obj d => Dict.links d + 1
  | _ => 0

/-- The number of dicts below this one. -/
def Dict.links : List (String × Json) → ℕ
  | [] => 0
  | (key, v) :: d =>
    if key = "next_dispatch_payload" then if v.truthy then v.links else 0 else Dict.links d

end

theorem Dict.links_eq (d : Dict) : Dict.links d =
    if (d.get "next_dispatch_payload").truthy then (d.get "next_dispatch_payload").links
    else 0 := by
  induction d with
  | nil => rfl
  | cons p d ih =>
    obtain ⟨key, v⟩ := p
    unfold links Dict.get
    rw [List.lookup_cons]
    by_cases hk : key = "next_dispatch_payload"
    · simp [hk]
    · have hne : ("next_dispatch_payload" == key) = false := by simpa using Ne.symm hk
      rw [if_neg hk, hne]
      exact ih

/-- The length of the chain that a stored payload describes. -/
def remainingChain (py : PyLib) (payload : Option String) : ℕ :=
  (((payload.filter (· ≠ "")).bind py.loads).map Json.links).getD 0

/-- What `json.loads` has returned is the same after `json.dumps` and `json.loads`. -/
def Reloads (py : PyLib) : Prop :=
  ∀ s d, py.loads s = some (.obj d) → (Dict.get "next_dispatch_payload" d).truthy = true →
    py.loads (py.dumps (Dict.get "next_dispatch_payload" d)) =
      some (Dict.get "next_dispatch_payload" d)

/-- The chain of the job that `_dispatch_chain_next` creates. -/
theorem remainingChain_child {py : PyLib} (hpy : Reloads py) {payload : Option String}
    {text : String} {d : Dict} (htext : payload.filter (· ≠ "") = some text)
    (hd : py.loads text = some (.obj d)) :
    remainingChain py (if (d.get "next_dispatch_payload").truthy then
      some (py.dumps (d.get "next_dispatch_payload")) else none) + 1 ≤
        remainingChain py payload := by
  have hparent : remainingChain py payload = Dict.links d + 1 := by
    unfold remainingChain
    rw [htext, Option.bind_some, hd]
    rfl
  rw [hparent, Dict.links_eq]
  split_ifs with hnext
  · unfold remainingChain
    by_cases hempty : py.dumps (d.get "next_dispatch_payload") = ""
    · rw [hempty]
      exact Nat.succ_le_succ (Nat.zero_le _)
    · rw [Option.filter_some, if_pos (by simpa using hempty), Option.bind_some,
        hpy text d hd hnext]
      rfl
  · rfl

/-! ## A call of `on_complete` -/

/-- How far a call of `on_complete` is: before its check that the job is active,
    behind it, behind the transaction of `on_success`, or done with the chain. -/
inductive CallStage where
  | checking
  | completing
  | holding (payload : Option String)
  | done

/-- A call for job `j` marks no other job, and creates a job only from the payload that
    the transaction has returned. -/
def callMonitor (py : PyLib) (j : ℕ) : Monitor Op Op.Res CallStage where
  answers _ _ := True
  ok m
    | .onSuccess _ k _ => m = .completing ∧ k = j
    | .createJob n => ∃ payload, m = .holding payload ∧
        remainingChain py n.nextDispatchPayload + 1 ≤ remainingChain py payload
    | _ => True
  next m
    | .getJob k, some job => if k = j ∧ job.state.active then .completing else m
    | .onSuccess .., some info => .holding info.nextDispatchPayload
    | .onSuccess .., none => .done
    | .createJob _, _ => .done
    | _, _ => m

section Follows

variable {cfg : Settings} {j : ℕ} {m : CallStage}

theorem calls_getRepoByAlias (py : PyLib) (name : Json) :
    (getRepoByAlias cfg.py name).Follows (callMonitor py j) (fun _ m' => m' = m)
      (fun _ m' => m' = m) m := by
  unfold getRepoByAlias
  cases cfg.py.bindText name with
  | error e => rfl
  | ok text =>
    cases text with
    | none => exact ⟨trivial, fun _ _ => rfl⟩
    | some text =>
      refine ⟨trivial, fun row _ => ?_⟩
      cases row with
      | none => exact ⟨trivial, fun _ _ => rfl⟩
      | some row => rfl

theorem calls_chainEnqueueAt (py : PyLib) (raw : Json) :
    (Scheduler.chainEnqueueAt cfg raw).Follows (callMonitor py j) (fun _ m' => m' = m)
      (fun _ m' => m' = m) m := by
  unfold Scheduler.chainEnqueueAt
  split_ifs
  · exact ⟨trivial, fun _ _ => rfl⟩
  · rfl

/-- The one job that is created comes from the payload. -/
theorem calls_dispatchChainNext (hpy : Reloads cfg.py) {payload : Option String} {text : String}
    (htext : payload.filter (· ≠ "") = some text) (depth : ℕ) (notify : Option String) :
    (Scheduler.dispatchChainNext cfg text depth notify).Follows (callMonitor cfg.py j)
      (fun _ _ => True) (fun _ _ => True) (.holding payload) := by
  unfold Scheduler.dispatchChainNext
  cases hload : cfg.py.loads text with
  | none => trivial
  | some v =>
    simp only []
    split
    · trivial
    · cases v with
      | obj d =>
        simp only [Dict.json_get, ofExcept_ok, Prog.bind_eq, Prog.ret_bind]
        split
        · trivial
        · refine ((calls_getRepoByAlias cfg.py _).mono (fun _ _ h => h)
            fun _ _ _ => trivial).bind fun repo m hm => ?_
          subst hm
          cases repo with
          | none => trivial
          | some repo =>
            refine ((calls_chainEnqueueAt cfg.py _).mono (fun _ _ h => h)
              fun _ _ _ => trivial).bind fun at_ m hm => ?_
            subst hm
            split
            · exact ⟨⟨payload, rfl, remainingChain_child hpy htext hload⟩, fun _ _ => trivial⟩
            · trivial
      | _ => trivial

theorem calls_onSuccess (hpy : Reloads cfg.py) (repoId : ℕ) (result : Option String) :
    (Scheduler.onSuccess cfg repoId j result).Follows (callMonitor cfg.py j) (fun _ _ => True)
      (fun _ _ => True) .completing := by
  refine ⟨⟨rfl, rfl⟩, fun info _ => ?_⟩
  cases info with
  | none => trivial
  | some info =>
    simp only [Prog.ret_bind]
    split
    · trivial
    · next text htext => exact calls_dispatchChainNext hpy htext _ _

theorem calls_transitionJob (py : PyLib) (k : ℕ) (new : JobState) (result : Option String) :
    (transitionJob k new result).Follows (callMonitor py j) (fun _ _ => True) (fun _ _ => True)
      m := by
  refine ⟨trivial, fun job _ => ?_⟩
  cases job with
  | none => trivial
  | some job =>
    simp only [Prog.ret_bind]
    split_ifs
    · exact ⟨trivial, fun _ _ => trivial⟩
    · trivial

theorem calls_onComplete (hpy : Reloads cfg.py) (cb : Callback) (exitCode : ℤ)
    (result : Option String) (isRateLimited : Bool) :
    (Runner.onComplete cfg cb exitCode result isRateLimited).Follows (callMonitor cfg.py cb.jobId)
      (fun _ _ => True) (fun _ _ => True) .checking := by
  refine ⟨trivial, fun attempts _ => ?_⟩
  simp only [Prog.ret_bind]
  split
  · exact ⟨trivial, fun _ _ => trivial⟩
  · refine ⟨trivial, fun _ _ => ⟨trivial, fun _ _ => ⟨trivial, fun _ _ =>
      ⟨trivial, fun job _ => ?_⟩⟩⟩⟩
    cases job with
    | none => trivial
    | some job =>
      by_cases hact : job.state.active = true
      · have hnext : (callMonitor cfg.py cb.jobId).next .checking (.getJob cb.jobId) (some job) =
            .completing := if_pos ⟨rfl, hact⟩
        simp only [Prog.ret_bind, hact, Bool.not_true, Bool.false_eq_true, if_false]
        split_ifs
        · show Prog.Follows _ _ _ _ ((callMonitor cfg.py cb.jobId).next .checking _ _)
          rw [hnext]
          exact calls_onSuccess hpy _ _
        · refine ⟨trivial, fun r _ => ?_⟩
          cases r <;> trivial
        · refine (calls_transitionJob cfg.py _ _ _).tryCatch fun e m _ => ?_
          unfold onValueError
          split_ifs <;> trivial
        · exact calls_transitionJob cfg.py _ _ _
      · simp [Prog.ret_bind, hact, Prog.Follows]

end Follows

/-! ## Runs -/

theorem payload_exec {w : World} {j : ℕ} {r : Job} (o : Op) (i : Inputs)
    (hr : w.db.getJob j = some r) :
    ∃ r', (exec o i w).2.db.getJob j = some r' ∧
      r'.nextDispatchPayload = r.nextDispatchPayload := by
  obtain ⟨r', hr', hstep⟩ := exec_job o i hr
  exact ⟨r', hr', congrArg ChainFields.nextDispatchPayload (Chain.chainFields_of_jobStep hstep)⟩

/-- A call that holds a payload has held it before, or has just got the payload of its job. -/
theorem holding_next {py : PyLib} {j : ℕ} {m : CallStage} {o : Op} {i : Inputs} {w : World}
    {payload : Option String} (hok : (callMonitor py j).ok m o)
    (h : (callMonitor py j).next m o (exec o i w).1 = .holding payload) :
    m = .holding payload ∨ ∃ r, w.db.getJob j = some r ∧ r.nextDispatchPayload = payload := by
  cases o with
  | onSuccess R k result =>
    obtain ⟨-, rfl⟩ := hok
    cases hinfo : (exec (.onSuccess R k result) i w).1 with
    | none =>
      rw [hinfo] at h
      cases h
    | some info =>
      rw [hinfo] at h
      obtain ⟨r, hr, -, rfl, -⟩ := onSuccess_some hinfo
      cases h
      exact .inr ⟨r, hr, rfl⟩
  | getJob k =>
    cases hjob : (exec (.getJob k) i w).1 with
    | none =>
      rw [hjob] at h
      exact .inl h
    | some job =>
      rw [hjob] at h
      simp only [callMonitor] at h
      split_ifs at h
      exact .inl h
  | createJob n => cases h
  | _ => exact .inl h

namespace Sys

variable {cfg : Settings} {c c' : Sys} {e : Event} {a base : ℕ}

/-- The call of `on_complete` for attempt `a` is for the job of the attempt, and what it
    holds is the payload of this job. -/
def InCall (py : PyLib) (c : Sys) (a : ℕ) : Prop :=
  ∃ j m, (c.next? (.reader a) ≠ none → a ∈ c.shared.db.attemptIds j) ∧
    (c.prog (.reader a)).Follows (callMonitor py j) (fun _ _ => True) (fun _ _ => True) m ∧
    ∀ payload, m = .holding payload →
      ∃ r, c.shared.db.getJob j = some r ∧ r.nextDispatchPayload = payload

theorem InCall.same {py : PyLib} (h : c.InCall py a) (hdb : c'.shared.db = c.shared.db)
    (hp : c'.prog (.reader a) = c.prog (.reader a)) : c'.InCall py a := by
  unfold InCall Pool.next? at h ⊢
  rw [hdb, hp]
  exact h

/-- A step of another thread. -/
theorem InCall.other {py : PyLib} {t : Tid} {i : Inputs} (h : c.InCall py a)
    (hs : Pool.step exec c t i = some c') (ht : t ≠ .reader a) : c'.InCall py a := by
  obtain ⟨o, k, -, -, hshared, -, hother⟩ := Pool.step_cases hs
  obtain ⟨j, m, hj, hm, hpayload⟩ := h
  have hp : c'.prog (.reader a) = c.prog (.reader a) := hother _ (Ne.symm ht)
  refine ⟨j, m, ?_, ?_, ?_⟩
  · intro hn
    rw [hshared]
    apply mem_attemptIds_exec
    apply hj
    unfold Pool.next? at hn ⊢
    rwa [hp] at hn
  · rw [hp]
    exact hm
  · intro payload hhold
    obtain ⟨r, hr, hrow⟩ := hpayload payload hhold
    obtain ⟨r', hr', hrow'⟩ := payload_exec o i hr
    rw [hshared]
    exact ⟨r', hr', hrow'.trans hrow⟩

/-- An own step. -/
theorem InCall.self {py : PyLib} {i : Inputs} (h : c.InCall py a)
    (hs : Pool.step exec c (.reader a) i = some c') : c'.InCall py a := by
  obtain ⟨o, k, -, hn, hshared, -, -⟩ := Pool.step_cases hs
  obtain ⟨j, m, hj, hm, hpayload⟩ := h
  obtain ⟨hok, hm'⟩ := Pool.follows_step hs hn trivial hm
  refine ⟨j, _, ?_, hm', ?_⟩
  · intro _
    rw [hshared]
    exact mem_attemptIds_exec o i (hj (by rw [hn]; simp))
  · intro payload hhold
    have hrow : ∃ r, c.shared.db.getJob j = some r ∧ r.nextDispatchPayload = payload := by
      rcases holding_next hok hhold with rfl | hrow
      · exact hpayload payload rfl
      · exact hrow
    obtain ⟨r, hr, hrow⟩ := hrow
    obtain ⟨r', hr', hrow'⟩ := payload_exec o i hr
    rw [hshared]
    exact ⟨r', hr', hrow'.trans hrow⟩

theorem InCall.step (hpy : Reloads cfg.py) (h : c.InCall cfg.py a)
    (hworkers : ∀ w ∈ c.shared.workers, c.shared.Known base w.callback)
    (hs : Sys.step cfg c e = some c') : c'.InCall cfg.py a := by
  cases e with
  | run t i =>
    by_cases ht : t = .reader a
    · subst ht
      exact h.self hs
    · exact h.other hs ht
  | next =>
    obtain ⟨p, -, -, rfl⟩ := step_next hs
    exact h
  | exit b code result rl =>
    obtain ⟨w, hw, hb, rfl⟩ := step_exit hs
    by_cases hab : a = b
    · subst hab
      refine ⟨w.callback.jobId, .checking, fun _ => ?_, ?_, fun payload hhold => ?_⟩
      · exact hb ▸ (hworkers w hw).2
      · rw [Pool.load_prog_self]
        exact calls_onComplete hpy w.callback code result rl
      · cases hhold
    · exact h.same rfl (Pool.load_prog_of_ne _ _ (by simpa using hab))
  | invoke n cmd =>
    cases hs
    exact h
  | restart environ =>
    cases hs
    exact ⟨0, .done, fun hn => absurd rfl hn, trivial, fun _ hhold => by cases hhold⟩

/-- Along every run. -/
theorem inCall_of_run {db : Db} {environ : Environ} (hpy : Reloads cfg.py)
    (h : Runs cfg (fun _ _ => True) (boot db environ) c) (a : ℕ) : c.InCall cfg.py a := by
  let D := numberProof cfg db.attempts.seq fun _ _ => True
  have hboot : NumberInv db.attempts.seq (boot db environ).shared :=
    ⟨Db.numbered_self db, fun _ hk => by cases hk⟩
  have hinv : D.Good c ∧ c.InCall cfg.py a := by
    refine h.invariant (I := fun c => D.Good c ∧ c.InCall cfg.py a) ?_
      ⟨DaemonProof.good_boot hboot fun _ _ => trivial,
        0, .done, fun hn => absurd rfl hn, trivial, fun _ hhold => by cases hhold⟩
    intro c e c' hc _ he
    exact ⟨hc.1.step trivial he, hc.2.step hpy hc.1.inv.2 he⟩
  exact hinv.2

end Sys

end DiscordAgent
