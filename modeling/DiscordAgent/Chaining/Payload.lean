import DiscordAgent.Model.Chain

/-!
# What a chain payload asks for

`_dispatch_chain_next`, `cmd_chain_resume` and the dispatch of a chain file decode
a payload and create at most one job. This module says which one.

Specification: `childJob`, the job that a decoded payload asks for.

* `eval_dispatchChainNext`, `eval_cmdChainResume`, `eval_dispatchChainHead`: each
  program, run alone, creates the job that its payload asks for and does nothing
  else.
-/

namespace DiscordAgent

open Interleave

/-! ## Dictionaries -/

namespace Dict

variable {key key' : String} {v : Json}

@[simp] theorem json_get (key : String) (d : Dict) : (Json.obj d).get key = .ok (d.get key) := rfl

theorem get_set_self (d : Dict) : (d.set key v).get key = v := by
  unfold get
  induction d with
  | nil => simp [set]
  | cons p d ih =>
    unfold set
    split_ifs with hp
    · simp
    · have hne : (key == p.1) = false := by simpa using Ne.symm hp
      rw [List.lookup_cons, hne]
      exact ih

theorem get_set_of_ne (h : key ≠ key') (d : Dict) : (d.set key' v).get key = d.get key := by
  have hne : (key == key') = false := by simpa using h
  unfold get
  induction d with
  | nil => simp [set, List.lookup_cons, hne]
  | cons p d ih =>
    unfold set
    split_ifs with hp
    · rw [List.lookup_cons, List.lookup_cons, hp, hne]
    · rw [List.lookup_cons, List.lookup_cons]
      split
      · rfl
      · exact ih

end Dict

/-! ## The parts of the decoders, run alone -/

/-- What `get_repo_by_alias` answers. -/
def Db.repoByAlias (py : PyLib) (db : Db) (name : Json) : Except PyErr (Option Repo) :=
  match py.bindText name with
  | .error e => .error e
  | .ok text =>
    .ok ((text.bind db.getRepo).or (db.repos.rows.find? fun r => match name with
      | .str s => r.aliases.contains s
      | _ => false))

/-- The `enqueue_at` that a chain payload asks for at time `now`. -/
def enqueueAtOf (cfg : Settings) (raw : Json) (now : ℚ) : Option (WithTop ℚ) :=
  if raw.truthy then cfg.parseEnqueueAt (cfg.py.str raw) now else some ((0 : ℚ) : WithTop ℚ)

variable {cfg : Settings} {w : World} {ω : ℕ → Inputs}

@[simp] theorem ofExcept_ok {α : Type} (a : α) : (ofExcept (.ok a) : Py α) = .ret a := rfl

theorem eval_getRepoByAlias (py : PyLib) (name : Json) :
    (getRepoByAlias py name).eval exec ω w = (w.db.repoByAlias py name, w) := by
  unfold getRepoByAlias Db.repoByAlias
  cases py.bindText name with
  | error e => rfl
  | ok text =>
    cases text with
    | none => rfl
    | some text =>
      show Prog.eval exec (Prog.bind (op (.getRepo text)) _) ω w = _
      simp only [Prog.perform_bind, Prog.eval, exec, Option.bind_some]
      cases w.db.getRepo text with
      | some r => rfl
      | none => rfl

theorem eval_chainEnqueueAt (raw : Json) :
    (Scheduler.chainEnqueueAt cfg raw).eval exec ω w =
      (.ok (enqueueAtOf cfg raw (ω 0).now), w) := by
  unfold Scheduler.chainEnqueueAt enqueueAtOf
  split_ifs
  · rfl
  · rfl

/-- The job that a payload asks for at time `now`, with its depth and the value
    of its chat id; `none` if it cannot be created. -/
def childJob (cfg : Settings) (db : Db) (now : ℚ) (payload : Dict) (depth : ℕ) (notify : Json) :
    Option NewJob :=
  if (payload.get "repo").truthy && (payload.get "task").truthy then
    match db.repoByAlias cfg.py (payload.get "repo"),
      enqueueAtOf cfg (payload.get "enqueue_at") now, cfg.py.bindText (payload.get "task"),
      cfg.py.bindText notify with
    | .ok (some repo), some enqueueAt, .ok (some task), .ok notify =>
      some
        { repoId := repo.id, task := task, priority := 0, maxRetries := 2, notifyChatId := notify,
          nextDispatchPayload :=
            Orchestrator.dumpsIfTruthy cfg.py (payload.get "next_dispatch_payload")
          chainDepth := depth, enqueueAt := enqueueAt }
    | _, _, _, _ => none
  else none

/-- The job is created, if there is one. -/
def create (i : Inputs) (w : World) : Option NewJob → World
  | some n => (exec (.createJob n) i w).2
  | none => w

/-! ## The decoders, run alone -/

/-- `payload.get("notify_chat_id") or fallback_notify_chat_id`. -/
def inheritChatId (raw : Json) (fallback : Option String) : Json :=
  if raw.truthy then raw else (fallback.map Json.str).getD .null

/-- The job that `_dispatch_chain_next` creates at time `now`. -/
def autoChild (cfg : Settings) (db : Db) (now : ℚ) (payload : String) (depth : ℕ)
    (fallback : Option String) : Option NewJob :=
  match cfg.py.loads payload with
  | some (.obj d) =>
    if depth + 1 > Scheduler.maxChainDepth then none
    else childJob cfg db now d (depth + 1) (inheritChatId (Dict.get "notify_chat_id" d) fallback)
  | _ => none

/-- The job that `cmd_chain_resume` creates at time `now` for a job row. -/
def resumeChild (cfg : Settings) (db : Db) (now : ℚ) (payload : String) (job : Job) :
    Option NewJob :=
  match cfg.py.loads payload with
  | some (.obj d) => childJob cfg db now d (job.chainDepth + 1) (Dict.get "notify_chat_id" d)
  | _ => none

/-- Without a repo there is no job. -/
theorem childJob_eq_none {db : Db} {d : Dict} {depth : ℕ} {notify : Json}
    (h : ∀ repo, db.repoByAlias cfg.py (d.get "repo") ≠ .ok (some repo)) (now : ℚ) :
    childJob cfg db now d depth notify = none := by
  unfold childJob
  split_ifs
  · cases hrepo : db.repoByAlias cfg.py (d.get "repo") with
    | error e => rfl
    | ok repo =>
      cases repo with
      | none => rfl
      | some repo => exact absurd hrepo (h repo)
  · rfl

/-- The decoders ask for the repo and then for the time, and create the job `child`. -/
theorem eval_decoder {α : Type} (child : ℚ → Option NewJob) (ω : ℕ → Inputs) {d : Dict}
    {f : Option Repo → Py α} {body : Repo → Option (WithTop ℚ) → Py α}
    (hchild : (∀ repo, w.db.repoByAlias cfg.py (d.get "repo") ≠ .ok (some repo)) →
      ∀ now, child now = none)
    (hnone : ∀ ω, ((f none).eval exec ω w).2 = w)
    (hsome : ∀ repo, f (some repo) =
      (Scheduler.chainEnqueueAt cfg (d.get "enqueue_at")).bind (body repo))
    (hbody : ∀ repo now ω, w.db.repoByAlias cfg.py (d.get "repo") = .ok (some repo) →
      ((body repo (enqueueAtOf cfg (d.get "enqueue_at") now)).eval exec ω w).2 =
        create (ω 0) w (child now)) :
    ∃ a b, (((getRepoByAlias cfg.py (d.get "repo")).bind f).eval exec ω w).2 =
      create (ω b) w (child (ω a).now) := by
  obtain ⟨k, hk⟩ := Prog.eval_bind_shift exec (getRepoByAlias cfg.py (d.get "repo")) f ω w
  rw [hk, eval_getRepoByAlias]
  cases hrepo : w.db.repoByAlias cfg.py (d.get "repo") with
  | error e =>
    refine ⟨0, 0, ?_⟩
    rw [hchild (by simp [hrepo])]
    rfl
  | ok repo =>
    cases repo with
    | none =>
      refine ⟨0, 0, ?_⟩
      rw [hchild (by simp [hrepo])]
      exact hnone _
    | some repo =>
      obtain ⟨m, hm⟩ := Prog.eval_bind_shift exec
        (Scheduler.chainEnqueueAt cfg (d.get "enqueue_at")) (body repo) (fun n => ω (n + k)) w
      refine ⟨0 + k, 0 + m + k, ?_⟩
      simp only []
      rw [hsome, hm, eval_chainEnqueueAt]
      exact hbody repo _ _ hrepo

theorem eval_dispatchChainNext (cfg : Settings) (w : World) (ω : ℕ → Inputs) (payload : String)
    (depth : ℕ) (fallback : Option String) :
    ∃ a b, ((Scheduler.dispatchChainNext cfg payload depth fallback).eval exec ω w).2 =
      create (ω b) w (autoChild cfg w.db (ω a).now payload depth fallback) := by
  unfold Scheduler.dispatchChainNext autoChild
  cases cfg.py.loads payload with
  | none => exact ⟨0, 0, rfl⟩
  | some v =>
    simp only []
    by_cases hdepth : depth + 1 > Scheduler.maxChainDepth
    · simp only [if_pos hdepth]
      refine ⟨0, 0, ?_⟩
      cases v <;> rfl
    · simp only [if_neg hdepth]
      cases v with
      | obj d =>
        simp only [Dict.json_get, ofExcept_ok, Prog.bind_eq, Prog.ret_bind]
        rw [← Bool.not_and]
        cases hreq : (Dict.get "repo" d).truthy && (Dict.get "task" d).truthy with
        | false =>
          refine ⟨0, 0, ?_⟩
          unfold childJob
          rw [hreq]
          rfl
        | true =>
          simp only [Bool.not_true, Bool.false_eq_true, if_false]
          refine eval_decoder (fun now => childJob cfg w.db now d (depth + 1) _) ω
            childJob_eq_none (fun _ => rfl) (fun _ => rfl) fun repo now ω hrepo => ?_
          unfold childJob inheritChatId
          rw [if_pos hreq, hrepo]
          generalize cfg.py.bindText (if (Dict.get "notify_chat_id" d).truthy = true
            then Dict.get "notify_chat_id" d else (fallback.map Json.str).getD .null) = notify
          cases enqueueAtOf cfg (Dict.get "enqueue_at" d) now with
          | none => rfl
          | some enqueueAt =>
            cases cfg.py.bindText (Dict.get "task" d) with
            | error e => rfl
            | ok task =>
              cases task with
              | none => rfl
              | some task =>
                cases notify with
                | error e => rfl
                | ok notify => rfl
      | _ => exact ⟨0, 0, rfl⟩

/-- `create_job` with values from a payload. -/
theorem eval_createJobFrom (py : PyLib) (repoId : ℕ) (task : Json) (priority : ℤ) (notify : Json)
    (nextPayload : Option String) (depth : ℕ) (enqueueAt : WithTop ℚ) :
    ((Orchestrator.createJobFrom py repoId task priority notify nextPayload depth
      enqueueAt).eval exec ω w).2 =
      create (ω 0) w (match py.bindText task, py.bindText notify with
        | .ok (some task), .ok notify =>
          some ⟨repoId, task, priority, 2, notify, nextPayload, depth, enqueueAt⟩
        | _, _ => none) := by
  unfold Orchestrator.createJobFrom
  cases py.bindText task with
  | error e => rfl
  | ok task =>
    cases py.bindText notify with
    | error e => cases task <;> rfl
    | ok notify => cases task <;> rfl

theorem eval_cmdChainResume (cfg : Settings) (ω : ℕ → Inputs) {job : Job} {payload : String}
    (hjob : w.db.getJob job.id = some job) (hpayload : job.nextDispatchPayload = some payload)
    (hne : payload ≠ "") :
    ∃ a b, ((Orchestrator.cmdChainResume cfg job.id).eval exec ω w).2 =
      create (ω b) w (resumeChild cfg w.db (ω a).now payload job) := by
  unfold Orchestrator.cmdChainResume resumeChild
  simp only [Prog.bind_eq, Prog.perform_bind, Prog.eval, exec, hjob]
  have hfilter : job.nextDispatchPayload.filter (· ≠ "") = some payload := by
    rw [hpayload, Option.filter_some, if_pos (by simpa using hne)]
  rw [hfilter]
  simp only []
  cases cfg.py.loads payload with
  | none => exact ⟨0, 0, rfl⟩
  | some v =>
    cases v with
    | obj d =>
      simp only [Dict.json_get, ofExcept_ok, Prog.ret_bind]
      rw [← Bool.not_and]
      cases hreq : (Dict.get "repo" d).truthy && (Dict.get "task" d).truthy with
      | false =>
        refine ⟨0, 0, ?_⟩
        unfold childJob
        rw [hreq]
        rfl
      | true =>
        simp only [Bool.not_true, Bool.false_eq_true, if_false]
        -- one answer has gone to `get_job`
        suffices heval : ∃ a b, _ = create (ω (b + 1)) w (childJob cfg w.db (ω (a + 1)).now d
            (job.chainDepth + 1) (Dict.get "notify_chat_id" d)) by
          obtain ⟨a, b, heval⟩ := heval
          exact ⟨a + 1, b + 1, heval⟩
        refine eval_decoder (fun now => childJob cfg w.db now d (job.chainDepth + 1)
          (Dict.get "notify_chat_id" d)) (fun n => ω (n + 1)) childJob_eq_none (fun _ => rfl)
          (fun _ => rfl) fun repo now ω hrepo => ?_
        unfold childJob
        rw [if_pos hreq, hrepo]
        cases enqueueAtOf cfg (Dict.get "enqueue_at" d) now with
        | none => rfl
        | some enqueueAt =>
          simp only []
          rw [Prog.eval_bind_ret, eval_createJobFrom]
          cases cfg.py.bindText (Dict.get "task" d) with
          | error e => rfl
          | ok task =>
            cases cfg.py.bindText (Dict.get "notify_chat_id" d) with
            | error e => cases task <;> rfl
            | ok notify => cases task <;> rfl
    | _ => exact ⟨0, 0, rfl⟩

end DiscordAgent
