import DiscordAgent.Chaining.Payload
import DiscordAgent.System.Basic

/-!
# Manual resume and automatic chaining

`cmd_chain_resume` repeats the decoder of `_dispatch_chain_next` in another
file. It leaves out the check against `MAX_CHAIN_DEPTH` and the fallback to the
chat id of the parent.

Results:
* `resume_agrees_iff`: when the two create the same child, for every payload,
  registry and time.
* `resume_disagrees`: at the depth limit only the manual path creates a job, and
  a payload without a chat id loses the one of the parent.
-/

namespace DiscordAgent

open Interleave

/-- The columns of a chain job. -/
structure ChainFields where
  repoId : ℕ
  task : String
  notifyChatId : Option String
  nextDispatchPayload : Option String
  chainDepth : ℕ
  enqueueAt : WithTop ℚ
  deriving DecidableEq

/-- The columns of a row. -/
def Job.chainFields (j : Job) : ChainFields :=
  ⟨j.repoId, j.task, j.notifyChatId, j.nextDispatchPayload, j.chainDepth, j.enqueueAt⟩

/-- The job that was created between `w` and `w'`. -/
def World.newJob (w w' : World) : Option Job := w'.db.getJob (w.db.jobs.seq + 1)

/-- From `w` both programs create no job, or both one with the same columns. -/
def SameChild (w : World) (i : Inputs) {α β : Type} (p : Py α) (q : Py β) : Prop :=
  (w.newJob (p.eval exec (fun _ => i) w).2).map Job.chainFields =
    (w.newJob (q.eval exec (fun _ => i) w).2).map Job.chainFields

/-- The payload names a job that can be created, but for its chat id. -/
structure Names (cfg : Settings) (db : Db) (now : ℚ) (d : Dict) : Prop where
  repoKey : (d.get "repo").truthy = true
  taskKey : (d.get "task").truthy = true
  repo : ∃ r, db.repoByAlias cfg.py (d.get "repo") = .ok (some r)
  enqueueAt : ∃ t, enqueueAtOf cfg (d.get "enqueue_at") now = some t
  task : ∃ text, cfg.py.bindText (d.get "task") = .ok (some text)

variable {cfg : Settings} {w : World} {i : Inputs} {db : Db} {now : ℚ} {d : Dict}

theorem newJob_create (w : World) (i : Inputs) (n : Option NewJob) :
    w.newJob (create i w n) = n.map fun n => n.row i.now (w.db.jobs.seq + 1) := by
  cases n with
  | none => exact Sql.Table.get?_eq_none_of_lt (Nat.lt_succ_self _)
  | some n =>
    have hget : (create i w (some n)).db.getJob (w.db.jobs.seq + 1) =
        if w.db.jobs.seq + 1 = w.db.jobs.seq + 1 then some (n.row i.now (w.db.jobs.seq + 1))
        else w.db.getJob (w.db.jobs.seq + 1) := Sql.Table.get?_insert (h := fun _ => rfl)
    rw [if_pos rfl] at hget
    exact hget

/-- A payload that names a job creates it if its chat id can be stored. -/
theorem Names.childJob (h : Names cfg db now d) : ∃ (repo : Repo) (task : String) (t : WithTop ℚ),
    ∀ depth notify, childJob cfg db now d depth notify =
      match cfg.py.bindText notify with
      | .ok chat => some ⟨repo.id, task, 0, 2, chat, Orchestrator.dumpsIfTruthy cfg.py
          (d.get "next_dispatch_payload"), depth, t⟩
      | .error _ => none := by
  obtain ⟨repo, hrepo⟩ := h.repo
  obtain ⟨t, ht⟩ := h.enqueueAt
  obtain ⟨task, htask⟩ := h.task
  refine ⟨repo, task, t, ?_⟩
  intro depth notify
  unfold DiscordAgent.childJob
  rw [h.repoKey, h.taskKey, hrepo, ht, htask]
  cases cfg.py.bindText notify with
  | error e => rfl
  | ok chat => rfl

/-- What is created is named. -/
theorem names_of_childJob {depth : ℕ} {notify : Json} {n : NewJob}
    (h : childJob cfg db now d depth notify = some n) : Names cfg db now d := by
  unfold childJob at h
  split_ifs at h with hkeys
  obtain ⟨hrepo, htask⟩ := (Bool.and_eq_true _ _).mp hkeys
  split at h
  · next repo t task chat hr ht hb _ => exact ⟨hrepo, htask, ⟨repo, hr⟩, ⟨t, ht⟩, ⟨task, hb⟩⟩
  · cases h

theorem childJob_of_not_names (h : ¬ Names cfg db now d) (depth : ℕ) (notify : Json) :
    childJob cfg db now d depth notify = none := by
  cases hc : childJob cfg db now d depth notify with
  | none => rfl
  | some n => exact absurd (names_of_childJob hc) h

/-- What is inherited from a parent can be stored. -/
theorem bindText_inheritChatId (py : PyLib) {raw : Json} (h : raw.truthy = false)
    (fallback : Option String) : py.bindText (inheritChatId raw fallback) = .ok fallback := by
  unfold inheritChatId
  rw [h, if_neg (by decide)]
  cases fallback with
  | none => exact py.bindText_null
  | some text => exact py.bindText_str text

/-- What the depth and the chat id of a payload make of the two paths. -/
def Unaffected (cfg : Settings) (job : Job) (chat : Json) : Prop :=
  match cfg.py.bindText chat with
  | .ok text =>
    job.chainDepth < Scheduler.maxChainDepth ∧ (chat.truthy = true ∨ text = job.notifyChatId)
  | .error _ => chat.truthy = true ∨ Scheduler.maxChainDepth ≤ job.chainDepth

/-- The two programs in terms of the jobs that they create. -/
theorem sameChild_iff {job : Job} {payload : String} (hjob : w.db.getJob job.id = some job)
    (hpayload : job.nextDispatchPayload = some payload) (hne : payload ≠ "") :
    SameChild w i (Orchestrator.cmdChainResume cfg job.id)
        (Scheduler.dispatchChainNext cfg payload job.chainDepth job.notifyChatId) ↔
      (resumeChild cfg w.db i.now payload job).map (fun n => (n.row 0 0).chainFields) =
        (autoChild cfg w.db i.now payload job.chainDepth job.notifyChatId).map
          fun n => (n.row 0 0).chainFields := by
  obtain ⟨a, b, hr⟩ := eval_cmdChainResume cfg (fun _ => i) hjob hpayload hne
  obtain ⟨a', b', ha⟩ := eval_dispatchChainNext cfg w (fun _ => i) payload
    job.chainDepth job.notifyChatId
  unfold SameChild
  rw [hr, ha, newJob_create, newJob_create, Option.map_map, Option.map_map]
  exact Iff.rfl

/-- A payload that names a job. -/
theorem named_agrees_iff (h : Names cfg db now d) (job : Job) :
    (childJob cfg db now d (job.chainDepth + 1) (d.get "notify_chat_id")).map
        (fun n => (n.row 0 0).chainFields) =
      (if job.chainDepth + 1 > Scheduler.maxChainDepth then none
        else childJob cfg db now d (job.chainDepth + 1)
          (inheritChatId (d.get "notify_chat_id") job.notifyChatId)).map
        (fun n => (n.row 0 0).chainFields) ↔
      Unaffected cfg job (d.get "notify_chat_id") := by
  obtain ⟨repo, task, t, hchild⟩ := h.childJob
  unfold Unaffected
  rw [hchild, hchild]
  cases hchat : (d.get "notify_chat_id").truthy with
  | true =>
    -- both paths take the chat id of the payload
    have hsame : inheritChatId (d.get "notify_chat_id") job.notifyChatId =
        d.get "notify_chat_id" := by
      rw [inheritChatId, if_pos hchat]
    rw [hsame]
    cases cfg.py.bindText (d.get "notify_chat_id") with
    | error e => split_ifs <;> simp
    | ok text =>
      split_ifs with hdepth
      · simp
        omega
      · simp
        omega
  | false =>
    rw [bindText_inheritChatId _ hchat]
    cases cfg.py.bindText (d.get "notify_chat_id") with
    | error e =>
      split_ifs with hdepth
      · simp
        omega
      · simp
        omega
    | ok text =>
      split_ifs with hdepth
      · simp
        omega
      · simp [NewJob.row, Job.chainFields]
        omega

theorem resume_agrees_iff (cfg : Settings) (w : World) (i : Inputs) (job : Job) (payload : String)
    (hjob : w.db.getJob job.id = some job) (hpayload : job.nextDispatchPayload = some payload)
    (hne : payload ≠ "") :
    SameChild w i (Orchestrator.cmdChainResume cfg job.id)
        (Scheduler.dispatchChainNext cfg payload job.chainDepth job.notifyChatId) ↔
      ∀ d, cfg.py.loads payload = some (.obj d) → Names cfg w.db i.now d →
        Unaffected cfg job (Dict.get "notify_chat_id" d) := by
  rw [sameChild_iff hjob hpayload hne]
  unfold resumeChild autoChild
  cases cfg.py.loads payload with
  | none => simp
  | some v =>
    cases v with
    | obj d =>
      by_cases hn : Names cfg w.db i.now d
      · rw [named_agrees_iff hn job]
        constructor
        · intro h d' hd' _
          cases hd'
          exact h
        · intro h
          exact h d rfl hn
      · simp only []
        rw [childJob_of_not_names hn, childJob_of_not_names hn]
        constructor
        · intro _ d' hd' hn'
          cases hd'
          exact absurd hn' hn
        · intro _
          split_ifs <;> rfl
    | _ => simp

/-! ## Two parents -/

/-- The text of a payload. -/
def payloadText : String := "\x7b\"repo\": \"app\", \"task\": \"go\"\x7d"

/-- A configuration whose `json.loads` decodes `payloadText` to `d`. -/
def decoding (d : Dict) : Settings :=
  { Settings.plain with
    py := { Settings.plain.py with
      loads := fun s => if s = payloadText then some (.obj d) else none } }

/-- The payload without a chat id and with one. -/
def barePayload : Dict := [("repo", .str "app"), ("task", .str "go")]
def ownPayload : Dict := barePayload ++ [("notify_chat_id", .str "7")]

/-- A repo and a job of depth `depth` with chat id 42 and a payload. -/
def parentWorld (depth : ℕ) : World :=
  (Sys.boot (((default : Db).createRepo Sys.oneRepo 0).2.createJob
    { Sys.oneJob with nextDispatchPayload := some payloadText, chainDepth := depth } 0).2
    fun _ => none).shared

/-- The row of that job. -/
def parentJob (depth : ℕ) : Job :=
  NewJob.row { Sys.oneJob with nextDispatchPayload := some payloadText, chainDepth := depth } 0 1

theorem resume_agrees_own : SameChild (parentWorld 0) {}
    (Orchestrator.cmdChainResume (decoding ownPayload) 1)
    (Scheduler.dispatchChainNext (decoding ownPayload) payloadText 0 (some "42")) := by
  apply (resume_agrees_iff (decoding ownPayload) (parentWorld 0) {} (parentJob 0) payloadText rfl
    rfl (by decide)).mpr
  intro d hd _
  obtain rfl : d = ownPayload := (Json.obj.inj (Option.some.inj hd)).symm
  exact ⟨by decide, .inl rfl⟩

instance (w : World) (i : Inputs) {α β : Type} (p : Py α) (q : Py β) :
    Decidable (SameChild w i p q) := inferInstanceAs (Decidable (_ = _))

theorem resume_disagrees :
    -- the chat id of the parent is lost
    ((parentWorld 0).db.getJob 1 = some (parentJob 0) ∧
      ¬ SameChild (parentWorld 0) {} (Orchestrator.cmdChainResume (decoding barePayload) 1)
        (Scheduler.dispatchChainNext (decoding barePayload) payloadText 0 (some "42"))) ∧
    -- the depth limit is ignored
    ((parentWorld 50).db.getJob 1 = some (parentJob 50) ∧
      ¬ SameChild (parentWorld 50) {} (Orchestrator.cmdChainResume (decoding ownPayload) 1)
        (Scheduler.dispatchChainNext (decoding ownPayload) payloadText 50 (some "42"))) := by
  refine ⟨⟨rfl, ?_⟩, rfl, ?_⟩
  · decide +kernel
  · decide +kernel

end DiscordAgent
