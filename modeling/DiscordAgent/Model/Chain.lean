import DiscordAgent.Model.Scheduler

/-!
# Chain files and manual resume

`_build_chain_payload`, `_cmd_dispatch_chain_file` and `cmd_chain_resume` of
`orchestrator.py`. The programs return the exit code of the command; what they
print is left out. `registry.resolve` is `get_repo_by_alias` with an exception
for a missing repo.
-/

namespace DiscordAgent

open Interleave

/-- A Python `dict` with string keys, in insertion order. -/
abbrev Dict := List (String × Json)

namespace Dict

/-- `d.get(key)`. -/
def get (key : String) (d : Dict) : Json := (d.lookup key).getD .null

/-- `d[key] = v`: a key that is there keeps its place. -/
def set (key : String) (v : Json) : Dict → Dict
  | [] => [(key, v)]
  | p :: d => if p.1 = key then (key, v) :: d else p :: set key v d

end Dict

namespace Orchestrator

/-- `_build_chain_payload` (lines 291–301). -/
def buildChainPayload : List Dict → Option Dict
  | [] => none
  | [entry] => some (entry.set "next_dispatch_payload" .null)
  | entry :: entries =>
    some (entry.set "next_dispatch_payload" (((buildChainPayload entries).map Json.obj).getD .null))

/-- The loop body of lines 329–331: an entry without `notify_chat_id` gets the
    fallback. `entry.get` raises unless the entry is a dict. -/
def fillChatId (fallback : Option String) : Json → Except PyErr Dict
  | .obj entry =>
    .ok (if (Dict.get "notify_chat_id" entry).truthy then entry
      else Dict.set "notify_chat_id" ((fallback.map Json.str).getD .null) entry)
  | _ => .error .attributeError

/-- `json.dumps(next_payload) if next_payload else None`. -/
def dumpsIfTruthy (py : PyLib) (v : Json) : Option String :=
  if v.truthy then some (py.dumps v) else none

/-- `db.create_job(...)` with a task and a chat id from a JSON value. Binding a
    value that SQLite does not support, or no task, raises. -/
def createJobFrom (py : PyLib) (repoId : ℕ) (task : Json) (priority : ℤ) (notify : Json)
    (nextPayload : Option String) (chainDepth : ℕ) (enqueueAt : WithTop ℚ) : Py ℕ := do
  let task ← ofExcept (py.bindText task)
  let notify ← ofExcept (py.bindText notify)
  match task with
  | none => .raise .sqliteError
  | some task =>
    op (.createJob
      { repoId := repoId, task := task, priority := priority, maxRetries := 2,
        notifyChatId := notify, nextDispatchPayload := nextPayload,
        chainDepth := chainDepth, enqueueAt := enqueueAt })

/-- The part of `_cmd_dispatch_chain_file` after the fallback has been applied
    (lines 333–391). -/
def dispatchChainHead (cfg : Settings) (priority : ℤ) (entries : List Dict) : Py ℕ :=
  match buildChainPayload entries with
  | none => .ret 1
  | some chainHead => do
    let firstRepoName := chainHead.get "repo"
    let firstTask := chainHead.get "task"
    if !firstRepoName.truthy || !firstTask.truthy then .ret 1
    else
      match ← getRepoByAlias cfg.py firstRepoName with
      | none => .ret 1
      | some repo =>
        let nextPayload := dumpsIfTruthy cfg.py (chainHead.get "next_dispatch_payload")
        match ← Scheduler.chainEnqueueAt cfg (chainHead.get "enqueue_at") with
        | none => .ret 1
        | some enqueueAt =>
          let _ ← createJobFrom cfg.py repo.id firstTask priority (chainHead.get "notify_chat_id")
            nextPayload 0 enqueueAt
          .ret 0

/-- `_cmd_dispatch_chain_file` (lines 304–391). `file` is what reading the chain
    file gives, `fallback` is `args.notify_chat_id or` the environment variable. -/
def cmdDispatchChainFile (cfg : Settings) (file : Except PyErr String) (priority : ℤ)
    (fallback : Option String) : Py ℕ :=
  match file with
  | .error .osError => .ret 1
  | .error e => .raise e
  | .ok raw =>
    match cfg.py.loads raw with
    | some (.arr (entry :: entries)) => do
      let entries ← ofExcept ((entry :: entries).mapM (fillChatId fallback))
      dispatchChainHead cfg priority entries
    -- no JSON, no array, or an empty one
    | _ => .ret 1

/-- `cmd_chain_resume` (lines 480–552). -/
def cmdChainResume (cfg : Settings) (jobId : ℕ) : Py ℕ := do
  match ← op (.getJob jobId) with
  | none => .ret 1
  | some job =>
    match job.nextDispatchPayload.filter (· ≠ "") with
    | none => .ret 1
    | some payloadStr =>
      match cfg.py.loads payloadStr with
      | none => .ret 1
      | some payload =>
        let repoName ← ofExcept (payload.get "repo")
        let task ← ofExcept (payload.get "task")
        let notify ← ofExcept (payload.get "notify_chat_id")
        let nextNext ← ofExcept (payload.get "next_dispatch_payload")
        if !repoName.truthy || !task.truthy then .ret 1
        else
          match ← getRepoByAlias cfg.py repoName with
          | none => .ret 1
          | some repo =>
            let raw ← ofExcept (payload.get "enqueue_at")
            match ← Scheduler.chainEnqueueAt cfg raw with
            | none => .ret 1
            | some enqueueAt =>
              let _ ← createJobFrom cfg.py repo.id task 0 notify (dumpsIfTruthy cfg.py nextNext)
                (job.chainDepth + 1) enqueueAt
              .ret 0

end Orchestrator

end DiscordAgent
