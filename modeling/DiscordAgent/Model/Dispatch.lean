import DiscordAgent.Model.Registry
import DiscordAgent.Model.Timeparse

/-!
# Dispatching a task

`_enqueue_job` and `cmd_dispatch` of `orchestrator.py`. The mode `--chain-file` is
`cmdDispatchChainFile`. Of what is printed only the time of a scheduled job is here,
as formatting it can raise; whether the daemon runs decides on the texts only.

An exception of `lib/timeparse.py` that leaves the command is a value.
-/

namespace DiscordAgent

open Interleave

namespace Orchestrator

/-- The arguments of `dispatch`. -/
structure DispatchArgs where
  repo : Option String := none
  task : Option String := none
  priority : ℤ := 0
  notifyChatId : Option String := none
  enqueueAt : Option String := none

/-- `_enqueue_job` (lines 198–227). -/
def enqueueJob (lib : TimeLib) (repo : Repo) (task : String) (priority : ℤ)
    (notifyChatId : Option String) (enqueueAt : WithTop ℚ) : Py (Except TimeError ℕ) := do
  let jobId ← op (.createJob
    { repoId := repo.id, task := task, priority := priority, maxRetries := 2,
      notifyChatId := notifyChatId, nextDispatchPayload := none, chainDepth := 0,
      enqueueAt := enqueueAt })
  let now ← op .time
  .ret (if (now : WithTop ℚ) < enqueueAt then
      (Timeparse.formatEnqueueAt lib enqueueAt).map fun _ => jobId
    else .ok jobId)

/-- `idempotency_hint` (lines 271–277). -/
def idempotencyHint : String :=
  "冪等性: 同じ task name の branch (chore/foo-X) が既に存在する場合は" ++
  " git pull で取得して reuse、commit を amend or 追加。新規 branch を作らない。" ++
  " push --force-with-lease 可。\n" ++
  "PR が既に open 状態なら新規 PR を作らず既存に push。close されたものは新規 OK。\n" ++
  "---\n"

/-- `enqueue_at` (lines 262–269). -/
def DispatchArgs.enqueueTime (lib : TimeLib) (args : DispatchArgs) :
    Py (Except TimeError (WithTop ℚ)) :=
  match args.enqueueAt.filter (· ≠ "") with
  | none => .ret (.ok (0 : ℚ))
  | some expr => do
    let now ← op .time
    .ret (Timeparse.parseEnqueueAt lib expr now)

/-- `cmd_dispatch` (lines 230–288) without `--chain-file`; `chatIdEnv` is the
    variable `DISCORD_NOTIFY_CHAT_ID`. -/
def cmdDispatch (py : PyLib) (lib : TimeLib) (chatIdEnv : Option String) (args : DispatchArgs) :
    Py (Except TimeError ℕ) :=
  match args.repo.filter (· ≠ ""), args.task.filter (· ≠ "") with
  | some repoName, some task => do
    match ← Registry.resolve py repoName with
    | .error _ => .ret (.ok 1)
    | .ok repo =>
      let notifyChatId := (args.notifyChatId.filter (· ≠ "")).or (chatIdEnv.filter (· ≠ ""))
      match ← args.enqueueTime lib with
      | .error .valueError => .ret (.ok 1)
      | .error e => .ret (.error e)
      | .ok enqueueAt =>
        match ← enqueueJob lib repo (idempotencyHint ++ task) args.priority notifyChatId
          enqueueAt with
        | .error e => .ret (.error e)
        | .ok _ => .ret (.ok 0)
  | _, _ => .ret (.ok 1)

end Orchestrator

end DiscordAgent
