import DiscordAgent.Model.Scheduler

/-!
# Supervisor

The delivery state machine of `lib/supervisor.py` and `notify_discord_result`
of `lib/notifier.py` as a program. The POST is two operations, because other
processes can act between the request and its outcome.
-/

namespace DiscordAgent

open Interleave

namespace Supervisor

/-- `notify_discord_result` (`lib/notifier.py` lines 122–163). The job is only
    named for the journal. -/
def notifyDiscordResult (jobId : ℕ) (chatId text : String) : Py NotifyResult := do
  match (← op .loadToken).filter (· ≠ "") with
  | none => .ret NotifyResult.noToken
  | some _ =>
    op (.postBegin jobId chatId text)
    op (.postEnd jobId)

/-- The message of `_attempt_fallback_notify` (lines 219–230). -/
def fallbackText (cfg : Settings) (job : Job) : String :=
  let jobId := job.id
  let state := job.state.text
  let preview := if cfg.fallbackResultPreview then cfg.redactResultPreview (job.result.getD "")
    else ""
  let parts := [s!"⚠️ (自動配送) **Job {jobId}** → `{state}`",
    "Controller 無応答のため daemon が直接通知しました。"]
  "\n".intercalate (if preview = "" then parts else parts ++ [s!"Result: {preview}"])

/-- `_attempt_fallback_notify` (lines 209–245). -/
def attemptFallbackNotify (cfg : Settings) (job : Job) : Py Unit := do
  match job.notifyChatId.filter (· ≠ "") with
  | none => op (.setUndeliverable job.id)
  | some chatId =>
    let result ← notifyDiscordResult job.id chatId (fallbackText cfg job)
    if result.success then do
      let _ ← op (.markReported .supervisor job.id)
      .ret ()
    else if result.permanent then op (.setUndeliverable job.id)
    else .ret ()

/-- `_claim_and_fallback` (lines 199–207). -/
def claimAndFallback (cfg : Settings) (job : Job) : Py Unit := do
  if ← op (.claimForFallback job.id) then
    let fresh ← op (.getJob job.id)
    attemptFallbackNotify cfg (fresh.getD job)
  else .ret ()

/-- `re.match(r"^%\d+$", pane)` on a stripped text. -/
def isPaneId (pane : String) : Bool :=
  match pane.toList with
  | '%' :: ds => !ds.isEmpty && ds.all Py.isDigit
  | _ => false

/-- `_load_pane` (lines 249–258). -/
def loadPane : Py (Option String) := do
  match ← op .readPaneFile with
  | .ok text => .ret (some (Py.strip text) |>.filter fun pane => isPaneId pane)
  | .error .osError => .ret none
  | .error e => .raise e

/-- `_pane_exists` (lines 260–272). -/
def paneExists (pane : String) : Py Bool := do
  match ← op (.tmux .listPanes) with
  | .ok stdout => .ret ((Py.splitWords stdout).contains pane)
  | .raised _ => .ret false

/-- `IDLE_PROMPT_PATTERNS`: `^claude>\s*$` on a stripped line. -/
def isIdlePrompt (line : String) : Bool :=
  let prompt := "claude>".toList
  prompt.isPrefixOf line.toList && (line.toList.drop prompt.length).all Py.isSpace

/-- `_is_pane_busy` (lines 274–312). -/
def isPaneBusy (pane : String) : Py Bool := do
  match ← op (.tmux (.displayMode pane)) with
  | .raised _ => .ret true
  | .ok mode =>
    if Py.strip mode ≠ "0" then .ret true
    else
      match ← op (.tmux (.capturePane pane)) with
      | .raised _ => .ret true
      | .ok stdout =>
        let lines := ((Py.splitLines stdout).map Py.strip).filter (· ≠ "")
        .ret (lines.getLast?.all fun line => !isIdlePrompt line)

/-- The wake text of `_try_wake` (lines 160–172). -/
def wakeText (job : Job) (repoName : String) : String :=
  let jobId := job.id
  let state := job.state.text
  let chatId := job.notifyChatId.getD ""
  s!"[discord-agent] Job {jobId} -> {state}. " ++
    s!"collect {repoName} --job-id {jobId} --json ; " ++
    s!"reply to chat_id {chatId} ; " ++ s!"then report-done {jobId}"

/-- The two `send-keys` commands and their bookkeeping (lines 174–197). -/
def sendWake (job : Job) (pane repoName : String) : Py Bool :=
  Prog.tryCatch
    (do
      match ← op (.tmux (.sendText pane job.id (wakeText job repoName))) with
      | .raised e => .raise e
      | .ok _ =>
        match ← op (.tmux (.sendEnter pane)) with
        | .raised e => .raise e
        | .ok _ =>
          op (.incrWakeAttempts job.id)
          op (.markWoken job.id)
          .ret true)
    fun e => if e = .calledProcessError ∨ e = .timeoutExpired then .ret false else .raise e

/-- `_try_wake` (lines 129–197). -/
def tryWake (cfg : Settings) (job : Job) : Py Bool := do
  if !cfg.autoWake then .ret false
  else
    match ← loadPane with
    | none =>
      claimAndFallback cfg job
      .ret false
    | some pane =>
      if !(← paneExists pane) then
        claimAndFallback cfg job
        .ret false
      else if ← isPaneBusy pane then .ret false
      else
        let repo ← op (.getRepoById job.repoId)
        sendWake job pane ((repo.map Repo.name).getD "?")

/-- `_drive_delivery` (lines 86–127). -/
def driveDelivery (cfg : Settings) (job : Job) : Py Unit := do
  let now ← op .time
  if job.reportedAt.isSome then .ret ()
  else if job.wakeState = some .undeliverable then .ret ()
  else if job.wakeState = some .fallback then attemptFallbackNotify cfg job
  else if !cfg.autoWake then claimAndFallback cfg job
  else
    -- `job.get("terminal_at") or job.get("updated_at", now)`
    let terminalAt := (job.terminalAt.filter (· ≠ 0)).getD job.updatedAt
    if now - terminalAt > cfg.wakeGraceSeconds then claimAndFallback cfg job
    else if (job.wakeAttempts : ℤ) < cfg.maxWakeAttempts then do
      let _ ← tryWake cfg job
      .ret ()
    else .ret ()

/-- `tick` (lines 75–82). -/
def tick (cfg : Settings) : Py Unit := do
  let jobs ← op .listUndeliveredTerminalJobs
  Prog.forEach jobs fun job => (driveDelivery cfg job).tryCatch fun _ => .ret ()

end Supervisor

end DiscordAgent
