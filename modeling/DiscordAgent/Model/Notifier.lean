import DiscordAgent.Model.Py

/-!
# Discord notification

The parts of `lib/notifier.py` that decide: where the token comes from
(`_load_token`, lines 102–114) and how the outcome of the HTTP request is
classified (`notify_discord_result`, lines 122–163). The request itself is an
operation of the Supervisor, see `Model/World.lean`.
-/

namespace DiscordAgent

/-- `NotifyResult` (lines 62–90). -/
structure NotifyResult where
  success : Bool
  retry : Bool := false
  permanent : Bool := false
  reason : String := ""
  deriving DecidableEq

/-- What `urllib.request.urlopen` does: a response, an `HTTPError`, or another
    exception. -/
inductive HttpOutcome where
  | response (status : ℕ)
  | httpError (code : ℕ) (reason : String)
  | exception (message : String)
  deriving DecidableEq

/-- The `try` block of `notify_discord_result` (lines 144–163). -/
def NotifyResult.ofHttp : HttpOutcome → NotifyResult
  | .response status =>
    if status = 200 ∨ status = 201 then { success := true }
    else { success := false, permanent := true, reason := s!"HTTP {status}" }
  | .httpError code reason =>
    if code ∈ [429, 500, 502, 503, 504] then
      { success := false, retry := true, reason := s!"HTTP {code} {reason}" }
    else { success := false, permanent := true, reason := s!"HTTP {code} {reason}" }
  | .exception message => { success := false, retry := true, reason := message }

/-- The result without a token (lines 127–130). -/
def NotifyResult.noToken : NotifyResult :=
  { success := false, permanent := true, reason := "no token" }

/-- The environment of a process. -/
abbrev Environ := String → Option String

/-- `_ENV_VAR`. -/
def tokenVar : String := "DISCORD_BOT_TOKEN"

/-- The lookup in the lines of the credential file (lines 109–113). -/
def tokenFromLines : List String → Option String
  | [] => none
  | line :: lines =>
    let cs := Py.stripChars line.toList
    let key := tokenVar.toList ++ ['=']
    if key.isPrefixOf cs then some (String.ofList (Py.stripChars (cs.drop key.length)))
    else tokenFromLines lines

/-- `_load_token` (lines 102–114); `contents` is what `_read_secure_env_file`
    returns. -/
def loadToken (environ : Environ) (contents : Option String) : Option String :=
  match (environ tokenVar).filter (· ≠ "") with
  | some tok => some (Py.strip tok)
  | none => contents.bind fun text => tokenFromLines (Py.splitLines text)

end DiscordAgent
