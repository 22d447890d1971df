import DiscordAgent.Model.ResultParser

/-!
# The reader thread of a worker

`ClaudeProcess._read_stdout` (`lib/runner.py`) up to its call of `on_complete`,
with the `on_event` callback of `run_job`. The line iterator decodes the bytes of
the worker, so asking it for a line can raise. What `on_event` writes to the
`events` table is left out: its `try` block catches every exception.
-/

namespace DiscordAgent

/-- The exceptions that end the reader thread. -/
inductive ReaderError where
  | loads (e : LoadsError)
  /-- `event.get` on a value that is not a dict. -/
  | attributeError
  | unicodeDecodeError
  deriving DecidableEq, Repr

/-- A step of `for line in self.process.stdout`: the line or what the decoder
    raises, and `_stop_event.is_set()` at that time. -/
structure StdoutRead where
  line : Except ReaderError String
  stop : Bool

/-- The arguments of a call of `on_complete`. -/
structure Completion where
  exitCode : ℤ
  result : Option Json
  isRateLimited : Bool

/-- The attributes of the `ClaudeProcess` that the thread reads and writes, and
    the calls of `on_complete`. `event.get("result", "")` can be any value. -/
structure ClaudeProcess where
  outputLines : List String := []
  stderrLines : List String := []
  resultText : Json := .str ""
  exitCode : Option ℤ := none
  completions : List Completion := []

namespace ClaudeProcess

/-- How a method ends and what it leaves. -/
abbrev Outcome := Except ReaderError Unit × ClaudeProcess

/-- `event.get(key, default)`. -/
def getAttr (key : String) (default : Json) : Json → Except ReaderError Json
  | .obj event => .ok (Dict.getD key default event)
  | _ => .error .attributeError

/-- `on_event` (lines 280–289). -/
def onEvent (event : Json) : Except ReaderError Unit := do
  let _ ← getAttr "type" (.str "unknown") event
  .ok ()

/-- `event.get("result", "")` if `event.get("type") == "result"`. -/
def resultOfEvent (event : Json) : Except ReaderError (Option Json) := do
  let type ← getAttr "type" .null event
  if type.isOneOf ["result"] then
    let result ← getAttr "result" (.str "") event
    .ok (some result)
  else .ok none

/-- The `try` block of the loop (lines 155–162). -/
def handleEvent (lib : JsonLib) (line : String) : Except ReaderError (Option Json) :=
  match lib.loads line with
  | .error (.jsonDecodeError _) => .ok none
  | .error e => .error (.loads e)
  | .ok event => do
    onEvent event
    resultOfEvent event

/-- One line of output (lines 149–162). -/
def handleLine (lib : JsonLib) (line : String) (p : ClaudeProcess) : Outcome :=
  let line := Py.strip line
  if line = "" then (.ok (), p)
  else
    let p := { p with outputLines := p.outputLines ++ [line] }
    match handleEvent lib line with
    | .error e => (.error e, p)
    | .ok none => (.ok (), p)
    | .ok (some result) => (.ok (), { p with resultText := result })

/-- The loop over the output (lines 146–162). -/
def readLoop (lib : JsonLib) : List StdoutRead → ClaudeProcess → Outcome
  | [], p => (.ok (), p)
  | r :: rs, p =>
    match r.line with
    | .error e => (.error e, p)
    | .ok line =>
      if r.stop then (.ok (), p)
      else
        match handleLine lib line p with
        | (.error e, p) => (.error e, p)
        | (.ok (), p) => readLoop lib rs p

/-- The loop of `_extract_result` (lines 199–206) over the reversed lines. -/
def extractLoop (lib : JsonLib) : List String → Except ReaderError (Option Json)
  | [] => .ok none
  | line :: lines =>
    match lib.loads line with
    | .error (.jsonDecodeError _) => extractLoop lib lines
    | .error e => .error (.loads e)
    | .ok event => do
      match ← resultOfEvent event with
      | some result => .ok (some result)
      | none => extractLoop lib lines

/-- `_extract_result` (lines 197–206). -/
def extractResult (lib : JsonLib) (p : ClaudeProcess) : Outcome :=
  match extractLoop lib p.outputLines.reverse with
  | .error e => (.error e, p)
  | .ok none => (.ok (), p)
  | .ok (some result) => (.ok (), { p with resultText := result })

/-- `RATE_LIMIT_PATTERNS`. -/
def rateLimitPatterns : List String :=
  ["rate limit", "rate_limit", "too many requests", "429", "overloaded"]

/-- `lower` on one character, up to characters outside of ASCII, which no pattern
    has. U+0130 and the Kelvin sign have ASCII letters in their lower case. -/
def lowerChar (c : Char) : List Char :=
  if c.toNat = 304 then ['i', '\u0307'] else if c.toNat = 8490 then ['k'] else [c.toLower]

/-- `_is_rate_limit_error` (lines 60–63). -/
def isRateLimitError (text : String) : Bool :=
  rateLimitPatterns.any fun pat => decide (pat.toList <:+: text.toList.flatMap lowerChar)

/-- `_check_rate_limit` (lines 190–195). -/
def checkRateLimit (p : ClaudeProcess) : Bool :=
  p.stderrLines.any isRateLimitError ||
    (p.outputLines.drop (p.outputLines.length - 10)).any isRateLimitError

/-- `_read_stdout` (lines 142–177) of a process that ends with `exitCode`. -/
def readStdout (lib : JsonLib) (reads : List StdoutRead) (exitCode : ℤ) (p : ClaudeProcess) :
    Outcome :=
  match readLoop lib reads p with
  | (.error e, p) => (.error e, p)
  | (.ok (), p) =>
    let p := { p with exitCode := some exitCode }
    match if p.resultText.truthy then (.ok (), p) else extractResult lib p with
    | (.error e, p) => (.error e, p)
    | (.ok (), p) =>
      let result := if p.resultText.truthy then some p.resultText else none
      (.ok (), { p with completions := p.completions ++ [⟨exitCode, result, p.checkRateLimit⟩] })

end ClaudeProcess

end DiscordAgent
