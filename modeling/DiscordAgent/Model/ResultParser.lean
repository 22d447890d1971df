import DiscordAgent.Model.Chain
import DiscordAgent.Text.Search

/-!
# The structured result of a worker

`lib/result_parser.py`: `parse_result` finds the last result block of the worker
output, decodes it and rebuilds a `Result` field by field. Nothing checks the
types of the fields before they are converted, so the fields of `Result` and
`AdvisorRound` hold JSON values where the source has annotations only.
-/

namespace DiscordAgent

/-! ## Python -/

/-- What `json.loads` raises; only the first is a `JSONDecodeError`. -/
inductive LoadsError where
  | jsonDecodeError (message : String)
  /-- Arrays and objects nested too deep. -/
  | recursionError
  /-- `ValueError` of `int` for a number of more than 4300 digits. -/
  | intDigits
  deriving DecidableEq, Repr

/-- What the parser uses of `json` and `repr`. -/
structure JsonLib where
  loads : String → Except LoadsError Json
  repr : Json → String

/-- The exceptions of `parse_result`. -/
inductive ParseError where
  /-- A `ValueError` with this text, raised by `parse_result` itself. -/
  | strict (message : String)
  /-- What `json.loads` raises and `parse_result` does not catch. -/
  | loads (e : LoadsError)
  | typeError
  /-- `ValueError` of `int`. -/
  | intValue
  | overflowError
  deriving DecidableEq, Repr

namespace Py

/-- The whitespace that `int` skips: outside of ASCII what `isspace` accepts. -/
def isIntSpace (c : Char) : Bool :=
  let n := c.toNat
  (9 ≤ n && n ≤ 13) || n == 32 || (127 ≤ n && isSpace c)

/-- The value of a decimal digit of any script. -/
def digitValue (c : Char) : Option ℕ :=
  (digitZeros.find? fun z => z ≤ c.toNat && c.toNat ≤ z + 9).map (c.toNat - ·)

/-- The digits of a numeral, with single underscores between them; `after` says
    that a digit has just been read. -/
def intDigits : Bool → List Char → Option (List ℕ)
  | after, [] => if after then some [] else none
  | true, '_' :: cs => intDigits false cs
  | _, c :: cs =>
    match digitValue c with
    | some d => (intDigits true cs).map (d :: ·)
    | none => none

/-- `sys.get_int_max_str_digits()`. -/
def intMaxStrDigits : ℕ := 4300

/-- A numeral without a sign. -/
def natOfChars (cs : List Char) : Option ℕ :=
  (intDigits false cs).bind fun ds =>
    if ds.length ≤ intMaxStrDigits then some (ds.foldl (fun n d => 10 * n + d) 0) else none

/-- `int(s)`, `none` where it raises `ValueError`. -/
def intOfString (s : String) : Option ℤ :=
  match ((s.toList.dropWhile isIntSpace).reverse.dropWhile isIntSpace).reverse with
  | '+' :: cs => (natOfChars cs).map fun n => (n : ℤ)
  | '-' :: cs => (natOfChars cs).map fun n => -(n : ℤ)
  | cs => (natOfChars cs).map fun n => (n : ℤ)

end Py

namespace Json

/-- `int(v)`. -/
def toInt : Json → Except ParseError ℤ
  | int n => .ok n
  | bool b => .ok (if b then 1 else 0)
  | float (.fin q) => .ok (q.num.tdiv q.den)
  | float .nan => .error .intValue
  | float _ => .error .overflowError
  | str s =>
    match Py.intOfString s with
    | some n => .ok n
    | none => .error .intValue
  | _ => .error .typeError

/-- `list(v)`: the characters of a string, the keys of a dict. -/
def iter : Json → Except ParseError (List Json)
  | arr xs => .ok xs
  | str s => .ok (s.toList.map fun c => str (String.ofList [c]))
  | obj fields => .ok (fields.map fun p => str p.1)
  | _ => .error .typeError

/-- `v or []`. -/
def orEmpty (v : Json) : Json := if v.truthy then v else arr []

/-- `hash(v)` does not raise. -/
def hashable : Json → Bool
  | arr _ | obj _ => false
  | _ => true

/-- `isinstance(v, list)`. -/
def isList : Json → Bool
  | arr _ => true
  | _ => false

/-- `v is None`. -/
def isNull : Json → Bool
  | null => true
  | _ => false

/-- `v in names`. -/
def isOneOf (names : List String) : Json → Bool
  | str s => names.contains s
  | _ => false

end Json

/-- `d.get(key, default)`. -/
def Dict.getD (key : String) (default : Json) (d : Dict) : Json := (d.lookup key).getD default

/-! ## `result_parser` -/

namespace ResultParser

/-- `DELIMITER_OPEN`. -/
def delimiterOpen : String := "<<<DISCORD_AGENT_RESULT>>>"

/-- `DELIMITER_CLOSE`. -/
def delimiterClose : String := "<<<END>>>"

/-- `AdvisorRound` (lines 30–34). -/
structure AdvisorRound where
  round : ℤ
  verdict : Json
  keyFindings : List Json

/-- `Result` (lines 37–46). -/
structure Result where
  status : Json
  mergeSha : Json
  prUrl : Json
  filesChanged : List Json
  advisorRounds : List AdvisorRound
  nextActionHint : Json
  unresolved : List Json
  errorSummary : Json

/-- `asdict` of an `AdvisorRound`. -/
def AdvisorRound.toDict (a : AdvisorRound) : Dict :=
  [("round", .int a.round), ("verdict", a.verdict), ("key_findings", .arr a.keyFindings)]

/-- `to_dict` (lines 48–49). -/
def Result.toDict (r : Result) : Dict :=
  [("status", r.status), ("merge_sha", r.mergeSha), ("pr_url", r.prUrl),
    ("files_changed", .arr r.filesChanged),
    ("advisor_rounds", .arr (r.advisorRounds.map fun a => .obj a.toDict)),
    ("next_action_hint", r.nextActionHint), ("unresolved", .arr r.unresolved),
    ("error_summary", r.errorSummary)]

/-- `sorted(_REQUIRED_KEYS)`. -/
def requiredKeys : List String :=
  ["advisor_rounds", "error_summary", "files_changed", "merge_sha", "next_action_hint", "pr_url",
    "status", "unresolved"]

/-- `sorted(_VALID_STATUSES)`. -/
def validStatuses : List String := ["halt", "needs_controller", "succeeded"]

/-- The verdicts that the schema knows. -/
def validVerdicts : List String := ["approved", "with_changes"]

/-- The check of the status (lines 142–144): `in` hashes it. -/
def statusErrors (lib : JsonLib) (status : Json) : Except ParseError (List String) :=
  if status.hashable then
    .ok (if status.isOneOf validStatuses then []
      else ["invalid status " ++ lib.repr status ++
        "; must be one of ['halt', 'needs_controller', 'succeeded']"])
  else .error .typeError

/-- The violations of one entry of `advisor_rounds` (lines 151–158). -/
def roundErrors (lib : JsonLib) (i : ℕ) : Json → List String
  | .obj ar =>
    (if (ar.lookup "round").isNone then [s!"advisor_rounds[{i}] missing 'round'"] else []) ++
      if (Dict.get "verdict" ar).isOneOf validVerdicts then []
      else [s!"advisor_rounds[{i}] invalid verdict " ++ lib.repr (Dict.get "verdict" ar)]
  | _ => [s!"advisor_rounds[{i}] must be an object"]

/-- `_validate_raw` (lines 135–160): the list of schema violations. -/
def validateRaw (lib : JsonLib) (raw : Dict) : Except ParseError (List String) := do
  let missing := (requiredKeys.filter fun key => (raw.lookup key).isNone).map fun key =>
    "missing required field: '" ++ key ++ "'"
  let invalid ← statusErrors lib (Dict.getD "status" (.str "") raw)
  let noList := (["files_changed", "advisor_rounds", "unresolved"].filter fun name =>
    !(Dict.get name raw).isNull && !(Dict.get name raw).isList).map fun name =>
      "'" ++ name ++ "' must be a list"
  let rounds ← (Dict.get "advisor_rounds" raw).orEmpty.iter
  .ok (missing ++ invalid ++ noList ++ (rounds.mapIdx (roundErrors lib)).flatten)

/-- One round of the loop of lines 105–113; an entry that is not a dict is
    skipped. -/
def roundOf : Json → Except ParseError (Option AdvisorRound)
  | .obj item => do
    let round ← (Dict.getD "round" (.int 0) item).toInt
    let keyFindings ← (Dict.get "key_findings" item).orEmpty.iter
    .ok (some ⟨round, Dict.getD "verdict" (.str "approved") item, keyFindings⟩)
  | _ => .ok none

/-- The `advisor_rounds` of the result. -/
def roundsOf (items : List Json) : Except ParseError (List AdvisorRound) := do
  let rounds ← items.mapM roundOf
  .ok (rounds.filterMap id)

/-- `_to_list` (lines 115–116). -/
def toList : Json → List Json
  | .arr xs => xs
  | _ => []

/-- The result that lines 104–127 build from the decoded object. -/
def resultOf (raw : Dict) : Except ParseError Result := do
  let items ← (Dict.get "advisor_rounds" raw).orEmpty.iter
  let advisorRounds ← roundsOf items
  .ok
    { status := Dict.getD "status" (.str "") raw
      mergeSha := Dict.get "merge_sha" raw
      prUrl := Dict.get "pr_url" raw
      filesChanged := toList (Dict.get "files_changed" raw)
      advisorRounds := advisorRounds
      nextActionHint := Dict.get "next_action_hint" raw
      unresolved := toList (Dict.get "unresolved" raw)
      errorSummary := Dict.get "error_summary" raw }

/-- The text before the first closing delimiter, all of it if there is none. -/
def untilClose (afterOpen : List Char) : List Char :=
  match Text.find delimiterClose.toList afterOpen with
  | none => afterOpen
  | some closePos => afterOpen.take closePos

/-- The block after the last opening delimiter (lines 72–81). -/
def blockOf (text : List Char) : Option (List Char) :=
  (Text.rfind delimiterOpen.toList text).map fun openPos =>
    Py.stripChars (untilClose (text.drop (openPos + delimiterOpen.toList.length)))

/-- The schema check and the conversion (lines 100–127). -/
def decode (lib : JsonLib) (raw : Dict) (strict : Bool) : Except ParseError (Option Result) := do
  let errors ← validateRaw lib raw
  if errors ≠ [] ∧ strict = true then
    .error (.strict ("Schema validation failed: " ++ "; ".intercalate errors))
  else
    let result ← resultOf raw
    .ok (some result)

/-- `parse_result` (lines 65–127). -/
def parseResult (lib : JsonLib) (text : String) (strict : Bool) :
    Except ParseError (Option Result) :=
  -- where the strict parser raises, the lenient one returns `None`
  let reject := fun message => if strict then .error (.strict message) else .ok none
  match blockOf text.toList with
  | none => .ok none
  | some [] => reject "Empty JSON block between delimiters"
  | some (c :: cs) =>
    match lib.loads (String.ofList (c :: cs)) with
    | .error (.jsonDecodeError message) => reject ("Invalid JSON in result block: " ++ message)
    | .error e => .error (.loads e)
    | .ok (.obj raw) => decode lib raw strict
    | .ok _ => reject "Result block must be a JSON object"

/-- `validate` (lines 130–132). -/
def validate (lib : JsonLib) (result : Result) : Except ParseError (List String) :=
  validateRaw lib result.toDict

end ResultParser

end DiscordAgent
