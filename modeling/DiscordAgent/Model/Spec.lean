import DiscordAgent.Text.Regex

/-!
# Specs

`Spec.render` of `lib/spec.py`, with `string.Template.substitute`: the scan for
placeholders of its pattern

    \$(?: (?P<escaped>\$) | (?P<named>id) | {(?P<braced>id)} | (?P<invalid>) )

where `id` is `(?a:[_a-z][_a-z0-9]*)` with `IGNORECASE`. The fields of a spec
that `render` does not read are left out.
-/

namespace DiscordAgent

open Text

/-! ## `string.Template` -/

namespace Template

/-- `[_a-z]`. -/
def isIdStart (c : Char) : Bool :=
  c == '_' || ('a' ≤ c && c ≤ 'z') || ('A' ≤ c && c ≤ 'Z')

/-- `[_a-z0-9]`. -/
def isIdChar (c : Char) : Bool := isIdStart c || ('0' ≤ c && c ≤ '9')

/-- The identifier at the beginning of the text, empty if there is none. -/
def ident : List Char → List Char
  | c :: s => if isIdStart c then c :: s.takeWhile isIdChar else []
  | [] => []

/-- The group of the pattern that matches after a `$`. -/
inductive Group where
  | escaped
  | named (x : List Char)
  | braced (x : List Char)
  | invalid

/-- Which alternative of the pattern matches after a `$`. -/
def group : List Char → Group
  | '$' :: _ => .escaped
  | '\x7b' :: s =>
    match ident s, s.drop (ident s).length with
    | c :: x, '\x7d' :: _ => .braced (c :: x)
    | _, _ => .invalid
  | s =>
    match ident s with
    | c :: x => .named (c :: x)
    | [] => .invalid

/-- What `substitute` raises. -/
inductive Err where
  | keyError (name : String)
  /-- `ValueError`, with the number of characters from the invalid placeholder
      to the end of the template, from which its text counts line and column. -/
  | invalidPlaceholder (rest : ℕ)
  deriving DecidableEq, Repr

/-- `pattern.sub(convert, template)` after the first `n` characters, which belong
    to a match. -/
def substituteAux (mapping : String → Option String) : ℕ → List Char → Except Err (List Char)
  | _, [] => .ok []
  | n + 1, _ :: s => substituteAux mapping n s
  | 0, c :: s =>
    if c = '$' then
      match group s with
      | .escaped => (substituteAux mapping 1 s).map ('$' :: ·)
      | .named x =>
        match mapping (String.ofList x) with
        | some v => (substituteAux mapping x.length s).map (v.toList ++ ·)
        | none => .error (.keyError (String.ofList x))
      | .braced x =>
        match mapping (String.ofList x) with
        | some v => (substituteAux mapping (x.length + 2) s).map (v.toList ++ ·)
        | none => .error (.keyError (String.ofList x))
      | .invalid => .error (.invalidPlaceholder s.length)
    else (substituteAux mapping 0 s).map (c :: ·)

/-- `Template(template).substitute(mapping)`. -/
def substitute (mapping : String → Option String) (template : List Char) :
    Except Err (List Char) := substituteAux mapping 0 template

end Template

/-! ## `Spec` -/

/-- What `render` reads of a `Spec`. -/
structure Spec where
  taskTemplate : String
  requiredVars : List String
  optionalVars : List String

/-- A `SpecError` of `render`. -/
inductive SpecError where
  /-- `Missing required vars: …`. -/
  | missing (names : List String)
  /-- `Template substitution failed: …`. -/
  | substitution (e : Template.Err)
  /-- `Unresolved template vars after render: …`. -/
  | unresolved (found : List String)
  deriving DecidableEq, Repr

namespace Spec

/-- `\$\{[^}]+\}`. -/
def remainingPattern : Regex Char :=
  .seq (.one (· == '$')) <| .seq (.one (· == '\x7b')) <|
    .seq (.one (· != '\x7d')) <| .seq (.many (· != '\x7d')) (.one (· == '\x7d'))

/-- The dict that is substituted (lines 76–79): optional variables are empty
    unless they are given. -/
def filled (spec : Spec) (vars : List (String × String)) (x : String) : Option String :=
  (vars.lookup x).or (if x ∈ spec.optionalVars then some "" else none)

/-- `render` (lines 65–91). -/
def render (spec : Spec) (vars : List (String × String)) : Except SpecError String :=
  match spec.requiredVars.filter fun v => (vars.lookup v).isNone with
  | v :: missing => .error (.missing (v :: missing))
  | [] =>
    match Template.substitute (spec.filled vars) spec.taskTemplate.toList with
    | .error e => .error (.substitution e)
    | .ok result =>
      match remainingPattern.findall (fun _ => false) result with
      | [] => .ok (String.ofList result)
      | remaining => .error (.unresolved (remaining.map String.ofList))

end Spec

end DiscordAgent
