import Mathlib.Algebra.Order.Field.Power
import Mathlib.Data.Int.Log
import Mathlib.Data.Rat.Floor
import Mathlib.Order.WithBot
import DiscordAgent.Model.Preview
import DiscordAgent.Model.ResultParser

/-!
# Time expressions

`lib/timeparse.py`. Results of `float` arithmetic are rounded to binary64. A time
is a `WithTop ℚ`, where `⊤` is `inf`: a relative amount is not negative, and a
number is a time only if it is greater than `1_000_000_000`.

`datetime` is a parameter: what the six ISO formats accept, and the local time.
-/

namespace DiscordAgent

/-! ## Floats -/

/-- The nearest integer; the even one of two. -/
def roundHalfEven (x : ℚ) : ℤ :=
  let n := ⌊x⌋
  if x - n < 1 / 2 then n
  else if 1 / 2 < x - n then n + 1
  else if n % 2 = 0 then n else n + 1

/-- The nearest binary64 number; `⊤` is `inf`. -/
def binary64 (q : ℚ) : WithTop ℚ :=
  -- the exponent of the last place
  let e := max (Int.log 2 |q| - 52) (-1074)
  let r := roundHalfEven (q / 2 ^ e) * (2 : ℚ) ^ e
  if r < 2 ^ 1024 then (r : WithTop ℚ) else ⊤

/-- An operation on a float with a finite operand. -/
def rounded (f : ℚ → ℚ) : WithTop ℚ → WithTop ℚ
  | ⊤ => ⊤
  | (q : ℚ) => binary64 (f q)

namespace Py

/-- The number that digits denote. -/
def natOf (ds : List ℕ) : ℕ := ds.foldl (fun n d => 10 * n + d) 0

/-- Digits, maybe none. -/
def optDigits (cs : List Char) : Option (List ℕ) := if cs = [] then some [] else intDigits false cs

/-- What follows the `e` of a float literal. -/
def exponent : List Char → Option ℤ
  | '+' :: cs => (intDigits false cs).map fun ds => (natOf ds : ℤ)
  | '-' :: cs => (intDigits false cs).map fun ds => -(natOf ds : ℤ)
  | cs => (intDigits false cs).map fun ds => (natOf ds : ℤ)

/-- The number that a float literal without a sign denotes. -/
def decimal (cs : List Char) : Option ℚ := do
  let (mantissa, power) := cs.span fun c => c != 'e' && c != 'E'
  let (whole, fraction) := mantissa.span (· != '.')
  let e ← if power = [] then some 0 else exponent power.tail
  let whole ← optDigits whole
  let fraction ← optDigits fraction.tail
  if whole = [] ∧ fraction = [] then none
  else some (natOf (whole ++ fraction) * 10 ^ (e - fraction.length))

/-- `-x` or `x`. -/
def signed (negative : Bool) : WithTop ℚ → PyFloat
  | ⊤ => if negative then .negInf else .inf
  | (q : ℚ) => .fin (if negative then -q else q)

/-- `float(s)` of a text without its sign, in lower case. -/
def unsignedFloat (negative : Bool) (cs : List Char) : Option PyFloat :=
  if cs = "inf".toList ∨ cs = "infinity".toList then some (signed negative ⊤)
  else if cs = "nan".toList then some .nan
  else (decimal cs).map fun q => signed negative (binary64 q)

/-- `float(s)`, `none` where it raises `ValueError`. -/
def float (cs : List Char) : Option PyFloat :=
  match (stripChars cs).map Char.toLower with
  | '+' :: cs => unsignedFloat false cs
  | '-' :: cs => unsignedFloat true cs
  | cs => unsignedFloat false cs

end Py

/-! ## `timeparse` -/

/-- What the two functions raise. -/
inductive TimeError where
  | valueError
  | keyError
  | overflowError
  deriving DecidableEq, Repr

/-- What `lib/timeparse.py` uses of `datetime`. -/
structure TimeLib where
  /-- `datetime.strptime(expr, fmt).timestamp()`. -/
  awareTimestamp : String → String → Except TimeError ℚ
  /-- `datetime.strptime(expr, fmt).astimezone().timestamp()`; `astimezone`
      raises `OverflowError` at the ends of the calendar. -/
  naiveTimestamp : String → String → Except TimeError ℚ
  /-- The first moment of the year 10000. -/
  endOfTime : ℚ
  endOfTime_pos : 0 < endOfTime
  /-- `datetime.fromtimestamp(t).astimezone().strftime("%Y-%m-%d %H:%M:%S %Z")`
      of a time before. -/
  strftime : ℚ → String

namespace Timeparse

/-- `_UNIT_SECONDS` (lines 17–23). -/
def unitSeconds : Char → Option ℚ
  | 'w' => some (7 * 24 * 3600)
  | 'd' => some (24 * 3600)
  | 'h' => some 3600
  | 'm' => some 60
  | 's' => some 1
  | _ => none

/-- `(w|d|h|m|s)` with `IGNORECASE`. -/
def isUnit (c : Char) : Bool := "wdhms".toList.contains (Supervisor.foldCase c)

/-- `\d+(?:\.\d+)?`. -/
def isAmount (cs : List Char) : Bool :=
  !(cs.takeWhile Py.isDigit).isEmpty &&
    match cs.dropWhile Py.isDigit with
    | [] => true
    | '.' :: cs => !cs.isEmpty && cs.all Py.isDigit
    | _ => false

/-- The groups of `_RELATIVE_RE` (line 15). -/
def relative : List Char → Option (List Char × Char)
  | '+' :: cs =>
    match cs.reverse with
    | unit :: amount =>
      if isUnit unit && isAmount amount.reverse then some (amount.reverse, unit) else none
    | [] => none
  | _ => none

/-- `_ISO_AWARE_FMTS` (lines 25–28). -/
def isoAwareFmts : List String := ["%Y-%m-%dT%H:%M:%S%z", "%Y-%m-%dT%H:%M:%S.%f%z"]

/-- `_ISO_NAIVE_FMTS` (lines 30–35). -/
def isoNaiveFmts : List String :=
  ["%Y-%m-%dT%H:%M:%S", "%Y-%m-%dT%H:%M:%S.%f", "%Y-%m-%dT%H:%M", "%Y-%m-%d"]

/-- The first result that is not a `ValueError`. -/
def firstParsed : List (Except TimeError ℚ) → Except TimeError ℚ
  | [] => .error .valueError
  | .error .valueError :: rs => firstParsed rs
  | r :: _ => r

/-- The two loops over the formats and the `raise` after them (lines 82–98). -/
def isoTimestamp (lib : TimeLib) (expr : String) : Except TimeError ℚ :=
  firstParsed
    (isoAwareFmts.map (lib.awareTimestamp expr) ++ isoNaiveFmts.map (lib.naiveTimestamp expr))

/-- `val > 1_000_000_000`. -/
def epoch : PyFloat → Option (WithTop ℚ)
  | .fin q => if 1000000000 < q then some q else none
  | .inf => some ⊤
  | _ => none

/-- `now + amount * seconds`. -/
def later (now amount seconds : ℚ) : WithTop ℚ :=
  rounded (now + ·) (rounded (· * seconds) (binary64 amount))

/-- `parse_enqueue_at` after `strip` (lines 65–98). -/
def parseStripped (lib : TimeLib) (expr : List Char) (now : ℚ) : Except TimeError (WithTop ℚ) :=
  match relative expr with
  | some (amount, unit) =>
    match Py.decimal amount, unitSeconds unit.toLower with
    | none, _ => .error .valueError
    -- `ſ` matches `s` with `IGNORECASE`, and is its own lower case
    | some _, none => .error .keyError
    | some q, some seconds => .ok (later now q seconds)
  | none =>
    match (Py.float expr).bind epoch with
    | some v => .ok v
    | none => (isoTimestamp lib (String.ofList expr)).map fun q => (q : WithTop ℚ)

/-- `parse_enqueue_at` (lines 38–98). -/
def parseEnqueueAt (lib : TimeLib) (expr : String) (now : ℚ) : Except TimeError (WithTop ℚ) :=
  parseStripped lib (Py.stripChars expr.toList) now

/-- `format_enqueue_at` (lines 101–108). -/
def formatEnqueueAt (lib : TimeLib) : WithTop ℚ → Except TimeError String
  | ⊤ => .error .overflowError
  | (q : ℚ) =>
    if q ≤ 0 then .ok "immediate"
    else if q < lib.endOfTime then .ok (lib.strftime q)
    else .error .valueError

end Timeparse

end DiscordAgent
