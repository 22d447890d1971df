import Mathlib.Algebra.Order.Ring.Rat

/-!
# Python values

The exceptions that the modelled functions can raise, JSON values as
`json.loads` returns them, and the string methods the code uses.
-/

namespace DiscordAgent

/-- The exceptions that cross a function boundary of the modelled code. -/
inductive PyErr where
  /-- `ValueError(f"Job {job_id} not found")`. -/
  | jobNotFound (jobId : ℕ)
  /-- `ValueError(f"Invalid transition: …")` from a state name to another. -/
  | invalidTransition (current new : String)
  /-- `RunnerError(f"Job {job_id} not found")`. -/
  | runnerJobNotFound (jobId : ℕ)
  /-- `RunnerError(f"Repo {repo_id} not found")`. -/
  | runnerRepoNotFound (repoId : ℕ)
  /-- `RunnerError("claude CLI not found. …")`. -/
  | claudeNotFound
  | osError
  | unicodeDecodeError
  | overflowError
  | attributeError
  /-- A value that `sqlite3` cannot bind, or a constraint that fails. -/
  | sqliteError
  | calledProcessError
  | timeoutExpired
  deriving DecidableEq, Repr

namespace PyErr

/-- `isinstance(e, ValueError)`. -/
def isValueError : PyErr → Bool
  | jobNotFound _ | invalidTransition _ _ | unicodeDecodeError => true
  | _ => false

/-- `isinstance(e, RunnerError)`. -/
def isRunnerError : PyErr → Bool
  | runnerJobNotFound _ | runnerRepoNotFound _ | claudeNotFound => true
  | _ => false

end PyErr

/-- A Python `float`. -/
inductive PyFloat where
  | fin (q : ℚ)
  | inf
  | negInf
  | nan

/-- A value returned by `json.loads`. -/
inductive Json where
  | null
  | bool (b : Bool)
  | int (n : ℤ)
  | float (f : PyFloat)
  | str (s : String)
  | arr (xs : List Json)
  | obj (fields : List (String × Json))

namespace Json

/-- `bool(v)`. -/
def truthy : Json → Bool
  | null => false
  | bool b => b
  | int n => n != 0
  | float (.fin q) => q != 0
  | float _ => true
  | str s => s != ""
  | arr xs => !xs.isEmpty
  | obj fields => !fields.isEmpty

/-- `v.get(key)`: `AttributeError` unless `v` is a dict, `None` for a missing
    key. -/
def get (key : String) : Json → Except PyErr Json
  | obj fields => .ok ((fields.lookup key).getD null)
  | _ => .error .attributeError

end Json

/-- What the code uses of `json` and of `str`. `loads` is `none` where
    `json.loads` raises `JSONDecodeError`; `str` is `str(v)`; `bindText` is the
    text SQLite stores for a value bound to a `TEXT` column. -/
structure PyLib where
  loads : String → Option Json
  dumps : Json → String
  str : Json → String
  bindText : Json → Except PyErr (Option String)
  /-- `str` and lists of `str` bind to themselves. -/
  bindText_str : ∀ s, bindText (.str s) = .ok (some s)
  bindText_null : bindText .null = .ok none

/-! ## Strings -/

namespace Py

/-- `str.isspace` on one character. -/
def isSpace (c : Char) : Bool :=
  let n := c.toNat
  (9 ≤ n && n ≤ 13) || (28 ≤ n && n ≤ 32) || n == 133 || n == 160 || n == 5760 ||
    (8192 ≤ n && n ≤ 8202) || n == 8232 || n == 8233 || n == 8239 || n == 8287 || n == 12288

/-- The characters that end a line for `str.splitlines`. -/
def isLineBreak (c : Char) : Bool :=
  let n := c.toNat
  (10 ≤ n && n ≤ 13) || (28 ≤ n && n ≤ 30) || n == 133 || n == 8232 || n == 8233

/-- `s.strip()` on the characters of `s`. -/
def stripChars (cs : List Char) : List Char :=
  ((cs.dropWhile isSpace).reverse.dropWhile isSpace).reverse

/-- `s.strip()`. -/
def strip (s : String) : String := String.ofList (stripChars s.toList)

/-- `s.splitlines()` on characters; `cur` is the line being read, reversed. -/
def splitLinesAux : List Char → List Char → List (List Char)
  | [], cur => if cur.isEmpty then [] else [cur.reverse]
  | '\r' :: '\n' :: cs, cur => cur.reverse :: splitLinesAux cs []
  | c :: cs, cur =>
    if isLineBreak c then cur.reverse :: splitLinesAux cs [] else splitLinesAux cs (c :: cur)

/-- `s.splitlines()`. -/
def splitLines (s : String) : List String := (splitLinesAux s.toList []).map String.ofList

/-- `s.split()` on characters; `cur` is the word being read, reversed. -/
def splitWordsAux : List Char → List Char → List (List Char)
  | [], cur => if cur.isEmpty then [] else [cur.reverse]
  | c :: cs, cur =>
    if isSpace c then
      if cur.isEmpty then splitWordsAux cs [] else cur.reverse :: splitWordsAux cs []
    else splitWordsAux cs (c :: cur)

/-- `s.split()`. -/
def splitWords (s : String) : List String := (splitWordsAux s.toList []).map String.ofList

/-- The code points of the decimal digit zero of each script (Unicode 15). -/
def digitZeros : List ℕ :=
  [48, 1632, 1776, 1984, 2406, 2534, 2662, 2790, 2918, 3046, 3174, 3302, 3430, 3558, 3664,
   3792, 3872, 4160, 4240, 6112, 6160, 6470, 6608, 6784, 6800, 6992, 7088, 7232, 7248, 42528,
   43216, 43264, 43472, 43504, 43600, 44016, 65296, 66720, 68912, 69734, 69872, 69942, 70096,
   70384, 70736, 70864, 71248, 71360, 71472, 71904, 72016, 72784, 73040, 73120, 73552, 92768,
   92864, 93008, 120782, 120792, 120802, 120812, 120822, 123200, 123632, 124144, 125264,
   130032]

/-- `\d` of the `re` module. -/
def isDigit (c : Char) : Bool := digitZeros.any fun z => z ≤ c.toNat && c.toNat ≤ z + 9

end Py

end DiscordAgent
