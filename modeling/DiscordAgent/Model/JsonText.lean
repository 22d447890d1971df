import DiscordAgent.Model.Py

/-!
# `json.dumps`

The text that `json.dumps` writes with its default settings: `ensure_ascii`, and
`", "` and `": "` between the parts.
-/

namespace DiscordAgent

namespace Json

/-- One of `0123456789abcdef`. -/
def hexDigit (n : ℕ) : Char := "0123456789abcdef".toList.getD n '0'

/-- `\uXXXX`. -/
def escapeUnit (n : ℕ) : List Char :=
  ['\\', 'u', hexDigit (n / 4096 % 16), hexDigit (n / 256 % 16), hexDigit (n / 16 % 16),
    hexDigit (n % 16)]

/-- A character of a string literal. ASCII characters that print stand for
    themselves, but for the quote and the backslash; above U+FFFF there are two
    units. -/
def escapeChar (c : Char) : List Char :=
  let n := c.toNat
  if c = '"' then ['\\', '"']
  else if c = '\\' then ['\\', '\\']
  else if 32 ≤ n ∧ n ≤ 126 then [c]
  else if n = 10 then ['\\', 'n']
  else if n = 13 then ['\\', 'r']
  else if n = 9 then ['\\', 't']
  else if n = 12 then ['\\', 'f']
  else if n = 8 then ['\\', 'b']
  else if n < 65536 then escapeUnit n
  else escapeUnit (55296 + (n - 65536) / 1024) ++ escapeUnit (56320 + (n - 65536) % 1024)

/-- The text between the quotes. -/
def escape (s : String) : List Char := s.toList.flatMap escapeChar

/-- A string literal. -/
def quote (s : String) : List Char := '"' :: escape s ++ ['"']

section Dumps

variable (floatText : PyFloat → List Char)

mutual

/-- `json.dumps(v)`; `floatText` writes a float. -/
def dumps : Json → List Char
  | null => "null".toList
  | bool b => if b then "true".toList else "false".toList
  | int n => (toString n).toList
  | float f => floatText f
  | str s => quote s
  | arr xs => '[' :: dumpsItems xs ++ [']']
  | obj fields => '\x7b' :: dumpsFields fields ++ ['\x7d']

/-- The items of an array. -/
def dumpsItems : List Json → List Char
  | [] => []
  | [v] => dumps v
  | v :: w :: vs => dumps v ++ ", ".toList ++ dumpsItems (w :: vs)

/-- The fields of an object. -/
def dumpsFields : List (String × Json) → List Char
  | [] => []
  | [p] => dumpsField p
  | p :: q :: ps => dumpsField p ++ ", ".toList ++ dumpsFields (q :: ps)

/-- A field of an object. -/
def dumpsField : String × Json → List Char
  | (key, v) => quote key ++ ": ".toList ++ dumps v

end

end Dumps

mutual

/-- The strings in a value, the keys of its objects included. -/
def strings : Json → List String
  | str s => [s]
  | arr xs => stringsItems xs
  | obj fields => stringsFields fields
  | _ => []

/-- The strings of the items of an array. -/
def stringsItems : List Json → List String
  | [] => []
  | v :: vs => strings v ++ stringsItems vs

/-- The strings of the fields of an object. -/
def stringsFields : List (String × Json) → List String
  | [] => []
  | p :: ps => stringsField p ++ stringsFields ps

/-- The strings of a field. -/
def stringsField : String × Json → List String
  | (key, v) => key :: strings v

end

end Json

end DiscordAgent
