import DiscordAgent.Model.Py
import DiscordAgent.Text.Regex

/-!
# Result previews

`_PREVIEW_REDACTIONS` and `_redact_result_preview` of `lib/supervisor.py` (lines
39–49), which the Supervisor calls if `fallback_result_preview` is on. The
patterns are `str` patterns, so `\s` and `\w` are those of Unicode, and four
letters beyond ASCII match with `IGNORECASE`.
-/

namespace DiscordAgent

open Text

/-- `\w` of `re`; the characters beyond ASCII are left open. -/
structure WordClass where
  isWord : Char → Bool
  ascii : ∀ c : Char, c.toNat < 128 → isWord c = (c.isAlphanum || c == '_')

namespace Supervisor

/-- The lower case letter that a character matches with `IGNORECASE`. -/
def foldCase (c : Char) : Char :=
  if c = '\u0130' ∨ c = '\u0131' then 'i'
  else if c = '\u017f' then 's'
  else if c = '\u212a' then 'k'
  else c.toLower

/-- A word with `IGNORECASE`. -/
def ignoreCase (k : String) : Regex Char := Regex.word (k.toList.map fun l c => foldCase c == l)

/-- `[:=]`. -/
def isAssign (c : Char) : Bool := c == ':' || c == '='

/-- `[^\s,;]`. -/
def isValueChar (c : Char) : Bool := !Py.isSpace c && c != ',' && c != ';'

/-- `[A-Z]` with `IGNORECASE`. -/
def isLetter (c : Char) : Bool := 'a' ≤ foldCase c && foldCase c ≤ 'z'

/-- `[0-9]`. -/
def isAsciiDigit (c : Char) : Bool := '0' ≤ c && c ≤ '9'

/-- `[A-Z0-9._%+-]` with `IGNORECASE`. -/
def isMailChar (c : Char) : Bool := isLetter c || isAsciiDigit c || "._%+-".toList.contains c

/-- `[A-Z0-9.-]` with `IGNORECASE`. -/
def isHostChar (c : Char) : Bool := isLetter c || isAsciiDigit c || ".-".toList.contains c

/-- A literal text. -/
def literal (text : String) : Regex Char := Regex.word (text.toList.map fun l c => c == l)

/-- `(?i)(?:authorization|token|secret|password)\s*[:=]\s*[^\s,;]+`. -/
def credentialPattern : Regex Char :=
  .seq (.alt (ignoreCase "authorization") (.alt (ignoreCase "token")
    (.alt (ignoreCase "secret") (ignoreCase "password")))) <|
  .seq (.many Py.isSpace) <| .seq (.one isAssign) <| .seq (.many Py.isSpace) <|
  .oneOrMore isValueChar

/-- `\b[A-Z0-9._%+-]+@[A-Z0-9.-]+\.[A-Z]{2,}\b` with `IGNORECASE`. -/
def mailPattern : Regex Char :=
  .seq .boundary <| .seq (.oneOrMore isMailChar) <| .seq (.one (· == '@')) <|
  .seq (.oneOrMore isHostChar) <| .seq (.one (· == '.')) <|
  .seq (.one isLetter) <| .seq (.oneOrMore isLetter) .boundary

/-- `/(?:Users|home)/[^/\s]+/[^\s]+`. -/
def homePattern : Regex Char :=
  .seq (.one (· == '/')) <| .seq (.alt (literal "Users") (literal "home")) <|
  .seq (.one (· == '/')) <| .seq (.oneOrMore fun c => c != '/' && !Py.isSpace c) <|
  .seq (.one (· == '/')) <| .oneOrMore fun c => !Py.isSpace c

/-- `_PREVIEW_REDACTIONS` (lines 39–43). -/
def previewRedactions : List (Regex Char) := [credentialPattern, mailPattern, homePattern]

/-- What stands for a match. -/
def redacted : List Char := "[REDACTED]".toList

/-- The loop of `_redact_result_preview` (lines 47–48). -/
def redact (u : WordClass) (text : List Char) : List Char :=
  previewRedactions.foldl (fun text pattern => pattern.sub u.isWord redacted text) text

/-- `_redact_result_preview` (lines 46–49). -/
def redactResultPreview (u : WordClass) (text : String) : String :=
  let text := redact u text.toList
  String.ofList (text.take 200) ++ if text.length > 200 then "..." else ""

end Supervisor

end DiscordAgent
