import DiscordAgent.Model.JsonText

/-!
# `json.loads`, and `json.dump` with an indent

`JSONDecoder` and `JSONEncoder` of the standard library. A text is the list of its
characters; `none` stands for every exception of the decoder, that of `int` for more than
4300 digits included. A `\uXXXX` escape that is half of a surrogate pair without the other
half is `none` here, as no `Char` stands for it; nor does the model bound the recursion.

`fuel` counts the values that are open; one of twice the length of the text is enough.
-/

namespace DiscordAgent

namespace Json

/-! ## Strings -/

/-- `WHITESPACE`. -/
def isBlank (c : Char) : Bool := c == ' ' || c == '\t' || c == '\n' || c == '\r'

def skipBlanks (s : List Char) : List Char := s.dropWhile isBlank

/-- The value of a hexadecimal digit. -/
def hexValue (c : Char) : Option ℕ :=
  if '0' ≤ c ∧ c ≤ '9' then some (c.toNat - 48)
  else if 'a' ≤ c ∧ c ≤ 'f' then some (c.toNat - 87)
  else if 'A' ≤ c ∧ c ≤ 'F' then some (c.toNat - 55)
  else none

/-- `_decode_uXXXX`. -/
def decodeUnit : List Char → Option ℕ
  | a :: b :: c :: d :: _ =>
    match hexValue a, hexValue b, hexValue c, hexValue d with
    | some a, some b, some c, some d => some (4096 * a + 256 * b + 16 * c + d)
    | _, _, _, _ => none
  | _ => none

/-- A `\u` escape, and the one behind it if they are a surrogate pair: the character, and
    how many characters of the text they take from the `u` on. -/
def decodePair (s : List Char) : Option (Char × ℕ) :=
  (decodeUnit s).bind fun hi =>
    if 55296 ≤ hi ∧ hi < 56320 then
      match s.drop 4 with
      | '\\' :: 'u' :: t =>
        (decodeUnit t).bind fun lo =>
          if 56320 ≤ lo ∧ lo < 57344 then
            some (Char.ofNat (65536 + 1024 * (hi - 55296) + (lo - 56320)), 11)
          else none
      | _ => none
    else if 56320 ≤ hi ∧ hi < 57344 then none
    else some (Char.ofNat hi, 5)

/-- What follows a backslash: the character, and how many characters of the text it takes. -/
def unescape : List Char → Option (Char × ℕ)
  | '"' :: _ => some ('"', 1)
  | '\\' :: _ => some ('\\', 1)
  | '/' :: _ => some ('/', 1)
  | 'b' :: _ => some (Char.ofNat 8, 1)
  | 'f' :: _ => some (Char.ofNat 12, 1)
  | 'n' :: _ => some ('\n', 1)
  | 'r' :: _ => some ('\r', 1)
  | 't' :: _ => some ('\t', 1)
  | 'u' :: s => decodePair s
  | _ => none

/-- `scanstring` after the first `n` characters, which belong to an escape: the string and
    the text behind its closing quote. -/
def scanStringAux : ℕ → List Char → Option (List Char × List Char)
  | _, [] => none
  | n + 1, _ :: s => scanStringAux n s
  | 0, c :: s =>
    if c = '"' then some ([], s)
    else if c = '\\' then
      (unescape s).bind fun e => (scanStringAux e.2 s).map fun p => (e.1 :: p.1, p.2)
    else if c.toNat < 32 then none
    else (scanStringAux 0 s).map fun p => (c :: p.1, p.2)

/-- `scanstring`, from behind the opening quote. -/
def scanString (s : List Char) : Option (String × List Char) :=
  (scanStringAux 0 s).map fun p => (String.ofList p.1, p.2)

/-! ## Numbers and names -/

/-- `0|[1-9][0-9]*`, or nothing. -/
def integerPart : List Char → List Char
  | '0' :: _ => ['0']
  | s => s.takeWhile Char.isDigit

/-- `\.[0-9]+`, or nothing. -/
def fractionPart : List Char → List Char
  | '.' :: s => if (s.takeWhile Char.isDigit).isEmpty then [] else '.' :: s.takeWhile Char.isDigit
  | _ => []

/-- `[-+]`, or nothing. -/
def signPart (signs : List Char) : List Char → List Char
  | c :: _ => if c ∈ signs then [c] else []
  | [] => []

/-- `[eE][-+]?[0-9]+`, or nothing. -/
def exponentPart : List Char → List Char
  | [] => []
  | e :: s =>
    let sign := signPart ['-', '+'] s
    let digits := (s.drop sign.length).takeWhile Char.isDigit
    if (e = 'e' ∨ e = 'E') ∧ digits ≠ [] then e :: sign ++ digits else []

/-- `sys.get_int_max_str_digits()`. -/
def maxIntDigits : ℕ := 4300

variable (floatOf : List Char → PyFloat)

/-- `match_number` and the conversion; `floatOf` is `float`. -/
def scanNumber (s : List Char) : Option (Json × List Char) :=
  let sign := signPart ['-'] s
  let s := s.drop sign.length
  let digits := integerPart s
  let s := s.drop digits.length
  let fraction := fractionPart s
  let s := s.drop fraction.length
  let exponent := exponentPart s
  let s := s.drop exponent.length
  if digits = [] then none
  else if fraction ++ exponent = [] then
    if digits.length ≤ maxIntDigits then
      let n : ℤ := Nat.ofDigitChars 10 digits 0
      some (.int (if sign = [] then n else -n), s)
    else none
  else some (.float (floatOf (sign ++ digits ++ fraction ++ exponent)), s)

/-- The names, in the order in which `scan_once` looks for them around numbers. -/
def scanName (names : List (String × Json)) (s : List Char) : Option (Json × List Char) :=
  (names.find? fun p => p.1.toList.isPrefixOf s).map fun p => (p.2, s.drop p.1.length)

/-- `scan_once` of a text that opens no string, array or object. -/
def scanAtom (s : List Char) : Option (Json × List Char) :=
  (scanName [("null", .null), ("true", .bool true), ("false", .bool false)] s).or <|
    (scanNumber floatOf s).or <|
      scanName [("NaN", .float .nan), ("Infinity", .float .inf), ("-Infinity", .float .negInf)] s

/-! ## Values -/

/-- `d[key] = v`. -/
def setField (key : String) (v : Json) : List (String × Json) → List (String × Json)
  | [] => [(key, v)]
  | p :: ps => if p.1 = key then (key, v) :: ps else p :: setField key v ps

/-- `dict(pairs)`: a key stays where it first stood, and holds the last value. -/
def dictOf (pairs : List (String × Json)) : List (String × Json) :=
  pairs.foldl (fun d p => setField p.1 p.2 d) []

mutual

/-- `scan_once`. -/
def scanOnce : ℕ → List Char → Option (Json × List Char)
  | 0, _ => none
  | fuel + 1, s =>
    match s with
    | '"' :: s => (scanString s).map fun p => (.str p.1, p.2)
    | '[' :: s =>
      match skipBlanks s with
      | ']' :: r => some (.arr [], r)
      | s => (scanItems fuel s).map fun p => (.arr p.1, p.2)
    | '\x7b' :: s =>
      match skipBlanks s with
      | '\x7d' :: r => some (.obj [], r)
      | s => (scanFields fuel s).map fun p => (.obj (dictOf p.1), p.2)
    | s => scanAtom floatOf s

/-- The items of an array, up to its closing bracket. -/
def scanItems : ℕ → List Char → Option (List Json × List Char)
  | 0, _ => none
  | fuel + 1, s =>
    (scanOnce fuel s).bind fun p =>
      match skipBlanks p.2 with
      | ']' :: r => some ([p.1], r)
      | ',' :: r => (scanItems fuel (skipBlanks r)).map fun q => (p.1 :: q.1, q.2)
      | _ => none

/-- The fields of an object, up to its closing brace. -/
def scanFields : ℕ → List Char → Option (List (String × Json) × List Char)
  | 0, _ => none
  | fuel + 1, s =>
    match s with
    | '"' :: s =>
      (scanString s).bind fun key =>
        match skipBlanks key.2 with
        | ':' :: r =>
          (scanOnce fuel (skipBlanks r)).bind fun p =>
            match skipBlanks p.2 with
            | '\x7d' :: r => some ([(key.1, p.1)], r)
            | ',' :: r =>
              (scanFields fuel (skipBlanks r)).map fun q => ((key.1, p.1) :: q.1, q.2)
            | _ => none
        | _ => none
    | _ => none

end

/-- `\ufeff`. -/
def byteOrderMark : Char := Char.ofNat 65279

/-- `json.loads`; a byte order mark is refused. -/
def loads (s : List Char) : Option Json :=
  if s.head? = some byteOrderMark then none
  else
    (scanOnce floatOf (2 * s.length + 2) (skipBlanks s)).bind fun p =>
      if skipBlanks p.2 = [] then some p.1 else none

/-! ## `json.dump` -/

/-- The settings of a `JSONEncoder`. -/
structure Style where
  ensureAscii : Bool := true
  indent : Option ℕ := none

/-- A character of a string literal without `ensure_ascii`: only the quote, the backslash and
    the control characters are escaped. -/
def escapeCharRaw (c : Char) : List Char :=
  if c = '"' ∨ c = '\\' ∨ c.toNat < 32 then escapeChar c else [c]

namespace Style

variable (st : Style)

/-- A string literal. -/
def quote (s : String) : List Char :=
  '"' :: s.toList.flatMap (if st.ensureAscii then escapeChar else escapeCharRaw) ++ ['"']

/-- `newline_indent`. -/
def newline (level : ℕ) : List Char :=
  match st.indent with
  | some k => '\n' :: List.replicate (k * level) ' '
  | none => []

/-- `item_separator`, with what follows it. -/
def separator (level : ℕ) : List Char :=
  match st.indent with
  | some _ => ',' :: st.newline level
  | none => ", ".toList

end Style

section Encode

variable (floatText : PyFloat → List Char) (st : Style)

mutual

/-- `_iterencode`, at an indentation level; `floatText` writes a float. -/
def encode (level : ℕ) : Json → List Char
  | null => "null".toList
  | bool b => if b then "true".toList else "false".toList
  | int n => (toString n).toList
  | float f => floatText f
  | str s => st.quote s
  | arr [] => "[]".toList
  | arr (v :: vs) =>
    '[' :: st.newline (level + 1) ++ encode (level + 1) v ++ encodeItems (level + 1) vs ++
      st.newline level ++ [']']
  | obj [] => "\x7b\x7d".toList
  | obj (p :: ps) =>
    '\x7b' :: st.newline (level + 1) ++ encodeField (level + 1) p ++ encodeFields (level + 1) ps ++
      st.newline level ++ ['\x7d']

/-- The items behind the first. -/
def encodeItems (level : ℕ) : List Json → List Char
  | [] => []
  | v :: vs => st.separator level ++ encode level v ++ encodeItems level vs

/-- The fields behind the first. -/
def encodeFields (level : ℕ) : List (String × Json) → List Char
  | [] => []
  | p :: ps => st.separator level ++ encodeField level p ++ encodeFields level ps

/-- A field; `key_separator` is `": "`. -/
def encodeField (level : ℕ) : String × Json → List Char
  | (key, v) => st.quote key ++ ": ".toList ++ encode level v

end

end Encode

end Json

end DiscordAgent
