import Qll.Json.Value
import Qll.Text.Ranges

/-!
# Reading JSON

`parseFirst` reads the first value of a text and ignores what follows it. Values may be nested ten
thousand deep. An escape that is half of a surrogate pair stands for the replacement character.
Each reading function takes the remaining characters and returns those it leaves; twice the number
of characters bounds the recursion, also inside a string.
-/

namespace Qll.Json

/-- White space between the parts of a value. -/
def isBlank (c : Char) : Bool :=
  c = ' ' || c = '\t' || c = '\n' || c = '\r'

/-- The characters behind the white space. -/
def skipBlanks (cs : List Char) : List Char :=
  cs.dropWhile isBlank

/-- Whether a character is a hexadecimal digit. -/
def isHexDigit (c : Char) : Bool :=
  c.isDigit || ('a' ≤ c && c ≤ 'f') || ('A' ≤ c && c ≤ 'F')

/-- The number written by four hexadecimal digits at the front. -/
def fourHex : List Char → Option (Nat × List Char)
  | a :: b :: c :: d :: rest =>
    if [a, b, c, d].all isHexDigit then some (Text.hexNumber [a, b, c, d], rest) else none
  | _ => none

/-- The first half of a surrogate pair. -/
def isHighSurrogate (n : Nat) : Bool := 0xD800 ≤ n && n < 0xDC00

/-- The second half of a surrogate pair. -/
def isLowSurrogate (n : Nat) : Bool := 0xDC00 ≤ n && n < 0xE000

/-- The character that stands for what cannot be decoded. -/
def replacement : Char := Char.ofNat 0xFFFD

/-- The character of an escape with number `n`, and the rest. A high surrogate joins the low
surrogate of an escape right behind it. -/
def escapedChar (n : Nat) (rest : List Char) : Char × List Char :=
  if isHighSurrogate n then
    match rest with
    | '\\' :: 'u' :: after =>
      match fourHex after with
      | some (low, rest') =>
        if isLowSurrogate low then
          (Char.ofNat (0x10000 + (n - 0xD800) * 0x400 + (low - 0xDC00)), rest')
        else (replacement, rest)
      | none => (replacement, rest)
    | _ => (replacement, rest)
  else if isLowSurrogate n then (replacement, rest)
  else (Char.ofNat n, rest)

/-- The characters of a string up to its closing quote; `done` holds those read, last first. -/
def parseChars : Nat → List Char → List Char → Option (String × List Char)
  | 0, _, _ => none
  | fuel + 1, cs, done =>
    match cs with
    | [] => none
    | '"' :: rest => some (String.ofList done.reverse, rest)
    | '\\' :: e :: rest =>
      match e with
      | '"' => parseChars fuel rest ('"' :: done)
      | '\\' => parseChars fuel rest ('\\' :: done)
      | '/' => parseChars fuel rest ('/' :: done)
      | 'b' => parseChars fuel rest (Char.ofNat 8 :: done)
      | 'f' => parseChars fuel rest (Char.ofNat 12 :: done)
      | 'n' => parseChars fuel rest ('\n' :: done)
      | 'r' => parseChars fuel rest ('\r' :: done)
      | 't' => parseChars fuel rest ('\t' :: done)
      | 'u' =>
        match fourHex rest with
        | none => none
        | some (n, after) =>
          let (c, rest') := escapedChar n after
          parseChars fuel rest' (c :: done)
      | _ => none
    | c :: rest => if c.toNat < 0x20 ∨ c = '\\' then none else parseChars fuel rest (c :: done)

/-- The digits at the front, at least one. -/
def someDigits (cs : List Char) : Option (List Char × List Char) :=
  match cs.takeWhile Char.isDigit with
  | [] => none
  | digits => some (digits, cs.dropWhile Char.isDigit)

/-- The whole part of a number: a zero, or digits that do not start with one. -/
def wholePart : List Char → Option (List Char × List Char)
  | '0' :: rest => some (['0'], rest)
  | cs => someDigits cs

/-- The fraction of a number, if there is one. -/
def fraction : List Char → Option (List Char × List Char)
  | '.' :: rest => (someDigits rest).map fun (digits, rest') => ('.' :: digits, rest')
  | cs => some ([], cs)

/-- The exponent of a number, if there is one. -/
def exponent : List Char → Option (List Char × List Char)
  | e :: rest =>
    if e = 'e' ∨ e = 'E' then
      match rest with
      | sign :: digits =>
        if sign = '+' ∨ sign = '-' then
          (someDigits digits).map fun (ds, rest') => (e :: sign :: ds, rest')
        else (someDigits rest).map fun (ds, rest') => (e :: ds, rest')
      | [] => none
    else some ([], e :: rest)
  | [] => some ([], [])

/-- A number without its sign. -/
def unsigned (cs : List Char) : Option (List Char × List Char) := do
  let (whole, cs) ← wholePart cs
  let (part, cs) ← fraction cs
  let (power, cs) ← exponent cs
  pure (whole ++ part ++ power, cs)

/-- A number. -/
def parseNumber : List Char → Option (Value × List Char)
  | '-' :: rest => (unsigned rest).map fun (digits, rest') =>
    (.number (String.ofList ('-' :: digits)), rest')
  | cs => (unsigned cs).map fun (digits, rest) => (.number (String.ofList digits), rest)

/-- What follows a keyword. -/
def keyword (word : String) (value : Value) (cs : List Char) : Option (Value × List Char) :=
  let letters := word.toList
  if letters.isPrefixOf cs then some (value, cs.drop letters.length) else none

mutual

/-- A value at the front of the characters; `depth` is how deep arrays and objects may still
nest. -/
def parseValue : Nat → Nat → List Char → Option (Value × List Char)
  | 0, _, _ => none
  | fuel + 1, depth, cs =>
    match skipBlanks cs with
    | '"' :: rest => (parseChars fuel rest []).map fun (s, rest') =>
      (.string s, rest')
    | '[' :: rest =>
      match depth with
      | 0 => none
      | depth + 1 =>
        match skipBlanks rest with
        | ']' :: rest' => some (.array [], rest')
        | rest' => parseItems fuel depth rest' []
    | '\x7b' :: rest =>
      match depth with
      | 0 => none
      | depth + 1 =>
        match skipBlanks rest with
        | '\x7d' :: rest' => some (.object [], rest')
        | rest' => parseFields fuel depth rest' []
    | 't' :: rest => keyword "rue" (.bool true) rest
    | 'f' :: rest => keyword "alse" (.bool false) rest
    | 'n' :: rest => keyword "ull" .null rest
    | rest => parseNumber rest

/-- The items of an array up to its bracket; `done` holds those read, last first. -/
def parseItems : Nat → Nat → List Char → List Value → Option (Value × List Char)
  | 0, _, _, _ => none
  | fuel + 1, depth, cs, done =>
    match parseValue fuel depth cs with
    | none => none
    | some (v, rest) =>
      match skipBlanks rest with
      | ',' :: rest' => parseItems fuel depth rest' (v :: done)
      | ']' :: rest' => some (.array (v :: done).reverse, rest')
      | _ => none

/-- The fields of an object up to its brace; `done` holds those read, last first. -/
def parseFields : Nat → Nat → List Char → List (String × Value) → Option (Value × List Char)
  | 0, _, _, _ => none
  | fuel + 1, depth, cs, done =>
    match skipBlanks cs with
    | '"' :: rest =>
      match parseChars fuel rest [] with
      | none => none
      | some (name, rest') =>
        match skipBlanks rest' with
        | ':' :: after =>
          match parseValue fuel depth after with
          | none => none
          | some (v, rest'') =>
            match skipBlanks rest'' with
            | ',' :: more => parseFields fuel depth more ((name, v) :: done)
            | '\x7d' :: more => some (.object ((name, v) :: done).reverse, more)
            | _ => none
        | _ => none
    | _ => none

end

/-- How deep arrays and objects may nest. -/
def maxDepth : Nat := 10000

/-- The first value of a text. -/
def parseFirst (cs : List Char) : Option Value :=
  (parseValue (2 * cs.length + 2) maxDepth cs).map Prod.fst

end Qll.Json
