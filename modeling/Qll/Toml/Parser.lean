import Qll.Text.Basic
import Qll.Text.Ranges
import Qll.Text.Utf8

/-!
# Reading TOML

A reader takes something from the front of the text and gives what is left, or fails. Blanks are
spaces and tabs; a line ends in a line feed that may have a carriage return in front.
-/

namespace Qll.Toml

/-! ## Syntax

A document is a list of statements: headers that open a table, and assignments of a value to a key.
A key has one or more parts.
-/

/-- A key; its parts lead from the outermost table inwards. -/
abbrev Key := List String

/-- A value. Numbers with a fraction and points in time are known by their kind only. -/
inductive Value
  | string (text : String)
  | int (number : Int)
  | float
  | bool (value : Bool)
  | time
  | array (items : List Value)
  | inline (fields : List (Key × Value))
  deriving Inhabited

/-- A statement. -/
inductive Statement
  /-- Opens a table. -/
  | table (key : Key)
  /-- Appends a table to a list of tables and opens it. -/
  | tables (key : Key)
  | assign (key : Key) (value : Value)
  deriving Inhabited

/-- The characters that a key may have without quotes. -/
def isBareChar (c : Char) : Bool := c.isAlphanum || c == '_' || c == '-'

/-- How a character is written in a quoted part of a key. -/
def escapeChar (c : Char) : String :=
  let n := c.toNat
  if c = '"' then "\\\""
  else if c = '\\' then "\\\\"
  else if n = 8 then "\\b"
  else if n = 9 then "\\t"
  else if n = 10 then "\\n"
  else if n = 12 then "\\f"
  else if n = 13 then "\\r"
  else if n < 0x20 ∨ n = 0x7F then "\\u" ++ Text.hexPadded 4 n
  else c.toString

/-- A part of a key, in quotes where it needs them. -/
def partText (part : String) : String :=
  if part ≠ "" ∧ part.toList.all isBareChar then part
  else "\"" ++ String.join (part.toList.map escapeChar) ++ "\""

/-- The text of a key. -/
def keyText (key : Key) : String := Text.join "." (key.map partText)

/-! ## Readers -/

/-- Takes something from the front of a text. -/
abbrev Reader (α : Type) := StateT (List Char) Option α

namespace Reader

/-- Drops blanks. -/
def blanks : Reader Unit := modify (·.dropWhile fun c => c == ' ' || c == '\t')

/-- Whether the text continues with `c`, which is then dropped. -/
def accept (c : Char) : Reader Bool := fun cs =>
  match cs with
  | d :: rest => if d = c then some (true, rest) else some (false, cs)
  | [] => some (false, [])

/-- Drops `c`, which has to come next. -/
def expect (c : Char) : Reader Unit := do guard (← accept c)

/-- The characters of a class at the front. -/
def span (p : Char → Bool) : Reader (List Char) := fun cs => some (cs.takeWhile p, cs.dropWhile p)

/-- The next character, which is not taken. -/
def peek : Reader (Option Char) := return (← get).head?

/-- The next character. -/
def next : Reader Char := fun cs =>
  match cs with
  | c :: rest => some (c, rest)
  | [] => none

/-- Whether the text continues with some characters. -/
def sees (front : List Char) : Reader Bool := return front.isPrefixOf (← get)

/-- Drops some characters. -/
def drop (n : Nat) : Reader Unit := modify (·.drop n)

end Reader

open Reader

/-- Control characters other than the tab cannot stand in a text or a comment. -/
def isControl (c : Char) : Bool := (c.toNat < 0x20 && c != '\t') || c.toNat == 0x7F

/-- Drops a line end if there is one. -/
def lineEnd : Reader Bool := do
  if ← sees ['\r', '\n'] then
    drop 2
    return true
  accept '\n'

/-- Drops blanks and a comment. -/
def comment : Reader Unit := do
  blanks
  if ← accept '#' then
    let _ ← span fun c => !isControl c
    let rest ← get
    guard (rest.isEmpty || rest.head? == some '\n' || ['\r', '\n'].isPrefixOf rest)

/-- Nothing but blanks and a comment may follow on the line. -/
def endOfLine : Reader Unit := do
  comment
  guard ((← get).isEmpty || (← lineEnd))

/-! ## Strings -/

/-- The character of a code in hexadecimal digits. -/
def coded (digits : Nat) : Reader Char := fun cs =>
  let code := cs.take digits
  let n := Text.hexNumber code
  if code.length = digits ∧ code.all Text.isHexDigit ∧ n.isValidChar then
    some (Char.ofNat n, cs.drop digits)
  else none

/-- The character that an escape stands for; its backslash has been dropped. -/
def escaped : Reader Char := do
  match ← next with
  | 'b' => return Char.ofNat 8
  | 't' => return '\t'
  | 'n' => return '\n'
  | 'f' => return Char.ofNat 12
  | 'r' => return '\r'
  | '"' => return '"'
  | '\\' => return '\\'
  | 'u' => coded 4
  | 'U' => coded 8
  | _ => failure

/-- The rest of a string on one line, up to its quote. -/
def basic : Nat → List Char → Reader String
  | 0, _ => failure
  | n + 1, done => do
    match ← next with
    | '"' => return String.ofList done.reverse
    | '\\' => do basic n ((← escaped) :: done)
    | c =>
      guard !(isControl c)
      basic n (c :: done)

/-- The rest of a string without escapes, up to its quote. -/
def literal : Reader String := do
  let cs ← span fun c => c != '\'' && !isControl c
  expect '\''
  return String.ofList cs

/-- Drops white space over any number of lines. -/
def foldLines : Nat → Reader Unit
  | 0 => return
  | n + 1 => do
    blanks
    if ← lineEnd then foldLines n

/-- The quotes at the end of a string over several lines: three end it, and up to two more belong to
it. -/
def closing (quote : Char) : Reader (Option Nat) := do
  let n := ((← get).takeWhile (· == quote)).length
  if n < 3 then return none
  guard (n ≤ 5)
  drop n
  return some (n - 3)

/-- The rest of a string over several lines. With `escapes` a backslash has its meaning, and one at
the end of a line joins it with the next text. -/
def multiline (quote : Char) (escapes : Bool) : Nat → List Char → Reader String
  | 0, _ => failure
  | n + 1, done => do
    match ← closing quote with
    | some extra => return String.ofList (List.replicate extra quote ++ done).reverse
    | none =>
      if ← lineEnd then multiline quote escapes n ('\n' :: done)
      else
        let c ← next
        if escapes && c == '\\' then
          let rest ← get
          let line := rest.dropWhile fun c => c == ' ' || c == '\t'
          if line.head? == some '\n' || ['\r', '\n'].isPrefixOf line then
            foldLines rest.length
            multiline quote escapes n done
          else do multiline quote escapes n ((← escaped) :: done)
        else
          guard !(isControl c)
          multiline quote escapes n (c :: done)

/-- A string over several lines; a line end right at its start does not count. -/
def multilineString (quote : Char) : Reader String := do
  drop 3
  let _ ← lineEnd
  multiline quote (quote == '"') ((← get).length + 1) []

/-- A string. -/
def stringValue : Reader String := do
  if ← sees ['"', '"', '"'] then multilineString '"'
  else if ← sees ['\'', '\'', '\''] then multilineString '\''
  else if ← accept '"' then basic ((← get).length + 1) []
  else
    expect '\''
    literal

/-! ## Keys -/

/-- One part of a key. -/
def keyPart : Reader String := do
  match ← peek with
  | some '"' =>
    drop 1
    basic ((← get).length + 1) []
  | some '\'' =>
    drop 1
    literal
  | _ =>
    let cs ← span isBareChar
    guard !cs.isEmpty
    return String.ofList cs

/-- The parts of a key after the first, each behind a dot. -/
def keyParts : Nat → Reader (List String)
  | 0 => failure
  | n + 1 => do
    blanks
    if ← accept '.' then
      blanks
      let part ← keyPart
      return part :: (← keyParts n)
    else return []

/-- A key with the blanks around it. -/
def key : Reader Key := do
  blanks
  let first ← keyPart
  return first :: (← keyParts ((← get).length + 1))

/-! ## Numbers and points in time -/

/-- The digits of a number in some base; one underscore may stand between two digits. -/
def digits? (isDigit : Char → Bool) : List Char → Option (List Char)
  | [] => none
  | [c] => if isDigit c then some [c] else none
  | c :: '_' :: rest => if isDigit c then (digits? isDigit rest).map (c :: ·) else none
  | c :: rest => if isDigit c then (digits? isDigit rest).map (c :: ·) else none

/-- The number of some hexadecimal, octal or binary digits. -/
def numberInBase (base : Nat) (digits : List Char) : Nat :=
  digits.foldl (fun n c => base * n + Text.hexDigit c) 0

/-- Whole numbers have 64 bits. -/
def fitting? (n : Int) : Option Int :=
  if -9223372036854775808 ≤ n ∧ n < 9223372036854775808 then some n else none

/-- The digits of a whole number in decimal; it has no leading zeros. -/
def decimal? (cs : List Char) : Option (List Char) := do
  let ds ← digits? Char.isDigit cs
  guard (ds.length == 1 || ds.head? != some '0')
  return ds

/-- The sign of a number, and the text behind it. -/
def signed : List Char → Bool × List Char
  | '-' :: rest => (true, rest)
  | '+' :: rest => (false, rest)
  | cs => (false, cs)

/-- A whole number. -/
def int? (cs : List Char) : Option Int :=
  match cs with
  | '0' :: 'x' :: rest => do
    fitting? (numberInBase 16 (← digits? Text.isHexDigit rest))
  | '0' :: 'o' :: rest => do
    fitting? (numberInBase 8 (← digits? (fun c => '0' ≤ c && c ≤ '7') rest))
  | '0' :: 'b' :: rest => do
    fitting? (numberInBase 2 (← digits? (fun c => c == '0' || c == '1') rest))
  | cs => do
    let (negative, cs) := signed cs
    let n : Int := numberInBase 10 (← decimal? cs)
    fitting? (if negative then -n else n)

/-- Whether a text is an exponent. -/
def isExponent : List Char → Bool
  | c :: rest => (c == 'e' || c == 'E') && (digits? Char.isDigit (signed rest).2).isSome
  | [] => false

/-- Whether a text is a number with a fraction or an exponent, infinite, or no number. -/
def isFloat (cs : List Char) : Bool :=
  let cs := (signed cs).2
  if cs == ['i', 'n', 'f'] || cs == ['n', 'a', 'n'] then true
  else
    let numeral (c : Char) : Bool := c.isDigit || c == '_'
    let whole := cs.takeWhile numeral
    (decimal? whole).isSome &&
      match cs.dropWhile numeral with
      | '.' :: rest =>
        (digits? Char.isDigit (rest.takeWhile numeral)).isSome &&
          (rest.all numeral || isExponent (rest.dropWhile numeral))
      | rest => isExponent rest

/-- Two digits at the front, within bounds, and the text behind them. -/
def twoDigits? (low high : Nat) : List Char → Option (List Char)
  | a :: b :: rest =>
    let n := numberInBase 10 [a, b]
    if a.isDigit && b.isDigit && low ≤ n && n ≤ high then some rest else none
  | _ => none

/-- A separator at the front, and the text behind it. -/
def separator? (c : Char) : List Char → Option (List Char)
  | d :: rest => if d = c then some rest else none
  | [] => none

/-- The number of days in a month. -/
def daysIn (year month : Nat) : Nat :=
  if month = 2 then
    if year % 4 = 0 ∧ (year % 100 ≠ 0 ∨ year % 400 = 0) then 29 else 28
  else if month = 4 ∨ month = 6 ∨ month = 9 ∨ month = 11 then 30
  else 31

/-- The text behind a date at the front. -/
def afterDate? (cs : List Char) : Option (List Char) := do
  let year := cs.take 4
  guard (year.length == 4 && year.all Char.isDigit)
  let months ← separator? '-' (cs.drop 4)
  let rest ← twoDigits? 1 12 months
  let days ← separator? '-' rest
  twoDigits? 1 (daysIn (numberInBase 10 year) (numberInBase 10 (months.take 2))) days

/-- The text behind a time of day at the front. -/
def afterTime? (cs : List Char) : Option (List Char) := do
  let rest ← twoDigits? 0 23 cs
  let rest ← twoDigits? 0 59 (← separator? ':' rest)
  let rest ← twoDigits? 0 59 (← separator? ':' rest)
  match rest with
  | '.' :: rest =>
    guard (rest.head?.any Char.isDigit)
    return rest.dropWhile Char.isDigit
  | rest => return rest

/-- Whether a text is an offset from universal time, or missing. -/
def isOffset : List Char → Bool
  | [] => true
  | ['Z'] | ['z'] => true
  | c :: rest =>
    (c == '+' || c == '-') &&
      ((twoDigits? 0 23 rest).bind (separator? ':') |>.bind (twoDigits? 0 59)) == some []

/-- Whether a text is a date, a time of day, or both. -/
def isTime (cs : List Char) : Bool :=
  afterTime? cs == some [] ||
    match afterDate? cs with
    | none => false
    | some [] => true
    | some (c :: rest) =>
      (c == 'T' || c == 't' || c == ' ') && ((afterTime? rest).any isOffset)

/-- The characters of an unquoted value. -/
def isWordChar (c : Char) : Bool :=
  c.isAlphanum || c == '_' || c == '+' || c == '-' || c == '.' || c == ':'

/-- An unquoted value. A date may be followed by a blank and a time of day. -/
def word : Reader Value := do
  let cs ← span isWordChar
  let rest ← get
  let more := (rest.drop 1).takeWhile isWordChar
  if afterDate? cs == some [] && rest.head? == some ' ' && more.head?.any Char.isDigit then
    drop (more.length + 1)
    guard (isTime (cs ++ ' ' :: more))
    return .time
  if cs == ['t', 'r', 'u', 'e'] then return .bool true
  if cs == ['f', 'a', 'l', 's', 'e'] then return .bool false
  match int? cs with
  | some n => return .int n
  | none =>
    if isTime cs then return .time
    guard (isFloat cs)
    return .float

/-! ## Values and statements -/

/-- Drops blanks, comments and line ends. -/
def gaps : Nat → Reader Unit
  | 0 => return
  | n + 1 => do
    comment
    if ← lineEnd then gaps n

mutual

/-- A value; `fuel` bounds the number of steps. -/
def value (fuel : Nat) : Reader Value := do
  match fuel with
  | 0 => failure
  | n + 1 =>
    match ← peek with
    | some '[' =>
      drop 1
      return .array (← items n)
    | some '\x7b' =>
      drop 1
      blanks
      if ← accept '\x7d' then return .inline []
      return .inline (← fields n)
    | some '"' | some '\'' => return .string (← stringValue)
    | _ => word

/-- The items of an array and its closing bracket. -/
def items (fuel : Nat) : Reader (List Value) := do
  match fuel with
  | 0 => failure
  | n + 1 =>
    gaps ((← get).length + 1)
    if ← accept ']' then return []
    let first ← value n
    gaps ((← get).length + 1)
    if ← accept ',' then return first :: (← items n)
    expect ']'
    return [first]

/-- The fields of an inline table and its closing brace. -/
def fields (fuel : Nat) : Reader (List (Key × Value)) := do
  match fuel with
  | 0 => failure
  | n + 1 =>
    let k ← key
    expect '='
    blanks
    let v ← value n
    blanks
    if ← accept ',' then return (k, v) :: (← fields n)
    expect '\x7d'
    return [(k, v)]

end

/-- A header, behind its opening bracket. -/
def header : Reader Statement := do
  if ← accept '[' then
    let k ← key
    expect ']'
    expect ']'
    return .tables k
  else
    let k ← key
    expect ']'
    return .table k

/-- An assignment. -/
def assignment : Reader Statement := do
  let k ← key
  expect '='
  blanks
  return .assign k (← value ((← get).length + 1))

/-- The statements of a document. -/
def statements : Nat → Reader (List Statement)
  | 0 => return []
  | n + 1 => do
    gaps ((← get).length + 1)
    if (← get).isEmpty then return []
    let first ← if ← accept '[' then header else assignment
    endOfLine
    return first :: (← statements n)

/-- The text of a document: a mark of the byte order at its start is dropped. -/
def withoutMark : List UInt8 → List UInt8
  | 0xFF :: 0xFE :: rest => rest
  | 0xFE :: 0xFF :: rest => rest
  | 0xEF :: 0xBB :: 0xBF :: rest => rest
  | bytes => bytes

/-- Reads a document. -/
def parse? (bytes : List UInt8) : Option (List Statement) :=
  let bytes := withoutMark bytes
  if Text.isText bytes then
    let cs := Text.decodeFrom 0 bytes
    (statements (cs.length + 1) cs).map (·.1)
  else none

end Qll.Toml
