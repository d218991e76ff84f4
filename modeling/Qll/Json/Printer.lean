import Qll.Json.Value

/-!
# Writing JSON

Two layouts: without any blanks, and with every item and field on a line of its own, indented by
two blanks per level. Besides what the format requires, `<`, `>`, `&` and the two Unicode line
separators are escaped, so that the text can stand inside markup.
-/

namespace Qll.Json

/-- How one character is written inside a string. -/
def escapeChar (c : Char) : String :=
  if c = '"' then "\\\""
  else if c = '\\' then "\\\\"
  else if c = '\n' then "\\n"
  else if c = '\r' then "\\r"
  else if c = '\t' then "\\t"
  else
    let n := c.toNat
    if n = 8 then "\\b"
    else if n = 12 then "\\f"
    else if n < 0x20 ∨ c = '<' ∨ c = '>' ∨ c = '&' ∨ n = 0x2028 ∨ n = 0x2029 then
      "\\u" ++ Text.hexPadded 4 n
    else c.toString

/-- A string with its quotes. -/
def escape (s : String) : String :=
  "\"" ++ s.foldl (fun done c => done ++ escapeChar c) "" ++ "\""

/-- A line break followed by the indentation of a level. -/
def newline (level : Nat) : String :=
  "\n" ++ Text.replicate (2 * level) ' '

namespace Value

mutual

/-- The text of a value without blanks. -/
def compact : Value → String
  | null => "null"
  | bool b => if b then "true" else "false"
  | number literal => literal
  | string s => escape s
  | array items => "[" ++ compactItems items ++ "]"
  | object fields => "\x7b" ++ compactFields fields ++ "\x7d"

/-- Items separated by commas. -/
def compactItems : List Value → String
  | [] => ""
  | [v] => v.compact
  | v :: rest => v.compact ++ "," ++ compactItems rest

/-- Fields separated by commas. -/
def compactFields : List (String × Value) → String
  | [] => ""
  | [(k, v)] => escape k ++ ":" ++ v.compact
  | (k, v) :: rest => escape k ++ ":" ++ v.compact ++ "," ++ compactFields rest

end

mutual

/-- The text of a value with one item or field per line; `level` is the depth it stands at. -/
def indented (level : Nat) : Value → String
  | null => "null"
  | bool b => if b then "true" else "false"
  | number literal => literal
  | string s => escape s
  | array [] => "[]"
  | array items =>
    "[" ++ newline (level + 1) ++ indentedItems (level + 1) items ++ newline level ++ "]"
  | object [] => "\x7b\x7d"
  | object fields =>
    "\x7b" ++ newline (level + 1) ++ indentedFields (level + 1) fields ++ newline level ++ "\x7d"

/-- Items, each on a line of its own. -/
def indentedItems (level : Nat) : List Value → String
  | [] => ""
  | [v] => v.indented level
  | v :: rest => v.indented level ++ "," ++ newline level ++ indentedItems level rest

/-- Fields, each on a line of its own. -/
def indentedFields (level : Nat) : List (String × Value) → String
  | [] => ""
  | [(k, v)] => escape k ++ ": " ++ v.indented level
  | (k, v) :: rest =>
    escape k ++ ": " ++ v.indented level ++ "," ++ newline level ++ indentedFields level rest

end

end Value

end Qll.Json
