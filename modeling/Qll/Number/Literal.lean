import Qll.Text.Ranges

/-!
# Number literals

A whole number in decimal, or in another base that its front names: `0x`, `0o`, `0b`, or `0` alone
for base eight. An underscore may stand between digits, and behind such a front.
-/

namespace Qll.Number

/-- Why a text is no number. -/
inductive LiteralError
  | malformed
  | outOfRange
  deriving DecidableEq, Inhabited

/-- The wording of an error. -/
def LiteralError.message : LiteralError → String
  | malformed => "invalid syntax"
  | outOfRange => "value out of range"

/-- Reads digits, leaving underscores out. A number of more than 64 bits ends the reading. -/
def magnitude (base : Nat) : List Char → Nat → Except LiteralError Nat
  | [], n => .ok n
  | c :: rest, n =>
    if c = '_' then magnitude base rest n
    else if Text.isHexDigit c ∧ Text.hexDigit c < base then
      let n := n * base + Text.hexDigit c
      if n < 2 ^ 64 then magnitude base rest n else .error .outOfRange
    else .error .malformed

/-- The base that the front of a literal names, and its digits. -/
def splitBase : List Char → Nat × List Char
  | '0' :: b :: d :: rest =>
    match b.toLower with
    | 'b' => (2, d :: rest)
    | 'o' => (8, d :: rest)
    | 'x' => (16, d :: rest)
    | _ => (8, b :: d :: rest)
  | '0' :: rest => (8, rest)
  | cs => (10, cs)

/-- Whether every underscore stands between two digits; `afterDigit` says what is in front. -/
def underscoresFit (hex : Bool) : Bool → List Char → Bool
  | _, [] => true
  | afterDigit, '_' :: rest =>
    afterDigit && (rest.head?.any fun c => c.isDigit || (hex && Text.isHexDigit c)) &&
      underscoresFit hex false rest
  | _, c :: rest => underscoresFit hex (c.isDigit || (hex && Text.isHexDigit c)) rest

/-- Whether the underscores of an unsigned literal are in place; the front of another base counts as
a digit. -/
def separated : List Char → Bool
  | '0' :: b :: rest =>
    match b.toLower with
    | 'x' => underscoresFit true true rest
    | 'o' | 'b' => underscoresFit false true rest
    | _ => underscoresFit false false ('0' :: b :: rest)
  | cs => underscoresFit false false cs

/-- Reads a literal of a signed number of 64 bits. -/
def parseLiteral (s : String) : Except LiteralError Int := do
  let (negative, cs) := match s.toList with
    | '-' :: rest => (true, rest)
    | '+' :: rest => (false, rest)
    | cs => (false, cs)
  if cs.isEmpty then throw .malformed
  let (base, digits) := splitBase cs
  let n ← magnitude base digits 0
  if !separated cs then throw .malformed
  if negative then
    if 9223372036854775808 < n then throw .outOfRange else return -(n : Int)
  else if 9223372036854775808 ≤ n then throw .outOfRange
  else return (n : Int)

end Qll.Number
