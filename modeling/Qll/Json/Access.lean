import Qll.Json.Value
import Qll.Text.Ranges

/-!
# Looking into JSON values

A value of another kind is treated as an empty one, and of repeated fields the last one counts.
-/

namespace Qll.Json

/-! ## The value of a JSON number

The spelling of a number is an optional sign, digits, an optional fraction and an optional
exponent. Its value is the nearest floating-point number.
-/

/-- The number that some decimal digits spell. -/
def digitsValue (digits : List Char) : Nat :=
  digits.foldl (fun n c => 10 * n + (c.toNat - 48)) 0

/-- The digits after the point, and what follows them. -/
def splitFraction : List Char → List Char × List Char
  | '.' :: rest => (rest.takeWhile Char.isDigit, rest.dropWhile Char.isDigit)
  | rest => ([], rest)

/-- The exponent that a number ends in; without one it is zero. -/
def exponentValue : List Char → Int
  | _ :: '-' :: digits => -(digitsValue digits : Int)
  | _ :: '+' :: digits => digitsValue digits
  | _ :: digits => digitsValue digits
  | [] => 0

/-- The floating-point number nearest to a spelling. -/
def floatOfLiteral (literal : String) : Float :=
  let cs := literal.toList
  let negative := cs.head? == some '-'
  let cs := if negative then cs.drop 1 else cs
  let whole := cs.takeWhile Char.isDigit
  let (fraction, rest) := splitFraction (cs.dropWhile Char.isDigit)
  let exponent := exponentValue rest - fraction.length
  let size := Float.ofScientific (digitsValue (whole ++ fraction)) (exponent < 0) exponent.natAbs
  if negative then -size else size

/-- The value of a number; anything else counts as zero. -/
def Value.toFloat : Value → Float
  | .number literal => floatOfLiteral literal
  | _ => 0

end Qll.Json

namespace Qll.Json.Value

/-- The fields of an object. -/
def fields : Value → List (String × Value)
  | .object fields => fields
  | _ => []

/-- The items of an array. -/
def items : Value → List Value
  | .array items => items
  | _ => []

/-- The text of a string. -/
def text : Value → String
  | .string s => s
  | _ => ""

/-- The whole number that a number spells. -/
def toInt : Value → Int
  | .number literal => literal.toInt?.getD 0
  | _ => 0

/-- Whether a value is `true`. -/
def isTrue : Value → Bool
  | .bool b => b
  | _ => false

/-- Whether a value is `null`. -/
def isNull : Value → Bool
  | .null => true
  | _ => false

/-- A field of an object; a missing one is null. -/
def get (v : Value) (name : String) : Value := (v.fields.reverse.lookup name).getD .null

end Qll.Json.Value
