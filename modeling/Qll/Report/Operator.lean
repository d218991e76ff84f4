import Qll.Json.Value
import Qll.Number.Total
import Qll.Source.Tree

/-!
# Descriptions of operators

An operator is described by its number, its spelling and its operand rules. In a rule, families
and properties are sets written as numbers, one bit for each member.
-/

namespace Qll.Report

open Json (Value)
open Source (BinaryOp UnaryOp BinaryRule Family)

/-- The bit of a family. -/
def familyBit : Family → Nat
  | .numeric => 2
  | .pointer => 4
  | .function => 8

/-- A set of families as a number. -/
def families (fs : List Family) : Nat := Number.total familyBit fs

/-- The properties of a rule as a number. -/
def ruleProperties (r : BinaryRule) : Nat :=
  (if r.shortCircuit then 2 else 0) + (if r.sameType then 4 else 0) + (if r.scaled then 8 else 0)

/-- The description of a rule. -/
def rule (r : BinaryRule) : Value :=
  .array [families r.left, families r.right, if r.resultLeft then 1 else 0, ruleProperties r]

/-- What stands for an operator that does not exist. -/
def noOperator : String := "?"

/-- The description of the two-operand operator with a spelling. -/
def binaryOperator (s : String) : Value :=
  match BinaryOp.parse? s with
  | none => .array [false, 0, noOperator, Value.array []]
  | some op => .array [true, op.number, op.spelling, op.rules.map rule]

/-- The description of the one-operand operator with a spelling. -/
def unaryOperator (s : String) : Value :=
  match UnaryOp.parse? s with
  | none => .array [false, 0, noOperator]
  | some op => .array [true, op.number, op.spelling]

/-- The spellings of the operators with a number. -/
def operatorNames (n : Nat) : Value :=
  .strings
    [((BinaryOp.all.find? (·.number = n)).map (·.spelling)).getD noOperator,
      ((UnaryOp.all.find? (·.number = n)).map (·.spelling)).getD noOperator]

end Qll.Report
