import Qll.Source.Location

/-!
# Program trees

The tree of a program as it is read: declarations, statements, expressions and written types, each
with its location, and the operators that expressions are made with.
-/

/-! ## Operators

The operators of the language, their spellings, and the families of operand types each accepts.
-/

namespace Qll.Source

/-- A two-operand operator. -/
inductive BinaryOp
  | add | sub | mul | div | mod | bitAnd | bitOr | bitXor | shiftLeft | shiftRight
  | logicalAnd | logicalOr | eq | notEq | less | lessEq | greater | greaterEq
  deriving DecidableEq, Inhabited

/-- A one-operand operator. -/
inductive UnaryOp
  | neg | not | bitNot | addressOf | deref
  deriving DecidableEq, Inhabited

namespace BinaryOp

/-- All operators in the order of their numbers, which start at one. -/
def all : List BinaryOp :=
  [add, sub, mul, div, mod, bitAnd, bitOr, bitXor, shiftLeft, shiftRight, logicalAnd, logicalOr,
    eq, notEq, less, lessEq, greater, greaterEq]

/-- The spelling of an operator. -/
def spelling : BinaryOp → String
  | add => "+" | sub => "-" | mul => "*" | div => "/" | mod => "%"
  | bitAnd => "&" | bitOr => "|" | bitXor => "^" | shiftLeft => "<<" | shiftRight => ">>"
  | logicalAnd => "&&" | logicalOr => "||"
  | eq => "==" | notEq => "!=" | less => "<" | lessEq => "<=" | greater => ">" | greaterEq => ">="

/-- The number of an operator. -/
def number (op : BinaryOp) : Nat := op.ctorIdx + 1

/-- The operator of a spelling. -/
def parse? (s : String) : Option BinaryOp := all.find? fun op => op.spelling == s

end BinaryOp

namespace UnaryOp

/-- All operators in the order of their numbers, which start at one. -/
def all : List UnaryOp := [neg, not, bitNot, addressOf, deref]

/-- The spelling of an operator. -/
def spelling : UnaryOp → String
  | neg => "-" | not => "!" | bitNot => "~" | addressOf => "&" | deref => "*"

/-- The number of an operator. -/
def number (op : UnaryOp) : Nat := op.ctorIdx + 1

/-- The operator of a spelling. -/
def parse? (s : String) : Option UnaryOp := all.find? fun op => op.spelling == s

end UnaryOp

/-- A family of types that fit a register. -/
inductive Family
  | numeric
  | pointer
  | function
  deriving DecidableEq, Inhabited

/-- Everything that fits a register. -/
def Family.integral : List Family := [.numeric, .pointer, .function]

/-- One admissible combination of operands. -/
structure BinaryRule where
  left : List Family
  right : List Family
  /-- Whether the result has the type of the left operand; otherwise it is a byte. -/
  resultLeft : Bool := false
  /-- Whether the right operand is evaluated only when the left one does not decide. -/
  shortCircuit : Bool := false
  /-- Whether one operand must be convertible to the other. -/
  sameType : Bool := false
  /-- Whether the right operand counts elements of the left pointer. -/
  scaled : Bool := false
  deriving DecidableEq, Inhabited

namespace BinaryOp

/-- Numbers with numbers. -/
def arithmetic : BinaryRule := { left := [.numeric], right := [.numeric] }

/-- A pointer moved by a number of elements. -/
def pointerStep : BinaryRule :=
  { left := [.pointer], right := [.numeric], resultLeft := true, scaled := true }

/-- An order of numbers or addresses. -/
def ordering : BinaryRule :=
  { left := [.numeric, .pointer], right := [.numeric, .pointer], sameType := true }

/-- The operand combinations an operator accepts, the first that fits being taken. -/
def rules : BinaryOp → List BinaryRule
  | add | sub => [arithmetic, pointerStep]
  | mul | div | mod | bitAnd | bitOr | bitXor | shiftLeft | shiftRight => [arithmetic]
  | logicalAnd | logicalOr =>
    [{ left := Family.integral, right := Family.integral, shortCircuit := true }]
  | eq | notEq => [{ left := Family.integral, right := Family.integral, sameType := true }]
  | less | lessEq | greater | greaterEq => [ordering]

end BinaryOp

end Qll.Source

/-! ## Program trees

The tree of a program as it is read: declarations, statements, expressions and written types, each
with its location. A missing part of a written form is `none`.
-/

namespace Qll.Source

/-- A type as it is written. A function type without a result returns no value. -/
inductive TypeExpr
  | name (text : String) (location : Location)
  | pointer (element : TypeExpr) (location : Location)
  | slice (element : TypeExpr) (location : Location)
  | array (element : TypeExpr) (length : Int) (location : Location)
  | struct (members : List (String × TypeExpr × Location)) (location : Location)
  | function (arguments : List TypeExpr) (result : Option TypeExpr) (location : Location)
  | apply (text : String) (arguments : List TypeExpr) (location : Location)
  | dot (base : TypeExpr) (member : String) (location : Location)
  deriving Inhabited

/-- Where a type is written. -/
def TypeExpr.location : TypeExpr → Location
  | name _ l | pointer _ l | slice _ l | array _ _ l | struct _ l | function _ _ l | apply _ _ l
  | dot _ _ l => l

/-- A parameter of a function. -/
structure Parameter where
  name : String
  type : TypeExpr
  location : Location
  deriving Inhabited

/-- An expression. -/
inductive Expr
  | integer (value : Int) (location : Location)
  | text (value : String) (location : Location)
  | null (location : Location)
  /-- A value of a struct type; members left out are zero. -/
  | struct (target : TypeExpr) (fields : List (String × Expr × Location)) (location : Location)
  | array (elements : List Expr) (location : Location)
  /-- The name of a variable or function, perhaps with template arguments. -/
  | name (text : String) (arguments : List TypeExpr) (location : Location)
  | call (callee : Expr) (arguments : List Expr) (location : Location)
  | member (base : Expr) (name : String) (location : Location)
  | arrow (base : Expr) (name : String) (location : Location)
  /-- An element; an unchecked access skips the bounds check. -/
  | index (base position : Expr) (unchecked : Bool) (location : Location)
  | cast (target : TypeExpr) (operand : Expr) (location : Location)
  | sizeOf (target : TypeExpr) (location : Location)
  /-- Allocation of one value, or of a slice of `count` values. -/
  | new (target : TypeExpr) (count : Option Expr) (location : Location)
  | binary (op : BinaryOp) (left right : Expr) (location : Location)
  | unary (op : UnaryOp) (operand : Expr) (location : Location)
  deriving Inhabited

/-- Where an expression is written. -/
def Expr.location : Expr → Location
  | integer _ l | text _ l | null l | struct _ _ l | array _ l | name _ _ l | call _ _ l
  | member _ _ l | arrow _ _ l | index _ _ _ l | cast _ _ l | sizeOf _ l | new _ _ l
  | binary _ _ _ l | unary _ _ l => l

/-- A statement. -/
inductive Stmt
  | expression (value : Expr) (location : Location)
  | var (name : String) (type : Option TypeExpr) (init : Option Expr) (location : Location)
  | assign (target value : Expr) (location : Location)
  | cond (condition : Expr) (yes no : List Stmt) (location : Location)
  | whileLoop (condition : Expr) (body : List Stmt) (location : Location)
  | forLoop (init : Option Stmt) (condition : Option Expr) (step : Option Stmt) (body : List Stmt)
    (location : Location)
  | breakLoop (location : Location)
  | giveBack (value : Option Expr) (location : Location)
  | block (body : List Stmt) (location : Location)
  | delete (value : Expr) (location : Location)
  deriving Inhabited

/-- Where a statement is written. -/
def Stmt.location : Stmt → Location
  | expression _ l | var _ _ _ l | assign _ _ l | cond _ _ _ l | whileLoop _ _ l | forLoop _ _ _ _ l
  | breakLoop l | giveBack _ l | block _ l | delete _ l => l

/-- A declaration. -/
inductive Decl
  | type (name : String) (params : List String) (definition : TypeExpr) (location : Location)
  | global (name : String) (type : Option TypeExpr) (init : Option Expr) (exported : Bool)
    (location : Location)
  | function (name : String) (typeParams : List String) (params : List Parameter)
    (result : Option TypeExpr) (body : List Stmt) (exported interrupt : Bool) (location : Location)
  | use (space : String) (location : Location)
  | space (name : String) (decls : List Decl) (location : Location)
  deriving Inhabited

end Qll.Source
