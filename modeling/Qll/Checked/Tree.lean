import Qll.Check.Storage
import Qll.Machine.Word
import Qll.Source.Tree

/-!
# Checked trees

What checking leaves of expressions and statements: names are resolved to storage, literals to
words, members to offsets, and the types that code generation asks for stand in the tree. A part
that is missing belongs to an expression of the error type.
-/

namespace Qll.Checked

open Check (Storage)
open Source (BinaryOp BinaryRule UnaryOp)
open Qll.Types (Ty Member)

/-- How the element of an indexed value is reached. -/
inductive IndexKind
  | array (length : Int)
  | pointer
  | slice
  deriving DecidableEq, Inhabited

/-- A checked expression. -/
inductive Expr
  | integer (word : Machine.Word)
  | text (value : String)
  | null
  /-- A struct value: its members, and the fields given in the order written. -/
  | struct (members : Option (List (Member Ty))) (fields : List (String × Expr))
  | array (element : Option Ty) (elements : List Expr)
  | name (text : String) (storage : Option Storage) (type : Ty)
  /-- A call with the parameter types and the result type of the callee. -/
  | call (callee : Expr) (arguments : List Expr) (signature : Option (List Ty × Ty))
  /-- A member; `length` says that it is the length of a slice. -/
  | member (base : Expr) (offset : Int) (type : Ty) (length : Bool)
  | arrow (base : Expr) (offset : Int) (type : Ty) (length : Bool)
  | index (base position : Expr) (unchecked : Bool) (kind : IndexKind) (type : Ty)
  | cast (operand : Expr)
  | sizeOf (size : Int)
  /-- Allocation: the element type and the allocating function. -/
  | new (heap : Option (Ty × Storage)) (count : Option Expr)
  /-- An operation; `element` is the element type of a pointer that is moved. -/
  | binary (op : BinaryOp) (rule : Option BinaryRule) (left right : Expr) (element : Option Ty)
  | unary (op : UnaryOp) (operand : Expr) (type : Ty)
  /-- The descriptor of an array of fixed length. -/
  | descriptor (data : Expr) (length : Int)
  deriving Inhabited

/-- A checked statement. -/
inductive Stmt
  | expression (value : Expr)
  | var (storage : Storage) (init : Option Expr)
  /-- An assignment; `length` says that the length of a slice is written. -/
  | assign (target : Expr) (type : Ty) (value : Expr) (length : Bool)
  | cond (condition : Expr) (yes no : List Stmt)
  | whileLoop (condition : Expr) (body : List Stmt)
  | forLoop (init : Option Stmt) (condition : Option Expr) (step : Option Stmt) (body : List Stmt)
  | breakLoop
  | giveBack (value : Option (Expr × Ty))
  | block (body : List Stmt)
  | delete (value : Expr) (slice : Bool) (release : Option Storage)
  deriving Inhabited

/-- Whether an expression denotes storage that can be written. -/
def Expr.isAddressable : Expr → Bool
  | name _ (some st) _ => st.kind != .function
  | unary op _ _ => op == .deref
  | member base _ _ _ => base.isAddressable
  | arrow .. => true
  | index base _ _ (.array _) _ => base.isAddressable
  | index .. => true
  | _ => false

/-- Whether an expression is the length word of a slice. -/
def Expr.isSliceLength : Expr → Bool
  | member _ _ _ length | arrow _ _ _ length => length
  | _ => false

/-! ## Storage that a tree names

`Expr.Over P` says that every storage an expression names has the property `P`, and likewise for
statements. Code generation asks for the label of nothing else. -/

mutual

/-- Every storage that an expression names has a property. -/
def Expr.Over (P : Storage → Prop) : Expr → Prop
  | .integer _ | .text _ | .null | .sizeOf _ => True
  | .struct _ fields => FieldsOver P fields
  | .array _ elements => ExprsOver P elements
  | .name _ none _ => True
  | .name _ (some st) _ => P st
  | .call callee arguments _ => callee.Over P ∧ ExprsOver P arguments
  | .member base _ _ _ | .arrow base _ _ _ => base.Over P
  | .index base position _ _ _ => base.Over P ∧ position.Over P
  | .cast operand => operand.Over P
  | .new heap none => ∀ h ∈ heap, P h.2
  | .new heap (some count) => (∀ h ∈ heap, P h.2) ∧ count.Over P
  | .binary _ _ left right _ => left.Over P ∧ right.Over P
  | .unary _ operand _ => operand.Over P
  | .descriptor data _ => data.Over P

/-- Every storage that some expressions name has a property. -/
def ExprsOver (P : Storage → Prop) : List Expr → Prop
  | [] => True
  | e :: rest => e.Over P ∧ ExprsOver P rest

/-- Every storage that the fields of a struct value name has a property. -/
def FieldsOver (P : Storage → Prop) : List (String × Expr) → Prop
  | [] => True
  | (_, e) :: rest => e.Over P ∧ FieldsOver P rest

end

mutual

/-- Every storage that a statement names has a property. -/
def Stmt.Over (P : Storage → Prop) : Stmt → Prop
  | .expression value => value.Over P
  | .var st none => P st
  | .var st (some init) => P st ∧ init.Over P
  | .assign target _ value _ => target.Over P ∧ value.Over P
  | .cond condition yes no => condition.Over P ∧ StmtsOver P yes ∧ StmtsOver P no
  | .whileLoop condition body => condition.Over P ∧ StmtsOver P body
  | .forLoop init condition step body =>
    StmtOver? P init ∧ (∀ e ∈ condition, e.Over P) ∧ StmtOver? P step ∧ StmtsOver P body
  | .breakLoop => True
  | .giveBack value => ∀ v ∈ value, v.1.Over P
  | .block body => StmtsOver P body
  | .delete value _ release => value.Over P ∧ ∀ st ∈ release, P st

/-- Every storage that a statement names, if there is one, has a property. -/
def StmtOver? (P : Storage → Prop) : Option Stmt → Prop
  | none => True
  | some s => s.Over P

/-- Every storage that some statements name has a property. -/
def StmtsOver (P : Storage → Prop) : List Stmt → Prop
  | [] => True
  | s :: rest => s.Over P ∧ StmtsOver P rest

end

end Qll.Checked
