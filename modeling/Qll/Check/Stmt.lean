import Qll.Check.Expr

/-!
# Checking statements

Statements are checked in order. A block has a scope of its own; the initial value of a variable
does not see the variable.
-/

namespace Qll.Check

open Source (Location Expr Stmt)
open Qll.Types (Ty)

/-- Checks an initial value against the type of a variable, and gives the type to go on with. -/
def checkInit (c : Context) (name : String) (location : Location) (type : Option Ty)
    (init : Typed) (initLocation : Location) : CheckM (Checked.Expr × Ty) := do
  let (e, got) := init
  match type with
  | none =>
    let usable ← checkValueType c got (some location) ("variable " ++ name)
    return (e, if usable then got else .error)
  | some t =>
    if ← onTypes (Types.isError t) then return (e, t)
    if ← onTypes (Types.isError got) then return (e, t)
    let (e, _) ← useAs c (some initLocation) e got t ("cannot initialize " ++ name)
    return (e, t)

/-- Checks the written type of a variable. -/
def checkVarType (c : Context) (name : String) (location : Location) :
    Option Source.TypeExpr → CheckM (Option Ty)
  | none => return none
  | some t => do
    let t ← checkWritten c t
    let usable ← checkValueType c t (some location) ("variable " ++ name)
    return some (if usable then t else .error)

/-- Checks a condition. -/
def checkCondition (instances : Instances) (c : Context) (e : Expr) : CheckM Checked.Expr := do
  let (checked, t) ← checkExpr instances c e none
  if !(← onTypes (Types.isError t)) then
    if !(← onTypes (Types.isIntegral t)) then
      reportError c.scope (some e.location) .notIntegral
        ("condition must be integral, got " ++ (← textOf t))
  return checked

/-- Checks an assignment. -/
def checkAssign (instances : Instances) (c : Context) (target value : Expr) :
    CheckM Checked.Stmt := do
  let (te, lt) ← checkExpr instances c target none
  let (ve, rt) ← checkExpr instances c value (some lt)
  let plain : Checked.Stmt := .assign te lt ve false
  if ← onTypes (Types.isError lt) then return plain
  if ← onTypes (Types.isError rt) then return plain
  if !te.isAddressable then
    reportError c.scope (some target.location) .notAssignable
      ("cannot assign to a value of type " ++ (← textOf lt))
    return plain
  let (ve, _) ← useAs c (some value.location) ve rt lt "cannot assign"
  return .assign te lt ve te.isSliceLength

/-- Checks a return. -/
def checkReturn (instances : Instances) (c : Context) (value : Option Expr) (location : Location) :
    CheckM Checked.Stmt := do
  match ← c.result?, value with
  | none, none =>
    reportError c.scope (some location) .returnOutside "return outside of a function"
    return .giveBack none
  | none, some e =>
    reportError c.scope (some location) .returnOutside "return outside of a function"
    let (checked, t) ← checkExpr instances c e none
    return .giveBack (some (checked, t))
  | some ret, none =>
    if !(← onTypes (Types.isVoid ret)) then
      if !(← onTypes (Types.isError ret)) then
        reportError c.scope (some location) .mismatch
          ("missing return value of type " ++ (← textOf ret))
    return .giveBack none
  | some ret, some e =>
    let (checked, got) ← checkExpr instances c e (some ret)
    let plain : Checked.Stmt := .giveBack (some (checked, got))
    if ← onTypes (Types.isError got) then return plain
    if ← onTypes (Types.isError ret) then return plain
    if ← onTypes (Types.isVoid ret) then
      reportError c.scope (some e.location) .mismatch
        ("function returning void returns a value of type " ++ (← textOf got))
      return plain
    return .giveBack (some (← useAs c (some e.location) checked got ret "cannot return"))

/-- Checks a release of memory. -/
def checkDelete (instances : Instances) (c : Context) (value : Expr) (location : Location) :
    CheckM Checked.Stmt := do
  let (e, t) ← checkExpr instances c value none
  if ← onTypes (Types.isError t) then return .delete e false none
  let slice ← match ← onTypes (Types.resolve t) with
    | .pointer .. => pure (some false)
    | .slice .. => pure (some true)
    | _ => pure none
  match slice with
  | none =>
    reportError c.scope (some value.location) .notPointer
      ("cannot delete a value of type " ++ (← textOf t))
    return .delete e false none
  | some slice =>
    return .delete e slice (← heapFunction c "dealloc" deallocSignature (some location))

/-- Checks a declaration of a local variable. -/
def checkVar (instances : Instances) (c : Context) (name : String) (type : Option Source.TypeExpr)
    (init : Option Expr) (location : Location) : CheckM Checked.Stmt := do
  let t ← checkVarType c name location type
  match init with
  | none =>
    let t ← match t with
      | some t => pure t
      | none =>
        reportError c.scope (some location) .invalidDeclaration
          ("variable " ++ name ++ " needs a type or an initializer")
        pure .error
    return .var (← c.declare name t .automatic (some location)) none
  | some e =>
    let typed ← checkExpr instances c e t
    let (checked, t) ← checkInit c name location t typed e.location
    return .var (← c.declare name t .automatic (some location)) (some checked)

mutual

/-- Checks a statement. -/
def checkStmt (instances : Instances) (c : Context) : Stmt → CheckM Checked.Stmt
  | .expression e _ => do
    let (checked, _) ← checkExpr instances c e none
    return .expression checked
  | .var name type init l => checkVar instances c name type init l
  | .assign target value _ => checkAssign instances c target value
  | .cond condition yes no _ => do
    let condition ← checkCondition instances c condition
    let yes ← checkBlock instances c yes
    return .cond condition yes (← checkBlock instances c no)
  | .whileLoop condition body _ => do
    let condition ← checkCondition instances c condition
    c.enterLoop
    let body ← checkBlock instances c body
    c.leaveLoop
    return .whileLoop condition body
  | .forLoop init condition step body _ => do
    c.push
    let init ← checkOptionStmt instances c init
    let condition ← match condition with
      | none => pure none
      | some e => some <$> checkCondition instances c e
    c.enterLoop
    let body ← checkBlock instances c body
    c.leaveLoop
    let step ← checkOptionStmt instances c step
    c.pop
    return .forLoop init condition step body
  | .breakLoop l => do
    if !(← c.inLoop) then
      reportError c.scope (some l) .breakOutsideLoop "break outside of a loop"
    return .breakLoop
  | .giveBack value l => checkReturn instances c value l
  | .block body _ => return .block (← checkBlock instances c body)
  | .delete value l => checkDelete instances c value l

/-- Checks a statement that may be missing. -/
def checkOptionStmt (instances : Instances) (c : Context) :
    Option Stmt → CheckM (Option Checked.Stmt)
  | none => return none
  | some s => some <$> checkStmt instances c s

/-- Checks statements in order. -/
def checkStmts (instances : Instances) (c : Context) : List Stmt → CheckM (List Checked.Stmt)
  | [] => return []
  | s :: rest => do
    let checked ← checkStmt instances c s
    return checked :: (← checkStmts instances c rest)

/-- Checks statements in a scope of their own. -/
def checkBlock (instances : Instances) (c : Context) : List Stmt → CheckM (List Checked.Stmt)
  | [] => do
    c.push
    c.pop
    return []
  | s :: rest => do
    c.push
    let first ← checkStmt instances c s
    let others ← checkStmts instances c rest
    c.pop
    return first :: others

end

end Qll.Check
