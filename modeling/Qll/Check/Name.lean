import Qll.Check.Value

/-!
# Names of values

A name stands for a variable, a parameter, a global or a function. The name of a template function
needs arguments, which are written, or inferred from the expected type, or from the arguments of a
call.
-/

namespace Qll.Check

open Source (Location TypeExpr)
open Qll.Types (Ty)

/-- Gives the storage of the instance of a template for some arguments, requested at a location;
nothing if instances are nested too deep. -/
abbrev Instances := Context → Nat → List Ty → Option Location → CheckM (Option Storage)

/-- The last template function with a qualified name. -/
def State.templateIndex? (s : State) (qualified : String) : Option Nat :=
  ((List.range s.templates.size).reverse.find? fun i =>
    (s.templates[i]?).any (·.qualified == qualified))

/-- The template function that a storage stands for, and its template. -/
def templateOf? (st : Storage) : CheckM (Option (Nat × Nat)) := do
  match st.type, st.kind with
  | .template id, .function => return ((← get).templateIndex? st.qualified).map (·, id)
  | _, _ => return none

/-- A name that stands for nothing. -/
def unresolvedName (name : String) : Checked.Expr × Ty := (.name name none .error, .error)

/-- A name that stands for a storage. -/
def resolvedName (name : String) (st : Storage) : Checked.Expr × Ty :=
  (.name name (some st) st.type, st.type)

/-- A name that stands for an instance of a template. -/
def useInstance (instances : Instances) (c : Context) (name : String)
    (location : Option Location) (item : Nat) (arguments : List Ty) :
    CheckM (Checked.Expr × Ty) := do
  if ← arguments.anyM fun a => onTypes (Types.isError a) then return unresolvedName name
  match ← instances c item arguments location with
  | none => return unresolvedName name
  | some st =>
    c.refer st.qualified
    return resolvedName name st

/-- The types that variables were bound to; nothing if one of them is not known. -/
def boundTypes? (vars : List Nat) : CheckM (Option (List Ty)) := do
  let store := (← get).types
  return vars.mapM fun v =>
    match store.bound? v with
    | none => none
    | some (.var u) => if (store.bound? u).isNone then none else some (.var u)
    | some t => some t

/-- The arguments of a template that make it fit an expected type. -/
def inferFromHint? (template : Nat) (hint : Ty) : CheckM (Option (List Ty)) := do
  let (body, vars) ← onTypes (Types.freshBody template)
  if ← onTypes (Types.isConvertible body hint) then boundTypes? vars else return none

/-- Checks written template arguments. -/
def checkTypeArguments (c : Context) : List TypeExpr → CheckM (List Ty)
  | [] => return []
  | a :: rest => do
    let t ← checkWritten c a
    let usable ← checkValueType c t (some a.location) "template argument"
    return (if usable then t else .error) :: (← checkTypeArguments c rest)

/-- Checks a name with written template arguments. -/
def checkAppliedName (instances : Instances) (c : Context) (name : String)
    (arguments : List TypeExpr) (location : Option Location) (st : Storage) :
    CheckM (Checked.Expr × Ty) := do
  match ← templateOf? st with
  | none =>
    reportError c.scope location .notTemplate (name ++ " is not a template")
    return unresolvedName name
  | some (item, template) =>
    let types ← checkTypeArguments c arguments
    let expected := (← onTypes (Types.templateEntry template)).params.length
    if types.length ≠ expected then
      reportError c.scope location .templateArity
        ("template " ++ name ++ " takes " ++ Nat.repr expected ++ " type arguments, got " ++
          Nat.repr types.length)
      return unresolvedName name
    useInstance instances c name location item types

/-- Checks a name without template arguments. A bare template takes its arguments from the expected
type if that fixes all of them; otherwise it is looked at again in the end. -/
def checkBareName (instances : Instances) (c : Context) (name : String)
    (location : Option Location) (st : Storage) (hint : Option Ty) :
    CheckM (Checked.Expr × Ty) := do
  match ← templateOf? st with
  | some (item, template) =>
    let inferred ← match hint with
      | some t => inferFromHint? template t
      | none => pure none
    match inferred with
    | some arguments => useInstance instances c name location item arguments
    | none =>
      postpone (.bareTemplate c.scope name location)
      return resolvedName name st
  | none =>
    match st.type with
    | .var v =>
      if ((← get).types.bound? v).isNone then
        reportError c.scope location .cannotInfer
          ("type of " ++ name ++ " is not known before its initializer is checked")
        return unresolvedName name
      return resolvedName name st
    | _ => return resolvedName name st

/-- Checks a name whose storage was found. -/
def checkFoundName (instances : Instances) (c : Context) (name : String)
    (arguments : List TypeExpr) (location : Option Location) (st : Storage) (hint : Option Ty) :
    CheckM (Checked.Expr × Ty) :=
  if arguments.isEmpty then checkBareName instances c name location st hint
  else checkAppliedName instances c name arguments location st

/-- Checks a name. -/
def checkName (instances : Instances) (c : Context) (name : String) (arguments : List TypeExpr)
    (location : Option Location) (hint : Option Ty) : CheckM (Checked.Expr × Ty) := do
  match ← c.lookup name location with
  | none => return unresolvedName name
  | some st => checkFoundName instances c name arguments location st hint

/-- Gives the inferred arguments of a called template, or reports the first that is not known. -/
def inferredArguments (c : Context) (name : String) (location : Option Location) :
    List Nat → CheckM (Option (List Ty))
  | [] => return some []
  | v :: rest => do
    let store := (← get).types
    match store.bound? v with
    | none =>
      reportError c.scope location .cannotInferArgument
        ("cannot infer template argument " ++ store.varName v ++ " of " ++ name)
      return none
    | some t => return (← inferredArguments c name location rest).map (t :: ·)

/-- Checks the name of a called template once its arguments were checked. -/
def checkInferredName (instances : Instances) (c : Context) (name : String)
    (location : Option Location) (item : Nat) (vars : List Nat) (params : List Ty) (result : Ty)
    (given : Nat) (failed : Bool) (hint : Option Ty) : CheckM (Checked.Expr × Ty) := do
  if given ≠ params.length then
    reportError c.scope location .argumentCount
      (name ++ " takes " ++ Nat.repr params.length ++ " arguments, got " ++ Nat.repr given)
    return unresolvedName name
  if failed then return unresolvedName name
  match hint with
  | some t => discard (onTypes (Types.isConvertible result t))
  | none => pure ()
  match ← inferredArguments c name location vars with
  | none => return unresolvedName name
  | some types => useInstance instances c name location item types

end Qll.Check
