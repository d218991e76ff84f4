import Qll.Check.Context

/-!
# Well-formed types

The names of a type are resolved in its scope, without following the definitions they stand for.
Then the type is followed through its definitions, to see that it has a finite size, that lengths
and members make sense, and that templates get the right number of arguments.
-/

namespace Qll.Check

open Source (Location)
open Qll.Types (Ty Binding Scope Path)
open Diagnostic (Code)

/-- Resolves one name. A name that cannot be resolved is reported and stands for the error type. -/
def resolveName (scope : Scope) (id : Nat) (text : String) (location : Option Location) :
    CheckM Unit := do
  if ((← get).types.binding? id).isSome then return
  let failed (code : Code) (message : String) : CheckM Binding := do
    reportError scope location code message
    return { qualified := text, type := .error }
  let b ← match ← lookupType scope text with
    | .error message => failed .ambiguous message
    | .ok none => failed .unknownType ("unknown type " ++ text)
    | .ok (some b) => pure b
  onTypes (Types.setBinding id b)

/-- Reports a template application that cannot have an instance. -/
def checkApplication (scope : Scope) (id head : Nat) (text : String) (given : Nat)
    (location : Option Location) : CheckM Unit := do
  let target ← onTypes (Types.read (·.target head text))
  if ← onTypes (Types.isError target) then
    onTypes (Types.setResult id .error)
  else
    match target with
    | .template template =>
      let expected := (← onTypes (Types.templateEntry template)).params.length
      if expected ≠ given then
        reportError scope location .templateTypeArity
          ("template " ++ text ++ " takes " ++ Nat.repr expected ++ " arguments, got " ++
            Nat.repr given)
        onTypes (Types.setResult id .error)
    | _ =>
      reportError scope location .notTemplateType ("type " ++ text ++ " is not a template")
      onTypes (Types.setResult id .error)

/-- Resolves the names of a type. -/
def bindNamesWithin (scope : Scope) : Nat → Ty → CheckM Unit
  | 0, _ => throw .endless
  | n + 1, t => do
    match t with
    | .builtin .. => return
    | .name id text location => resolveName scope id text location
    | .pointer e _ | .slice e _ | .array e _ _ | .dot e _ _ => bindNamesWithin scope n e
    | .struct members _ => members.forM fun m => bindNamesWithin scope n m.type
    | .function arguments result _ =>
      arguments.forM (bindNamesWithin scope n)
      bindNamesWithin scope n result
    | .apply id head text arguments location =>
      let known := ((← get).types.binding? head).isSome
      resolveName scope head text location
      arguments.forM (bindNamesWithin scope n)
      if !known then checkApplication scope id head text arguments.length location
    | .var v =>
      match (← get).types.bound? v with
      | some u => bindNamesWithin scope n u
      | none => return
    | .template template =>
      bindNamesWithin scope n (← onTypes (Types.templateEntry template)).body

/-- Resolves the names of a type. -/
def bindNames (scope : Scope) (t : Ty) : CheckM Unit := do
  bindNamesWithin scope (← onTypes Types.limit) t

/-- Reports the members that have the name of an earlier one, or no value; `check` checks the type
of each. -/
def checkMembers (scope : Scope) (whole : Ty) (check : Ty → CheckM Unit) :
    List String → List (Types.Member Ty) → CheckM Unit
  | _, [] => return
  | seen, m :: rest => do
    if seen.contains m.name then
      reportError scope m.location .duplicateMember
        ("duplicate member " ++ m.name ++ " in " ++ (← textOf whole))
    check m.type
    if ← onTypes (Types.isVoid m.type) then
      reportError scope m.location .voidValue ("member " ++ m.name ++ " cannot have type void")
    checkMembers scope whole check (m.name :: seen) rest

/-- Follows the use of a name on a path; `check` checks its definition along a longer path. Tells
whether the use is sound. -/
def followReference (scope : Scope) (path : Path) (location : Option Location)
    (name label : String) (check : Path → CheckM Unit) : CheckM Bool := do
  match path.reference name with
  | .accepted => return true
  | .infinite =>
    reportError scope location .recursiveType ("recursive type " ++ label ++ " has infinite size")
    return false
  | .enter next =>
    check next
    return true

/-- Reports a member type without a member. -/
def checkDot (scope : Scope) (base : Ty) (member : String) (location : Option Location) :
    CheckM Unit := do
  let shape ← onTypes (Types.resolve base)
  if ← onTypes (Types.isError shape) then return
  match shape with
  | .struct members _ =>
    if (← onTypes (Types.findMember members member)).isNone then
      reportError scope location .unknownMember
        ("type " ++ (← textOf base) ++ " has no member " ++ member)
  | _ => reportError scope location .unknownMember ("type " ++ (← textOf base) ++ " has no members")

/-- Checks that a type has a finite size. -/
def kindcheckWithin : Nat → Scope → Path → Ty → CheckM Unit
  | 0, _, _, _ => throw .endless
  | n + 1, scope, path, t => do
    match t with
    | .builtin .. => return
    | .name id text location =>
      resolveName scope id text location
      match (← get).types.binding? id with
      | none => return
      | some b =>
        match b.type with
        | .var _ | .builtin .. => return
        | definition =>
          let inner := b.scope.getD scope
          let sound ← followReference scope path location b.qualified b.qualified fun next =>
            kindcheckWithin n inner next definition
          if !sound then onTypes (Types.setCyclicName id)
    | .pointer e _ | .slice e _ => kindcheckWithin n scope path.pointer e
    | .array e length location =>
      if length = Types.unsized then kindcheckWithin n scope path.pointer e
      else if length < 0 then
        reportError scope location .invalidLength ("invalid array length " ++ Text.decimal length)
      else kindcheckWithin n scope path e
    | .struct members _ => checkMembers scope t (kindcheckWithin n scope path.struct) [] members
    | .function arguments result _ =>
      arguments.forM (kindcheckWithin n scope path.function)
      kindcheckWithin n scope path.function result
    | .apply id head text arguments location =>
      bindNames scope t
      let result ← onTypes (Types.applied id head text arguments)
      if ← onTypes (Types.isError result) then return
      let inner := (((← get).types.binding? head).bind (·.scope)).getD scope
      let name ← onTypes (Types.read (·.mangle t))
      let head ← onTypes (Types.read (·.mangleName head text))
      let parts ← arguments.mapM textOf
      let label := head ++ Types.Store.bracket parts
      match path.expand? with
      | none =>
        reportError scope location .depthExceeded
          ("template expansion depth exceeds " ++ Nat.repr Types.maxExpansion ++ " at " ++ label)
        onTypes (Types.setCyclicApply id)
      | some path =>
        let sound ← followReference scope path location name label fun next =>
          kindcheckWithin n inner next result
        if !sound then onTypes (Types.setCyclicApply id)
    | .dot base member location =>
      kindcheckWithin n scope path base
      checkDot scope base member location
    | .var v =>
      match (← get).types.bound? v with
      | some u => kindcheckWithin n scope path u
      | none => return
    | .template template =>
      kindcheckWithin n scope path (← onTypes (Types.templateEntry template)).body

/-- Checks that a type has a finite size along a path. -/
def kindcheck (scope : Scope) (path : Path) (t : Ty) : CheckM Unit := do
  kindcheckWithin (← onTypes Types.limit) scope path t

/-- Resolves and checks a written type. -/
def checkType (scope : Scope) (t : Ty) : CheckM Unit := do
  bindNames scope t
  kindcheck scope {} t

end Qll.Check
