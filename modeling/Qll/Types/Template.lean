import Qll.Types.Text

/-!
# Templates

Substitution replaces variables in a type and copies the rest. A template applied to arguments
gives its body with the parameters replaced; it is built once for each list of arguments.
-/

namespace Qll.Types

/-- Which type replaces which variable. -/
abbrev Substitution := List (Nat × Ty)

/-- The substitution of types for parameters; of two types for one parameter the later counts. -/
def Substitution.ofLists (params : List Nat) (types : List Ty) : Substitution :=
  (params.zip types).reverse

/-- What a substitution says about a variable. -/
def Substitution.find? (σ : Substitution) (v : Nat) : Option Ty := σ.lookup v

/-- Replaces variables in a type. A resolved name stays the same entry; an unresolved one and every
application become new entries. -/
def substituteWithin (σ : Substitution) : Nat → Ty → TypeM Ty
  | 0, _ => throw .endless
  | n + 1, t => do
    let inner := substituteWithin σ n
    match t with
    | .builtin .. | .template _ => return t
    | .name id text location =>
      match (← get).binding? id with
      | none => newName text location
      | some { type := .var v, .. } => return (σ.find? v).getD t
      | some _ => return t
    | .pointer e location => return .pointer (← inner e) location
    | .slice e location => return .slice (← inner e) location
    | .array e length location => return .array (← inner e) length location
    | .struct members location =>
      let members ← members.mapM fun m => return { m with type := ← inner m.type }
      return .struct members location
    | .function arguments result location =>
      return .function (← arguments.mapM inner) (← inner result) location
    | .apply _ head text arguments location =>
      let arguments ← arguments.mapM inner
      match ← newApply text arguments location with
      | .apply id fresh _ _ _ =>
        let head := if ((← get).binding? head).isNone then fresh else head
        return .apply id head text arguments location
      | u => return u
    | .dot base member location => return .dot (← inner base) member location
    | .var v =>
      match σ.find? v, (← get).bound? v with
      | some u, _ => return u
      | none, some u => inner u
      | none, none => return t

/-- Replaces variables in a type. -/
def substitute (σ : Substitution) (t : Ty) : TypeM Ty := do
  substituteWithin σ (← limit) t

/-- An entry of the table of templates. -/
def templateEntry (id : Nat) : TypeM TemplateEntry := do
  match (← get).templates[id]? with
  | some entry => return entry
  | none => throw .missing

/-- Applies a template. The first application to a list of arguments builds the instance, which
the second component tells; later ones find it. -/
def instantiate (id : Nat) (arguments : List Ty) : TypeM (Ty × Bool) := do
  let key ← read (·.key arguments)
  let entry ← templateEntry id
  match entry.instances.lookup key with
  | some t => return (t, false)
  | none =>
    if entry.params.length ≠ arguments.length then
      let text ← read (·.text (.template id))
      throw (.templateArguments text entry.params.length arguments.length)
    let t ← substitute (.ofLists entry.params arguments) entry.body
    modify fun s =>
      { s with templates := s.templates.modify id fun e =>
          { e with instances := (key, t) :: e.instances } }
    return (t, true)

/-- The body of a template with new unbound variables for its parameters. -/
def freshBody (id : Nat) : TypeM (Ty × List Nat) := do
  let entry ← templateEntry id
  let fresh ← entry.params.mapM fun v => do
    let s ← get
    newVar (s.varName v) ((s.vars[v]?).bind (·.location))
  let body ← substitute (.ofLists entry.params (fresh.map .var)) entry.body
  return (body, fresh)

/-- Binds a variable; it may be bound only once. Binding a variable to itself changes nothing. -/
def bindVar (v : Nat) (t : Ty) : TypeM Unit := do
  if t.same (.var v) then return
  match (← get).bound? v with
  | some u =>
    let first ← read (·.text u)
    let second ← read (·.text t)
    throw (.variableBoundTwice ((← get).varName v) first second)
  | none =>
    modify fun s => { s with vars := s.vars.modify v fun e => { e with bound := some t } }

/-- Resolves a name that must not have been resolved before. -/
def bindName (id : Nat) (text : String) (b : Binding) : TypeM Unit := do
  match (← get).binding? id with
  | some first => throw (.nameBoundTwice text first.qualified b.qualified)
  | none => setBinding id b

/-- The instance of an application; what is applied to the wrong number of arguments, or is no
template, gives the error type. -/
def applied (id head : Nat) (text : String) (arguments : List Ty) : TypeM Ty := do
  match (← get).applies[id]? with
  | some { cyclic := true, .. } => return .error
  | some { result := some t, .. } => return t
  | _ =>
    match ← read (·.target head text) with
    | .template template =>
      let entry ← templateEntry template
      if entry.params.length ≠ arguments.length then
        setResult id .error
        return .error
      let (t, _) ← instantiate template arguments
      setResult id t
      return t
    | _ =>
      setResult id .error
      return .error

end Qll.Types
