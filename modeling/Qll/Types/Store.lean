import Qll.Fault
import Qll.Types.Basic

/-!
# The store of types

The store holds what is known about names, template applications, variables and templates. A name
is resolved once, an application gets its instance once, a variable is bound once, and a template
keeps one instance for each list of arguments.
-/

namespace Qll.Types

open Source (Location)

/-- One frame of a chain of template instantiations: what is instantiated, and where. -/
structure Frame where
  name : String
  location : Option Location
  deriving DecidableEq, Inhabited

/-- Where the names of a type are looked up: a namespace, if any, behind the template parameters in
scope. The chain says for which instance the type is checked, innermost first. -/
structure Scope where
  space : Option Nat := none
  params : List (String × Ty) := []
  chain : List Frame := []
  deriving Inhabited

/-- What a type name stands for. Template parameters and builtin types have no scope. -/
structure Binding where
  qualified : String
  type : Ty
  scope : Option Scope := none
  deriving Inhabited

/-- A name in a type. A cyclic one closes a type of infinite size and stands for the error type. -/
structure NameEntry where
  binding : Option Binding := none
  cyclic : Bool := false
  deriving Inhabited

/-- A template application and, once it is known, its instance. -/
structure ApplyEntry where
  result : Option Ty := none
  cyclic : Bool := false
  deriving Inhabited

/-- A variable and, once it is known, the type it stands for. -/
structure VarEntry where
  name : String
  location : Option Location
  bound : Option Ty := none
  deriving Inhabited

/-- A type with parameters, and its instances by the key of their arguments. -/
structure TemplateEntry where
  params : List Nat
  body : Ty
  location : Option Location
  instances : List (String × Ty) := []
  deriving Inhabited

/-- Everything known about the entries that types refer to. A chain of definitions that takes more
than `limit` steps is too long for the stack of the process. -/
structure Store where
  names : Array NameEntry := #[]
  applies : Array ApplyEntry := #[]
  vars : Array VarEntry := #[]
  templates : Array TemplateEntry := #[]
  limit : Nat := 20000

instance : Inhabited Store := ⟨{}⟩

/-- Computations that consult and extend the store. -/
abbrev TypeM := EStateM Fault Store

namespace Store

/-- What the name with index `id` was resolved to. -/
def binding? (s : Store) (id : Nat) : Option Binding := (s.names[id]?).bind (·.binding)

/-- What the variable with index `id` was bound to. -/
def bound? (s : Store) (id : Nat) : Option Ty := (s.vars[id]?).bind (·.bound)

/-- The name of a variable. -/
def varName (s : Store) (id : Nat) : String := ((s.vars[id]?).map (·.name)).getD ""

/-- The store with another number of steps that a chain of definitions may take. -/
def withLimit (s : Store) (n : Nat) : Store := { s with limit := n }

/-- The type a name stands for. -/
def target (s : Store) (id : Nat) (text : String) : Except Fault Ty :=
  match s.names[id]? with
  | some { binding := some b, cyclic } => .ok (if cyclic then .error else b.type)
  | _ => .error (.nameUnbound text)

end Store

/-- A new name, not yet resolved. -/
def newName (text : String) (location : Option Location) : TypeM Ty := do
  let s ← get
  set { s with names := s.names.push {} }
  return .name s.names.size text location

/-- A new application of the template named `text`. -/
def newApply (text : String) (arguments : List Ty) (location : Option Location) : TypeM Ty := do
  let s ← get
  set { s with names := s.names.push {}, applies := s.applies.push {} }
  return .apply s.applies.size s.names.size text arguments location

/-- A new unbound variable. -/
def newVar (name : String) (location : Option Location) : TypeM Nat := do
  let s ← get
  set { s with vars := s.vars.push { name, location } }
  return s.vars.size

/-- A new template. -/
def newTemplate (params : List Nat) (body : Ty) (location : Option Location) : TypeM Nat := do
  let s ← get
  set { s with templates := s.templates.push { params, body, location } }
  return s.templates.size

/-- Resolves a name. -/
def setBinding (id : Nat) (b : Binding) : TypeM Unit :=
  modify fun s => { s with names := s.names.modify id fun e => { e with binding := some b } }

/-- Marks a name as closing a type of infinite size. -/
def setCyclicName (id : Nat) : TypeM Unit :=
  modify fun s => { s with names := s.names.modify id fun e => { e with cyclic := true } }

/-- Fixes the instance of an application. -/
def setResult (id : Nat) (t : Ty) : TypeM Unit :=
  modify fun s => { s with applies := s.applies.modify id fun e => { e with result := some t } }

/-- Marks an application as closing a type of infinite size. -/
def setCyclicApply (id : Nat) : TypeM Unit :=
  modify fun s => { s with applies := s.applies.modify id fun e => { e with cyclic := true } }

/-- How many steps a chain of definitions may take. -/
def limit : TypeM Nat := return (← get).limit

/-- Runs a reading of the store. -/
def read {α : Type} (f : Store → Except Fault α) : TypeM α := do
  match f (← get) with
  | .ok a => return a
  | .error e => throw e

end Qll.Types
