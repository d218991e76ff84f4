import Qll.Check.Storage
import Qll.Checked.Tree
import Qll.Diagnostic.Basic
import Qll.Source.Tree
import Qll.Types.Store

/-!
# The state of checking

One program is checked in one state: the store of types, the reports made so far, the checks put
off until the end, the declarations under check, and the tables of the program.
-/

namespace Qll.Check

open Source (Location)
open Qll.Types (Ty Binding Scope TypeM Store)

/-- A check that waits until every declaration was checked. -/
inductive Postponed
  /-- A template is used as a value without arguments. -/
  | bareTemplate (scope : Scope) (name : String) (location : Option Location)
  /-- A template function may have no instance. -/
  | unusedTemplate (index : Nat)
  /-- A check that the caller performs. -/
  | other (index : Nat)
  deriving Inhabited

/-- The state of one declaration under check: block scopes, innermost first, the static names it
refers to, the expected result, and how many loops surround the current statement. -/
structure Body where
  scopes : List (List (String × Storage)) := [[]]
  references : List String := []
  result : Option Ty := none
  loops : Nat := 0
  deriving Inhabited

/-- A namespace. Types and values have tables of their own. -/
structure Space where
  name : String
  qualified : String
  parent : Option Nat
  children : List (String × Nat) := []
  types : List (String × Binding) := []
  values : List (String × Storage) := []
  /-- Indices of the imports of this namespace, in the order written. -/
  imports : List Nat := []
  deriving Inhabited

/-- An import of the names of another namespace. -/
structure Import where
  owner : Nat
  name : String
  location : Option Location
  target : Option Nat := none
  deriving Inhabited

/-- A declared type. -/
structure TypeItem where
  qualified : String
  type : Ty
  scope : Scope
  deriving Inhabited

/-- A global variable, and its initial value once it was checked. -/
structure GlobalItem where
  name : String
  qualified : String
  space : Nat
  type : Option Ty
  init : Option Source.Expr
  exported : Bool
  location : Option Location
  storage : Storage
  /-- The variable that stands for a type that is not written. -/
  inferred : Option Nat
  references : List String := []
  checked : Option Checked.Expr := none
  deriving Inhabited

/-- A parameter with its type. -/
abbrev TypedParam := Types.Member Ty

/-- A function, and its body once it was checked. Instances of templates are functions. -/
structure FunctionItem where
  name : String
  qualified : String
  space : Nat
  params : List TypedParam
  result : Ty
  body : List Source.Stmt
  exported : Bool
  interrupt : Bool
  location : Option Location
  storage : Storage
  /-- Where the body is checked. -/
  scope : Scope
  references : List String := []
  paramStorages : List Storage := []
  checked : Option (List Checked.Stmt) := none
  deriving Inhabited

/-- The type of a function. -/
def FunctionItem.signature (f : FunctionItem) : Ty :=
  .function (f.params.map (·.type)) f.result f.location

/-- A template function and its instances, by the key of their arguments. -/
structure TemplateItem where
  name : String
  qualified : String
  space : Nat
  typeParams : List String
  params : List TypedParam
  signature : Ty
  template : Nat
  scope : Scope
  body : List Source.Stmt
  location : Option Location
  /-- The function of each instance. -/
  instances : List (String × Nat) := []
  deriving Inhabited

/-- Everything that checking changes. -/
structure State where
  types : Store := {}
  reports : Array Diagnostic := #[]
  postponed : Array Postponed := #[]
  bodies : Array Body := #[]
  storages : Nat := 0
  spaces : Array Space := #[]
  imports : Array Import := #[]
  typeItems : Array TypeItem := #[]
  globals : Array GlobalItem := #[]
  functions : Array FunctionItem := #[]
  templates : Array TemplateItem := #[]
  deriving Inhabited

/-- The state with another number of steps that a chain of definitions may take. -/
def State.withLimit (s : State) (n : Nat) : State := { s with types := s.types.withLimit n }

/-- How many errors were reported. -/
def State.errors (s : State) : Nat :=
  s.reports.foldl (fun n d => if d.severity = .error then n + 1 else n) 0

/-- How many warnings were reported. -/
def State.warnings (s : State) : Nat :=
  s.reports.foldl (fun n d => if d.severity = .warning then n + 1 else n) 0

/-- Whether an error was reported. -/
def State.failed (s : State) : Bool := s.errors != 0

/-- How the names of a namespace are found. A failed search, as for a name that two imports
provide, says why. -/
structure Directory where
  findType : State → Nat → String → Except String (Option Binding)
  findValue : State → Nat → String → Except String (Option Storage)

/-- Computations that check. -/
abbrev CheckM := ReaderT Directory (EStateM Fault State)

/-- Runs a computation on the store of types. -/
def onTypes {α : Type} (x : TypeM α) : CheckM α := fun _ s =>
  match x s.types with
  | .ok a types => .ok a { s with types }
  | .error e types => .error e { s with types }

end Qll.Check
