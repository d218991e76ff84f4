import Qll.Check.State
import Qll.Types.Path
import Qll.Types.Unify

/-!
# Contexts

A context says where an expression stands: in which scope its names are looked up, for which
template instance it is checked, and in which declaration. Contexts are values; the declaration
they refer to lives in the state.
-/

namespace Qll.Check

open Source (Location)
open Qll.Types (Ty Binding Scope Frame)
open Diagnostic (Severity Code Note)

/-- Where something is checked. -/
structure Context where
  scope : Scope := {}
  /-- The declaration under check. -/
  body : Option Nat := none
  deriving Inhabited

/-- The notes that tell how a scope was reached, innermost instance first. -/
def notesOf (chain : List Frame) : List Note :=
  chain.map fun f => { location := f.location, message := "in instantiation of `" ++ f.name ++ "`" }

/-- Makes a report. -/
def report (scope : Scope) (severity : Severity) (location : Option Location) (code : Code)
    (message : String) : CheckM Unit :=
  let d : Diagnostic := { severity, code, location, message, notes := notesOf scope.chain }
  modify fun s => { s with reports := s.reports.push d }

/-- Reports an error. -/
def reportError (scope : Scope) (location : Option Location) (code : Code) (message : String) :
    CheckM Unit :=
  report scope .error location code message

/-- The plain text of a type. -/
def textOf (t : Ty) : CheckM String := onTypes (Types.read (·.text t))

/-- Finds the type a name stands for: template parameters first, then the namespace. Outside every
namespace only the builtin types have names. -/
def lookupType (scope : Scope) (name : String) : CheckM (Except String (Option Binding)) := do
  match scope.params.lookup name, scope.space with
  | some t, _ => return .ok (some { qualified := name, type := t })
  | none, none =>
    return .ok ((Types.Builtin.ofName? name).map fun kind =>
      { qualified := name, type := .builtin kind none })
  | none, some space => return (← read).findType (← get) space name

namespace Context

/-- The declaration under check and its number. -/
def currentBody (c : Context) : CheckM (Nat × Body) := do
  match c.body with
  | none => throw .noDeclaration
  | some id => return (id, ((← get).bodies[id]?).getD {})

/-- Changes the declaration under check. -/
def setBody (id : Nat) (b : Body) : CheckM Unit :=
  modify fun s => { s with bodies := s.bodies.set! id b }

/-- Starts a new declaration. -/
def openBody (c : Context) (result : Option Ty) : CheckM Context := do
  let s ← get
  set { s with bodies := s.bodies.push { result } }
  return { c with body := some s.bodies.size }

/-- Opens a block. -/
def push (c : Context) : CheckM Unit := do
  let (id, b) ← c.currentBody
  setBody id { b with scopes := [] :: b.scopes }

/-- Closes the innermost block. -/
def pop (c : Context) : CheckM Unit := do
  let (id, b) ← c.currentBody
  match b.scopes with
  | _ :: outer :: rest => setBody id { b with scopes := outer :: rest }
  | _ => throw .scopeUnderflow

/-- A loop begins. -/
def enterLoop (c : Context) : CheckM Unit := do
  let (id, b) ← c.currentBody
  setBody id { b with loops := b.loops + 1 }

/-- A loop ends. -/
def leaveLoop (c : Context) : CheckM Unit := do
  let (id, b) ← c.currentBody
  match b.loops with
  | 0 => throw .loopUnderflow
  | n + 1 => setBody id { b with loops := n }

/-- Whether a loop surrounds the current statement. -/
def inLoop (c : Context) : CheckM Bool := do
  match c.body with
  | none => return false
  | some id => return ((← get).bodies[id]?).any (0 < ·.loops)

/-- The declared result type of the function under check. -/
def result? (c : Context) : CheckM (Option Ty) := do
  match c.body with
  | none => return none
  | some id => return ((← get).bodies[id]?).bind (·.result)

/-- Records that the declaration under check refers to a static name. -/
def refer (c : Context) (qualified : String) : CheckM Unit := do
  match c.body with
  | none => return
  | some id =>
    if qualified = "" then return
    let b := ((← get).bodies[id]?).getD {}
    if b.references.contains qualified then return
    setBody id { b with references := qualified :: b.references }

/-- The recorded static names, sorted. -/
def references (c : Context) : CheckM (List String) := do
  match c.body with
  | none => return []
  | some id =>
    let b := ((← get).bodies[id]?).getD {}
    return Text.inOrder b.references

/-- A storage with a number of its own. -/
def newStorage (name qualified : String) (type : Ty) (kind : StorageClass)
    (location : Option Location) : CheckM Storage := do
  let s ← get
  set { s with storages := s.storages + 1 }
  return { id := s.storages, name, qualified, type, kind, location }

/-- Enters a parameter or a local variable into the innermost block. If the block has the name
already, this is reported and the earlier storage stays visible. -/
def declare (c : Context) (name : String) (type : Ty) (kind : StorageClass)
    (location : Option Location) : CheckM Storage := do
  if kind ≠ .parameter ∧ kind ≠ .automatic then throw (.staticDeclared name kind)
  let (id, b) ← c.currentBody
  let st ← newStorage name "" type kind location
  match b.scopes with
  | [] => throw .missing
  | top :: rest =>
    if (top.lookup name).isSome then
      reportError c.scope location .duplicate (name ++ " is already declared in this scope")
    else
      setBody id { b with scopes := ((name, st) :: top) :: rest }
    return st

/-- The storage of a name in the blocks, innermost first. -/
def inBlocks (scopes : List (List (String × Storage))) (name : String) : Option Storage :=
  scopes.findSome? (·.lookup name)

/-- The blocks of the declaration under check. -/
def blocks (c : Context) (s : State) : List (List (String × Storage)) :=
  ((c.body.bind fun id => s.bodies[id]?).map (·.scopes)).getD []

/-- Finds the value a name stands for: blocks first, then the namespace. Static storage found is
recorded as a reference; a failure is reported. -/
def lookup (c : Context) (name : String) (location : Option Location) :
    CheckM (Option Storage) := do
  match inBlocks (c.blocks (← get)) name, c.scope.space with
  | some st, _ => return some st
  | none, none =>
    reportError c.scope location .unknownIdentifier ("unknown identifier " ++ name)
    return none
  | none, some space =>
    match (← read).findValue (← get) space name with
    | .error message =>
      reportError c.scope location .ambiguous message
      return none
    | .ok none =>
      reportError c.scope location .unknownIdentifier ("unknown identifier " ++ name)
      return none
    | .ok (some st) =>
      if st.kind.isStatic then c.refer st.qualified
      return some st

/-- The context of an instance requested at `location`; too deep a chain is reported. -/
def instantiate (c : Context) (name : String) (location : Option Location) :
    CheckM (Option Context) := do
  if Types.maxExpansion ≤ c.scope.chain.length then
    reportError c.scope location .depthExceeded
      ("template instantiation depth exceeds " ++ Nat.repr Types.maxExpansion ++
        " while instantiating " ++ name)
    return none
  return some { c with scope := { c.scope with chain := { name, location } :: c.scope.chain } }

end Context

/-- Puts a check off. -/
def postpone (p : Postponed) : CheckM Unit :=
  modify fun s => { s with postponed := s.postponed.push p }

/-- Performs the postponed checks from number `i` on, including those that they put off. -/
def runPostponedFrom {m : Type → Type} [Monad m] [MonadStateOf State m] [MonadExceptOf Fault m]
    (perform : Postponed → m Unit) : Nat → Nat → m Unit
  | 0, _ => throwThe Fault .endless
  | n + 1, i => do
    match (← getThe State).postponed[i]? with
    | none => return
    | some p =>
      perform p
      runPostponedFrom perform n (i + 1)

/-- Performs the postponed checks, unless an error was reported; tells whether they ran. -/
def runPostponed {m : Type → Type} [Monad m] [MonadStateOf State m] [MonadExceptOf Fault m]
    (perform : Postponed → m Unit) : m Bool := do
  let s ← getThe State
  if s.failed then return false
  runPostponedFrom perform (s.postponed.size + s.types.limit) 0
  modifyThe State fun s => { s with postponed := #[] }
  return true

end Qll.Check
