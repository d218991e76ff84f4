import Qll.Check.Stmt
import Qll.Program.Declare

/-!
# Checking a program

A program is checked in four stages: names of namespaces and types are bound, types are checked to
be of finite size, initial values and bodies are checked, and postponed checks are made. Instances
of template functions are checked when they are first requested.
-/

namespace Qll.Program

open Check (State CheckM Context Storage Instances FunctionItem TemplateItem onTypes reportError
  checkType checkValueType)
open Source (Location)
open Qll.Types (Ty Scope)

/-! ## Bind -/

/-- Finds the namespace of an import. Imports do not see each other. -/
def resolveImport (index : Nat) : CheckM Unit := do
  let s ← get
  match s.imports[index]? with
  | none => return
  | some i =>
    match findSpace s i.owner i.name with
    | some target =>
      set { s with imports := s.imports.modify index fun i => { i with target := some target } }
    | none =>
      reportError (scopeOf i.owner) i.location .unknownNamespace ("unknown namespace " ++ i.name)

/-- Resolves imports, then the names in the definitions of types. -/
def bind : CheckM Unit := do
  (List.range (← get).imports.size).forM resolveImport
  (← get).typeItems.toList.forM fun item => Check.bindNames item.scope item.type

/-! ## Kind -/

/-- Checks the written type of a global. -/
def kindcheckGlobal (g : Check.GlobalItem) : CheckM Unit := do
  let c : Context := { scope := scopeOf g.space }
  match g.type, g.init with
  | some t, _ =>
    checkType c.scope t
    discard (checkValueType c t g.location ("global " ++ g.name))
  | none, some _ => return
  | none, none =>
    reportError c.scope g.location .invalidDeclaration
      ("global " ++ g.name ++ " needs a type or an initializer")
    onTypes (Types.bindVar (g.inferred.getD 0) .error)

/-- Checks the types of a function. -/
def kindcheckFunction (f : FunctionItem) : CheckM Unit := do
  let scope := scopeOf f.space
  checkType scope f.signature
  if f.interrupt then
    let void ← if f.params.isEmpty then onTypes (Types.isVoid f.result) else pure false
    if !void then
      reportError scope f.location .invalidInterrupt
        ("interrupt handler " ++ f.name ++ " must take no parameters and return void")

/-- Checks the definitions of types and the types of all declarations. -/
def kindcheck : CheckM Unit := do
  (← get).typeItems.toList.forM fun item =>
    Check.kindcheck item.scope (Types.Path.define {} item.qualified) item.type
  (← get).globals.toList.forM kindcheckGlobal
  (← get).functions.toList.forM kindcheckFunction
  (← get).templates.toList.forM fun t => checkType t.scope t.signature

/-! ## Types -/

/-- Checks and declares the parameters of a function. -/
def declareParams (c : Context) : List Check.TypedParam → CheckM (List Storage)
  | [] => return []
  | p :: rest => do
    discard (checkValueType c p.type p.location ("parameter " ++ p.name))
    let st ← c.declare p.name p.type .parameter p.location
    return st :: (← declareParams c rest)

/-- Checks the body of a function, unless it was checked before. -/
def checkFunction (instances : Instances) (index : Nat) : CheckM Unit := do
  match (← get).functions[index]? with
  | none => return
  | some f =>
    if f.checked.isSome then return
    let c ← Context.openBody { scope := f.scope } (some f.result)
    let storages ← declareParams c f.params
    let body ← Check.checkStmts instances c f.body
    let references ← c.references
    modify fun s => { s with functions := s.functions.modify index fun f =>
      { f with paramStorages := storages, checked := some body, references } }

/-- What the type parameters of a template stand for in one of its instances. -/
def bindTypeParams (location : Option Location) :
    List String → List Ty → CheckM (List (String × Ty))
  | name :: names, t :: types => do
    let v ← onTypes (Types.newVar name location)
    onTypes (Types.bindVar v t)
    return (name, .var v) :: (← bindTypeParams location names types)
  | _, _ => return []

/-- Makes the function that an instance of a template is: the parameters get the types of the
instance, and the function stands next to the template. -/
def addInstance (item : Nat) (t : TemplateItem) (key : String) (params : List Ty) (result : Ty)
    (arguments : List Ty) (scope : Scope) : CheckM Nat := do
  let bound ← bindTypeParams t.location t.typeParams arguments
  let name := t.name ++ key
  let qualified := t.qualified ++ key
  let params := (t.params.zip params).map fun (p, type) => { p with type }
  let signature : Ty := .function (params.map (·.type)) result t.location
  let storage ← Context.newStorage name qualified signature .function t.location
  discard (addValue t.space name storage t.location)
  let s ← get
  let index := s.functions.size
  let f : FunctionItem :=
    { name, qualified, space := t.space, params, result, body := t.body, exported := false,
      interrupt := false, location := t.location, storage,
      scope := { space := some t.space, params := bound.reverse, chain := scope.chain } }
  set { s with
    functions := s.functions.push f,
    templates := s.templates.modify item fun t =>
      { t with instances := (key, index) :: t.instances } }
  return index

/-- The storage of an instance. It is made and checked on the first request; `deeper` gives the
instances that its body requests. -/
def requestInstance (deeper : Instances) : Instances := fun c item arguments location => do
  let s ← get
  match s.templates[item]? with
  | none => return none
  | some t =>
    let key ← onTypes (Types.read (·.key arguments))
    match (t.instances.lookup key).bind (s.functions[·]?) with
    | some f => return some f.storage
    | none =>
      match ← c.instantiate (t.qualified ++ key) location with
      | none => return none
      | some inner =>
        match ← onTypes (Types.instantiate t.template arguments) with
        | (.function params result _, true) =>
          let index ← addInstance item t key params result arguments inner.scope
          checkFunction deeper index
          return ((← get).functions[index]?).map (·.storage)
        | _ => return none

/-- The instances that can be requested where at most `n` more may be nested. A chain of instances
is cut off before `n` reaches zero. -/
def instancesWithin : Nat → Instances
  | 0 => fun _ _ _ _ => throw .endless
  | n + 1 => fun c item arguments location =>
    requestInstance (instancesWithin n) c item arguments location

/-- The instances of a program. -/
def instances : Instances := instancesWithin (Types.maxExpansion + 2)

/-- Checks the initial value of a global; a type that is not written becomes known. -/
def checkGlobal (instances : Instances) (index : Nat) : CheckM Unit := do
  match (← get).globals[index]? with
  | none => return
  | some g =>
    match g.init with
    | none => return
    | some e =>
      let c ← Context.openBody { scope := scopeOf g.space } none
      let (checked, got) ← Check.checkExpr instances c e g.type
      let references ← c.references
      let keep (checked : Checked.Expr) : CheckM Unit :=
        modify fun s => { s with globals := s.globals.modify index fun g =>
          { g with checked := some checked, references } }
      keep checked
      match g.inferred, g.type with
      | some v, _ =>
        if ((← get).types.bound? v).isSome then return
        let usable ← checkValueType c got g.location ("global " ++ g.name)
        onTypes (Types.bindVar v (if usable then got else .error))
      | none, none => return
      | none, some t =>
        if ← onTypes (Types.isConvertible got t) then
          let (checked, _) ← Check.coerce checked got t
          keep checked
        else
          reportError c.scope (some e.location) .mismatch
            ("cannot initialize " ++ g.name ++ " of type " ++ (← Check.textOf t) ++
              " with a value of type " ++ (← Check.textOf got))

/-- Checks initial values, then bodies. Templates are looked at again in the end. -/
def typecheckWith (instances : Instances) : CheckM Unit := do
  (List.range (← get).globals.size).forM (checkGlobal instances)
  (List.range (← get).functions.size).forM (checkFunction instances)
  (List.range (← get).templates.size).forM fun i => Check.postpone (.unusedTemplate i)

/-- Checks initial values and bodies with the instances of the program. -/
def typecheck : CheckM Unit := typecheckWith instances

/-! ## Postponed checks -/

/-- Makes a postponed check. -/
def performPostponed : Check.Postponed → CheckM Unit
  | .bareTemplate scope name location =>
    reportError scope location .uninstantiated
      ("template " ++ name ++ " is used without template arguments")
  | .unusedTemplate index => do
    match (← get).templates[index]? with
    | none => return
    | some t =>
      if t.instances.isEmpty then
        Check.report (scopeOf t.space) .warning t.location .unusedTemplate
          ("template function " ++ t.qualified ++ " is never instantiated")
  | .other _ => return

/-- Makes the postponed checks, unless errors were reported. -/
def deferred : CheckM Bool := Check.runPostponed performPostponed

end Qll.Program
