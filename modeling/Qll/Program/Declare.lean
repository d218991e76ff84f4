import Qll.Check.Context
import Qll.Check.Written
import Qll.Program.Names

/-!
# Declaring a program

The declarations of a program are entered into the tables of its namespaces, in the order written.
Types and values have separate tables, so one name may be both. A name that its table has already
is reported, and the later declaration is dropped.
-/

namespace Qll.Program

open Check (State Space Storage CheckM onTypes reportError)
open Source (Location Decl Expr Stmt TypeExpr Parameter)
open Qll.Types (Ty Binding Scope)

/-- The scope of the declarations of a namespace. -/
def scopeOf (space : Nat) : Scope := { space := some space }

/-- Changes a namespace. -/
def modifySpace (space : Nat) (f : Space → Space) : CheckM Unit :=
  modify fun s => { s with spaces := s.spaces.modify space f }

/-- The namespace with a number. -/
def getSpace (space : Nat) : CheckM Space := do
  match (← get).spaces[space]? with
  | some entry => return entry
  | none => throw .noProgram

/-- The qualified name of a declaration in a namespace. -/
def qualify (space : Nat) (name : String) : CheckM String :=
  return (← getSpace space).qualified ++ separator ++ name

/-- Enters a type; tells whether its name was free. -/
def addType (space : Nat) (name : String) (b : Binding) (location : Option Location) :
    CheckM Bool := do
  let entry ← getSpace space
  if (entry.types.lookup name).isSome then
    reportError (scopeOf space) location .duplicate
      ("type " ++ name ++ " is already declared in " ++ entry.qualified)
    return false
  modifySpace space fun n => { n with types := (name, b) :: n.types }
  return true

/-- Enters a value; tells whether its name was free. -/
def addValue (space : Nat) (name : String) (st : Storage) (location : Option Location) :
    CheckM Bool := do
  let entry ← getSpace space
  if (entry.values.lookup name).isSome then
    reportError (scopeOf space) location .duplicate
      (name ++ " is already declared in " ++ entry.qualified)
    return false
  modifySpace space fun n => { n with values := (name, st) :: n.values }
  return true

/-- The nested namespace of a name, made on its first use. -/
def childSpace (space : Nat) (name : String) : CheckM Nat := do
  let entry ← getSpace space
  match entry.children.lookup name with
  | some child => return child
  | none =>
    let s ← get
    let child := s.spaces.size
    let qualified := entry.qualified ++ separator ++ name
    set { s with spaces := s.spaces.push { name, qualified, parent := some space } }
    modifySpace space fun n => { n with children := (name, child) :: n.children }
    return child

/-- A variable for each parameter of a template, and what the parameters stand for; of parameters
with one name the last counts. -/
def typeParams (names : List String) (location : Option Location) :
    CheckM (List Nat × List (String × Ty)) := do
  let vars ← names.mapM fun name => onTypes (Types.newVar name location)
  return (vars, (names.zip (vars.map .var)).reverse)

/-- Declares a type, or a template of one. -/
def declareType (space : Nat) (name : String) (params : List String) (definition : TypeExpr)
    (location : Option Location) : CheckM Unit := do
  let qualified ← qualify space name
  let t ← onTypes (Check.internType definition)
  let (type, scope) ←
    if params.isEmpty then pure (t, scopeOf space)
    else
      let (vars, bound) ← typeParams params location
      let template ← onTypes (Types.newTemplate vars t location)
      pure (.template template, { scopeOf space with params := bound })
  if ← addType space name { qualified, type, scope := some scope } location then
    modify fun s => { s with typeItems := s.typeItems.push { qualified, type, scope } }

/-- Declares a global. A type that is not written is a variable until its initial value is
checked. -/
def declareGlobal (space : Nat) (name : String) (type : Option TypeExpr) (init : Option Expr)
    (exported : Bool) (location : Option Location) : CheckM Unit := do
  let qualified ← qualify space name
  let written ← match type with
    | some t => some <$> onTypes (Check.internType t)
    | none => pure none
  let inferred ← match written with
    | some _ => pure none
    | none => some <$> onTypes (Types.newVar name location)
  let t := written.getD (.var (inferred.getD 0))
  let storage ← Check.Context.newStorage name qualified t .global location
  if ← addValue space name storage location then
    let item : Check.GlobalItem :=
      { name, qualified, space, type := written, init, exported, location, storage, inferred }
    modify fun s => { s with globals := s.globals.push item }

/-- The parameters of a function with their types. -/
def internParams (params : List Parameter) : CheckM (List Check.TypedParam) :=
  params.mapM fun p => do
    let type ← onTypes (Check.internType p.type)
    return { name := p.name, type, location := some p.location }

/-- Declares a function. -/
def declareFunction (space : Nat) (name : String) (params : List Parameter)
    (result : Option TypeExpr) (body : List Stmt) (exported interrupt : Bool)
    (location : Option Location) : CheckM Unit := do
  let qualified ← qualify space name
  let params ← internParams params
  let result ← onTypes (Check.internResult result)
  let signature : Ty := .function (params.map (·.type)) result location
  let storage ← Check.Context.newStorage name qualified signature .function location
  if ← addValue space name storage location then
    let item : Check.FunctionItem :=
      { name, qualified, space, params, result, body, exported, interrupt, location, storage,
        scope := scopeOf space }
    modify fun s => { s with functions := s.functions.push item }

/-- Declares a template function. -/
def declareTemplate (space : Nat) (name : String) (typeNames : List String)
    (params : List Parameter) (result : Option TypeExpr) (body : List Stmt)
    (location : Option Location) : CheckM Unit := do
  let qualified ← qualify space name
  let (vars, bound) ← typeParams typeNames location
  let params ← internParams params
  let result ← onTypes (Check.internResult result)
  let signature : Ty := .function (params.map (·.type)) result location
  let template ← onTypes (Types.newTemplate vars signature location)
  let storage ← Check.Context.newStorage name qualified (.template template) .function location
  if ← addValue space name storage location then
    let item : Check.TemplateItem :=
      { name, qualified, space, typeParams := typeNames, params, signature, template,
        scope := { scopeOf space with params := bound }, body, location }
    modify fun s => { s with templates := s.templates.push item }

/-- Declares an import. -/
def declareImport (space : Nat) (name : String) (location : Option Location) : CheckM Unit := do
  let s ← get
  let index := s.imports.size
  set { s with imports := s.imports.push { owner := space, name, location } }
  modifySpace space fun n => { n with imports := n.imports ++ [index] }

mutual

/-- Enters a declaration into a namespace. -/
def declare (space : Nat) : Decl → CheckM Unit
  | .type name params definition l => declareType space name params definition (some l)
  | .global name type init exported l => declareGlobal space name type init exported (some l)
  | .function name [] params result body exported interrupt l =>
    declareFunction space name params result body exported interrupt (some l)
  | .function name typeParams params result body _ _ l =>
    declareTemplate space name typeParams params result body (some l)
  | .use name l => declareImport space name (some l)
  | .space name decls _ => do
    let child ← childSpace space name
    declareAll child decls

/-- Enters declarations into a namespace. -/
def declareAll (space : Nat) : List Decl → CheckM Unit
  | [] => return
  | d :: rest => do
    declare space d
    declareAll space rest

end

/-- The outermost namespace. -/
def root : Nat := 0

/-- A program without declarations. -/
def emptyState : State :=
  { spaces := #[{ name := rootName, qualified := rootName, parent := none }] }

/-- Enters the declarations of a program. -/
def declareProgram (decls : List Decl) : CheckM Unit := declareAll root decls

end Qll.Program
