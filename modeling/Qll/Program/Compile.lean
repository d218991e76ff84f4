import Qll.Codegen.Linker
import Qll.Codegen.Lowering
import Qll.Program.Declare
import Qll.Program.Liveness

/-!
# Compiling a checked program

Globals and functions that are live are compiled, globals first and each in the order of its
declaration. The initial values of globals go into one routine.
-/

namespace Qll.Program

open Check (State GlobalItem FunctionItem)
open Codegen (Shapes LinkM Routine Gen)

/-- The reference graph of a program, as a list of nodes. Exported declarations and interrupt
handlers are roots. -/
def routines (s : State) : List Node :=
  (s.globals.toList.map fun g =>
      { name := g.qualified, refs := g.references, root := g.exported }) ++
    s.functions.toList.map fun f =>
      { name := f.qualified, refs := f.references, root := f.exported || f.interrupt }

/-- The function with a qualified name. -/
def function? (s : State) (qualified : String) : Option FunctionItem :=
  s.functions.toList.reverse.find? fun f => f.qualified = qualified

/-- The template function with a qualified name. -/
def template? (s : State) (qualified : String) : Option Check.TemplateItem :=
  s.templates.toList.reverse.find? fun t => t.qualified = qualified

/-- The code that stores the initial value of a global. -/
def storeInitial (shapes : Shapes) (g : GlobalItem) (value : Checked.Expr) : Gen Unit :=
  Codegen.statement do
    let v ← Codegen.compileExpr shapes value false
    let addr ← Codegen.address g.storage
    Codegen.storeValue shapes addr v g.storage.type
    Codegen.release addr
    Codegen.release v

/-- Reserves the words of a global and adds its initial value to the initializing routine. -/
def compileGlobal (shapes : Shapes) (g : GlobalItem) : LinkM Unit := do
  match shapes.size g.storage.type with
  | .error e => throw e
  | .ok size => Codegen.addGlobal g.qualified size
  match g.checked with
  | none => if g.init.isSome then throw .missing
  | some value => Codegen.onInitializer (storeInitial shapes g value)

/-- The empty routine of a function, with the frame its parameters ask for. -/
def emptyRoutine (shapes : Shapes) (f : FunctionItem) : Except Fault Routine := do
  if f.interrupt then return .interrupt f.qualified
  let params ← f.paramStorages.mapM fun storage =>
    return { storage, size := ← shapes.size storage.type }
  return .function f.qualified params (← Codegen.resultOf shapes f.result).isHidden

/-- Adds the routine of a function. -/
def compileFunction (shapes : Shapes) (f : FunctionItem) : LinkM Unit := do
  match emptyRoutine shapes f, f.checked with
  | .error e, _ => throw e
  | .ok _, none => throw .missing
  | .ok routine, some body =>
    match Codegen.compileStmts shapes body routine with
    | .error e _ => throw e
    | .ok _ routine => discard (Codegen.addRoutine routine)

/-- The live declarations with what compiles them, in order. -/
def compilations (s : State) (live : List String) : List (String × LinkM Unit) :=
  let shapes := Shapes.ofStore s.types
  ((s.globals.toList.filter fun g => live.contains g.qualified).map fun g =>
      (g.qualified, compileGlobal shapes g)) ++
    (s.functions.toList.filter fun f => live.contains f.qualified).map fun f =>
      (f.qualified, compileFunction shapes f)

end Qll.Program
