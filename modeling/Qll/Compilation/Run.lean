import Qll.Compilation.Stage
import Qll.Diagnostic.Bag
import Qll.Interchange.Unit
import Qll.Number.Binary
import Qll.Number.Total
import Qll.Program.Check
import Qll.Program.Compile
import Qll.Trace.Recorder

/-!
# Compilations under way

A compilation takes units through the stages. Reports of the checker reach the bag once each;
remarks on the request itself, such as a missing entry point, go there directly. A fault ends the
compilation within its stage, and the stage reports it. Where the stack of the process runs out, nobody
is left to report anything.
-/

namespace Qll.Compilation

open Assembly (Directive)
open Check (State CheckM Storage FunctionItem)
open Codegen (LinkM Linkage)
open Diagnostic (Bag Seen Code)
open Interchange (LoadedUnit)
open Trace (Recorder Span)

/-- What is asked of a compilation besides its units. -/
structure Options where
  /-- A library has no entry point. -/
  library : Bool := false
  /-- The name of the entry point; `main` if empty. -/
  entry : String := ""
  /-- Further names to keep. -/
  exports : List String := []
  /-- How many diagnostics are kept; no limit unless positive. -/
  maxDiagnostics : Int := 0
  /-- Whether the compilation is called off. -/
  cancelled : Bool := false
  /-- Why the party that watches the progress fails when a stage begins. -/
  watcher : Stage → Option String := fun _ => none
  /-- For how many steps of a chain of definitions the stack of the process has room. -/
  limit : Nat := 20000

/-- The name of the entry point. -/
def Options.entryName (o : Options) : String := if o.entry = "" then "main" else o.entry

/-- Why a compilation came to no result. -/
inductive Ending
  | internal (stage : Stage) (decl : String) (fault : Fault)
  | cancelled (stage : Stage)
  /-- The process died in a stage, for lack of stack. -/
  | overflow (stage : Stage)

/-- The wording of an ending. -/
def Ending.message : Ending → String
  | internal stage decl fault =>
    "internal compiler error in " ++ stage.name ++
      (if decl = "" then "" else " (" ++ decl ++ ")") ++ ": " ++ fault.message
  | cancelled stage => stage.name ++ ": context canceled"
  | overflow _ => Fault.endless.message

/-- A stage that ran, and what it has to say. -/
structure Phase where
  name : String
  note : String
  /-- How long it took, in nanoseconds. -/
  elapsed : Nat := 0
  deriving DecidableEq, Inhabited

/-- The state of a compilation. -/
structure Run where
  units : List LoadedUnit
  options : Options
  program : State := Program.emptyState
  seen : Seen := {}
  bag : Bag
  live : Option (List String) := none
  /-- The function in which the program begins. -/
  entry : Option FunctionItem := none
  linkage : Linkage := {}
  output : Option (List Directive) := none
  /-- The declaration being compiled. -/
  decl : String := ""
  ending : Option Ending := none
  events : Array Event := #[]
  phases : Array Phase := #[]
  trace : Recorder := {}
  /-- The span around the compilation. -/
  parent : Nat := 0

namespace Run

/-- A compilation before its first stage. -/
def ofUnits (units : List LoadedUnit) (options : Options) : Run :=
  { units, options, program := Program.emptyState.withLimit options.limit,
    bag := .empty options.maxDiagnostics }

/-- Whether errors were found. Errors of the checker count even if the bag had no room for them. -/
def failed (r : Run) : Bool := r.program.failed || r.bag.hasErrors

/-- Takes over the state of the checker; what it reported goes to the bag. -/
def adopt (r : Run) (program : State) : Run :=
  let new := program.reports.toList.drop r.program.reports.size
  let (fresh, seen) := r.seen.forward new
  { r with program, seen, bag := r.bag.addAll fresh }

/-- The directives of a compilation without errors. -/
def directives (r : Run) : Option (List Directive) :=
  if r.ending.isNone && !r.failed then r.output else none

end Run

/-- Steps of a stage. -/
abbrev StageM := EStateM Fault Run

/-- Runs the checker. -/
def onProgram {α : Type} (x : CheckM α) : StageM α := fun r =>
  match x Program.directory r.program with
  | .ok a program => .ok a (r.adopt program)
  | .error e program => .error e (r.adopt program)

/-- Adds to the routines and data of the program. -/
def onLinkage {α : Type} (x : LinkM α) : StageM α := fun r =>
  match x r.linkage with
  | .ok a linkage => .ok a { r with linkage }
  | .error e linkage => .error e { r with linkage }

/-- Encloses work in a span of the trace. A fault leaves the span open. -/
def spanned (scope : Trace.Scope) (name : String) (parent : Nat) (work : StageM String) :
    StageM Unit := do
  let r ← get
  let (span, trace) := r.trace.enter scope name parent
  set { r with trace }
  let detail ← work
  modify fun r => { r with trace := r.trace.leave span detail }

/-- A remark on the request. -/
def remark (code : Code) (message : String) : StageM Unit :=
  modify fun r =>
    { r with bag := r.bag.add { severity := .error, code, location := none, message } }

/-- The counts of errors and warnings in the bag. -/
def counts : StageM String := do
  let bag := (← get).bag
  return Nat.repr (bag.count .error) ++ " errors, " ++ Nat.repr (bag.count .warning) ++ " warnings"

/-! ## Entry point and exports -/

/-- Finds a value by a name that the user gave, from the outermost namespace on. -/
def findGiven (s : State) (name : String) : Except String (Option Storage) :=
  let front := Program.rootName ++ Program.separator
  let name :=
    if Text.startsWith name front then String.ofList (name.toList.drop front.length) else name
  Program.findValue s Program.root name

/-- What speaks against a function as the entry point. -/
def entryObjection (s : State) (f : FunctionItem) : Except Fault (Option String) := do
  if f.interrupt then return some " is an interrupt handler"
  if !f.params.isEmpty then return some " must not take parameters"
  let result ← Codegen.resultOf (Codegen.Shapes.ofStore s.types) f.result
  if result.isHidden then
    return some (" must return void or a single word, not " ++ (← s.types.text f.result))
  return none

/-- The function that is the entry point: one without parameters that returns nothing or one word.
Anything else is remarked on. -/
def resolveEntry (name : String) : StageM (Option FunctionItem) := do
  let s := (← get).program
  let refuse (code : Code) (text : String) : StageM (Option FunctionItem) := do
    remark code ("entry point " ++ text)
    return none
  match findGiven s name with
  | .error message => refuse .badEntry (name ++ ": " ++ message)
  | .ok none => refuse .noEntry (name ++ " is not declared")
  | .ok (some st) =>
    if st.kind ≠ .function then
      refuse .badEntry (st.qualified ++ " is a " ++ st.kind.name ++ ", not a function")
    else
      match Program.function? s st.qualified with
      | none => refuse .badEntry (st.qualified ++ " is a template function")
      | some f =>
        match entryObjection s f with
        | .error e => throw e
        | .ok (some objection) => refuse .badEntry (st.qualified ++ objection)
        | .ok none => return some f

/-- The qualified names of the exports; a name that is no global or function is remarked on. -/
def resolveExports : List String → StageM (List String)
  | [] => return []
  | name :: rest => do
    match findGiven (← get).program name with
    | .error message =>
      remark .noEntry ("export " ++ name ++ ": " ++ message)
      resolveExports rest
    | .ok none =>
      remark .noEntry ("export " ++ name ++ " is not a global or function")
      resolveExports rest
    | .ok (some st) =>
      if st.kind.isStatic then return st.qualified :: (← resolveExports rest)
      remark .noEntry ("export " ++ name ++ " is not a global or function")
      resolveExports rest

/-! ## The stages -/

/-- Declares all units in one namespace, and resolves imports and the names in types. -/
def bindStage (parent : Nat) : StageM String := do
  let units := (← get).units
  units.forM fun u => spanned .unit u.path parent do
    return Nat.repr u.decls.length ++ " declarations"
  let decls := units.flatMap (·.decls)
  onProgram (Program.declareProgram decls)
  onProgram Program.bind
  return Nat.repr decls.length ++ " declarations in " ++ Nat.repr units.length ++ " units"

/-- Makes the postponed checks, unless there are errors. -/
def deferredStage : StageM String := do
  let pending := (← get).program.postponed.size
  if ← onProgram Program.deferred then counts
  else return Nat.repr pending ++ " checks skipped"

/-- Finds the live declarations. -/
def livenessStage : StageM String := do
  match Program.Graph.ofNodes (Program.routines (← get).program) with
  | .error e => throw e
  | .ok graph =>
    let options := (← get).options
    let entry ← if options.library then pure none else resolveEntry options.entryName
    let exports ← resolveExports options.exports
    let live := graph.solve (entry.toList.map (·.qualified) ++ exports)
    modify fun r => { r with entry, live := some live }
    return Nat.repr live.length ++ " of " ++ Nat.repr graph.size ++ " live"

/-- Compiles one declaration. -/
def compileDecl (parent : Nat) (name : String) (work : LinkM Unit) : StageM Unit := do
  modify fun r => { r with decl := name }
  spanned .decl name parent do
    onLinkage work
    return ""
  modify fun r => { r with decl := "" }

/-- Compiles the live declarations. -/
def codegenStage (parent : Nat) : StageM String := do
  modify fun r => { r with linkage := { library := r.options.library } }
  let r ← get
  let parts := Program.compilations r.program (r.live.getD [])
  parts.forM fun (name, work) => compileDecl parent name work
  return Nat.repr parts.length ++ " declarations"

/-- Puts the program together. -/
def linkStage : StageM String := do
  let r ← get
  let output ←
    if r.options.library then onLinkage (Codegen.link "" .void)
    else
      match r.entry with
      | none => throw .missing
      | some f =>
        match Codegen.resultOf (Codegen.Shapes.ofStore r.program.types) f.result with
        | .error e => throw e
        | .ok result => onLinkage (Codegen.link f.qualified result)
  modify fun r => { r with output := some output }
  return Nat.repr output.length ++ " directives"

/-- The work of a stage; gives what the stage has to say. -/
def perform (stage : Stage) (parent : Nat) : StageM String :=
  match stage with
  | .bind => bindStage parent
  | .kindcheck => do
    onProgram Program.kindcheck
    counts
  | .typecheck => do
    onProgram Program.typecheck
    counts
  | .deferred => deferredStage
  | .liveness => livenessStage
  | .codegen => codegenStage parent
  | .link => linkStage

/-- Tells the watcher that a stage begins. -/
def announce (stage : Stage) : StageM Unit := do
  let r ← get
  match r.options.watcher stage with
  | some text => throw (.observer text)
  | none => set { r with events := r.events.push { stage, status := .working } }

namespace Run

/-- Closes a stage: its span, its phase and its last event. -/
def close (r : Run) (stage : Stage) (span : Option Span) (status : Status) (note detail : String) :
    Run :=
  { r with
    trace := r.trace.leave span detail,
    phases := r.phases.push { name := stage.name, note },
    events := r.events.push { stage, status, detail } }

/-- Runs a stage. A process that dies within it leaves everything as it is. -/
def runStage (r : Run) (stage : Stage) : Run :=
  let before := r.failed
  let (span, trace) := r.trace.enter .pass stage.name r.parent
  let work : StageM String := do
    announce stage
    perform stage (Span.parentId span)
  match work { r with trace, decl := "" } with
  | .ok detail r =>
    r.close stage span (if r.failed && !before then .error else .done) detail detail
  | .error .endless r => { r with ending := some (.overflow stage) }
  | .error fault r =>
    let ending := Ending.internal stage r.decl fault
    { r with ending := some ending }.close stage span .error "internal error" ending.message

/-- One step of a compilation: a stage is run or, after errors, left out. -/
def step (r : Run) (stage : Stage) : Run :=
  if r.ending.isSome then r
  else if r.failed && !stage.toleratesErrors then
    { r with events := r.events.push { stage, status := .skipped } }
  else if r.options.cancelled then { r with ending := some (.cancelled stage) }
  else r.runStage stage

/-- Puts the diagnostics in order, unless the compilation came to no result. -/
def settle (r : Run) : Run := if r.ending.isSome then r else { r with bag := r.bag.sort }

/-- Takes a compilation through some stages. -/
def through (r : Run) (stages : List Stage) : Run := (stages.foldl step r).settle

end Run

/-- Checks units and compiles them. -/
def compile (units : List LoadedUnit) (options : Options) : Run :=
  (Run.ofUnits units options).through Stage.all

/-- Checks units. -/
def check (units : List LoadedUnit) (options : Options) : Run :=
  (Run.ofUnits units options).through Stage.checking

/-! ## Timings

A table of how long each stage took, with what it has to say, and the total.
-/

/-- A line of the table. -/
structure TimingLine where
  name : String
  milliseconds : Float
  note : String := ""
  deriving Inhabited

/-- How long the stages took. -/
structure Timing where
  lines : List TimingLine
  total : Float
  deriving Inhabited

/-- Names are padded to twelve characters and times to eight, with two places. -/
def TimingLine.text (l : TimingLine) : String :=
  "  " ++ Text.padRight 12 l.name ++ " " ++ Text.padLeft 8 (Number.fixed 2 l.milliseconds) ++
    " ms" ++ (if l.note = "" then "" else "  // " ++ l.note) ++ "\n"

/-- The table as text. -/
def Timing.text (t : Timing) : String :=
  "timings:\n" ++ String.join (t.lines.map TimingLine.text) ++
    { name := "total", milliseconds := t.total : TimingLine }.text

/-- The timing of the stages that ran. -/
def Timing.ofPhases (phases : List Phase) : Timing :=
  { lines := phases.map fun p =>
      { name := p.name, milliseconds := Number.milliseconds p.elapsed, note := p.note },
    total := Number.milliseconds (Number.total (·.elapsed) phases) }

end Qll.Compilation
