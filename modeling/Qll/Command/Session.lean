import Qll.Assembly.Stream
import Qll.Command.Settings
import Qll.Progress.View

/-!
# Sessions

A session compiles the same inputs, once or again and again. Diagnostics and directives go to
standard output; everything else is told on standard error.
-/

namespace Qll.Command

open Assembly (Directive)
open Compilation (Run Stage)
open Diagnostic (Bag Paint)
open Files (Disk)
open Interchange (LoadedUnit)
open Trace (Recorder Span)

/-- A command at work. -/
structure Session where
  verb : Verb
  settings : Settings
  color : Bool
  recorder : Recorder
  /-- Where the trace goes: a file, or standard error if empty or a dash. -/
  tracePath : String

namespace Session

/-- All stages are run and the output is written, or the inputs are only checked. -/
def isFull (s : Session) : Bool := s.verb ≠ .check

/-- The stages of a session. -/
def stages (s : Session) : List Stage := if s.isFull then Stage.all else Stage.checking

/-- Whether the trace goes to a file. -/
def tracesToFile (s : Session) : Bool :=
  s.recorder.streams && s.tracePath ≠ "" && s.tracePath ≠ "-"

end Session

variable {m : Type → Type} [Monad m] [Host m]

/-- Sets up the trace. A trace that is asked for without a level has the level of phases, and its
file is created at once. -/
def startTrace (g : Given) : ExceptT Failure m (Recorder × String) := do
  let path := g.text "trace" ""
  let name := g.text "trace-level" "off"
  let level ← orFail (.traceLevel name) (Trace.Level.parse? name)
  let level := if path ≠ "" ∧ level = .off then .phase else level
  let recorder := Recorder.create level .auto path 0
  if recorder.streams && path ≠ "" && path ≠ "-" then
    match ← Disk.write (m := m) path [] with
    | .error e => throw (.traceFile e)
    | .ok () => return (recorder, path)
  return (recorder, path)

/-- Begins a session. -/
def startSession (verb : Verb) (p : Parsed) (color : Bool) : ExceptT Failure m Session := do
  let settings ← loadSettings p
  let (recorder, tracePath) ← startTrace p.given
  return { verb, settings, color, recorder, tracePath }

/-- Ends a session: a trace in a file is written out. -/
def Session.close (s : Session) : m Unit := do
  if s.tracesToFile then
    let _ ← Disk.write s.tracePath (Text.toBytes s.recorder.written)

/-! ## Reading the units -/

/-- Reads one unit, or says why it cannot be read. What opens but has no content to read, such as a
directory, fails as a unit. -/
def loadUnit (path : String) : m (Except String LoadedUnit) := do
  let format := Interchange.Format.ofPath path
  match ← Disk.read path with
  | .error e =>
    if e.attempt = .read then
      return .error (path ++ ": " ++ (Interchange.UnitError.encoding format).message ++ ": " ++
        e.message)
    else return .error e.message
  | .ok bytes =>
    match Interchange.readUnit format bytes with
    | .error e => return .error (path ++ ": " ++ e.message)
    | .ok decls => return .ok { path, decls }

/-- Reads units; the first one that cannot be read ends the work. -/
def loadUnits : List String → m (Except String (List LoadedUnit))
  | [] => return .ok []
  | path :: rest => do
    match ← loadUnit path with
    | .error message => return .error message
    | .ok unit =>
      match ← loadUnits rest with
      | .error message => return .error message
      | .ok units => return .ok (unit :: units)

/-! ## Running the stages -/

/-- Writes down how long the last stage took. -/
def timed (before after : Run) (nanos : Nat) : Run :=
  if before.phases.size < after.phases.size then
    { after with
      phases := after.phases.modify before.phases.size fun p => { p with elapsed := nanos },
      events := after.events.modify (after.events.size - 1) fun e => { e with elapsed := nanos } }
  else after

/-- Runs stages by the clock. -/
def runStages (r : Run) : List Stage → m Run
  | [] => return r.settle
  | stage :: rest => do
    let start ← Host.clock
    let before := { r with trace := { r.trace with clock := start / 1000 } }
    let after := before.step stage
    let finish ← if before.phases.size < after.phases.size then Host.clock else pure start
    runStages (timed before after (finish - start)) rest

/-- Shows the stages of a run as a progress view. -/
def showProgress (s : Session) (r : Run) : m Unit := do
  let view := r.events.foldl (fun view e =>
      view.change { stage := e.stage.name, status := e.status.name, detail := e.detail,
                    elapsed := e.elapsed })
    (Progress.View.create s.verb.name (s.stages.map Stage.name))
  Host.draw view.finish.text

/-- Runs the stages of a session over its units. -/
def runUnits (s : Session) (units : List LoadedUnit) (parent : Nat) : m Run := do
  let options := { s.settings.options with cancelled := ← Host.cancelled }
  let run ← runStages { Run.ofUnits units options with trace := s.recorder, parent } s.stages
  if !s.settings.quiet && s.settings.progress.decide (← Host.errIsTerminal) then
    showProgress s run
  return run

/-! ## Reporting -/

/-- Prints diagnostics, if there are any. -/
def printDiagnostics (s : Session) (bag : Bag) : m Unit := do
  if bag.size ≠ 0 then
    Host.out (Text.toBytes (Diagnostic.render s.settings.diagnostics bag { color := s.color }))

/-- Tells of an internal error, with the last events of the trace. -/
def reportInternal (s : Session) (recorder : Recorder) (ending : Compilation.Ending) : m Unit := do
  let title := (Paint.color Paint.red).apply s.color "internal error:"
  Host.err (title ++ " " ++ ending.message ++ "\n")
  if recorder.hasRing then Host.err ("recent trace events:\n" ++ recorder.dump .text)

/-- Writes directives to the output file, or to standard output. -/
def writeOutput (s : Session) (ds : List Directive) : ExceptT Failure m Unit := do
  let content := match s.settings.format with
    | .messagePack => Assembly.Stream.encode ds
    | .text => Text.toBytes (Assembly.listing ds)
  let path := s.settings.output
  if path = "" then Host.out (m := m) content
  else
    let directory := Files.Path.directory path
    if directory ≠ "." then
      match ← Files.makeDirectories (m := m) directory with
      | .error e => throw (.outputDirectory e)
      | .ok () => pure ()
    match ← Disk.write (m := m) path content with
    | .error e => throw (.outputFile e)
    | .ok () => return

/-- The closing line of a session without errors. -/
def Session.summary (s : Session) (bag : Bag) : String :=
  (Paint.color Paint.green).apply s.color "ok" ++ " " ++ Nat.repr s.settings.inputs.length ++
    " units" ++ (if bag.summary = "" then "" else ", " ++ bag.summary) ++
    (if s.isFull && s.settings.output ≠ "" then " -> " ++ s.settings.output else "") ++ "\n"

/-- Reports a run; gives the exit status. -/
def reportRun (s : Session) (r : Run) : ExceptT Failure m Nat := do
  match r.ending with
  | some (.internal stage decl fault) =>
    reportInternal (m := m) s r.trace (.internal stage decl fault)
    return 2
  | some ending => throw (.ending ending)
  | none =>
    printDiagnostics (m := m) s r.bag
    if s.settings.timings then Host.err (m := m) (Compilation.Timing.ofPhases r.phases.toList).text
    if r.bag.hasErrors then return 1
    if s.settings.emitLive then
      (r.live.getD []).forM fun name => Host.err (m := m) ("live: " ++ name ++ "\n")
    if s.isFull then writeOutput s (r.directives.getD [])
    if !s.settings.quiet then Host.err (m := m) (s.summary r.bag)
    return 0

/-- Tells of units that cannot be read. -/
def reportUnreadable (s : Session) (message : String) : m Unit :=
  printDiagnostics s
    ((Bag.empty 1).add { severity := .error, code := .badInput, location := none, message })

/-- Compiles the inputs once: the exit status is one after errors in them and two after an internal
error. A process that dies leaves its span open. -/
def compileOnce (s : Session) : m (Session × Except Failure Nat) := do
  let start ← Host.clock
  let (span, recorder) :=
    { s.recorder with clock := start / 1000 }.enter .driver
      s.verb.name 0
  let s := { s with recorder }
  let units ← if ← Host.cancelled then pure (.error "context canceled")
    else loadUnits s.settings.inputs
  let (recorder, result) ← match units with
    | .error message => do
      reportUnreadable s message
      pure (s.recorder, .ok 1)
    | .ok units => do
      let run ← runUnits s units (Span.parentId span)
      let result ← (reportRun s run).run
      pure (run.trace, result)
  let finish ← Host.clock
  let died := match result with
    | .ok _ => false
    | .error failure => failure.isDeath
  let recorder :=
    if died then recorder else { recorder with clock := finish / 1000 }.leave span ""
  let s := { s with recorder }
  if s.recorder.streams && !s.tracesToFile then
    Host.log s.recorder.written
    return ({ s with recorder := { s.recorder with written := "" } }, result)
  return (s, result)

end Qll.Command
