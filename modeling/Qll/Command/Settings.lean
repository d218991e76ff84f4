import Qll.Command.Host
import Qll.Command.Line
import Qll.Compilation.Run
import Qll.Diagnostic.Render
import Qll.Manifest.Project

/-!
# Settings

The manifest and the flags together say what to do; where both speak, the flags win.
-/

namespace Qll.Command

open Files (Disk FileError)
open Manifest (Project)

/-! ## Why a command gives up

Mistakes in the units are diagnostics. What keeps a command from its work is a failure.
-/

/-- A profile of the program itself. -/
inductive Profile
  | cpu
  | heap
  | runtime
  deriving DecidableEq, Inhabited

/-- The name of a profile. -/
def Profile.name : Profile → String
  | cpu => "cpu profile"
  | heap => "heap profile"
  | runtime => "runtime trace"

/-- Why a command gives up. -/
inductive Failure
  | usage (error : UsageError)
  | color (value : String)
  | progress (value : String)
  | diagnosticsFormat (value : String)
  | outputFormat (value : String)
  | versionFormat (value : String)
  | traceLevel (value : String)
  | project (error : Manifest.ProjectError)
  | noInputs
  | input (path : String) (error : FileError)
  | profile (which : Profile) (error : FileError)
  | traceFile (error : FileError)
  | outputDirectory (error : FileError)
  | outputFile (error : FileError)
  | ending (ending : Compilation.Ending)

/-- The wording of a failure. -/
def Failure.message : Failure → String
  | usage error => error.message
  | color value => "invalid --color value " ++ Text.quote value ++ " (expected auto|on|off)"
  | progress value => "invalid --ui value " ++ Text.quote value ++ " (expected auto|on|off)"
  | diagnosticsFormat value => Diagnostic.Format.unknown value
  | outputFormat value =>
    "invalid output format " ++ Text.quote value ++ " (expected text|msgpack)"
  | versionFormat value =>
    "unsupported format " ++ Text.quote value ++ " (must be pretty or json)"
  | traceLevel value => Trace.Level.unknownName value
  | project error => error.message
  | noInputs => "no inputs: pass unit files or run inside a project with " ++ Manifest.fileName
  | input path error => "input " ++ path ++ ": " ++ error.message
  | profile which error => which.name ++ ": " ++ error.message
  | traceFile error => "failed to create tracer: failed to open trace output: " ++ error.message
  | outputDirectory error => "create output directory: " ++ error.message
  | outputFile error => "create output: " ++ error.message
  | ending e => e.message

/-- Whether the process died, so that nothing could be done afterwards. -/
def Failure.isDeath : Failure → Bool
  | ending (.overflow _) => true
  | _ => false

/-! ## What to do -/

/-- When something is shown. -/
inductive When
  | auto
  | on
  | off
  deriving DecidableEq, Inhabited

namespace When

/-- The name of a choice. -/
def name : When → String
  | auto => "auto"
  | on => "on"
  | off => "off"

/-- The choice with exactly this name. -/
def ofName? (s : String) : Option When := [auto, on, off].find? (·.name == s)

/-- The choice of a text, regardless of case and of white space around it; nothing is `auto`. -/
def parse? (s : String) : Option When :=
  let word := Text.trim (Text.lower s)
  if word = "" then some auto else ofName? word

/-- Whether something is shown, given what is said of `auto`. -/
def decide (w : When) (auto : Bool) : Bool :=
  match w with
  | .auto => auto
  | on => true
  | off => false

end When

/-- How directives are written. -/
inductive OutputFormat
  | text
  | messagePack
  deriving DecidableEq, Inhabited

/-- The format with a name. -/
def OutputFormat.ofName? : String → Option OutputFormat
  | "text" => some text
  | "msgpack" => some messagePack
  | _ => none

/-- What a command does. -/
structure Settings where
  inputs : List String
  options : Compilation.Options
  output : String
  format : OutputFormat
  emitLive : Bool
  diagnostics : Diagnostic.Format
  quiet : Bool
  timings : Bool
  progress : When

/-- The number of diagnostics kept unless another one is asked for. -/
def defaultLimit : Int := 100

/-- The limit of diagnostics: the flag, else the manifest, else the usual one. -/
def limitOf (g : Given) (project : Option Project) : Int :=
  match g.number? "max-diagnostics", project.map (·.manifest.maxDiagnostics) with
  | some n, _ => n
  | none, some n => if n = 0 then defaultLimit else n
  | none, none => defaultLimit

/-- What is asked of a compilation. -/
def optionsOf (g : Given) (project : Option Project) : Compilation.Options :=
  let manifest : Manifest := (project.map (·.manifest)).getD {}
  { library := (g.switch? "library").getD manifest.library,
    entry := g.text "entry" (if manifest.entry = "" then "main" else manifest.entry),
    exports := manifest.exports ++ g.texts "export",
    maxDiagnostics := limitOf g project }

/-- The name of the output format: the flag, else the manifest, else text. -/
def formatName (g : Given) (project : Option Project) : String :=
  let fromManifest := (project.map (·.manifest.format)).getD ""
  g.text "format" (if fromManifest = "" then "text" else fromManifest)

variable {m : Type → Type} [Monad m] [Disk m]

/-- The project around the working directory, if the compiler may build it. -/
def findProject : ExceptT Failure m (Option Project) := do
  match ← Manifest.discover (m := m) "." with
  | .error e => throw (.project e)
  | .ok none => return none
  | .ok (some p) =>
    match p.checkCompiler ({} : Release.Build).number with
    | .error e => throw (.project e)
    | .ok () => return some p

/-- The inputs: the arguments, else those of the manifest. -/
def findInputs (arguments : List String) (project : Option Project) :
    ExceptT Failure m (List String) := do
  let inputs ← match arguments, project with
    | [], some p => do
      match ← p.inputPaths (m := m) with
      | .error e => throw (.project e)
      | .ok paths => pure paths
    | arguments, _ => pure arguments
  if inputs.isEmpty then throw .noInputs
  return inputs

/-- Every input has to exist. -/
def checkInputs : List String → ExceptT Failure m Unit
  | [] => return
  | path :: rest => do
    match ← Disk.stat (m := m) path with
    | .error e => throw (.input path e)
    | .ok _ => checkInputs rest

/-- The value of an option that may be missing. -/
def orFail {α : Type} (failure : Failure) : Option α → ExceptT Failure m α
  | some a => return a
  | none => throw failure

/-- The settings of a command line. -/
def loadSettings (p : Parsed) : ExceptT Failure m Settings := do
  let g := p.given
  let project ← findProject
  let inputs ← findInputs p.arguments project
  let ui := g.text "ui" "auto"
  let progress ← orFail (.progress ui) (When.parse? ui)
  let name := g.text "diagnostics-format" "pretty"
  let diagnostics ← orFail (.diagnosticsFormat name) (Diagnostic.Format.parse? name)
  let written := formatName g project
  let format ← orFail (.outputFormat written) (OutputFormat.ofName? written)
  checkInputs inputs
  return {
    inputs, format, diagnostics, progress,
    options := optionsOf g project,
    output := g.text "output" ((project.map (·.output)).getD ""),
    emitLive := g.isOn "emit-live",
    quiet := g.isOn "quiet",
    timings := g.isOn "timings" }

end Qll.Command
