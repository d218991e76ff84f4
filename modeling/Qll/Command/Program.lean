import Qll.Command.Session
import Qll.Digest.Sha256

/-!
# The program

A command line is carried out to its end, or to the point where the inputs are watched for changes.
-/

namespace Qll.Command

open Files (Disk FileError)

/-- How the program ended. -/
structure Outcome where
  exit : Nat := 0
  failure : Option Failure := none
  /-- Why the heap profile could not be written. -/
  profiling : Option Failure := none

namespace Outcome

/-- The end of a command. -/
def ofResult : Except Failure Nat → Outcome
  | .ok exit => { exit }
  | .error failure => { exit := if failure.isDeath then 2 else 1, failure := some failure }

/-- What is said of a profile that could not be written. -/
def profilingText (o : Outcome) : Option String :=
  o.profiling.map fun f => Release.tool ++ ": profiling: " ++ f.message ++ "\n"

/-- Whether the process died. -/
def died (o : Outcome) : Bool := o.failure.any Failure.isDeath

/-- What is told on standard error at the end. A death is told by the system. -/
def closing (o : Outcome) : String :=
  o.profilingText.getD "" ++
    ((o.failure.map fun f =>
      (if f.isDeath then "fatal error" else Release.tool) ++ ": " ++ f.message ++ "\n").getD "")

end Outcome

/-- Inputs that are watched. -/
structure Watch where
  session : Session
  given : Given
  /-- The absolute paths of the inputs. -/
  paths : List String
  /-- The digest of the inputs when they were compiled last, unless one could not be read. -/
  digest : Option (List UInt8)

/-- Where a command line leads to. -/
inductive Result
  | ended (outcome : Outcome)
  | watching (watch : Watch)

variable {m : Type → Type} [Monad m] [Host m]

/-! ## Profiles -/

/-- Creates the file of a profile that is asked for. -/
def createProfile (g : Given) (flag : String) (which : Profile) : ExceptT Failure m Unit := do
  let path := g.text flag ""
  if path ≠ "" then
    match ← Disk.write (m := m) path [] with
    | .error e => throw (.profile which e)
    | .ok () => return

/-- Starts the profiles that run along with the command. -/
def startProfiles (g : Given) : ExceptT Failure m Unit := do
  createProfile g "cpuprofile" .cpu
  createProfile g "runtime-trace" .runtime

/-- Writes the heap profile after the command, unless the process died. -/
def finish (g : Given) (o : Outcome) : m Outcome := do
  if o.died then return o
  match ← (createProfile g "memprofile" .heap).run with
  | .ok () => return o
  | .error f => return { o with profiling := some f }

/-! ## Watching -/

/-- The digest of the inputs, unless one cannot be read. -/
def inputDigest (s : Session) : m (Option (List UInt8)) :=
  return (← Digest.ofFiles s.settings.inputs).toOption

/-- The absolute paths of some inputs, each once. -/
def absolutePaths (paths : List String) : m (List String) := do
  let here ← Disk.here
  return (paths.map (Files.Path.absolute here)).eraseDups

/-- Compiles the inputs and begins to watch them. -/
def startWatch (g : Given) (s : Session) : m (Except Failure Watch) := do
  let s := { s with settings := { s.settings with progress := .off } }
  match ← compileOnce s with
  | (s, .error failure) =>
    s.close
    return .error failure
  | (session, .ok _) =>
    let paths ← absolutePaths session.settings.inputs
    let digest ← inputDigest session
    Host.err ("watching " ++ Nat.repr paths.length ++ " units, press Ctrl+C to stop\n")
    return .ok { session, given := g, paths, digest }

/-- Compiles again if the content of an input has changed; `touched` are the paths at which
something has happened. -/
def Watch.react (w : Watch) (touched : List String) : m (Watch × Option Failure) := do
  if !touched.any w.paths.contains then return (w, none)
  let digest ← inputDigest w.session
  if digest.isSome && digest == w.digest then return (w, none)
  Host.err ("\n" ++ (← Host.timeOfDay) ++ " rebuilding\n")
  match ← compileOnce w.session with
  | (session, .ok _) => return ({ w with session, digest }, none)
  | (session, .error failure) => return ({ w with session, digest }, some failure)

/-- Ends watching, because it was called off or because of a failure. -/
def Watch.stop (w : Watch) (failure : Option Failure) : m Outcome := do
  w.session.close
  finish w.given (.ofResult (match failure with
    | none => .ok 0
    | some failure => .error failure))

/-! ## Commands -/

/-- Whether colours are used. -/
def chooseColor (g : Given) : ExceptT Failure m Bool := do
  let value := g.text "color" "auto"
  let choice ← orFail (.color value) (When.ofName? value)
  return choice.decide (← Host.outIsTerminal (m := m))

/-- Shows the version. -/
def showVersion (g : Given) (color : Bool) : ExceptT Failure m Unit := do
  let build : Release.Build := {}
  let value := g.text "format" "pretty"
  match Text.lower value with
  | "pretty" => Host.out (m := m) (Text.toBytes (build.banner color ++ "\n"))
  | "json" => Host.out (m := m) (Text.toBytes build.document)
  | _ => throw (.versionFormat value)

/-- What happens before every command: colours are chosen and profiles started. -/
def prepare (g : Given) : ExceptT Failure m Bool := do
  let color ← chooseColor g
  startProfiles g
  return color

/-- Carries out a command. -/
def perform (verb : Verb) (p : Parsed) (color : Bool) : m Result := do
  let ended (o : Outcome) : m Result := return .ended (← finish p.given o)
  match verb with
  | .version =>
    ended (.ofResult ((← (showVersion p.given color).run).map fun _ => 0))
  | verb =>
    match ← (startSession verb p color).run with
    | .error failure => ended (.ofResult (.error failure))
    | .ok s =>
      if verb = .watch then
        match ← startWatch p.given s with
        | .error failure => ended (.ofResult (.error failure))
        | .ok watch => return .watching watch
      else
        let (s, result) ← compileOnce s
        s.close
        ended (.ofResult result)

/-- Carries out a command line. -/
def run (args : List String) : m Result := do
  match parse args with
  | .error e => return .ended { exit := 1, failure := some (.usage e) }
  | .ok (.help verb) =>
    Host.out (Text.toBytes (guide verb))
    return .ended {}
  | .ok .number =>
    Host.out (Text.toBytes (Release.tool ++ " version " ++ ({} : Release.Build).number ++ "\n"))
    return .ended {}
  | .ok (.run verb p) =>
    match ← (prepare p.given).run with
    | .error failure => return .ended { exit := 1, failure := some failure }
    | .ok color => perform verb p color

end Qll.Command
