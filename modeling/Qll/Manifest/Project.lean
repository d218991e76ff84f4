import Qll.Files.Pattern
import Qll.Release.Constraint
import Qll.Text.Quoted
import Qll.Toml.Document

/-!
# Projects and their manifests

What a manifest says, how it is read, and the project that it belongs to.
-/

/-! ## Manifests

A manifest describes a package and how it is built. Its keys are known in letters of either case,
and keys that are not known are an error.
-/

namespace Qll

/-- What is built, and how. -/
structure Manifest where
  name : String := ""
  /-- The compilers that the package can be built with. -/
  compiler : String := ""
  inputs : List String := []
  library : Bool := false
  entry : String := ""
  output : String := ""
  format : String := ""
  maxDiagnostics : Int := 0
  exports : List String := []
  deriving DecidableEq, Inhabited

namespace Manifest

open Toml (Document Slot Key)

/-- The name of the file that holds a manifest. -/
def fileName : String := "qll.toml"

/-- What is wrong with a manifest. -/
inductive Flaw
  /-- It is not well-formed, or a value is not of the kind that its key asks for. -/
  | syntactic
  | noPackage
  | noName
  | unknownKeys (keys : List Key)
  | badConstraint
  | negativeLimit
  deriving Inhabited

/-- The wording of a flaw. -/
def Flaw.message : Flaw → String
  | syntactic => "failed to parse TOML: malformed document"
  | noPackage => "missing [package]"
  | noName => "missing [package].name"
  | unknownKeys keys => "unknown keys " ++ Text.join ", " (keys.map Toml.keyText)
  | badConstraint => "[package].compiler: improper constraint"
  | negativeLimit => "[build].max-diagnostics must not be negative"

/-! ## Reading the fields -/

/-- The text of a slot. -/
def text? : Slot → Option String
  | .value (.string s) => some s
  | _ => none

/-- The texts of a slot. -/
def texts? : Slot → Option (List String)
  | .value (.array items) => items.mapM fun v => text? (.value v)
  | _ => none

/-- The flag of a slot. -/
def flag? : Slot → Option Bool
  | .value (.bool b) => some b
  | _ => none

/-- The number of a slot. -/
def number? : Slot → Option Int
  | .value (.int n) => some n
  | _ => none

/-- The known key that a name stands for: the same one, else the first in letters of other case. -/
def known? (names : List String) (name : String) : Option String :=
  if names.contains name then some name else names.find? fun n => Text.equalFold name n

/-- The keys of the package. -/
def packageKeys : List String := ["name", "compiler"]

/-- The keys of the build. -/
def buildKeys : List String :=
  ["inputs", "library", "entry", "output", "format", "max-diagnostics", "exports"]

/-- Takes over one field of the package. -/
def setPackage (m : Manifest) (name : String) (slot : Slot) : Option Manifest :=
  match known? packageKeys name with
  | some "name" => return { m with name := ← text? slot }
  | some "compiler" => return { m with compiler := ← text? slot }
  | _ => some m

/-- Takes over one field of the build. -/
def setBuild (m : Manifest) (name : String) (slot : Slot) : Option Manifest :=
  match known? buildKeys name with
  | some "inputs" => return { m with inputs := ← texts? slot }
  | some "library" => return { m with library := ← flag? slot }
  | some "entry" => return { m with entry := ← text? slot }
  | some "output" => return { m with output := ← text? slot }
  | some "format" => return { m with format := ← text? slot }
  | some "max-diagnostics" => return { m with maxDiagnostics := ← number? slot }
  | some "exports" => return { m with exports := ← texts? slot }
  | _ => some m

/-- The tables of a manifest. -/
def sections : List String := ["package", "build"]

/-- Whether a slot is a table. -/
def isTable : Slot → Bool
  | .table => true
  | .value (.inline _) => true
  | _ => false

/-- Takes over what is below one name of the document. -/
def setSection (d : Document) (m : Manifest) (name : String) (slot : Slot) : Option Manifest :=
  match known? sections name with
  | none => some m
  | some which => do
    guard (isTable slot)
    (d.below [name]).foldlM (fun m (name, slot) =>
      if which = "package" then setPackage m name slot else setBuild m name slot) m

/-- Whether a key is one of a manifest. -/
def isKnown : Key → Bool
  | [name] => (known? sections name).isSome
  | [name, part] =>
    match known? sections name with
    | some "package" => (known? packageKeys part).isSome
    | some _ => (known? buildKeys part).isSome
    | none => false
  | _ => false

/-- The manifest of a document. -/
def ofDocument (d : Document) : Except Flaw Manifest :=
  match (d.below []).foldlM (fun m (name, slot) => setSection d m name slot) {} with
  | none => .error .syntactic
  | some m =>
    if (d.slot? ["package"]).isNone then .error .noPackage
    else if Text.trim m.name = "" then .error .noName
    else
      match d.keys.filter (!isKnown ·) with
      | [] =>
        let compiler := Text.trim m.compiler
        if compiler ≠ "" ∧ (Release.Requirement.parse? compiler).isNone then .error .badConstraint
        else if m.maxDiagnostics < 0 then .error .negativeLimit
        else .ok m
      | keys => .error (.unknownKeys keys)

/-- Reads a manifest. -/
def parse (bytes : List UInt8) : Except Flaw Manifest :=
  match Document.parse? bytes with
  | none => .error .syntactic
  | some d => ofDocument d

end Manifest

end Qll

/-! ## Projects

A project is a directory with a manifest, and everything below it. Paths in a manifest are seen from
its directory.
-/

namespace Qll.Manifest

open Files (Disk FileError Path.join Path.isAbsolute)

/-- A manifest and where it was found. -/
structure Project where
  path : String
  manifest : Manifest
  deriving Inhabited

/-- Why there is no project to work with. -/
inductive ProjectError
  /-- Looking for a manifest failed. -/
  | search (path : String) (error : FileError)
  /-- The manifest cannot be read. -/
  | unreadable (path : String) (error : FileError)
  | flawed (path : String) (flaw : Flaw)
  | badPattern (path input : String)
  | noMatch (path input : String)
  | badConstraint (path : String)
  | badVersion (version : String)
  | mismatch (path version : String)
  deriving Inhabited

/-- The wording of an error. -/
def ProjectError.message : ProjectError → String
  | search path error => "failed to stat " ++ Text.quote path ++ ": " ++ error.message
  | unreadable path error => path ++ ": failed to parse TOML: " ++ error.message
  | flawed path flaw => path ++ ": " ++ flaw.message
  | badPattern path input => path ++ ": input " ++ Text.quote input ++ ": syntax error in pattern"
  | noMatch path input => path ++ ": input " ++ Text.quote input ++ " matches nothing"
  | badConstraint path => path ++ ": " ++ Flaw.badConstraint.message
  | badVersion version => "compiler version " ++ Text.quote version ++ ": invalid version"
  | mismatch path version =>
    path ++ ": compiler version does not satisfy the manifest: " ++ version

/-- The directory and all directories above it, innermost first. -/
def upwards (directory : String) : List String :=
  (directory :: (Files.ancestors directory).dropLast.reverse) ++
    (if directory = "/" then [] else ["/"])

variable {m : Type → Type} [Monad m] [Disk m]

/-- The manifest in the first of some directories that has one. -/
def findIn : List String → m (Except ProjectError (Option String))
  | [] => return .ok none
  | directory :: rest => do
    let path := Path.join [directory, fileName]
    match ← Disk.stat path with
    | .ok _ => return .ok (some path)
    | .error e => if e.reason = .missing then findIn rest else return .error (.search path e)

/-- Reads the manifest at a path. -/
def load (path : String) : m (Except ProjectError Project) := do
  match ← Disk.read path with
  | .error e => return .error (.unreadable path e)
  | .ok bytes =>
    match parse bytes with
    | .error flaw => return .error (.flawed path flaw)
    | .ok manifest => return .ok { path, manifest }

/-- The project that a directory belongs to. -/
def discover (directory : String) : m (Except ProjectError (Option Project)) := do
  let start := Files.Path.absolute (← Disk.here) (if directory = "" then "." else directory)
  match ← findIn (upwards start) with
  | .error e => return .error e
  | .ok none => return .ok none
  | .ok (some path) => return (← load path).map some

namespace Project

/-- The directory of a project. -/
def root (p : Project) : String := Files.Path.directory p.path

/-- A path of the manifest, seen from the directory of the project. -/
def within (p : Project) (path : String) : String :=
  if Path.isAbsolute path then path else Path.join [p.root, path]

/-- Where the output goes; empty if nothing is said. -/
def output (p : Project) : String :=
  if p.manifest.output = "" then "" else p.within p.manifest.output

/-- Whether an input is a pattern. -/
def isPattern (input : String) : Bool :=
  input.toList.any fun c => c == '*' || c == '?' || c == '['

/-- The paths of one input. -/
def expandInput (p : Project) (input : String) : m (Except ProjectError (List String)) := do
  if !isPattern input then return .ok [p.within input]
  match ← Files.Pattern.expand (p.within input) with
  | none => return .error (.badPattern p.path input)
  | some [] => return .error (.noMatch p.path input)
  | some paths => return .ok paths

/-- The paths of some inputs, each once. -/
def expandInputs (p : Project) :
    List String → List String → m (Except ProjectError (List String))
  | [], done => return .ok done
  | input :: rest, done => do
    match ← p.expandInput input with
    | .error e => return .error e
    | .ok paths =>
      p.expandInputs rest
        (paths.foldl (fun done path => if done.contains path then done else done ++ [path]) done)

/-- The paths of all inputs, each once. -/
def inputPaths (p : Project) : m (Except ProjectError (List String)) :=
  p.expandInputs p.manifest.inputs []

/-- Whether a compiler version may build the project. -/
def checkCompiler (p : Project) (version : String) : Except ProjectError Unit :=
  if Text.trim p.manifest.compiler = "" then .ok ()
  else
    match Release.Requirement.parse? p.manifest.compiler, Release.Version.parse? version with
    | none, _ => .error (.badConstraint p.path)
    | some _, none => .error (.badVersion version)
    | some requirement, some v =>
      if requirement.admits v then .ok () else .error (.mismatch p.path version)

end Project

end Qll.Manifest
