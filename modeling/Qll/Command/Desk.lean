import Qll.Command.Host
import Qll.Files.Disk
import Qll.Text.Utf8

/-!
# Running without a machine

A desk stands in for the surroundings of the program: files in memory, and what was written. Its
clock stands still, and neither progress nor traces are shown.
-/

namespace Qll.Command

open Files (Memory Place)

/-- The surroundings of the program, in memory. -/
structure Desk where
  memory : Memory := {}
  /-- The working directory. -/
  here : Place := []
  out : List UInt8 := []
  err : String := ""
  /-- What the clock shows. -/
  timeOfDay : String := "00:00:00"
  cancelled : Bool := false
  deriving Inhabited

/-- Work at a desk. -/
abbrev DeskM := StateM Desk

namespace Desk

/-- Takes over new files, if there are any. -/
def adopt (result : Except Files.FileError Memory) : DeskM (Except Files.FileError Unit) := do
  match result with
  | .error e => return .error e
  | .ok memory =>
    modify fun d => { d with memory }
    return .ok ()

/-- The names of a path below the working directory. -/
def place (d : Desk) (path : String) : Place :=
  d.here ++ (Text.splitOn '/' path).filter (· ≠ "")

/-- Puts a file on the desk, with all directories it needs. -/
def addFile (d : Desk) (path : String) (content : List UInt8) : Desk :=
  let place := d.place path
  { d with memory := (d.memory.addDirectories place.dropLast).put place content }

/-- Takes a file off the desk. -/
def removeFile (d : Desk) (path : String) : Desk :=
  { d with memory := d.memory.remove (d.place path) }

/-- Goes to a directory, which is made if it is missing. -/
def enter (d : Desk) (path : String) : Desk :=
  let here := d.place path
  { d with here, memory := d.memory.addDirectories here }

/-- Takes away what was written. -/
def clear (d : Desk) : Desk := { d with out := [], err := "" }

end Desk

instance : Host DeskM where
  here := return "/" ++ Text.join "/" (← get).here
  stat path := do
    let d ← get
    return (d.memory.stat d.here path).mapError fun reason => ⟨.stat, path, reason⟩
  read path := do
    let d ← get
    return d.memory.read d.here path
  names path := do
    let d ← get
    return d.memory.names d.here path
  write path content := do
    let d ← get
    Desk.adopt (d.memory.write d.here path content)
  makeDirectory path := do
    let d ← get
    Desk.adopt (d.memory.makeDirectory d.here path)
  out bytes := modify fun d => { d with out := d.out ++ bytes }
  err text := modify fun d => { d with err := d.err ++ text }
  log _ := return
  draw _ := return
  clock := return 0
  timeOfDay := return (← get).timeOfDay
  outIsTerminal := return false
  errIsTerminal := return false
  cancelled := return (← get).cancelled

end Qll.Command
