import Qll.Command.Program
import Std.Time.Zoned

/-!
# The program on a real machine

The surroundings of the program are the file system and the standard streams of the process. Watched
inputs are looked at a few times a second.
-/

namespace Qll.Command

/-- The reason of a failed call to the system. -/
def reasonOf : IO.Error → Files.Reason
  | .noFileOrDirectory .. => .missing
  | .inappropriateType _ 21 _ => .isDirectory
  | .inappropriateType .. => .notDirectory
  | .permissionDenied .. => .other "permission denied"
  | .alreadyExists .. => .other "file exists"
  | e => .other (toString e)

/-- Tries something with a path. -/
def attempt {α : Type} (what : Files.Attempt) (path : String) (x : IO α) :
    IO (Except Files.FileError α) := do
  try return .ok (← x)
  catch e => return .error ⟨what, path, reasonOf e⟩

/-- What the system says of a path. -/
def statPath (path : String) : IO Files.Kind := do
  match (← ((← IO.currentDir) / path).metadata).type with
  | .dir => return .directory
  | _ => return .file

/-- The names in a directory. -/
def namesIn (path : String) : IO (List String) := do
  try
    let entries ← ((← IO.currentDir) / path).readDir
    return (entries.toList.map (·.fileName)).mergeSort fun a b => !(b < a)
  catch _ => return []

/-- Reads a file; opening it and reading it can fail. -/
def readPath (path : String) : IO (Except Files.FileError (List UInt8)) := do
  match ← attempt .openFile path (IO.FS.Handle.mk path .read) with
  | .error e => return .error e
  | .ok handle => attempt .read path do return (← handle.readBinToEnd).toList

/-- The time of day where the machine stands. -/
def localTime : IO String := do
  let t := (← Std.Time.PlainDateTime.now).time
  return Trace.clockText
    ((t.hour.val.toNat * 60 + t.minute.val.toNat) * 60 + t.second.val.toNat)

instance : Host IO where
  here := return (← IO.currentDir).toString
  stat path := attempt .stat path (statPath path)
  read := readPath
  names := namesIn
  write path content := attempt .openFile path (IO.FS.writeBinFile path ⟨content.toArray⟩)
  makeDirectory path := attempt .mkdir path (IO.FS.createDir path)
  out bytes := do
    let stream ← IO.getStdout
    stream.write ⟨bytes.toArray⟩
    stream.flush
  err text := IO.eprint text
  log text := IO.eprint text
  draw text := IO.eprint text
  clock := return (← Std.Time.Timestamp.now).toNanosecondsSinceUnixEpoch.toInt.toNat
  timeOfDay := localTime
  outIsTerminal := do (← IO.getStdout).isTty
  errIsTerminal := do (← IO.getStderr).isTty
  cancelled := return false

/-- Tells how the program ended; gives its exit status. -/
def conclude (o : Outcome) : IO UInt32 := do
  IO.eprint o.closing
  return UInt32.ofNat o.exit

/-- Looks at watched inputs again and again; `seen` is their digest at the last look. -/
partial def keepWatching (w : Watch) (seen : Option (List UInt8)) : IO UInt32 := do
  IO.sleep 150
  let digest ← inputDigest w.session
  if digest == seen then keepWatching w seen
  else
    match ← w.react w.paths with
    | (w, none) => keepWatching w digest
    | (w, some failure) => conclude (← w.stop (some failure))

end Qll.Command

/-- Carries out the command line. -/
def main (args : List String) : IO UInt32 := do
  match ← Qll.Command.run args with
  | .ended outcome => Qll.Command.conclude outcome
  | .watching watch => Qll.Command.keepWatching watch watch.digest
