import Qll.Files.Path

/-!
# Reaching files

What a program needs of the place its files are in, whether that is a real disk or one in memory, and
the one in memory.
-/

/-! ## Reaching files

What a program needs of the place its files are in, whether that is a real disk or one in memory.
-/

namespace Qll.Files

/-! ## Failures with files

A failure names what was tried, the path as it was given, and the reason.
-/

/-- Why a path cannot be used. -/
inductive Reason
  | missing
  | notDirectory
  | isDirectory
  | other (text : String)
  deriving DecidableEq, Inhabited

/-- The wording of a reason. -/
def Reason.message : Reason → String
  | missing => "no such file or directory"
  | notDirectory => "not a directory"
  | isDirectory => "is a directory"
  | other text => text

/-- What was tried. -/
inductive Attempt
  | openFile
  | read
  | stat
  | mkdir
  deriving DecidableEq, Inhabited

/-- The name of an attempt. -/
def Attempt.name : Attempt → String
  | openFile => "open"
  | read => "read"
  | stat => "stat"
  | mkdir => "mkdir"

/-- A failed attempt. -/
structure FileError where
  attempt : Attempt
  path : String
  reason : Reason
  deriving DecidableEq, Inhabited

/-- The wording of a failure. -/
def FileError.message (e : FileError) : String :=
  e.attempt.name ++ " " ++ e.path ++ ": " ++ e.reason.message

/-! ## What can be asked -/

/-- What a path names. -/
inductive Kind
  | file
  | directory
  deriving DecidableEq, Inhabited

/-- Files within reach. -/
class Disk (m : Type → Type) where
  /-- The working directory, as an absolute path. -/
  here : m String
  /-- What a path names. -/
  stat : String → m (Except FileError Kind)
  /-- The content of a file. -/
  read : String → m (Except FileError (List UInt8))
  /-- The names in a directory in ascending order; anything else has none. -/
  names : String → m (List String)
  /-- Creates a file, or replaces its content. -/
  write : String → List UInt8 → m (Except FileError Unit)
  /-- Creates one directory whose parent exists. -/
  makeDirectory : String → m (Except FileError Unit)

/-- The paths of the directories from the outermost one down to `path`, which is clean. -/
def ancestors (path : String) : List String :=
  let rooted := Path.isAbsolute path
  let parts := (Text.splitOn '/' path).filter (· ≠ "")
  (List.range parts.length).map fun n =>
    (if rooted then "/" else "") ++ Text.join "/" (parts.take (n + 1))

variable {m : Type → Type} [Monad m] [Disk m]

/-- Creates the directories of a list that are missing. A file in the way ends the work. -/
def makeMissing : List String → m (Except FileError Unit)
  | [] => return .ok ()
  | path :: rest => do
    match ← Disk.stat path with
    | .ok .directory => makeMissing rest
    | .ok .file => return .error ⟨.mkdir, path, .notDirectory⟩
    | .error _ =>
      match ← Disk.makeDirectory path with
      | .error e => return .error e
      | .ok () => makeMissing rest

/-- Creates a directory and all above it. -/
def makeDirectories (path : String) : m (Except FileError Unit) := makeMissing (ancestors path)

end Qll.Files

/-! ## Files in memory

Files are kept with their absolute names, directories by name alone; the root is always there. A
path is followed name by name, so a file in the way is noticed.
-/

namespace Qll.Files

/-- The names from the root down to an entry. -/
abbrev Place := List String

/-- Files and directories. -/
structure Memory where
  files : List (Place × List UInt8) := []
  directories : List Place := []
  deriving Inhabited

namespace Memory

/-- What is at a place. -/
def kindAt (t : Memory) (place : Place) : Option Kind :=
  if place.isEmpty || t.directories.contains place then some .directory
  else if (t.files.lookup place).isSome then some .file
  else none

/-- Follows names from a place on. Whatever is passed through has to be a directory; the last place
may be one that does not exist yet. -/
def follow (t : Memory) : List String → Place → Except Reason Place
  | [], place => .ok place
  | name :: rest, place =>
    match t.kindAt place with
    | none => .error .missing
    | some .file => .error .notDirectory
    | some .directory =>
      if name = "" ∨ name = "." then t.follow rest place
      else if name = ".." then t.follow rest place.dropLast
      else t.follow rest (place ++ [name])

/-- The place of a path, seen from a directory. -/
def locate (t : Memory) (here : Place) (path : String) : Except Reason Place :=
  if path = "" then .error .missing
  else t.follow (Text.splitOn '/' path) (if Path.isAbsolute path then [] else here)

/-- What a path names. -/
def stat (t : Memory) (here : Place) (path : String) : Except Reason Kind := do
  match t.kindAt (← t.locate here path) with
  | some kind => return kind
  | none => throw .missing

/-- The content of a file. -/
def read (t : Memory) (here : Place) (path : String) : Except FileError (List UInt8) :=
  match t.locate here path with
  | .error reason => .error ⟨.openFile, path, reason⟩
  | .ok place =>
    match t.kindAt place with
    | none => .error ⟨.openFile, path, .missing⟩
    | some .directory => .error ⟨.read, path, .isDirectory⟩
    | some .file => .ok ((t.files.lookup place).getD [])

/-- The names in a directory. -/
def names (t : Memory) (here : Place) (path : String) : List String :=
  match t.locate here path with
  | .error _ => []
  | .ok place =>
    let below := (t.files.map (·.1) ++ t.directories).filter fun p =>
      p.length = place.length + 1 && place.isPrefixOf p
    (below.filterMap (·.getLast?)).mergeSort (fun a b => !(b < a))

/-- Replaces the content of a place. -/
def put (t : Memory) (place : Place) (content : List UInt8) : Memory :=
  { t with files := (place, content) :: t.files.filter fun (p, _) => p ≠ place }

/-- Adds a directory and those above it. -/
def addDirectories (t : Memory) (place : Place) : Memory :=
  let all := (List.range place.length).map fun n => place.take (n + 1)
  { t with directories := t.directories ++ all.filter fun p => !t.directories.contains p }

/-- Removes a file. -/
def remove (t : Memory) (place : Place) : Memory :=
  { t with files := t.files.filter fun (p, _) => p ≠ place }

/-- Creates a file, or replaces its content. Its directory has to exist, and a path that ends in a
slash cannot name a file. -/
def write (t : Memory) (here : Place) (path : String) (content : List UInt8) :
    Except FileError Memory :=
  match t.locate here path with
  | .error reason =>
    let bare := String.ofList (path.toList.reverse.dropWhile (· = '/')).reverse
    let reason := if bare ≠ path ∧ (t.locate here bare).isOk then .isDirectory else reason
    .error ⟨.openFile, path, reason⟩
  | .ok place =>
    if t.kindAt place = some .directory then .error ⟨.openFile, path, .isDirectory⟩
    else if t.kindAt place.dropLast = some .directory then .ok (t.put place content)
    else .error ⟨.openFile, path, .missing⟩

/-- Creates a directory in one that exists. -/
def makeDirectory (t : Memory) (here : Place) (path : String) : Except FileError Memory :=
  match t.locate here path with
  | .error reason => .error ⟨.mkdir, path, reason⟩
  | .ok place => .ok (t.addDirectories place)

end Memory

end Qll.Files
