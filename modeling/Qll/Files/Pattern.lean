import Qll.Files.Disk
import Qll.Text.Utf8

/-!
# Patterns of file names

In a pattern `*` stands for any characters, `?` for one, and a class in brackets for one of some
characters, or of all others after `^`; a backslash takes a special meaning away. None of them
stands for a slash. Names are compared byte by byte.
-/

namespace Qll.Files

/-- A part of a pattern. -/
inductive Token
  | anything
  | one
  | byte (b : UInt8)
  /-- A character within some bounds or, if `negated`, outside all of them. -/
  | among (negated : Bool) (bounds : List (Char × Char))
  deriving DecidableEq, Inhabited

namespace Pattern

/-- A character of a class, which may have a backslash in front and cannot be the last of the
pattern. -/
def classChar? : List Char → Option (Char × List Char)
  | '\\' :: c :: d :: rest => some (c, d :: rest)
  | '\\' :: _ => none
  | c :: d :: rest => if c = '-' ∨ c = ']' then none else some (c, d :: rest)
  | _ => none

/-- The bounds of a class up to its closing bracket; there is at least one. -/
def bounds? : Nat → List Char → List (Char × Char) → Option (List (Char × Char) × List Char)
  | 0, _, _ => none
  | n + 1, cs, done =>
    match cs, done with
    | ']' :: rest, _ :: _ => some (done, rest)
    | cs, done => do
      let (low, rest) ← classChar? cs
      match rest with
      | '-' :: rest =>
        let (high, rest) ← classChar? rest
        bounds? n rest ((low, high) :: done)
      | rest => bounds? n rest ((low, low) :: done)

/-- The parts of a pattern; `none` if it is malformed. -/
def tokens? : Nat → List Char → Option (List Token)
  | 0, _ => some []
  | _ + 1, [] => some []
  | n + 1, '*' :: rest => do return .anything :: (← tokens? n rest)
  | n + 1, '?' :: rest => do return .one :: (← tokens? n rest)
  | n + 1, '[' :: '^' :: rest => do
    let (bounds, rest) ← bounds? n rest []
    return .among true bounds :: (← tokens? n rest)
  | n + 1, '[' :: rest => do
    let (bounds, rest) ← bounds? n rest []
    return .among false bounds :: (← tokens? n rest)
  | _ + 1, ['\\'] => none
  | n + 1, '\\' :: c :: rest => do
    return (Text.toBytes c.toString).map .byte ++ (← tokens? n rest)
  | n + 1, c :: rest => do return (Text.toBytes c.toString).map .byte ++ (← tokens? n rest)

/-- The parts of a pattern. -/
def parse? (s : String) : Option (List Token) := tokens? (s.length + 1) s.toList

/-- A list, the list without its first item, and so on to the empty list. -/
def suffixes {α : Type} : List α → List (List α)
  | [] => [[]]
  | a :: rest => (a :: rest) :: suffixes rest

/-- Whether a name fits a pattern. -/
def fits : List Token → List UInt8 → Bool
  | [], name => name.isEmpty
  | .anything :: ts, name => (suffixes name).any (fits ts)
  | .one :: ts, b :: rest => fits ts (rest.drop (Text.leadingChar b rest).2)
  | .byte c :: ts, b :: rest => b == c && fits ts rest
  | .among negated bounds :: ts, b :: rest =>
    let (c, n) := Text.leadingChar b rest
    (bounds.any fun (low, high) => low ≤ c && c ≤ high) != negated &&
      fits ts (rest.drop n)
  | _ :: _, [] => false

/-- Whether a path has characters with a special meaning. -/
def isSpecial (path : String) : Bool :=
  path.toList.any fun c => c == '*' || c == '?' || c == '[' || c == '\\'

variable {m : Type → Type} [Monad m] [Disk m]

/-- The paths in a directory whose names fit. -/
def expandIn (pattern : List Token) (directory : String) : m (List String) := do
  let names ← Disk.names directory
  return (names.filter fun name => fits pattern (Text.toBytes name)).map fun name =>
    Path.join [directory, name]

/-- The directory part of a pattern, without the slash behind it. -/
def directoryPart (front : String) : String :=
  if front = "" then "."
  else if front = "/" then front
  else String.ofList front.toList.dropLast

/-- The paths that fit a pattern, directory by directory; `none` if it is malformed. `depth` bounds
the number of directories in the pattern. -/
def expandWithin : Nat → String → m (Option (List String))
  | 0, _ => return none
  | depth + 1, pattern => do
    if (parse? pattern).isNone then return none
    if !isSpecial pattern then
      match ← Disk.stat pattern with
      | .ok _ => return some [pattern]
      | .error _ => return some []
    let (front, last) := Path.splitLast pattern
    let directory := directoryPart front
    match parse? last with
    | none => return none
    | some tokens =>
      if !isSpecial directory then return some (← expandIn tokens directory)
      match ← expandWithin depth directory with
      | none => return none
      | some directories => return some (← directories.mapM (expandIn tokens)).flatten

/-- The paths that fit a pattern in ascending order; `none` if it is malformed. -/
def expand (pattern : String) : m (Option (List String)) :=
  expandWithin (pattern.length + 1) pattern

end Pattern

end Qll.Files
