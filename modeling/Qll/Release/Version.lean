import Qll.Diagnostic.Render
import Qll.Text.Basic

/-!
# Version numbers

A version has up to three numbers, the missing ones being zero, then the name of a pre-release and
a build mark. A pre-release comes before its release, and build marks do not count in the order.
-/

namespace Qll.Release

/-- A version. -/
structure Version where
  major : Nat
  minor : Nat := 0
  patch : Nat := 0
  /-- The name of the pre-release; empty for a release. -/
  pre : String := ""
  build : String := ""
  deriving DecidableEq, Inhabited

/-- The numbers that fit into 64 bits, in decimal digits. -/
def segment? (digits : List Char) : Option Nat :=
  if digits.isEmpty || !digits.all Char.isDigit then none
  else
    let n := digits.foldl (fun n c => 10 * n + (c.toNat - 48)) 0
    if n < 18446744073709551616 then some n else none

/-- The characters of a pre-release or build mark, dots aside. -/
def isMarkChar (c : Char) : Bool := c.isAlphanum || c == '-'

/-- Whether every part between the dots is a mark. -/
def isMark (cs : List Char) : Bool :=
  (Text.splitChars '.' cs).all fun part => !part.isEmpty && part.all isMarkChar

/-- A number in a pre-release has no leading zero. -/
def isPreRelease (cs : List Char) : Bool :=
  isMark cs && (Text.splitChars '.' cs).all fun part =>
    !(part.all Char.isDigit && 1 < part.length && part.head? == some '0')

/-- The text before the first `c`, and the text behind it if there is one. -/
def cut (c : Char) (cs : List Char) : List Char × Option (List Char) :=
  match cs.dropWhile (· ≠ c) with
  | [] => (cs, none)
  | _ :: rest => (cs.takeWhile (· ≠ c), some rest)

namespace Version

/-- Reads a version; a leading `v` is allowed. -/
def parse? (s : String) : Option Version := do
  let cs := match s.toList with
    | 'v' :: rest => rest
    | cs => cs
  let (cs, build) := cut '+' cs
  let (cs, pre) := cut '-' cs
  guard (build.all isMark)
  guard (pre.all isPreRelease)
  let marks : Version :=
    { major := 0, pre := String.ofList (pre.getD []), build := String.ofList (build.getD []) }
  match Text.splitChars '.' cs with
  | [a] => return { marks with major := ← segment? a }
  | [a, b] => return { marks with major := ← segment? a, minor := ← segment? b }
  | [a, b, c] =>
    return { marks with major := ← segment? a, minor := ← segment? b, patch := ← segment? c }
  | _ => none

end Version

/-- The order of two parts of pre-releases: a missing part comes first, then names by their letters,
then numbers by their size. -/
def compareParts (s t : String) : Ordering :=
  if s = t then .eq
  else if s = "" then .lt
  else if t = "" then .gt
  else
    match segment? s.toList, segment? t.toList with
    | none, none => if t < s then .gt else .lt
    | some _, none => .lt
    | none, some _ => .gt
    | some m, some n => if n < m then .gt else .lt

/-- The order of two pre-releases, part by part. -/
def comparePartLists : List String → List String → Ordering
  | [], [] => .eq
  | s :: ss, [] => (compareParts s "").then (comparePartLists ss [])
  | [], t :: ts => (compareParts "" t).then (comparePartLists [] ts)
  | s :: ss, t :: ts => (compareParts s t).then (comparePartLists ss ts)

/-- The order of two pre-releases; a release, without a name, comes last. -/
def comparePreReleases (s t : String) : Ordering :=
  if s = "" ∧ t = "" then .eq
  else if s = "" then .gt
  else if t = "" then .lt
  else comparePartLists (Text.splitOn '.' s) (Text.splitOn '.' t)

/-- The order of versions. -/
def Version.compare (v w : Version) : Ordering :=
  (Ord.compare v.major w.major).then <| (Ord.compare v.minor w.minor).then <|
    (Ord.compare v.patch w.patch).then <| comparePreReleases v.pre w.pre

/-! ## What the compiler says of itself -/

open Diagnostic (Paint)

/-- A build of the compiler. -/
structure Build where
  /-- The version number, which manifests constrain. -/
  number : String := "0.4.0"
  /-- The revision it was built from, if known. -/
  commit : String := ""
  /-- The day it was built, if known. -/
  date : String := ""
  deriving DecidableEq, Inhabited

/-- The name of the compiler. -/
def tool : String := "qllc"

namespace Build

/-- The colours of the three numbers. -/
def paints : List Paint :=
  [.boldColor Paint.yellow, .boldColor Paint.green, .boldColor Paint.blue]

/-- The first two parts between dots, and all the rest as a third. -/
def threeParts (cs : List Char) : List (List Char) :=
  match cut '.' cs with
  | (a, none) => [a]
  | (a, some rest) =>
    match cut '.' rest with
    | (b, none) => [a, b]
    | (b, some rest) => [a, b, rest]

/-- The numbers in colours, then the pre-release, the revision and the day. -/
def banner (b : Build) (color : Bool) : String :=
  let (core, pre) := cut '-' b.number.toList
  let parts := (paints.zip (threeParts core)).map fun (paint, part) =>
    paint.apply color (String.ofList part)
  let pre := String.ofList (pre.getD [])
  tool ++ " " ++ Text.join "." parts ++
    (if pre = "" then "" else "-" ++ pre) ++
    (if b.commit = "" then "" else " (" ++ b.commit ++ ")") ++
    (if b.date = "" then "" else " built " ++ b.date)

/-- A field that is left out if it is blank. -/
def field (name text : String) : List (String × Json.Value) :=
  if Text.trim text = "" then [] else [(name, .string (Text.trim text))]

/-- The same as a JSON document. -/
def document (b : Build) : String :=
  let fields := [("tool", .string tool), ("version", .string b.number)] ++
    field "git_commit" b.commit ++ field "build_date" b.date
  (Json.Value.object fields).indented 0 ++ "\n"

end Build

end Qll.Release
