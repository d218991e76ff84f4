import Qll.Text.Basic

/-!
# Paths

Paths are slash-separated texts. `clean` brings a path to its shortest form: repeated slashes and
`.` are dropped, and `..` removes the name in front of it.
-/

namespace Qll.Files.Path

/-- Whether a path starts at the root. -/
def isAbsolute (path : String) : Bool := Text.startsWith path "/"

/-- The names of a path after `..` has removed what is in front of it; `done` holds the names
kept so far, last first. At the root nothing is left to remove. -/
def reduce (rooted : Bool) : List String → List String → List String
  | [], done => done.reverse
  | part :: rest, done =>
    if part = "" ∨ part = "." then reduce rooted rest done
    else if part = ".." then
      match done with
      | [] => if rooted then reduce rooted rest [] else reduce rooted rest [".."]
      | last :: others =>
        if last = ".." then reduce rooted rest (".." :: done) else reduce rooted rest others
    else reduce rooted rest (part :: done)

/-- The shortest path with the same meaning; an empty one is `.`. -/
def clean (path : String) : String :=
  let rooted := isAbsolute path
  let names := reduce rooted (Text.splitOn '/' path) []
  let body := Text.join "/" names
  if rooted then "/" ++ body
  else if body = "" then "." else body

/-- Joins the parts that are not empty and cleans the result; nothing joins to nothing. -/
def join (parts : List String) : String :=
  match parts.filter (· ≠ "") with
  | [] => ""
  | parts => clean (Text.join "/" parts)

/-- The path seen from the directory `here`. -/
def absolute (here path : String) : String :=
  if isAbsolute path then clean path else join [here, path]

/-- The part of a path in front of its last slash, that slash included, and the part behind. -/
def splitLast (path : String) : String × String :=
  let back := path.toList.reverse
  let name := (back.takeWhile (· ≠ '/')).reverse
  (String.ofList (back.dropWhile (· ≠ '/')).reverse, String.ofList name)

/-- The directory a path stands in. -/
def directory (path : String) : String := clean (splitLast path).1

/-- The last name of a path. -/
def base (path : String) : String :=
  if path = "" then "."
  else
    let trimmed := (path.toList.reverse.dropWhile (· = '/')).reverse
    match trimmed with
    | [] => "/"
    | cs => (splitLast (String.ofList cs)).2

/-- The suffix of a path from the last dot of its last name on; empty without a dot. -/
def suffix (path : String) : String :=
  let back := path.toList.reverse.takeWhile (· ≠ '/')
  if back.contains '.' then String.ofList ('.' :: (back.takeWhile (· ≠ '.')).reverse) else ""

end Qll.Files.Path
