import Qll.Text.Basic

/-!
# Source locations

A location is a file, a line and a column as the parser reports them. A missing location is
`none`; it sorts in front of every other.
-/

namespace Qll.Source

/-- A position in a source file. Lines and columns count from one; zero means unknown. -/
structure Location where
  file : String
  line : Int
  column : Int
  deriving DecidableEq, Inhabited

namespace Location

/-- A path without the `./` at its front, however often it is repeated. -/
def dropHere : List Char → List Char
  | '.' :: '/' :: rest => dropHere rest
  | path => path

/-- The location of a line and column in the file named by `path`. -/
def make (path : String) (line column : Int) : Location :=
  { file := String.ofList (dropHere path.toList), line, column }

/-- A location is written `file(line)[column]`. -/
def text (l : Location) : String :=
  l.file ++ "(" ++ Text.decimal l.line ++ ")[" ++ Text.decimal l.column ++ "]"

/-- Locations are ordered by file, then line, then column. -/
def before (a b : Location) : Bool :=
  if a.file ≠ b.file then a.file < b.file
  else if a.line ≠ b.line then a.line < b.line
  else a.column < b.column

/-- The order of locations that may be missing: a missing one comes first. -/
def optionBefore : Option Location → Option Location → Bool
  | none, other => other.isSome
  | some _, none => false
  | some a, some b => a.before b

/-- A missing location is written as nothing. -/
def optionText : Option Location → String
  | none => ""
  | some l => l.text

end Location

end Qll.Source
