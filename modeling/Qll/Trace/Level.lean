import Qll.Text.Quoted

/-!
# Levels of tracing

An event has a scope, from a whole command down to one declaration. The level of a trace says how
far down it goes.
-/

namespace Qll.Trace

/-- How much of the work an event is about; a smaller rank is coarser. -/
structure Scope where
  rank : Nat
  deriving DecidableEq, Inhabited

namespace Scope

/-- One command. -/
def driver : Scope := ⟨1⟩

/-- One stage of a compilation. -/
def pass : Scope := ⟨2⟩

/-- One unit of a program. -/
def unit : Scope := ⟨3⟩

/-- One declaration. -/
def decl : Scope := ⟨4⟩

/-- The name of a scope. -/
def name (s : Scope) : String :=
  if s = driver then "driver"
  else if s = pass then "pass"
  else if s = unit then "unit"
  else if s = decl then "decl"
  else "unknown"

end Scope

/-- What an event says about its span. -/
structure Kind where
  number : Nat
  deriving DecidableEq, Inhabited

namespace Kind

/-- A span begins. -/
def start : Kind := ⟨1⟩

/-- A span ends. -/
def finish : Kind := ⟨2⟩

/-- Something happens within a span. -/
def point : Kind := ⟨3⟩

/-- The name of a kind. -/
def name (k : Kind) : String :=
  if k = start then "begin"
  else if k = finish then "end"
  else if k = point then "point"
  else "unknown"

/-- The sign before the name in a line of text. -/
def sign (k : Kind) : String :=
  if k = start then "→ "
  else if k = finish then "← "
  else if k = point then "• "
  else ""

end Kind

/-- How far down a trace goes. -/
inductive Level
  | off
  /-- Stages are kept for the report of an internal error only. -/
  | error
  | phase
  | detail
  | debug
  deriving DecidableEq, Inhabited, Repr

namespace Level

/-- All levels in order. -/
def all : List Level := [off, error, phase, detail, debug]

/-- The position among the levels. -/
def rank : Level → Nat
  | off => 0
  | error => 1
  | phase => 2
  | detail => 3
  | debug => 4

/-- The name of a level. -/
def name : Level → String
  | off => "off"
  | error => "error"
  | phase => "phase"
  | detail => "detail"
  | debug => "debug"

/-- The level with a position. -/
def ofRank? (n : Nat) : Option Level := all[n]?

/-- The name of the level with a position. -/
def nameOfRank (n : Nat) : String := ((ofRank? n).map name).getD "unknown"

/-- Reads a level; the case of letters does not matter. -/
def parse? (s : String) : Option Level :=
  all.find? fun l => l.name = Text.lower s

/-- The message for a text that names no level. -/
def unknownName (s : String) : String :=
  "invalid trace level: " ++ Text.quote s ++ " (expected: off|error|phase|detail|debug)"

/-- Whether anything is traced. -/
def enabled (l : Level) : Bool := l ≠ off

/-- Whether events of a scope are traced. -/
def admits (l : Level) (s : Scope) : Bool :=
  match l with
  | off => false
  | error | phase => s.rank ≤ Scope.pass.rank
  | detail => s.rank ≤ Scope.unit.rank
  | debug => true

end Level

/-- How events are written. -/
inductive Format
  /-- The name of the file decides. -/
  | auto
  | text
  /-- One value per line. -/
  | json
  deriving DecidableEq, Inhabited, Repr

namespace Format

/-- The position among the formats. -/
def number : Format → Nat
  | auto => 0
  | text => 1
  | json => 2

/-- Reads a format; the case of letters does not matter. -/
def parse? (s : String) : Option Format :=
  match Text.lower s with
  | "" | "auto" => some auto
  | "text" => some text
  | "ndjson" | "json" => some json
  | _ => none

/-- The message for a text that names no format. -/
def unknownName (s : String) : String :=
  "invalid trace format: " ++ Text.quote s ++ " (expected: auto|text|ndjson)"

/-- The format of a file, if it is left open. -/
def resolve (f : Format) (path : String) : Format :=
  if f ≠ auto then f
  else if Text.endsWith path ".ndjson" || Text.endsWith path ".json" then json
  else text

end Format

end Qll.Trace
