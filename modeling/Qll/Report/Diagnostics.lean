import Qll.Diagnostic.Bag
import Qll.Interchange.Unit

/-!
# Reports of diagnostics and unreadable units
-/

namespace Qll.Report

open Json (Value)
open Diagnostic (Bag)

/-- The counts of a bag. -/
def counts (b : Bag) : Value :=
  .object [("len", b.size), ("cap", b.cap), ("errors", b.hasErrors), ("warnings", b.hasWarnings),
    ("count", .array ([.info, .warning, .error].map fun s => .nat (b.count s))),
    ("summary", b.summary)]

/-- A diagnostic on one line: its place if it has one, its code and its message. -/
def line (d : Diagnostic) : String :=
  (d.location.map (·.text ++ ": ")).getD "" ++ d.code.id ++ ": " ++ d.message

/-- The texts of a code. -/
def code (n : Nat) : Value :=
  let c : Diagnostic.Code := ⟨n⟩
  .strings [c.id, c.title, c.heading]

/-- Two places, and how they compare. -/
def places (a b : Option Source.Location) : Value :=
  .object [("a", Source.Location.optionText a), ("b", Source.Location.optionText b),
    ("less", Source.Location.optionBefore a b), ("greater", Source.Location.optionBefore b a),
    ("equal", a == b)]

/-- Why a unit cannot be read: its encoding, or a malformed node with its location. -/
def unitError (e : Interchange.UnitError) : List (String × Value) :=
  match e with
  | .encoding _ => [("error", "syntax"), ("message", e.message)]
  | .malformed b =>
    [("error", "decode"), ("message", e.message),
      ("location", .array [b.location.file, b.location.line, b.location.column])]

end Qll.Report
