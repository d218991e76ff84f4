import Qll.Compilation.Run
import Qll.Diagnostic.Render
import Qll.Json.Value

/-!
# Reports of compilations

The report of a compilation has its events and diagnostics. A compilation that came to an end has
the live names, the phases and, without errors, the directives; one that did not says why. Of a process
that died there is nothing else to report.
-/

namespace Qll.Report

open Compilation (Run Ending)
open Json (Value)

/-- The number of a span in a report: spans are counted from one on, in the order in which they
occur; zero is no span. -/
def spanNumber (seen : List Nat) (id : Nat) : Nat × List Nat :=
  if id = 0 then (0, seen)
  else
    match seen.idxOf? id with
    | some i => (i + 1, seen)
    | none => (seen.length + 1, seen ++ [id])

/-- The report of a trace: kind, scope, span, parent, name and detail of each event. -/
def traced : List Trace.Event → List Nat → List Value
  | [], _ => []
  | e :: rest, seen =>
    let (span, seen) := spanNumber seen e.span
    let (parent, seen) := spanNumber seen e.parent
    .array [e.kind.name, e.scope.name, span, parent, e.name, e.detail] :: traced rest seen

/-- How a compilation ended before its last stage. -/
def ending (e : Ending) : List (String × Value) :=
  match e with
  | .internal stage decl _ =>
    [("error", "internal"), ("message", e.message), ("stage", stage.name), ("decl", decl)]
  | .cancelled _ => [("error", "cancelled"), ("message", e.message)]
  | .overflow _ => [("error", "panic"), ("message", e.message)]

/-- What a compilation produced; with `listing` every directive is shown, and otherwise their
number. -/
def produced (listing : Bool) (ds : List Assembly.Directive) : List (String × Value) :=
  [("directives", if listing then .strings (ds.map (·.render)) else .nat ds.length),
    ("words", .nat (Assembly.totalSize ds))]

/-- The live names; null if there are none. -/
def liveNames (names : List String) : Value := if names.isEmpty then .null else names

/-- The report of a compilation. -/
def compilation (listing : Bool) (r : Run) : List (String × Value) :=
  if let some (.overflow stage) := r.ending then ending (.overflow stage) else
  let progress : Value := .array (r.events.toList.map fun e =>
    .strings [e.stage.name, e.status.name, e.detail])
  [("events", progress), ("diagnostics", Diagnostic.document r.bag {})] ++
    (if r.trace.level.enabled then [("trace", .array (traced r.trace.snapshot []))] else []) ++
    (match r.ending with
    | some e => ending e
    | none =>
      [("live", liveNames (r.live.getD [])),
        ("phases", .array (r.phases.toList.map fun p => .strings [p.name, p.note]))] ++
        ((r.directives.map (produced listing)).getD [("directives", .null)]))

end Qll.Report
