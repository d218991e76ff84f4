import Qll.Json.Value
import Qll.Manifest.Project

/-!
# Reports of projects

The report of a project has its manifest, and where its paths lead.
-/

namespace Qll.Report

open Json (Value)
open Manifest (Project)

/-- The report of a project. -/
def project (p : Project) : List (String × Value) :=
  let m := p.manifest
  [("found", true), ("path", p.path), ("root", p.root), ("name", m.name), ("compiler", m.compiler),
    ("inputs", m.inputs), ("library", m.library), ("entry", m.entry), ("output", p.output),
    ("format", m.format), ("maxDiagnostics", m.maxDiagnostics), ("exports", m.exports)]

end Qll.Report
