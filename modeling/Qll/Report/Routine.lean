import Qll.Codegen.Pool
import Qll.Program.Liveness
import Qll.Report.Assembly

/-!
# Reports of register pools and of liveness
-/

namespace Qll.Report

open Json (Value)

/-- The report of a register pool. -/
def pool (p : Codegen.Pool) : Value :=
  .object [("outstanding", p.outstanding), ("live", registers p.liveCallerSave),
    ("callee", registers p.calleeSaveUsed), ("used", registers p.used)]

/-- The live names of a graph, its size and, for some names, whether they are in it and live. -/
def liveness (g : Program.Graph) (extra names : List String) : Value :=
  let live := g.solve extra
  .object [("live", live), ("len", g.size),
    ("has", names.map fun name => Value.array [g.has name, live.contains name])]

end Qll.Report
