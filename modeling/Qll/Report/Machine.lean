import Qll.Json.Value
import Qll.Machine.Execution
import Qll.Report.Assembly

/-!
# Reports of machine runs

The report of a run has the returned word and the number of steps; on request also the registers
and every word of memory that is not zero.
-/

namespace Qll.Report

open Json (Value)

/-- The words of memory that are not zero, with their addresses. -/
def memoryWords (words : List Machine.Word) : List Value :=
  words.zipIdx.filterMap fun (w, a) =>
    if w = 0 then none else some (.array [.nat a, .nat w.toNat])

/-- The report of a run. -/
def halted (dump : Bool) (h : Machine.Halted) : Value :=
  .object <|
    [("return", .nat h.result.toNat), ("steps", .nat h.steps)] ++
      (if dump then
        [("registers", .array (h.state.registers.toList.map fun w => .nat w.toNat)),
          ("memory", .array (memoryWords h.state.memory.toList))]
      else [])

/-- What is asked of a run. -/
structure RunRequest where
  /-- The size of the memory in words. -/
  memory : Nat
  options : Machine.RunOptions
  dump : Bool

/-- Assembles and runs a stream. Naming a register that does not exist is a mistake of whoever built
the stream, and no report. -/
def execution (ds : List Assembly.Directive) (r : RunRequest) : Except String Value :=
  match Machine.Image.assemble ds r.memory with
  | .error e => .ok (failure "assemble" e.message)
  | .ok image =>
    match Machine.run image r.options with
    | .ok h => .ok (halted r.dump h)
    | .error (.noRegister n) => .error (Machine.Trap.noRegister n).message
    | .error t => .ok (failure "run" t.message)

/-- The report of a run from a label, with the usual bounds. -/
def simpleRun (ds : List Assembly.Directive) (label : String) : Value :=
  match Machine.runStream ds label with
  | .ok h => halted false h
  | .error (.trap (.noRegister n)) => failure "panic" (Machine.Trap.noRegister n).message
  | .error e => failure "run" e.message

/-- The addresses of labels, null for those that are not there. -/
def addresses (ds : List Assembly.Directive) (memory : Nat) (names : List String) : List Value :=
  match Machine.Image.assemble ds memory with
  | .error _ => []
  | .ok image => names.map fun name =>
    match image.label? name with
    | some a => .nat a.toNat
    | none => .null

end Qll.Report
