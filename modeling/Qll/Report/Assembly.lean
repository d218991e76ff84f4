import Qll.Assembly.Directive
import Qll.Fault
import Qll.Json.Value
import Qll.Machine.Opcode

/-!
# Reports of streams

The report of a stream has its listing, its labels, the size of each directive and its first
defect.
-/

namespace Qll.Report

open Assembly (Directive)
open Json (Value)
open Machine (Register Opcode)

/-! ## Failures

A failure is reported with its kind and its wording; a fault of the compiler itself is a panic.
-/

/-- The report of a failure. -/
def failure (kind message : String) : Value := .object [("error", kind), ("message", message)]

/-- The report of a fault. -/
def fault (f : Fault) : Value := failure "panic" f.message

/-- The report of a fault in one step of many. -/
def panicked (f : Fault) : Value := .object [("panic", f.message)]

/-- The report of something found, or of a failure to find it. -/
def found {α : Type} (kind : String) (shown : α → Value) (message : String) : Option α → Value
  | some a => shown a
  | none => failure kind message

/-! ## Streams and machine parts -/

/-- The description of a register. -/
def register (r : Register) : Value := .array [r.name, r.isCallerSave, r.isCalleeSave]

/-- The description of an operation. -/
def opcode (op : Opcode) : Value := .array [op.toNat, op.name, op.operands, op.isBinary]

/-- The number of the register with a name. -/
def registerNamed (s : String) : Value :=
  match Register.parse s with
  | .ok r => r.toNat
  | .error e => failure "register" e.message

/-- The description of the operation with a name. -/
def opcodeNamed (s : String) : Value :=
  found "opcode" opcode (Opcode.unknownName s) (Opcode.parse? s)

/-- The name and the operands of the operation with a number. -/
def opcodeNumbered (n : Nat) : Value :=
  match Opcode.ofNat? n with
  | some op => .array [op.name, op.operands]
  | none => .object [("panic", Opcode.unknownNumber n)]

/-- The word of a number. -/
def word (n : Int) : Value :=
  found "word" (fun w : Machine.Word => .nat w.toNat) (Machine.Word.misfit n)
    (Machine.Word.ofInt? n)

/-- The names of registers. -/
def registers (rs : List Register) : Value := rs.map Register.name

/-- The report of a stream. -/
def stream (ds : List Directive) : List (String × Value) :=
  [("text", Assembly.listing ds), ("labels", Assembly.labels ds),
    ("sizes", ds.map fun d => Value.nat d.size),
    ("invariants", .optionString ((Assembly.Defect.find ds).map (·.message)))]

end Qll.Report
