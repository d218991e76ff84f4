import Qll.Assembly.Directive
import Qll.Codegen.Frame
import Qll.Codegen.Pool

/-!
# Routines under construction

A routine is built by emitting directives. Along the way it keeps the registers in use, the words
pushed since its entry, the exits of the surrounding loops, and the data it owns. Whatever breaks
the discipline of registers, stack or loops is a fault.
-/

namespace Qll.Codegen

open Assembly (Directive Instruction Value)
open Check (Storage)
open Machine (Register Opcode Word addExtent)

/-- The state of a routine under construction. -/
structure Routine where
  name : String
  frame : Frame
  pool : Pool := {}
  code : Array Directive := #[]
  data : Array Directive := #[]
  /-- How many labels were made. -/
  labels : Nat := 0
  /-- The words pushed since the entry. -/
  depth : Int := 0
  /-- The exits of the surrounding loops, innermost first. -/
  exits : List String := []
  finished : Bool := false
  /-- Whether the routine calls another one. -/
  calls : Bool := false

instance : Inhabited Routine := ⟨{ name := "", frame := .bare }⟩

/-- Steps of building a routine. -/
abbrev Gen := EStateM Fault Routine

/-- The label of a name: blanks are dropped. -/
def symbol (name : String) : String := String.ofList (name.toList.filter (· ≠ ' '))

/-- The label of the exit of a routine. -/
def Routine.exit (r : Routine) : String := r.name ++ "$exit"

/-- An empty routine. -/
def Routine.create (name : String) (frame : Frame) : Routine := { name := symbol name, frame }

/-- A function, with or without a result that fits no register. -/
def Routine.function (name : String) (params : List Param) (hiddenResult : Bool) : Routine :=
  .create name (.stack (.ofParams params hiddenResult))

/-- An interrupt handler. -/
def Routine.interrupt (name : String) : Routine :=
  .create name (.stack { interrupt := true })

/-- The routine that initializes globals. -/
def Routine.initializer (name : String) : Routine :=
  .create name (.block (symbol name ++ "$temporaries") 0)

/-- Passes a fault on. -/
def orFault {α : Type} : Except Fault α → Gen α
  | .ok a => return a
  | .error e => throw e

/-! ## Registers -/

/-- Takes a free register. -/
def allocate : Gen Register := do
  let s ← get
  let (r, pool) ← orFault s.pool.allocate
  set { s with pool }
  return r

/-- Gives a register back. -/
def release (r : Register) : Gen Unit := do
  let s ← get
  let pool ← orFault (s.pool.release r)
  set { s with pool }

/-- How many registers are in use. -/
def outstanding : Gen Nat := return (← get).pool.outstanding

/-! ## Directives -/

/-- Appends a directive. -/
def append (d : Directive) : Gen Unit :=
  modify fun s => { s with code := s.code.push d }

/-- Appends an instruction. -/
def emit (op : Opcode) (registers : List Register) : Gen Unit := do
  if registers.length ≠ op.operands then throw (.operandCount op registers.length)
  append (.instruction (.ofList op registers))

/-- Loads a word. -/
def loadWord (r : Register) (w : Word) : Gen Unit := append (.constant r (.immediate w))

/-- Loads a size, an offset or a count. -/
def loadCount (r : Register) (n : Int) : Gen Unit := do
  match Word.ofInt? n with
  | some w => loadWord r w
  | none => throw (.noWord n)

/-- Loads the address of a label. -/
def loadAddress (r : Register) (label : String) : Gen Unit :=
  append (.constant r (.reference (symbol label)))

/-- Defines a label here. -/
def placeLabel (name : String) : Gen Unit := append (.label name)

/-- A new label of this routine. -/
def newLabel (hint : String) : Gen String := do
  let s ← get
  set { s with labels := s.labels + 1 }
  return s.name ++ "$" ++ hint ++ Nat.repr (s.labels + 1)

/-! ## Jumps -/

/-- Emits a jump by way of a register that is free again afterwards. -/
def jumpBy (label : String) (emitJump : Register → Gen Unit) : Gen Unit := do
  let t ← allocate
  loadAddress t label
  emitJump t
  release t

/-- Goes on at a label. -/
def jump (label : String) : Gen Unit := jumpBy label fun t => emit .jmp [t]

/-- Goes on at a label if a register is zero. -/
def jumpIfZero (r : Register) (label : String) : Gen Unit :=
  jumpBy label fun t => emit .jz [r, t]

/-- Goes on at a label unless a register is zero. -/
def jumpIfNotZero (r : Register) (label : String) : Gen Unit :=
  jumpBy label fun t => emit .jnz [r, t]

/-! ## The stack -/

/-- Changes the count of pushed words. -/
def moveDepth (n : Int) : Gen Unit := modify fun s => { s with depth := addExtent s.depth n }

/-- Stores a register below the stack pointer, without counting. -/
def pushWord (r : Register) : Gen Unit := do
  emit .sub [.sp, .sp, .one]
  emit .store [.sp, r]

/-- Loads a register from the top of the stack, without counting. -/
def popWord (r : Register) : Gen Unit := do
  emit .load [r, .sp]
  emit .add [.sp, .sp, .one]

/-- Pushes a register. -/
def push (r : Register) : Gen Unit := do
  pushWord r
  moveDepth 1

/-- Pops a register. -/
def pop (r : Register) : Gen Unit := do
  popWord r
  moveDepth (-1)

/-- Applies an operation to a register and a count in place. -/
def adjust (op : Opcode) (r : Register) (n : Int) : Gen Unit := do
  if n = 0 then return
  if n = 1 then emit op [r, r, .one]
  else
    let t ← allocate
    loadCount t n
    emit op [r, r, t]
    release t

/-- Grows the stack. -/
def reserve (n : Int) : Gen Unit := do
  adjust .sub .sp n
  moveDepth n

/-- Shrinks the stack. -/
def drop (n : Int) : Gen Unit := do
  adjust .add .sp n
  moveDepth (-n)
  let s ← get
  if s.depth < 0 then throw (.stackBelowFrame s.name)

/-- Adds an offset to an address in place. -/
def offset (r : Register) (n : Int) : Gen Unit := adjust .add r n

/-! ## Loops -/

/-- Makes a label the exit of the innermost loop. -/
def pushExit (label : String) : Gen Unit := modify fun s => { s with exits := label :: s.exits }

/-- Ends the innermost loop. -/
def popExit : Gen Unit := do
  let s ← get
  match s.exits with
  | [] => throw (.loopExitUnderflow s.name)
  | _ :: rest => set { s with exits := rest }

/-- Leaves the innermost loop. -/
def leaveLoop : Gen Unit := do
  let s ← get
  match s.exits with
  | [] => throw (.breakOutsideLoop s.name)
  | label :: _ => jump label

/-! ## Data and balance -/

/-- Puts a text into the data of the routine; gives its label. -/
def placeText (text : String) : Gen String := do
  let label ← newLabel "text"
  modify fun s => { s with data := (s.data.push (.label label)).push (.data [.text text]) }
  return label

/-- Checks that a statement gives back every register and leaves the stack where it was. -/
def statement (body : Gen Unit) : Gen Unit := do
  let held ← outstanding
  let depth := (← get).depth
  body
  let s ← get
  if s.pool.outstanding ≠ held then
    throw (.statementRegisters s.name ((s.pool.outstanding : Int) - held))
  if s.depth ≠ depth then throw (.statementStack s.name (addExtent s.depth (-depth)))

/-- Checks that an expression holds its result register and no other. -/
def expression (body : Gen Register) : Gen Register := do
  let held ← outstanding
  let r ← body
  let s ← get
  if s.pool.outstanding ≠ held + 1 || !s.pool.isAllocated r then
    throw (.expressionRegisters s.name ((s.pool.outstanding : Int) - held))
  return r

end Qll.Codegen
