import Qll.Machine.Image

/-!
# Running an image

A step takes the cell at the program counter and yields the next state, halts, or traps. The
machine is deterministic, so a run is the iteration of `step` under a bound on the number of
executed cells.
-/

namespace Qll.Machine

/-- The machine between two steps. -/
structure State where
  registers : Vector Word 64
  memory : Array Word
  pc : Word
  /-- Where interrupted code continues, innermost first. -/
  interrupted : List Word

/-- Why a run cannot go on. -/
inductive Trap
  | noLabel (name : String)
  | noInstruction (pc : Word)
  | loadOutside (address : Word)
  | storeOutside (address : Word)
  | noHandler (number : Word)
  | notInterrupted (pc : Word)
  | divisionByZero (pc : Word)
  | notExecutable (pc : Word) (op : Opcode)
  | textConstant
  | oneOverwritten (pc : Word)
  | noRegister (register : Register)
  | stepLimit
  deriving DecidableEq

/-- The wording of a trap. -/
def Trap.message : Trap → String
  | noLabel name => "no label " ++ name
  | noInstruction pc => "no instruction at " ++ Word.shortText pc
  | loadOutside a => "load from " ++ Word.shortText a ++ " out of memory"
  | storeOutside a => "store to " ++ Word.shortText a ++ " out of memory"
  | noHandler n => "no handler for interrupt " ++ Nat.repr n.toNat
  | notInterrupted pc => "rti outside an interrupt at " ++ Word.shortText pc
  | divisionByZero pc => Word.shortText pc ++ ": division by zero"
  | notExecutable pc op => Word.shortText pc ++ ": unknown opcode " ++ op.name
  | textConstant => "constant of asm.Text"
  | oneOverwritten pc => Word.shortText pc ++ ": constant register overwritten"
  | noRegister _ => "runtime error"
  | stepLimit => "step limit reached"

/-- What one step leads to. -/
inductive Step
  | next (state : State)
  | halt (state : State)
  | trap (trap : Trap)

namespace State

/-- The content of a register. -/
def register (s : State) (r : Register) : Except Trap Word :=
  if h : r.toNat < 64 then .ok s.registers[r.toNat] else .error (.noRegister r)

/-- The state with a register changed. -/
def setRegister (s : State) (r : Register) (w : Word) : Except Trap State :=
  if h : r.toNat < 64 then .ok { s with registers := s.registers.set r.toNat w h }
  else .error (.noRegister r)

end State

/-- The machine's answer to a comparison: 0 when it holds. -/
def flag (holds : Bool) : Word := if holds then 0 else 1

/-- The value of a binary operation. Division by zero is not
defined. -/
def binary (pc : Word) (op : Opcode) (a b : Word) : Except Trap Word :=
  match op with
  | .add => .ok (a + b)
  | .sub => .ok (a - b)
  | .mul => .ok (a * b)
  | .div => if b = 0 then .error (.divisionByZero pc) else .ok (a / b)
  | .mod => if b = 0 then .error (.divisionByZero pc) else .ok (a % b)
  | .and => .ok (a &&& b)
  | .or => .ok (a ||| b)
  | .xor => .ok (a ^^^ b)
  | .shl => .ok (a <<< (b &&& 31))
  | .shr => .ok (a >>> (b &&& 31))
  | .eq => .ok (flag (a == b))
  | .neq => .ok (flag (a != b))
  | .lt => .ok (flag (a < b))
  | .gt => .ok (flag (b < a))
  | _ => .error (.notExecutable pc op)

/-- Handlers of interrupts, by number. -/
abbrev Handlers := List (Word × Word)

/-- The state behind an instruction other than `halt`; `next` is where the following directive
starts. -/
def perform (handlers : Handlers) (s : State) (next : Word) (i : Assembly.Instruction) :
    Except Trap State := do
  let a ← s.register i.s0
  let b ← s.register i.s1
  match i.op with
  | .halt | .nop | .wait => pure { s with pc := next }
  | .int =>
    let n ← s.register i.d
    match handlers.lookup n with
    | none => .error (.noHandler n)
    | some handler => pure { s with pc := handler, interrupted := next :: s.interrupted }
  | .rti =>
    match s.interrupted with
    | [] => .error (.notInterrupted s.pc)
    | back :: rest => pure { s with pc := back, interrupted := rest }
  | .load =>
    match s.memory[a.toNat]? with
    | none => .error (.loadOutside a)
    | some w =>
      let s ← s.setRegister i.d w
      pure { s with pc := next }
  | .store =>
    let address ← s.register i.d
    if address.toNat < s.memory.size then
      pure { s with memory := s.memory.setIfInBounds address.toNat a, pc := next }
    else .error (.storeOutside address)
  | .mov =>
    let s ← s.setRegister i.d a
    pure { s with pc := next }
  | .not =>
    let s ← s.setRegister i.d (~~~a)
    pure { s with pc := next }
  | .jmp =>
    let target ← s.register i.d
    pure { s with pc := target }
  | .jz =>
    let c ← s.register i.d
    pure { s with pc := if c = 0 then a else next }
  | .jnz =>
    let c ← s.register i.d
    pure { s with pc := if c = 0 then next else a }
  | op =>
    let w ← binary s.pc op a b
    let s ← s.setRegister i.d w
    pure { s with pc := next }

/-- The state behind a cell that does not halt. -/
def performCell (handlers : Handlers) (s : State) (cell : Cell) : Except Trap State :=
  match cell.action with
  | .instruction i => perform handlers s cell.next i
  | .constant _ none => .error .textConstant
  | .constant d (some w) => do
    let s ← s.setRegister d w
    pure { s with pc := cell.next }

/-- Whether a cell stops the machine. -/
def Cell.halts (cell : Cell) : Bool :=
  match cell.action with
  | .instruction i => i.op = .halt
  | .constant _ _ => false

/-- The operand registers of a cell exist. -/
def Cell.operandTrap? (s : State) (cell : Cell) : Option Trap :=
  match cell.action with
  | .instruction i =>
    match s.register i.s0, s.register i.s1 with
    | .error t, _ => some t
    | _, .error t => some t
    | _, _ => none
  | .constant _ _ => none

/-- One step. After each cell the register `one` has to hold 1. -/
def step (image : Image) (handlers : Handlers) (s : State) : Step :=
  match image.cells[s.pc.toNat]?.join with
  | none => .trap (.noInstruction s.pc)
  | some cell =>
    if cell.halts then
      match cell.operandTrap? s with
      | some t => .trap t
      | none => .halt s
    else
      match performCell handlers s cell with
      | .error t => .trap t
      | .ok t =>
        if t.registers[62] = 1 then .next t else .trap (.oneOverwritten s.pc)

/-- The machine at rest after `steps` executed cells. -/
structure Halted where
  state : State
  steps : Nat

/-- The value a run returns. -/
def Halted.result (h : Halted) : Word := h.state.registers[0]

/-- Runs for at most `fuel` more cells; `done` cells were executed before. -/
def runFrom (image : Image) (handlers : Handlers) : Nat → Nat → State → Except Trap Halted
  | 0, _, _ => .error .stepLimit
  | fuel + 1, done, s =>
    match step image handlers s with
    | .halt s => .ok ⟨s, done + 1⟩
    | .trap t => .error t
    | .next s => runFrom image handlers fuel (done + 1) s

/-- How an image is run. -/
structure RunOptions where
  start : String
  /-- The bound on executed cells; zero means 2^20. -/
  steps : Nat := 0
  /-- Labels of the interrupt handlers, by interrupt number. -/
  interrupts : List (Word × String) := []

/-- The state in which an image starts: only `one` and the stack pointer are set. -/
def initial (image : Image) (pc : Word) : State :=
  { registers :=
      ((Vector.replicate 64 (0 : Word)).set 62 1).set 63 (UInt32.ofNat image.memory.size)
    memory := image.memory
    pc
    interrupted := [] }

/-- Runs an image from a label until it halts. A handler whose label is missing starts at address
zero. -/
def run (image : Image) (options : RunOptions) : Except Trap Halted :=
  match image.label? options.start with
  | none => .error (.noLabel options.start)
  | some pc =>
    let handlers := options.interrupts.map fun (n, label) =>
      (n, Image.resolve image.labels label)
    let steps := if options.steps = 0 then 1048576 else options.steps
    runFrom image handlers steps 0 (initial image pc)

/-- Why assembling and running a stream fails. -/
inductive RunError
  | assembly (error : AssemblyError)
  | trap (trap : Trap)

/-- The wording of a run error. -/
def RunError.message : RunError → String
  | .assembly e => e.message
  | .trap t => t.message

/-- Assembles a stream into 16384 words and runs it from a label. -/
def runStream (ds : List Assembly.Directive) (start : String) : Except RunError Halted :=
  match Image.assemble ds 16384 with
  | .error e => .error (.assembly e)
  | .ok image =>
    match run image { start } with
    | .error t => .error (.trap t)
    | .ok halted => .ok halted

end Qll.Machine
