import Qll.Text.Quoted

/-!
# Operations of the machine

Each operation has a number, a mnemonic and a count of register operands. In the order in which
operands are written:

* `load d s` reads memory at `s` into `d`, `store d s` writes `s` to memory at `d`;
* `mov d s` and `not d s` copy and complement;
* `add d a b` up to `shr d a b` compute, `eq d a b` up to `gt d a b` leave 0 in `d` when the
  relation holds and 1 otherwise;
* `jmp t` jumps, `jz c t` and `jnz c t` jump on a zero or non-zero `c`;
* `int n` raises interrupt `n`, `rti` returns from one.
-/

namespace Qll.Machine

/-- A machine operation. -/
inductive Opcode
  | halt | int | rti | wait | load | store | mov | constant
  | add | sub | mul | div | mod | and | or | xor | shl | shr
  | not | eq | neq | lt | gt | jmp | jz | jnz | nop
  deriving DecidableEq, Inhabited

namespace Opcode

/-- Every operation, in the order of their numbers. -/
def all : List Opcode :=
  [halt, int, rti, wait, load, store, mov, constant, add, sub, mul, div, mod, and, or, xor, shl,
    shr, not, eq, neq, lt, gt, jmp, jz, jnz, nop]

/-- The number of an operation. -/
def toNat (op : Opcode) : Nat := op.ctorIdx

/-- The operation with number `n`. -/
def ofNat? (n : Nat) : Option Opcode := all[n]?

/-- The mnemonic. -/
def name : Opcode → String
  | halt => "halt"
  | int => "int"
  | rti => "rti"
  | wait => "wait"
  | load => "load"
  | store => "store"
  | mov => "mov"
  | constant => "constant"
  | add => "add"
  | sub => "sub"
  | mul => "mul"
  | div => "div"
  | mod => "mod"
  | and => "and"
  | or => "or"
  | xor => "xor"
  | shl => "shl"
  | shr => "shr"
  | not => "not"
  | eq => "eq"
  | neq => "neq"
  | lt => "lt"
  | gt => "gt"
  | jmp => "jmp"
  | jz => "jz"
  | jnz => "jnz"
  | nop => "nop"

/-- How many register operands an operation takes. -/
def operands : Opcode → Nat
  | halt | rti | wait | nop => 0
  | int | jmp | constant => 1
  | load | store | mov | not | jz | jnz => 2
  | _ => 3

/-- Whether an operation combines two registers into a third. -/
def isBinary (op : Opcode) : Bool := op.operands == 3

/-- Whether an operation writes its first operand. -/
def writes (op : Opcode) : Bool :=
  op.isBinary || op = load || op = mov || op = not

/-- The operation with the given mnemonic. -/
def parse? (s : String) : Option Opcode :=
  all.find? fun op => op.name == s

/-- What is said of a text that is no mnemonic. -/
def unknownName (s : String) : String :=
  "unknown opcode " ++ Text.quote s

/-- What is said of a number that belongs to no operation. -/
def unknownNumber (n : Nat) : String :=
  "unknown opcode " ++ Nat.repr n

end Opcode

end Qll.Machine
