import Qll.Text.Quoted

/-!
# Registers

The machine has 64 registers. `r0` carries results and return addresses, two are reserved, and
the rest form a caller-save and a callee-save pool. Register fields are eight bits wide, so
numbers above 63 can be written although no register answers to them.
-/

namespace Qll.Machine

/-- A register number as instructions carry it. -/
structure Register where
  index : UInt8
  deriving DecidableEq, Inhabited

namespace Register

/-- How many registers the machine has. -/
def count : Nat := 64

/-- Return values, and the return address across a call. -/
def result : Register := ⟨0⟩

/-- Always holds the constant 1. -/
def one : Register := ⟨62⟩

/-- The stack pointer; the stack grows downward. -/
def sp : Register := ⟨63⟩

/-- The first register a callee may clobber. -/
def firstCallerSave : Register := ⟨1⟩

/-- How many registers a callee may clobber. -/
def callerSaveCount : Nat := 30

/-- The first register a callee has to preserve. -/
def firstCalleeSave : Register := ⟨31⟩

/-- How many registers a callee has to preserve. -/
def calleeSaveCount : Nat := 31

/-- The register with number `n`. -/
def ofNat (n : Nat) : Register := ⟨UInt8.ofNat n⟩

/-- The number of a register. -/
def toNat (r : Register) : Nat := r.index.toNat

/-- Whether a callee may clobber the register. -/
def isCallerSave (r : Register) : Bool := 1 ≤ r.toNat && r.toNat ≤ 30

/-- Whether a callee has to preserve the register. -/
def isCalleeSave (r : Register) : Bool := 31 ≤ r.toNat && r.toNat ≤ 61

/-- The name of a register. -/
def name (r : Register) : String :=
  if r = sp then "sp"
  else if r = one then "one"
  else "r" ++ Nat.repr r.toNat

/-- Why a text names no register. -/
inductive NameError
  | invalid (text : String)
  | outOfRange (text : String)

/-- The wording of a name error. -/
def NameError.message : NameError → String
  | .invalid s => "invalid register " ++ Text.quote s
  | .outOfRange s => "register " ++ Text.quote s ++ " out of range"

/-- The digits at the front of a text, read as a number; `none` if there are none. -/
def leadingNumber (cs : List Char) : Option Nat :=
  match cs.takeWhile Char.isDigit with
  | [] => none
  | digits => some (digits.foldl (fun n c => n * 10 + (c.toNat - 48)) 0)

/-- The number that follows the letter `r`: blanks are skipped, though a line break is refused,
a sign may stand in front, and what follows the digits is ignored. Numbers outside the 64-bit
signed range are refused. -/
def parseNumber (cs : List Char) : Option Int :=
  let blanks := cs.takeWhile Text.isSpace
  if blanks.contains '\n' then none
  else
    let number : Option Int :=
      match cs.dropWhile Text.isSpace with
      | '-' :: rest => (leadingNumber rest).map fun n => -(n : Int)
      | '+' :: rest => (leadingNumber rest).map fun n => (n : Int)
      | rest => (leadingNumber rest).map fun n => (n : Int)
    number.filter fun n => -9223372036854775808 ≤ n && n < 9223372036854775808

/-- The register named by a text. -/
def parse (s : String) : Except NameError Register :=
  if s = "sp" then .ok sp
  else if s = "one" then .ok one
  else
    match s.toList with
    | 'r' :: rest =>
      match parseNumber rest with
      | none => .error (.invalid s)
      | some n => if 0 ≤ n ∧ n < 64 then .ok (ofNat n.toNat) else .error (.outOfRange s)
    | _ => .error (.invalid s)

end Register

end Qll.Machine
