import Qll.Codegen.Address
import Qll.Codegen.Copy

/-!
# Calls and returns

A caller saves the caller-save registers in use, pushes the address for a result that fits no
register, then the arguments from left to right, loads the return address and jumps. The callee
leaves its result in the return register.
-/

namespace Qll.Codegen

open Machine (Register addExtent)

/-- A value passed to a routine: `compile` gives the value itself, or the address of `size` words
if it fits no register. -/
structure Argument where
  size : Int
  integral : Bool
  compile : Gen Register

/-- What a call returns; a negative size means nothing. -/
structure Result where
  size : Int
  integral : Bool
  deriving DecidableEq, Inhabited

namespace Result

/-- No value. -/
def void : Result := { size := -1, integral := false }

/-- A value in one register. -/
def word : Result := { size := 1, integral := true }

/-- Whether the caller passes an address for the result. -/
def isHidden (r : Result) : Bool := 0 ≤ r.size && !r.integral

end Result

/-- Passes an argument; gives the number of words it takes on the stack. -/
def passArgument (a : Argument) : Gen Int := do
  let r ← a.compile
  if a.integral then
    push r
  else
    reserve a.size
    let d ← allocate
    emit .mov [d, .sp]
    copy d r a.size
    release d
  release r
  return if a.integral then 1 else a.size

/-- Passes the arguments from left to right; gives the number of words pushed, on top of `words`. -/
def passArguments : List Argument → Int → Gen Int
  | [], words => return words
  | a :: rest, words => do
    let n ← passArgument a
    passArguments rest (addExtent words n)

/-- Passes the address of a new temporary for the result. -/
def passResultSlot (size : Int) : Gen Slot := do
  let slot ← temporary size
  let a ← slotAddress slot
  push a
  release a
  return slot

/-- Calls the routine whose address is in `callee`, which is given back; gives the register of the
result, or of its address if it fits none. -/
def call (callee : Register) (arguments : List Argument) (result : Result) : Gen Register := do
  modify fun s => { s with calls := true }
  let saved := (← get).pool.liveCallerSave.filter (· ≠ callee)
  saved.forM push
  let slot ← if result.isHidden then some <$> passResultSlot result.size else pure none
  let words ← passArguments arguments (if result.isHidden then 1 else 0)
  let back ← newLabel "return"
  loadAddress .result back
  emit .jmp [callee]
  placeLabel back
  release callee
  drop words
  saved.reverse.forM pop
  match slot with
  | some slot => slotAddress slot
  | none =>
    let r ← allocate
    emit .mov [r, .result]
    return r

/-- Leaves the routine with a value; a negative size means none. -/
def leave (r : Register) (result : Result) : Gen Unit := do
  if 0 ≤ result.size then
    if result.integral then
      emit .mov [.result, r]
    else
      let out ← resultAddress
      copy out r result.size
      emit .mov [.result, out]
      release out
  jump (← get).exit

end Qll.Codegen
