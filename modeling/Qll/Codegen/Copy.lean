import Qll.Codegen.Routine

/-!
# Copies, fills and checks

Words are copied one by one up to eight of them, and in a loop beyond. A check that fails at run
time stops the machine with a word that tells which.
-/

namespace Qll.Codegen

open Machine (Register Opcode Word)

/-- The largest copy that is written out without a loop. -/
def unrollLimit : Int := 8

/-- Copies `n` words one by one. -/
def copyWords (pd ps v : Register) : Nat → Gen Unit
  | 0 => return
  | n + 1 => do
    emit .load [v, ps]
    emit .store [pd, v]
    if n ≠ 0 then
      emit .add [ps, ps, .one]
      emit .add [pd, pd, .one]
    copyWords pd ps v n

/-- Copies a few words. -/
def copyUnrolled (dst src : Register) (size : Nat) : Gen Unit := do
  let pd ← allocate
  let ps ← allocate
  let v ← allocate
  emit .mov [pd, dst]
  emit .mov [ps, src]
  copyWords pd ps v size
  release v
  release ps
  release pd

/-- Copies as many words as `n` holds, at least one; `n` is counted down to zero. -/
def copyLoop (dst src n : Register) : Gen Unit := do
  let pd ← allocate
  let ps ← allocate
  let v ← allocate
  let target ← allocate
  let loop ← newLabel "copy"
  emit .mov [pd, dst]
  emit .mov [ps, src]
  loadAddress target loop
  placeLabel loop
  emit .load [v, ps]
  emit .store [pd, v]
  emit .add [ps, ps, .one]
  emit .add [pd, pd, .one]
  emit .sub [n, n, .one]
  emit .jnz [n, target]
  release target
  release v
  release ps
  release pd

/-- Copies `size` words from one address to another. -/
def copy (dst src : Register) (size : Int) : Gen Unit := do
  if size ≤ 0 then return
  if size = 1 then
    let v ← allocate
    emit .load [v, src]
    emit .store [dst, v]
    release v
  else if size ≤ unrollLimit then
    copyUnrolled dst src size.toNat
  else
    let n ← allocate
    loadCount n size
    copyLoop dst src n
    release n

/-- Copies as many words as `n` holds at run time. -/
def copyCounted (dst src n : Register) : Gen Unit := do
  let done ← newLabel "copied"
  jumpIfZero n done
  copyLoop dst src n
  placeLabel done

/-- Stores a word `n` times, one after the other. -/
def fillWords (p v : Register) : Nat → Gen Unit
  | 0 => return
  | n + 1 => do
    emit .store [p, v]
    if n ≠ 0 then emit .add [p, p, .one]
    fillWords p v n

/-- Stores a word into `size` words from an address on. -/
def fill (dst v : Register) (size : Int) : Gen Unit := do
  let p ← allocate
  emit .mov [p, dst]
  fillWords p v size.toNat
  release p

/-! ## Checks -/

/-- Stops the machine with a word in the return register. -/
def stopWith (w : Word) : Gen Unit := do
  loadWord .result w
  emit .halt []

/-- Stops the machine if an address is zero. -/
def checkNull (p : Register) : Gen Unit := do
  let ok ← newLabel "nonnull"
  jumpIfNotZero p ok
  stopWith Machine.faultNull
  placeLabel ok

/-- Stops the machine unless an index is below a length. A comparison that holds gives zero. -/
def checkBounds (index length : Register) : Gen Unit := do
  let ok ← newLabel "inbounds"
  let t ← allocate
  emit .lt [t, index, length]
  jumpIfZero t ok
  release t
  stopWith Machine.faultBounds
  placeLabel ok

/-- Stops the machine if a length is above a capacity. -/
def checkCapacity (length capacity : Register) : Gen Unit := do
  let ok ← newLabel "fits"
  let t ← allocate
  emit .gt [t, length, capacity]
  jumpIfNotZero t ok
  release t
  stopWith Machine.faultCapacity
  placeLabel ok

/-! ## Truth values -/

/-- Turns the result of a comparison, zero when it holds, into one for true and zero for false. -/
def truth (r : Register) : Gen Unit := emit .sub [r, .one, r]

/-- Compares two registers; the truth value replaces the first, and the second is given back. -/
def compare (op : Opcode) (a b : Register) : Gen Register := do
  emit op [a, a, b]
  release b
  truth a
  return a

/-- Replaces a word by one if it is zero, and by zero otherwise. -/
def negate (r : Register) : Gen Unit := do
  let z ← allocate
  loadWord z 0
  emit .eq [r, r, z]
  release z
  truth r

end Qll.Codegen
