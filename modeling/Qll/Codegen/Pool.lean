import Qll.Fault

/-!
# The register pool

Registers `r1` to `r61` can be taken, the caller-save ones first. Running out of them is a fault;
nothing is ever spilled. The pool remembers every register it handed out, so that a prologue can
save exactly those.
-/

namespace Qll.Codegen

open Machine (Register)

/-- The registers in use, and those handed out at any time. -/
structure Pool where
  live : List Register := []
  ever : List Register := []

namespace Pool

/-- The registers that can be taken, in the order of preference. -/
def allocatable : List Register :=
  (List.range 61).map fun n => Register.ofNat (n + 1)

/-- How many registers are in use. -/
def outstanding (p : Pool) : Nat := p.live.length

/-- Whether a register is in use. -/
def isAllocated (p : Pool) (r : Register) : Bool := p.live.contains r

/-- Takes the first free register. -/
def allocate (p : Pool) : Except Fault (Register × Pool) :=
  match allocatable.find? fun r => !p.isAllocated r with
  | some r =>
    let ever := if p.ever.contains r then p.ever else r :: p.ever
    .ok (r, { live := r :: p.live, ever })
  | none => .error (.registersExhausted p.outstanding)

/-- Gives a register back. -/
def release (p : Pool) (r : Register) : Except Fault Pool :=
  if p.isAllocated r then .ok { p with live := p.live.erase r } else .error (.notAllocated r)

/-- The caller-save registers in use, ascending; a call has to preserve them. -/
def liveCallerSave (p : Pool) : List Register :=
  allocatable.filter fun r => r.isCallerSave && p.isAllocated r

/-- Every register handed out so far, ascending. -/
def used (p : Pool) : List Register :=
  allocatable.filter fun r => p.ever.contains r

/-- Every callee-save register handed out so far, ascending. -/
def calleeSaveUsed (p : Pool) : List Register :=
  p.used.filter Register.isCalleeSave

end Pool

end Qll.Codegen
