import Qll.Codegen.Routine

/-!
# Entry and exit of routines

The code around a body is written once the body is complete, because only then it is known which
registers it uses and how large its frame is. A function saves the callee-save registers it uses;
an interrupt handler saves every register it may change, above its frame.
-/

namespace Qll.Codegen

open Assembly (Directive)
open Machine (Register)

/-- The register in which entry and exit keep the frame pointer. -/
def scratchFrame : Register := Register.ofNat 1

/-- The register in which the entry keeps the size of the frame. -/
def scratchSize : Register := Register.ofNat 2

/-- The caller-save registers. -/
def callerSave : List Register := Pool.allocatable.filter Register.isCallerSave

/-- The registers a routine has to preserve, ascending. A handler that calls other routines keeps
all caller-save registers, because they may change any of them. -/
def preserved (interrupt : Bool) (s : Routine) : List Register :=
  if interrupt then
    (Register.result :: Pool.allocatable).filter fun r =>
      r == .result || r == scratchFrame || r == scratchSize || s.pool.used.contains r ||
        (s.calls && callerSave.contains r)
  else s.pool.calleeSaveUsed

/-- The largest block of words for which room can be made. -/
def maxBlock : Int := 17592186044416

/-- `size` zero words. -/
def zeroWords (size : Int) : Except Fault Directive :=
  if size < 0 ∨ maxBlock < size then .error .missing
  else .ok (.data (List.replicate size.toNat (.immediate 0)))

/-- The entry of a routine with a stack frame. -/
def enterStack (f : StackFrame) : Gen Unit := do
  let saved := preserved f.interrupt (← get)
  if f.interrupt then
    saved.forM pushWord
    emit .sub [.sp, .sp, .one]
  else
    pushWord .result
  emit .mov [scratchFrame, .sp]
  if 0 < f.size then
    loadCount scratchSize f.size
    emit .sub [.sp, .sp, scratchSize]
  if !f.interrupt then saved.forM pushWord
  pushWord scratchFrame

/-- The exit of a routine with a stack frame. -/
def exitStack (f : StackFrame) : Gen Unit := do
  let saved := preserved f.interrupt (← get)
  popWord scratchFrame
  if f.interrupt then
    emit .mov [.sp, scratchFrame]
    emit .add [.sp, .sp, .one]
    saved.reverse.forM popWord
    emit .rti []
  else
    saved.reverse.forM popWord
    emit .mov [.sp, scratchFrame]
    popWord scratchFrame
    emit .jmp [scratchFrame]

/-- The entry of the initializing routine, which also owns the block of its temporaries. -/
def enterBlock (label : String) (size : Int) : Gen Unit := do
  pushWord .result
  (← get).pool.calleeSaveUsed.forM pushWord
  if 0 < size then
    let block ← orFault (zeroWords size)
    modify fun s => { s with data := (s.data.push (.label label)).push block }

/-- The exit of the initializing routine. -/
def exitBlock : Gen Unit := do
  (← get).pool.calleeSaveUsed.reverse.forM popWord
  popWord scratchFrame
  emit .jmp [scratchFrame]

/-- Completes a routine: its code is the label, the entry, the body, the exit label and the exit. -/
def finish : Gen (List Directive) := do
  let s ← get
  if s.finished then throw (.finishedTwice s.name)
  modify fun s => { s with finished := true }
  if s.pool.outstanding ≠ 0 then throw (.registersLeft s.name s.pool.outstanding)
  if s.depth ≠ 0 || !s.exits.isEmpty then throw (.unbalanced s.name)
  let body := s.code
  modify fun s => { s with code := #[] }
  placeLabel s.name
  match s.frame with
  | .stack f => enterStack f
  | .block label size => enterBlock label size
  | .bare => throw .missing
  modify fun s => { s with code := s.code ++ body }
  placeLabel s.exit
  match s.frame with
  | .stack f => exitStack f
  | .block .. => exitBlock
  | .bare => throw .missing
  return (← get).code.toList

end Qll.Codegen
