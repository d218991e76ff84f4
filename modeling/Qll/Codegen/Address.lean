import Qll.Codegen.Routine

/-!
# Addresses of storage

Static storage is addressed by its label, storage in a stack frame by its distance from the frame
pointer, and temporaries of the initializing routine by their offset in its block.
-/

namespace Qll.Codegen

open Check (Storage)
open Machine (Register addExtent)

/-- Loads the frame pointer, which stands `depth` words above the stack pointer. -/
def framePointer : Gen Register := do
  let r ← allocate
  let depth := (← get).depth
  if depth = 0 then
    emit .load [r, .sp]
  else
    loadCount r depth
    emit .add [r, .sp, r]
    emit .load [r, r]
  return r

/-- Loads the address of a word below the frame pointer. -/
def belowFrame (n : Int) : Gen Register := do
  let r ← framePointer
  let t ← allocate
  loadCount t n
  emit .sub [r, r, t]
  release t
  return r

/-- Loads the address of a word above the frame pointer. -/
def aboveFrame (n : Int) : Gen Register := do
  let r ← framePointer
  offset r n
  return r

/-- Loads the address of a parameter or local. -/
def frameAddress (st : Storage) : Gen Register := do
  let s ← get
  match s.frame with
  | .stack f =>
    match f.params.lookup st.id, f.locals.lookup st.id with
    | some n, _ => aboveFrame n
    | none, some n => belowFrame n
    | none, none => throw (.noStorage s.name st.kind st.name)
  | .block .. => throw (.initializerStorage s.name st.kind st.name)
  | .bare => throw .missing

/-- Loads the address of named storage. -/
def address (st : Storage) : Gen Register := do
  if st.kind.isStatic then
    let r ← allocate
    loadAddress r st.qualified
    return r
  frameAddress st

/-- Makes room for a local. -/
def declareLocal (st : Storage) (size : Int) : Gen Unit := do
  let s ← get
  if st.kind ≠ .automatic then throw (.notLocal s.name st.name st.kind)
  match s.frame with
  | .stack f =>
    if (f.locals.lookup st.id).isSome then throw (.localTwice s.name st.name)
    let (n, f) := f.grow size
    set { s with frame := .stack { f with locals := (st.id, n) :: f.locals } }
  | .block .. => throw (.initializerLocal s.name st.name)
  | .bare => throw .missing

/-- Makes room for a temporary. -/
def temporary (size : Int) : Gen Slot := do
  let s ← get
  match s.frame with
  | .stack f =>
    let (n, f) := f.grow size
    set { s with frame := .stack f }
    return { offset := n, size }
  | .block label taken =>
    set { s with frame := .block label (addExtent taken size) }
    return { offset := taken, size }
  | .bare => throw .missing

/-- Loads the address of a temporary. -/
def slotAddress (slot : Slot) : Gen Register := do
  match (← get).frame with
  | .stack _ => belowFrame slot.offset
  | .block label _ =>
    let r ← allocate
    loadAddress r label
    offset r slot.offset
    return r
  | .bare => throw .missing

/-- Loads the address where the result goes. -/
def resultAddress : Gen Register := do
  let s ← get
  match s.frame with
  | .stack f =>
    if f.result < 0 then throw (.noResultPointer s.name)
    let r ← aboveFrame f.result
    emit .load [r, r]
    return r
  | .block .. => throw (.initializerReturn s.name)
  | .bare => throw .missing

end Qll.Codegen
