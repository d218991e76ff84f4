import Qll.Check.Storage
import Qll.Machine.Word

/-!
# Frames

A frame says where a routine keeps its named and its anonymous storage. Functions and interrupt
handlers have a frame on the stack:

* above the frame pointer, the parameters, the last one nearest, and above them the address of a
  result that fits no register;
* at the frame pointer, the return address, or an unused word in a handler;
* below the frame pointer, locals and temporaries, then saved registers, then the saved frame
  pointer, which the body reads back from the stack.

The routine that initializes globals has no locals and keeps its temporaries in one static block.
-/

namespace Qll.Codegen

open Check (Storage)
open Machine (addExtent)

/-- The layout of a frame on the stack. Distances are counted in words. -/
structure StackFrame where
  /-- How far above the frame pointer each parameter starts. -/
  params : List (Nat × Int) := []
  /-- How far below the frame pointer each local starts. -/
  locals : List (Nat × Int) := []
  /-- The words below the frame pointer taken so far. -/
  size : Int := 0
  /-- How far above the frame pointer the result address is; negative without one. -/
  result : Int := -1
  interrupt : Bool := false
  deriving Inhabited

/-- Where a routine keeps its storage. -/
inductive Frame
  | stack (frame : StackFrame)
  /-- Temporaries stand in a block of data with a label and a size. -/
  | block (label : String) (size : Int)
  /-- The routine has no storage. -/
  | bare
  deriving Inhabited

/-- A parameter and its size in words. -/
structure Param where
  storage : Storage
  size : Int
  deriving Inhabited

namespace StackFrame

/-- Places parameters, the last one first, from `above` words above the frame pointer on; gives the
distance of the word after them. -/
def placeParams : List Param → Int → List (Nat × Int) → List (Nat × Int) × Int
  | [], above, placed => (placed, above)
  | p :: rest, above, placed =>
    placeParams rest (addExtent above p.size) ((p.storage.id, above) :: placed)

/-- The frame of a function. -/
def ofParams (params : List Param) (hiddenResult : Bool) : StackFrame :=
  let (placed, above) := placeParams params.reverse 1 []
  { params := placed, result := if hiddenResult then above else -1 }

/-- Takes `size` words below the frame pointer; gives the distance of the first of them. -/
def grow (f : StackFrame) (size : Int) : Int × StackFrame :=
  let size := addExtent f.size size
  (size, { f with size })

end StackFrame

/-- Anonymous storage of a routine. -/
structure Slot where
  offset : Int
  size : Int
  deriving Inhabited

end Qll.Codegen
