import Qll.Codegen.Call
import Qll.Codegen.Finish

/-!
# Linking

The stream of a program starts with the routine that initializes the globals and enters the
program, followed by the initializing routine, all other routines, the globals and the data.
A library has no start.
-/

namespace Qll.Codegen

open Assembly (Directive)
open Machine (Register)

/-- Where a program begins. -/
def startLabel : String := "global::$start"

/-- Where the globals are initialized. -/
def initializeLabel : String := "global::$initialize"

/-- The routines and data of a program. -/
structure Linkage where
  library : Bool := false
  init : Routine := .initializer initializeLabel
  code : Array Directive := #[]
  globals : Array Directive := #[]
  data : Array Directive := #[]
  linked : Bool := false

instance : Inhabited Linkage := ⟨{}⟩

/-- Steps of putting a program together. -/
abbrev LinkM := EStateM Fault Linkage

/-- Builds on the initializing routine. -/
def onInitializer {α : Type} (x : Gen α) : LinkM α := fun u =>
  match x u.init with
  | .ok a init => .ok a { u with init }
  | .error e init => .error e { u with init }

/-- Completes a routine and adds its code and data. -/
def addRoutine (r : Routine) : LinkM Routine := do
  match finish r with
  | .error e _ => throw e
  | .ok code r =>
    modify fun u => { u with code := u.code ++ code, data := u.data ++ r.data }
    return r

/-- Adds `size` zero words under the label of a global. -/
def addGlobal (name : String) (size : Int) : LinkM Unit := do
  match zeroWords size with
  | .error e => throw e
  | .ok words =>
    modify fun u => { u with globals := (u.globals.push (.label (symbol name))).push words }

/-- Calls the routine at a label from the start. -/
def startCall (target : String) : Gen Unit := do
  let back ← newLabel "return"
  loadAddress scratchFrame target
  loadAddress .result back
  emit .jmp [scratchFrame]
  placeLabel back

/-- The routine in which a program begins: it initializes the globals, enters the program and stops
the machine. A program without a result leaves zero. -/
def start (entry : String) (result : Result) : Gen Unit := do
  placeLabel (← get).name
  startCall initializeLabel
  startCall entry
  if result.size < 0 then loadWord .result 0
  emit .halt []

/-- The code of the start. -/
def startCode (entry : String) (result : Result) : Except Fault (List Directive) :=
  match start entry result (.create startLabel .bare) with
  | .ok _ r => .ok r.code.toList
  | .error e _ => .error e

/-- Links the program. -/
def link (entry : String) (result : Result) : LinkM (List Directive) := do
  if (← get).linked then throw .linkedTwice
  modify fun u => { u with linked := true }
  let front ←
    if (← get).library then pure []
    else
      match startCode entry result with
      | .ok ds => pure ds
      | .error e => throw e
  let init ← onInitializer finish
  let u ← get
  return front ++ init ++ u.code.toList ++ u.globals.toList ++ u.data.toList ++ u.init.data.toList

end Qll.Codegen
