import Qll.Check.Storage
import Qll.Machine.Opcode
import Qll.Machine.Register
import Qll.Machine.Word

/-!
# Faults

A fault is a failed assumption of the compiler itself, as opposed to an error in the program it
compiles. The stage in which a fault arises ends at once, and the fault is reported as an internal
error. Running out of stack is the exception: the process dies of it.
-/

namespace Qll

open Machine (Register Opcode)
open Check (StorageClass)

/-- Why the compiler cannot go on. -/
inductive Fault
  /-- Every allocatable register is taken. -/
  | registersExhausted (inUse : Nat)
  /-- A register is given back that was not taken. -/
  | notAllocated (register : Register)
  /-- A size, offset or literal fits no machine word. -/
  | noWord (number : Int)
  /-- An operation is emitted with the wrong number of registers. -/
  | operandCount (op : Opcode) (given : Nat)
  | stackBelowFrame (routine : String)
  | loopExitUnderflow (routine : String)
  | breakOutsideLoop (routine : String)
  | statementRegisters (routine : String) (left : Int)
  | statementStack (routine : String) (moved : Int)
  | expressionRegisters (routine : String) (held : Int)
  | notLocal (routine name : String) (storage : StorageClass)
  | noStorage (routine : String) (storage : StorageClass) (name : String)
  | localTwice (routine name : String)
  | noResultPointer (routine : String)
  | initializerStorage (routine : String) (storage : StorageClass) (name : String)
  | initializerLocal (routine name : String)
  | initializerReturn (routine : String)
  | finishedTwice (routine : String)
  | registersLeft (routine : String) (count : Nat)
  | unbalanced (routine : String)
  | initializerAdded
  | linkedTwice
  /-- An identifier reaches code generation without being resolved. -/
  | unresolved (name : String)
  /-- An operator reaches code generation without a machine operation. -/
  | noLowering (operator : String)
  /-- A name in a type is resolved a second time. -/
  | nameBoundTwice (name first second : String)
  /-- A name in a type is followed before it was resolved. -/
  | nameUnbound (name : String)
  | variableBoundTwice (name first second : String)
  | variableSize (name : String)
  | templateSize (text : String)
  | templateArguments (text : String) (expected given : Nat)
  | loopUnderflow
  | scopeUnderflow
  /-- Scopes are used outside a declaration. -/
  | noDeclaration
  | staticDeclared (name : String) (storage : StorageClass)
  /-- Names are resolved against something other than a program. -/
  | noProgram
  | nodeTwice (name : String)
  /-- A part that checking would have filled in is missing, or a length is not usable. -/
  | missing
  /-- An outside party that watches the compiler failed. -/
  | observer (text : String)
  /-- A chain of definitions takes more steps than the stack of the process has room for. No stage
  gets to report this fault. -/
  | endless
  deriving Inhabited

/-- The wording of a fault. -/
def Fault.message : Fault → String
  | registersExhausted n =>
    "register allocator exhausted: all " ++ Nat.repr n ++ " registers in use"
  | notAllocated r => "deallocating unallocated register " ++ r.name
  | noWord n => Machine.Word.misfit n
  | operandCount op given =>
    op.name ++ " takes " ++ Nat.repr op.operands ++ " registers, got " ++ Nat.repr given
  | stackBelowFrame routine => routine ++ ": stack depth below the frame"
  | loopExitUnderflow routine => routine ++ ": break stack underflow"
  | breakOutsideLoop routine => routine ++ ": break outside a loop"
  | statementRegisters routine n =>
    routine ++ ": statement left " ++ Text.decimal n ++ " registers allocated"
  | statementStack routine n =>
    routine ++ ": statement moved the stack by " ++ Text.decimal n ++ " words"
  | expressionRegisters routine n =>
    routine ++ ": expression holds " ++ Text.decimal n ++ " registers, want its result only"
  | notLocal routine name storage =>
    routine ++ ": " ++ name ++ " is " ++ storage.name ++ " storage, not local"
  | noStorage routine storage name => routine ++ ": no storage for " ++ storage.name ++ " " ++ name
  | localTwice routine name => routine ++ ": local " ++ name ++ " declared twice"
  | noResultPointer routine => routine ++ " has no result pointer"
  | initializerStorage routine storage name =>
    routine ++ ": " ++ storage.name ++ " " ++ name ++ " in a global initializer"
  | initializerLocal routine name => routine ++ ": local " ++ name ++ " in a global initializer"
  | initializerReturn routine => routine ++ ": return from a global initializer"
  | finishedTwice routine => routine ++ " finished twice"
  | registersLeft routine n => routine ++ ": " ++ Nat.repr n ++ " registers still allocated"
  | unbalanced routine => routine ++ ": unbalanced stack or loop exits"
  | initializerAdded => "initializer is added by Link"
  | linkedTwice => "unit linked twice"
  | unresolved name => "identifier " ++ name ++ " compiled without storage"
  | noLowering operator => "no lowering for operator " ++ operator
  | nameBoundTwice name first second =>
    "type identifier " ++ name ++ " bound twice (" ++ first ++ ", " ++ second ++ ")"
  | nameUnbound name => "type identifier " ++ name ++ " used before binding"
  | variableBoundTwice name first second =>
    "type variable " ++ name ++ " bound twice (" ++ first ++ ", " ++ second ++ ")"
  | variableSize name => "size of unbound type variable " ++ name
  | templateSize text => "size of uninstantiated template " ++ text
  | templateArguments text expected given =>
    "template " ++ text ++ " takes " ++ Nat.repr expected ++ " arguments, got " ++ Nat.repr given
  | loopUnderflow => "loop exit without entry"
  | scopeUnderflow => "scope stack underflow"
  | noDeclaration => "no declaration is being checked"
  | staticDeclared name storage =>
    "declare " ++ name ++ ": " ++ storage.name ++ " storage is declared by its namespace"
  | noProgram => "context is not bound to a program namespace"
  | nodeTwice name => "liveness: " ++ name ++ " added twice"
  | missing => "runtime error"
  | observer text => text
  | endless => "stack overflow"

end Qll
