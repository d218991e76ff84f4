import Qll.Checked.Tree
import Qll.Codegen.Call
import Qll.Types.Layout

/-!
# Lowering

Checked expressions and statements become code. An expression leaves its value in a register, or
its address if the value fits none, or if an address is asked for.
-/

namespace Qll.Codegen

open Check (Storage)
open Checked (Expr Stmt IndexKind)
open Machine (Register Opcode addExtent mulExtent)
open Source (BinaryOp UnaryOp)
open Qll.Types (Ty Member Store TypeM sliceSize)

/-! ## Shapes

Code generation asks of a type only how large its values are, whether they fit a register, and
where a member stands. A question that has no answer is a fault at the moment it is asked.
-/

/-- The answers about types. -/
structure Shapes where
  size : Ty → Except Fault Int
  isIntegral : Ty → Except Fault Bool
  isVoid : Ty → Except Fault Bool
  member : List (Member Ty) → String → Except Fault (Option (Member Ty × Int))

/-- What a computation gives on a store, whatever it adds to the store. -/
def answer {α : Type} (s : Store) (x : TypeM α) : Except Fault α :=
  match x s with
  | .ok a _ => .ok a
  | .error e _ => .error e

/-- The answers that a store gives. -/
def Shapes.ofStore (s : Store) : Shapes where
  size t := answer s (Types.size t)
  isIntegral t := answer s (Types.isIntegral t)
  isVoid t := answer s (Types.isVoid t)
  member members name := answer s (Types.findMember members name)

/-! ## Operations -/

/-- The offset of the length word in a slice descriptor. -/
def sliceLength : Int := 1

/-- The offset of the capacity word in a slice descriptor. -/
def sliceCapacity : Int := 2

/-- The operation of an operator, and whether its result is a comparison that gives zero when it
holds. The negation of an order is the opposite comparison as it comes. -/
def binaryOpcode? : BinaryOp → Option (Opcode × Bool)
  | .add => some (.add, false)
  | .sub => some (.sub, false)
  | .mul => some (.mul, false)
  | .div => some (.div, false)
  | .mod => some (.mod, false)
  | .bitAnd => some (.and, false)
  | .bitOr => some (.or, false)
  | .bitXor => some (.xor, false)
  | .shiftLeft => some (.shl, false)
  | .shiftRight => some (.shr, false)
  | .eq => some (.eq, true)
  | .notEq => some (.neq, true)
  | .less => some (.lt, true)
  | .greater => some (.gt, true)
  | .lessEq => some (.gt, false)
  | .greaterEq => some (.lt, false)
  | .logicalAnd | .logicalOr => none

/-- Turns the address in a register into the value there, unless an address is asked for or the
value fits no register. -/
def loadValue (shapes : Shapes) (r : Register) (t : Ty) (lvalue : Bool) : Gen Register := do
  if lvalue then return r
  if ← orFault (shapes.isIntegral t) then emit .load [r, r]
  return r

/-- Writes a value, or the words at its address, to an address. -/
def storeValue (shapes : Shapes) (addr v : Register) (t : Ty) : Gen Unit := do
  if ← orFault (shapes.isIntegral t) then emit .store [addr, v]
  else copy addr v (← orFault (shapes.size t))

/-- How a value of a type is returned. -/
def resultOf (shapes : Shapes) (t : Ty) : Except Fault Result := do
  if ← shapes.isVoid t then return .void
  return { size := ← shapes.size t, integral := ← shapes.isIntegral t }

/-- Multiplies a count of elements by their size. -/
def scale (r : Register) (size : Int) : Gen Unit := do
  if size = 1 then return
  let t ← allocate
  loadCount t size
  emit .mul [r, r, t]
  release t

/-- A part that checking has filled in. -/
def filledIn {α : Type} : Option α → Gen α
  | some a => return a
  | none => throw .missing

/-- The words of a slice descriptor with one register for length and capacity. -/
def storeDescriptor (addr length : Register) : Gen Unit := do
  offset addr sliceLength
  emit .store [addr, length]
  offset addr (sliceCapacity - sliceLength)
  emit .store [addr, length]

/-- Zeroes the members of a struct that are not among the given ones. -/
def zeroMembers (shapes : Shapes) (slot : Slot) (members : List (Member Ty)) (zero : Register)
    (given : List String) : List (Member Ty) → Gen Unit
  | [] => return
  | m :: rest => do
    if !given.contains m.name then
      let (_, off) ← filledIn (← orFault (shapes.member members m.name))
      let addr ← slotAddress slot
      offset addr off
      fill addr zero (← orFault (shapes.size m.type))
      release addr
    zeroMembers shapes slot members zero given rest

/-- The arguments of a call, from the types of the parameters. -/
def argumentShapes (shapes : Shapes) : List Ty → Except Fault (List (Int × Bool))
  | [] => .ok []
  | t :: rest => do
    let size ← shapes.size t
    let integral ← shapes.isIntegral t
    return (size, integral) :: (← argumentShapes shapes rest)

/-- Compares an index with the length of an array or slice. -/
def checkIndex (base i : Register) : IndexKind → Gen Unit
  | .array length => do
    let n ← allocate
    loadCount n length
    checkBounds i n
    release n
  | .slice => do
    let n ← allocate
    emit .mov [n, base]
    offset n sliceLength
    emit .load [n, n]
    checkBounds i n
    release n
  | .pointer => return

/-- Allocates one word argument from a register-producing step. -/
def wordArgument (compile : Gen Register) : Argument := { size := 1, integral := true, compile }

mutual

/-- The code of an expression. -/
def compileExpr (shapes : Shapes) : Expr → Bool → Gen Register
  | .integer w, _ => do
    let r ← allocate
    loadWord r w
    return r
  | .text s, _ => do
    let label ← placeText s
    let r ← allocate
    loadAddress r label
    return r
  | .null, _ => do
    let r ← allocate
    loadWord r 0
    return r
  | .struct members fields, _ => do
    let members ← filledIn members
    let size ← orFault (shapes.size (.struct members none))
    let slot ← temporary size
    compileFields shapes slot members fields
    let given := fields.map (·.1)
    if given.eraseDups.length < members.length then
      let zero ← allocate
      loadWord zero 0
      zeroMembers shapes slot members zero given members
      release zero
    slotAddress slot
  | .array element elements, _ => do
    let element ← filledIn element
    let size ← orFault (shapes.size element)
    let slot ← temporary (mulExtent size elements.length)
    compileElements shapes slot element size 0 elements
    slotAddress slot
  | .name text none _, _ => throw (.unresolved text)
  | .name _ (some st) t, lvalue => do
    let addr ← address st
    if st.kind = .function then return addr
    loadValue shapes addr t lvalue
  | .call callee arguments signature, _ => do
    let callee ← compileExpr shapes callee false
    let (params, result) ← filledIn signature
    let parts ← orFault (argumentShapes shapes (params.take arguments.length))
    let result ← orFault (resultOf shapes result)
    call callee (compileArguments shapes arguments parts) result
  | .member base off t _, lvalue => do
    let r ← compileExpr shapes base true
    offset r off
    loadValue shapes r t lvalue
  | .arrow base off t _, lvalue => do
    let r ← compileExpr shapes base false
    checkNull r
    offset r off
    loadValue shapes r t lvalue
  | .index base position unchecked kind t, lvalue => do
    let b ← compileExpr shapes base (kind ≠ .pointer)
    let i ← compileExpr shapes position false
    if !unchecked then checkIndex b i kind
    if kind = .slice then emit .load [b, b]
    scale i (← orFault (shapes.size t))
    emit .add [b, b, i]
    release i
    loadValue shapes b t lvalue
  | .cast operand, _ => compileExpr shapes operand false
  | .sizeOf size, _ => do
    let r ← allocate
    loadCount r size
    return r
  | .new heap none, _ => do
    let (element, alloc) ← filledIn heap
    let size ← orFault (shapes.size element)
    let callee ← address alloc
    let words : Gen Register := do
      let r ← allocate
      loadCount r size
      return r
    call callee [wordArgument words] .word
  | .new heap (some count), _ => do
    let (element, alloc) ← filledIn heap
    let size ← orFault (shapes.size element)
    let n ← compileExpr shapes count false
    let callee ← address alloc
    let words : Gen Register := do
      let r ← allocate
      emit .mov [r, n]
      scale r size
      return r
    let p ← call callee [wordArgument words] .word
    let slot ← temporary sliceSize
    let addr ← slotAddress slot
    emit .store [addr, p]
    release p
    storeDescriptor addr n
    release addr
    release n
    slotAddress slot
  | .binary op rule left right element, _ => do
    let shortCircuit := rule.any (·.shortCircuit)
    let a ← compileExpr shapes left false
    if shortCircuit then
      let done ← newLabel "logic"
      if op = .logicalAnd then jumpIfZero a done else jumpIfNotZero a done
      let b ← compileExpr shapes right false
      emit .mov [a, b]
      release b
      placeLabel done
      return a
    let b ← compileExpr shapes right false
    if rule.any (·.scaled) then
      scale b (← orFault (shapes.size (← filledIn element)))
    match binaryOpcode? op with
    | none => throw (.noLowering op.spelling)
    | some (code, true) => compare code a b
    | some (code, false) =>
      emit code [a, a, b]
      release b
      return a
  | .unary .addressOf operand _, _ => compileExpr shapes operand true
  | .unary .deref operand t, lvalue => do
    let p ← compileExpr shapes operand false
    checkNull p
    loadValue shapes p t lvalue
  | .unary .neg operand _, _ => do
    let r ← compileExpr shapes operand false
    let z ← allocate
    loadWord z 0
    emit .sub [r, z, r]
    release z
    return r
  | .unary .not operand _, _ => do
    let r ← compileExpr shapes operand false
    negate r
    return r
  | .unary .bitNot operand _, _ => do
    let r ← compileExpr shapes operand false
    emit .not [r, r]
    return r
  | .descriptor data length, _ => do
    let data ← compileExpr shapes data false
    let slot ← temporary sliceSize
    let addr ← slotAddress slot
    emit .store [addr, data]
    release data
    let n ← allocate
    loadCount n length
    storeDescriptor addr n
    release n
    release addr
    slotAddress slot

/-- The arguments of a call with their shapes. -/
def compileArguments (shapes : Shapes) : List Expr → List (Int × Bool) → List Argument
  | e :: rest, (size, integral) :: parts =>
    { size, integral, compile := compileExpr shapes e false } :: compileArguments shapes rest parts
  | _, _ => []

/-- Stores the fields of a struct value in the order written. -/
def compileFields (shapes : Shapes) (slot : Slot) (members : List (Member Ty)) :
    List (String × Expr) → Gen Unit
  | [] => return
  | (name, e) :: rest => do
    let (m, off) ← filledIn (← orFault (shapes.member members name))
    let v ← compileExpr shapes e false
    let addr ← slotAddress slot
    offset addr off
    storeValue shapes addr v m.type
    release addr
    release v
    compileFields shapes slot members rest

/-- Stores the elements of an array value from number `i` on. -/
def compileElements (shapes : Shapes) (slot : Slot) (element : Ty) (size i : Int) :
    List Expr → Gen Unit
  | [] => return
  | e :: rest => do
    let v ← compileExpr shapes e false
    let addr ← slotAddress slot
    offset addr (mulExtent i size)
    storeValue shapes addr v element
    release addr
    release v
    compileElements shapes slot element size (i + 1) rest

end

mutual

/-- The code of a statement. -/
def compileStmt (shapes : Shapes) : Stmt → Gen Unit
  | .expression e => do release (← compileExpr shapes e false)
  | .var st init => do
    declareLocal st (← orFault (shapes.size st.type))
    match init with
    | none =>
      let addr ← address st
      let zero ← allocate
      loadWord zero 0
      fill addr zero (← orFault (shapes.size st.type))
      release zero
      release addr
    | some e =>
      let v ← compileExpr shapes e false
      let addr ← address st
      storeValue shapes addr v st.type
      release addr
      release v
  | .assign target t value length => do
    let v ← compileExpr shapes value false
    let addr ← compileExpr shapes target true
    if length then
      let capacity ← allocate
      emit .mov [capacity, addr]
      offset capacity (sliceCapacity - sliceLength)
      emit .load [capacity, capacity]
      checkCapacity v capacity
      release capacity
    storeValue shapes addr v t
    release addr
    release v
  | .cond condition yes no => do
    let otherwise ← newLabel "else"
    let done ← newLabel "endif"
    let r ← compileExpr shapes condition false
    jumpIfZero r otherwise
    release r
    compileStmts shapes yes
    if !no.isEmpty then jump done
    placeLabel otherwise
    if !no.isEmpty then
      compileStmts shapes no
      placeLabel done
  | .whileLoop condition body => do
    let top ← newLabel "while"
    let done ← newLabel "endwhile"
    placeLabel top
    let r ← compileExpr shapes condition false
    jumpIfZero r done
    release r
    pushExit done
    compileStmts shapes body
    popExit
    jump top
    placeLabel done
  | .forLoop init condition step body => do
    let top ← newLabel "for"
    let done ← newLabel "endfor"
    compileOption shapes init
    placeLabel top
    match condition with
    | none => pure ()
    | some e =>
      let r ← compileExpr shapes e false
      jumpIfZero r done
      release r
    pushExit done
    compileStmts shapes body
    popExit
    compileOption shapes step
    jump top
    placeLabel done
  | .breakLoop => leaveLoop
  | .giveBack none => leave .result .void
  | .giveBack (some (e, t)) => do
    let result ← orFault (resultOf shapes t)
    let v ← compileExpr shapes e false
    leave v result
    release v
  | .block body => compileStmts shapes body
  | .delete value slice dealloc => do
    let callee ← address (← filledIn dealloc)
    let data : Gen Register := do
      let r ← compileExpr shapes value false
      if slice then emit .load [r, r]
      return r
    release (← call callee [wordArgument data] .void)

/-- The code of a statement that may be missing. -/
def compileOption (shapes : Shapes) : Option Stmt → Gen Unit
  | none => return
  | some s => statement (compileStmt shapes s)

/-- The code of some statements. -/
def compileStmts (shapes : Shapes) : List Stmt → Gen Unit
  | [] => return
  | s :: rest => do
    statement (compileStmt shapes s)
    compileStmts shapes rest

end

end Qll.Codegen
