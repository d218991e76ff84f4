import Qll.Machine.Word
import Qll.Types.Template

/-!
# Shapes and sizes

Resolving a type strips names, applications and member types until a shape is left. Sizes are
counted in machine words; members of a struct are laid out in the order of their declaration.
-/

namespace Qll.Types

open Machine (addExtent mulExtent)

mutual

/-- The shape of a type. -/
def resolveWithin : Nat → Ty → TypeM Ty
  | 0, _ => throw .endless
  | n + 1, t => do
    match t with
    | .name id text _ => resolveWithin n (← read (·.target id text))
    | .apply id head text arguments _ => resolveWithin n (← applied id head text arguments)
    | .dot base member _ => resolveWithin n (← memberTypeWithin n base member)
    | .var v =>
      match (← get).bound? v with
      | some u => resolveWithin n u
      | none => return t
    | _ => return t

/-- The type of a member of a struct type; the error type if there is none. -/
def memberTypeWithin : Nat → Ty → String → TypeM Ty
  | 0, _, _ => throw .endless
  | n + 1, base, name => do
    match ← resolveWithin n base with
    | .struct members _ =>
      match ← findMemberWithin n members name 0 with
      | some (m, _) => return m.type
      | none => return .error
    | _ => return .error

/-- A member and its offset, where the first of `members` stands at `offset`. -/
def findMemberWithin : Nat → List (Member Ty) → String → Int → TypeM (Option (Member Ty × Int))
  | 0, _, _, _ => throw .endless
  | n + 1, members, name, offset => do
    match members with
    | [] => return none
    | m :: rest =>
      if m.name = name then return some (m, offset)
      let size ← sizeWithin n m.type
      findMemberWithin n rest name (addExtent offset size)

/-- The size of a type in words. -/
def sizeWithin : Nat → Ty → TypeM Int
  | 0, _ => throw .endless
  | n + 1, t => do
    match t with
    | .builtin .. | .pointer .. | .function .. => return 1
    | .slice .. => return sliceSize
    | .array e length _ =>
      if length = unsized then return 1
      return mulExtent length (← sizeWithin n e)
    | .struct members _ =>
      members.foldlM (fun total m => return addExtent total (← sizeWithin n m.type)) 0
    | .name id text _ => sizeWithin n (← read (·.target id text))
    | .apply id head text arguments _ => sizeWithin n (← applied id head text arguments)
    | .dot base member _ => sizeWithin n (← memberTypeWithin n base member)
    | .var v =>
      match (← get).bound? v with
      | some u => sizeWithin n u
      | none => throw (.variableSize ((← get).varName v))
    | .template _ => throw (.templateSize (← read (·.text t)))

end

/-- The shape of a type: no name, application or member type stands at its head. -/
def resolve (t : Ty) : TypeM Ty := do resolveWithin (← limit) t

/-- The size of a type in words. -/
def size (t : Ty) : TypeM Int := do sizeWithin (← limit) t

/-- A member of a struct by its name, with its offset in words. -/
def findMember (members : List (Member Ty)) (name : String) : TypeM (Option (Member Ty × Int)) := do
  findMemberWithin (← limit) members name 0

/-- Whether a type is, or names, the error type. -/
def isError (t : Ty) : TypeM Bool := read (·.isError t)

/-- Whether a type resolves to no value at all. -/
def isVoid (t : Ty) : TypeM Bool := do
  match ← resolve t with
  | .builtin .void _ => return true
  | _ => return false

/-- Whether a value of a type fits a register and can be a condition. -/
def isIntegral (t : Ty) : TypeM Bool := do
  match ← resolve t with
  | .builtin .. | .pointer .. | .function .. => return true
  | .array _ length _ => return length == unsized
  | _ => return false

/-- Strips names, applications and member types from the head of a type, following variables. -/
def dealiasWithin : Nat → Ty → TypeM Ty
  | 0, _ => throw .endless
  | n + 1, t => do
    match ← read (·.normalize t) with
    | .name id text _ => dealiasWithin n (← read (·.target id text))
    | .apply id head text arguments _ => dealiasWithin n (← applied id head text arguments)
    | .dot base member _ => dealiasWithin n (← memberTypeWithin (← limit) base member)
    | u => return u

/-- Strips names, applications and member types from the head of a type, following variables. -/
def dealias (t : Ty) : TypeM Ty := do dealiasWithin (← limit) t

end Qll.Types
