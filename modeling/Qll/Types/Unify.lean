import Qll.Types.Layout

/-!
# Agreement of types

Two types agree nominally when they are the same up to the names that stand for one declaration.
A value of one type can be used as another when they agree after names are resolved, arrays of
fixed length being usable as slices. Recursive types are compared by assuming the pairs of names
already met. Unbound variables take the type they are compared with.
-/

namespace Qll.Types

/-- How types are compared. -/
inductive Agreement
  /-- Names are compared as names. -/
  | nominal
  /-- Names are resolved, and arrays become slices. -/
  | conversion
  deriving DecidableEq, Inhabited

/-- Comparisons remember the pairs of mangled names they assume to agree. -/
abbrev UnifyM := StateT (List (String × String)) TypeM

/-- The element type of a struct laid out like a slice descriptor. -/
def sliceShape? (members : List (Member Ty)) : TypeM (Option Ty) := do
  match members with
  | [address, length, capacity] =>
    if address.name ≠ "pointer" ∨ length.name ≠ "length" ∨ capacity.name ≠ "capacity" then
      return none
    match ← dealias address.type with
    | .pointer element _ =>
      match ← dealias length.type with
      | .builtin .byte _ =>
        match ← dealias capacity.type with
        | .builtin .byte _ => return some element
        | _ => return none
      | _ => return none
    | _ => return none
  | _ => return none

/-- The element types to compare where one side becomes a slice of the other. -/
def decayElements? (source target : Ty) : TypeM (Option (Ty × Ty)) := do
  match source, target with
  | .pointer e _, .slice wanted _ =>
    match ← dealias e with
    | .array element length _ =>
      return if length = unsized then none else some (element, wanted)
    | _ => return none
  | .array element length _, .slice wanted _ =>
    return if length = unsized then none else some (element, wanted)
  | .struct members _, .slice wanted _ =>
    return (← sliceShape? members).map fun element => (element, wanted)
  | .slice element _, .struct members _ =>
    return (← sliceShape? members).map fun wanted => (element, wanted)
  | _, _ => return none

/-- Strips a member type from the head of a type. -/
def stripDot (t : Ty) : TypeM Ty := do
  match t with
  | .dot .. => dealias t
  | _ => return t

/-- Whether all pairs of two lists of one length agree, from the left, up to the first that does
not. -/
def allAgree (agree : Ty → Ty → UnifyM Bool) : List Ty → List Ty → UnifyM Bool
  | [], [] => return true
  | a :: as, b :: bs => do
    if ← agree a b then allAgree agree as bs else return false
  | _, _ => return false

/-- Whether members agree in name and type, from the left. -/
def membersAgree (agree : Ty → Ty → UnifyM Bool) : List (Member Ty) → List (Member Ty) → UnifyM Bool
  | [], [] => return true
  | a :: as, b :: bs => do
    if a.name ≠ b.name then return false
    if ← agree a.type b.type then membersAgree agree as bs else return false
  | _, _ => return false

/-- Whether two types of the same form agree in their parts. Arguments of functions are compared in
the opposite direction. -/
def partsAgree (agree : Ty → Ty → UnifyM Bool) (a b : Ty) : UnifyM Bool := do
  match a, b with
  | .builtin kind _, .builtin kind' _ => return kind == kind'
  | .name id text _, .name id' text' _ =>
    return (← read (·.mangleName id text)) == (← read (·.mangleName id' text'))
  | .pointer e _, .pointer e' _ => agree e e'
  | .slice e _, .slice e' _ => agree e e'
  | .array e length _, .array e' length' _ =>
    if length ≠ length' then return false else agree e e'
  | .struct members _, .struct members' _ =>
    if members.length ≠ members'.length then return false else membersAgree agree members members'
  | .function arguments result _, .function arguments' result' _ =>
    if arguments.length ≠ arguments'.length then return false
    if ← allAgree agree arguments' arguments then agree result result' else return false
  | .apply _ head text arguments _, .apply _ head' text' arguments' _ =>
    if (← read (·.mangleName head text)) ≠ (← read (·.mangleName head' text')) then return false
    if arguments.length ≠ arguments'.length then return false
    allAgree agree arguments arguments'
  | .template id, .template id' => return id == id'
  | _, _ => return false

/-- Whether `a` agrees with `b`, or can be used as it. -/
def unifyWithin (mode : Agreement) : Nat → Ty → Ty → UnifyM Bool
  | 0, _, _ => throw .endless
  | n + 1, a, b => do
    let a ← read (·.normalize a)
    let b ← read (·.normalize b)
    if a.same b then return true
    if ← isError a then return true
    if ← isError b then return true
    match a, b with
    | .var v, _ =>
      bindVar v b
      return true
    | _, .var v =>
      bindVar v a
      return true
    | _, _ =>
      let a ← stripDot a
      let b ← stripDot b
      if mode = .nominal then
        partsAgree (unifyWithin mode n) a b
      else if a.isNamed || b.isNamed then
        let pair := (← read (·.mangle a), ← read (·.mangle b))
        if pair.1 = pair.2 then return true
        if (← get).contains pair then return true
        modify (pair :: ·)
        let a ← dealias a
        let b ← dealias b
        if ← isError a then return true
        if ← isError b then return true
        unifyWithin mode n a b
      else
        match ← decayElements? a b with
        | some (element, wanted) => unifyWithin mode n element wanted
        | none => partsAgree (unifyWithin mode n) a b

/-- Whether two types are equal without resolving names. -/
def isEqual (a b : Ty) : TypeM Bool := do
  return (← (unifyWithin .nominal (← limit) a b).run []).1

/-- Whether a value of type `source` can be used where `target` is expected. -/
def isConvertible (source target : Ty) : TypeM Bool := do
  return (← (unifyWithin .conversion (← limit) source target).run []).1

/-- Whether values of a type are words to calculate with. -/
def isNumeric (t : Ty) : TypeM Bool := isConvertible t .byte

end Qll.Types
