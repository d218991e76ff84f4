import Qll.Check.Kind
import Qll.Check.Written

/-!
# Rules for values

The rules that expressions and statements share: which types a value can have, when one value can
be used as another, what an operator accepts, and where members are found.
-/

namespace Qll.Check

open Source (Location Family)
open Qll.Types (Ty Member)
open Diagnostic (Code)

/-- Whether a value can have a type; if not, this is reported. Values have neither type void nor a
template as their type. -/
def checkValueType (c : Context) (t : Ty) (location : Option Location) (what : String) :
    CheckM Bool := do
  if ← onTypes (Types.isError t) then return false
  if ← onTypes (Types.isVoid t) then
    reportError c.scope location .voidValue (what ++ " cannot have type void")
    return false
  match ← onTypes (Types.resolve t) with
  | .template _ =>
    reportError c.scope location .templateTypeArity
      (what ++ ": template " ++ (← textOf t) ++ " used without arguments")
    return false
  | _ => return true

/-- Whether a value can be used where another type is wanted; if not, this is reported. -/
def checkConvertible (c : Context) (location : Option Location) (got want : Ty) (what : String) :
    CheckM Bool := do
  if ← onTypes (Types.isConvertible got want) then return true
  reportError c.scope location .mismatch
    (what ++ ": expected " ++ (← textOf want) ++ ", got " ++ (← textOf got))
  return false

/-- The value of type `source` as a value of type `target`: an array of fixed length, or a pointer
to one, becomes a slice descriptor; all else keeps its shape. -/
def coerce (e : Checked.Expr) (source target : Ty) : CheckM (Checked.Expr × Ty) := onTypes do
  match ← Types.resolve target with
  | .slice .. =>
    let shape ← Types.resolve source
    let shape ← match shape with
      | .pointer element _ => Types.resolve element
      | _ => pure shape
    match shape with
    | .array _ length _ =>
      return if length = Types.unsized then (e, source) else (.descriptor e length, target)
    | _ => return (e, source)
  | _ => return (e, source)

/-- Uses a value as another type; what does not fit is reported and stays as it is. -/
def useAs (c : Context) (location : Option Location) (e : Checked.Expr) (got want : Ty)
    (what : String) : CheckM (Checked.Expr × Ty) := do
  if ← checkConvertible c location got want what then coerce e got want else return (e, got)

/-- The family of a type, if it has one. Comparing with a byte gives an unbound type the type
byte. -/
def familyOf (t : Ty) : CheckM (Option Family) := onTypes do
  if ← Types.isError t then return none
  if ← Types.isVoid t then return none
  if ← Types.isNumeric t then return some .numeric
  match ← Types.resolve t with
  | .pointer .. => return some .pointer
  | .array _ length _ => return if length = Types.unsized then some .pointer else none
  | .function .. => return some .function
  | _ => return none

/-- The element type of a pointer or of an array without a length. -/
def elementOf? (t : Ty) : CheckM (Option Ty) := onTypes do
  match ← Types.resolve t with
  | .pointer element _ => return some element
  | .array element length _ => return if length = Types.unsized then some element else none
  | _ => return none

/-- What is known of a member. -/
structure MemberInfo where
  type : Ty
  offset : Int
  /-- Whether this is the length of a slice. -/
  length : Bool := false
  deriving Inhabited

/-- The words of a slice descriptor as members. -/
def sliceMember? (element : Ty) (name : String) : Option MemberInfo :=
  if name = "pointer" then
    some { type := .pointer element element.location?, offset := 0 }
  else if name = "length" then some { type := .byte, offset := 1, length := true }
  else if name = "capacity" then some { type := .byte, offset := 2 }
  else none

/-- Finds a member of a struct or of a slice descriptor; a missing one is reported. -/
def memberOf (c : Context) (t : Ty) (name : String) (location : Option Location) :
    CheckM (Option MemberInfo) := do
  let found ← match ← onTypes (Types.resolve t) with
    | .struct members _ =>
      match ← onTypes (Types.findMember members name) with
      | some (m, offset) => pure (some { type := m.type, offset })
      | none => pure none
    | .slice element _ => pure (sliceMember? element name)
    | .pointer .. =>
      reportError c.scope location .noMember
        ((← textOf t) ++ " is a pointer, use -> to reach member " ++ name)
      return none
    | _ => pure none
  if found.isNone then
    reportError c.scope location .noMember ((← textOf t) ++ " has no member " ++ name)
  return found

/-- The type of the function that allocates words. -/
def allocSignature : Ty := .function [.byte] (.pointer .byte none) none

/-- The type of the function that releases them. -/
def deallocSignature : Ty := .function [.pointer .byte none] .void none

/-- Finds a function of the global namespace by which memory is managed. -/
def heapFunction (c : Context) (name : String) (want : Ty) (location : Option Location) :
    CheckM (Option Storage) := do
  let qualified := "global::" ++ name
  match ← c.lookup qualified location with
  | none => return none
  | some st =>
    let fits ← if st.kind = .function then onTypes (Types.isConvertible st.type want)
      else pure false
    if fits then return some st
    reportError c.scope location .mismatch
      (qualified ++ " must be a function of type " ++ (← textOf want) ++ ", found " ++
        (← textOf st.type))
    return none

/-- Makes a written type a checked one. -/
def checkWritten (c : Context) (t : Source.TypeExpr) : CheckM Ty := do
  let t ← onTypes (internType t)
  checkType c.scope t
  return t

end Qll.Check
