import Qll.Check.State

/-!
# Written types

A written type becomes a type of the store: each name and each template application in it gets an
entry of its own.
-/

namespace Qll.Check

open Source (TypeExpr Location)
open Qll.Types (Ty Member TypeM)

mutual

/-- The type that is written. -/
def internType : TypeExpr → TypeM Ty
  | .name text l => Types.newName text (some l)
  | .pointer e l => return .pointer (← internType e) (some l)
  | .slice e l => return .slice (← internType e) (some l)
  | .array e length l => return .array (← internType e) length (some l)
  | .struct members l => return .struct (← internMembers members) (some l)
  | .function arguments result l => do
    let arguments ← internTypes arguments
    return .function arguments (← internResult result) (some l)
  | .apply text arguments l => do
    let arguments ← internTypes arguments
    Types.newApply text arguments (some l)
  | .dot base member l => return .dot (← internType base) member (some l)

/-- The types that are written. -/
def internTypes : List TypeExpr → TypeM (List Ty)
  | [] => return []
  | t :: rest => return (← internType t) :: (← internTypes rest)

/-- The members that are written. -/
def internMembers : List (String × TypeExpr × Location) → TypeM (List (Member Ty))
  | [] => return []
  | (name, t, l) :: rest => do
    let type ← internType t
    return { name, type, location := some l } :: (← internMembers rest)

/-- The result type that is written; a function without one returns no value. -/
def internResult : Option TypeExpr → TypeM Ty
  | none => return .void
  | some t => internType t

end

end Qll.Check
