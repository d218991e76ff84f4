import Qll.Check.Kind

/-!
# Flat tables of names

A flat table has one namespace. A name may be contested, so that every search for it fails; of two
entries with one name the later counts.
-/

namespace Qll.Check

open Qll.Types (Ty Binding Builtin Scope)

/-- The names of one namespace. -/
structure Table where
  types : List (String × Binding) := []
  values : List (String × Storage) := []
  contested : List String := []
  /-- Whether the builtin types have names. -/
  builtins : Bool := false

namespace Table

/-- The scope of the one namespace. -/
def scope : Scope := { space := some 0 }

/-- What a search gives, unless the name is contested. -/
def settle {α : Type} (t : Table) (name : String) (found : Option α) : Except String (Option α) :=
  if t.contested.contains name then .error ("ambiguous " ++ name) else .ok found

/-- Finds a type. -/
def findType (t : Table) (name : String) : Option Binding :=
  match if t.builtins then Builtin.ofName? name else none with
  | some kind => some { qualified := name, type := .builtin kind none }
  | none => t.types.reverse.lookup name

/-- How the names of a table are found. -/
def directory (t : Table) : Directory where
  findType _ _ name := t.settle name (t.findType name)
  findValue _ _ name := t.settle name (t.values.reverse.lookup name)

/-- Resolves the names in the definitions of the types of a table, then checks each definition for
a finite size. -/
def checkTypes (t : Table) : CheckM Unit := do
  t.types.forM fun (_, b) => bindNames (b.scope.getD scope) b.type
  t.types.forM fun (_, b) =>
    kindcheck (b.scope.getD scope) (Types.Path.define {} b.qualified) b.type

end Table

end Qll.Check
