import Qll.Types.Basic

/-!
# Storage

A named value in scope, and the class that says where it lives. Two storages are the same when they
carry one number.
-/

namespace Qll.Check

open Source (Location)

/-- Where a named value lives, and therefore how its address is found. A class without a name is
never given to a declaration. -/
inductive StorageClass
  | global
  | function
  | parameter
  | automatic
  | invalid
  deriving DecidableEq, Inhabited

namespace StorageClass

/-- The name of a class. -/
def name : StorageClass → String
  | global => "global"
  | function => "function"
  | parameter => "parameter"
  | automatic => "local"
  | invalid => "invalid"

/-- The class with a name; any other name is that of no valid class. -/
def ofName (s : String) : StorageClass :=
  ([global, function, parameter, automatic].find? (·.name == s)).getD invalid

/-- Whether storage of this class has an address at link time. -/
def isStatic : StorageClass → Bool
  | global | function => true
  | _ => false

end StorageClass

/-- A named value and where it lives. Values with static storage have a qualified name. -/
structure Storage where
  /-- Tells storages of one name apart. -/
  id : Nat
  name : String
  qualified : String := ""
  type : Types.Ty
  kind : StorageClass
  location : Option Location
  deriving Inhabited

end Qll.Check
