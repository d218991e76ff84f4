import Qll.Source.Location

/-!
# Types

A type is a tree. Its leaves may be names, template applications, inference variables and
templates; these are entries of a store and stand in the tree by their index, so that resolving
a name once resolves it wherever the tree is shared.
-/

namespace Qll.Types

open Source (Location)

/-- The types that need no declaration. The error type stands for whatever failed to check; it
agrees with every type. -/
inductive Builtin
  | byte
  | void
  | error
  deriving DecidableEq, Inhabited

/-- The name of a builtin type. -/
def Builtin.name : Builtin → String
  | byte => "byte"
  | void => "void"
  | error => "error"

/-- The builtin type of a name. -/
def Builtin.ofName? (s : String) : Option Builtin :=
  if s = "byte" then some byte
  else if s = "void" then some void
  else if s = "error" then some error
  else none

/-- A named part with its type. -/
structure Member (α : Type) where
  name : String
  type : α
  location : Option Location
  deriving Inhabited

/-- The length that marks an array whose length is not part of its type. A value of such a type is
the address of the first element. -/
def unsized : Int := -1

/-- The number of words of a slice descriptor: address, length, capacity. -/
def sliceSize : Int := 3

/-- A type. Numbers are indices into the store. -/
inductive Ty
  | builtin (kind : Builtin) (location : Option Location)
  /-- The name of a declared type or of a template parameter. -/
  | name (id : Nat) (text : String) (location : Option Location)
  | pointer (element : Ty) (location : Option Location)
  /-- A descriptor of address, length and capacity. -/
  | slice (element : Ty) (location : Option Location)
  | array (element : Ty) (length : Int) (location : Option Location)
  | struct (members : List (Member Ty)) (location : Option Location)
  | function (arguments : List Ty) (result : Ty) (location : Option Location)
  /-- The template named by entry `head` applied to arguments. -/
  | apply (id head : Nat) (text : String) (arguments : List Ty) (location : Option Location)
  /-- The type of a member of a struct type. -/
  | dot (base : Ty) (member : String) (location : Option Location)
  | var (id : Nat)
  | template (id : Nat)
  deriving Inhabited

namespace Ty

/-- Words. -/
def byte : Ty := builtin .byte none

/-- No value. -/
def void : Ty := builtin .void none

/-- What failed to check. -/
def error : Ty := builtin .error none

/-- A pointer stands where its element type stands. -/
def location? : Ty → Option Location
  | builtin _ l | name _ _ l | pointer _ l | slice _ l | array _ _ l | struct _ l
  | function _ _ l | apply _ _ _ _ l | dot _ _ l => l
  | var _ | template _ => none

/-- Whether a type is a name or a template application. -/
def isNamed : Ty → Bool
  | name .. | apply .. => true
  | _ => false

end Ty

mutual

/-- Whether two trees are the same tree. Entries of the store are compared by their index. -/
def Ty.same : Ty → Ty → Bool
  | .builtin k l, .builtin k' l' => k == k' && l == l'
  | .name i _ _, .name i' _ _ => i == i'
  | .pointer e l, .pointer e' l' => e.same e' && l == l'
  | .slice e l, .slice e' l' => e.same e' && l == l'
  | .array e n l, .array e' n' l' => e.same e' && n == n' && l == l'
  | .struct ms l, .struct ms' l' => sameMembers ms ms' && l == l'
  | .function as r l, .function as' r' l' => sameList as as' && r.same r' && l == l'
  | .apply i _ _ _ _, .apply i' _ _ _ _ => i == i'
  | .dot b m l, .dot b' m' l' => b.same b' && m == m' && l == l'
  | .var i, .var i' => i == i'
  | .template i, .template i' => i == i'
  | _, _ => false

/-- `Ty.same` for lists. -/
def sameList : List Ty → List Ty → Bool
  | [], [] => true
  | t :: ts, t' :: ts' => t.same t' && sameList ts ts'
  | _, _ => false

/-- `Ty.same` for members. -/
def sameMembers : List (Member Ty) → List (Member Ty) → Bool
  | [], [] => true
  | ⟨n, t, l⟩ :: ms, ⟨n', t', l'⟩ :: ms' => n == n' && t.same t' && l == l' && sameMembers ms ms'
  | _, _ => false

end

end Qll.Types
