import Qll.Check.State

/-!
# Names across namespaces

A qualified name is a path of namespaces and a last part. It is searched from the namespace of its
use outwards; each namespace offers its own declarations first and then those of its imports. Two
imports that offer different declarations make the name ambiguous.
-/

namespace Qll.Program

open Check (State Space Storage Directory)
open Qll.Types (Binding)

/-- The name of the outermost namespace. -/
def rootName : String := "global"

/-- What stands between the parts of a qualified name. -/
def separator : String := "::"

/-- Cuts a qualified name at its separators, but not inside the argument list of a template.
`depth` counts the open lists, `previous` is the character before, and `part` holds, in reverse,
the part being read. The arrow of a function type closes no list. -/
def splitFrom (depth : Nat) (previous : Char) (part : List Char) : List Char → List String
  | [] => [String.ofList part.reverse]
  | ':' :: ':' :: rest =>
    if depth = 0 then String.ofList part.reverse :: splitFrom 0 ':' [] rest
    else splitFrom depth ':' (':' :: ':' :: part) rest
  | c :: rest =>
    let depth :=
      if c = '<' then depth + 1
      else if c = '>' ∧ previous ≠ '=' then depth - 1
      else depth
    splitFrom depth c (c :: part) rest

/-- The parts of a qualified name. -/
def splitQualified (name : String) : List String := splitFrom 0 ' ' [] name.toList

/-- Follows a path of nested namespaces. -/
def walk (s : State) (space : Nat) : List String → Option Nat
  | [] => some space
  | name :: rest =>
    match (s.spaces[space]?).bind fun n => n.children.lookup name with
    | none => none
    | some child => walk s child rest

/-- The parts of a name as seen from a namespace: in the outermost one its own name may stand in
front. -/
def relativeParts (space : Space) (parts : List String) : List String :=
  match parts with
  | first :: second :: rest =>
    if space.parent.isNone ∧ first = rootName then second :: rest else parts
  | _ => parts

/-- The namespace in which the last part of a name is to be found, from a namespace on. -/
def direct (s : State) (space : Nat) (parts : List String) : Option (Nat × String) := do
  let entry ← s.spaces[space]?
  let parts := relativeParts entry parts
  let home ← walk s space parts.dropLast
  return (home, parts.getLastD "")

/-- Finds a declaration with a table, and the namespace that holds it. -/
def findDirect {α : Type} (table : Space → List (String × α)) (s : State) (space : Nat)
    (parts : List String) : Option (Nat × α) := do
  let (home, leaf) ← direct s space parts
  let entry ← s.spaces[home]?
  let found ← (table entry).lookup leaf
  return (home, found)

/-- What the imports of a namespace offer under a name: for each import that offers something other
than the one before, the imported namespace, the namespace that holds the declaration, and the
declaration. -/
def offers {α : Type} (table : Space → List (String × α)) (s : State) (parts : List String) :
    List Nat → List (Nat × Nat × α) → List (Nat × Nat × α)
  | [], found => found.reverse
  | i :: rest, found =>
    match (s.imports[i]?).bind (·.target) with
    | none => offers table s parts rest found
    | some target =>
      match findDirect table s target parts with
      | none => offers table s parts rest found
      | some (home, a) =>
        if (found.head?).any (·.2.1 == home) then offers table s parts rest found
        else offers table s parts rest ((target, home, a) :: found)

/-- The qualified name of a namespace. -/
def qualifiedName (s : State) (space : Nat) : String :=
  ((s.spaces[space]?).map (·.qualified)).getD ""

/-- Finds a declaration from a namespace outwards, through at most `n` namespaces. -/
def findOutwards {α : Type} (table : Space → List (String × α)) (s : State) (name : String) :
    Nat → Option Nat → Except String (Option α)
  | 0, _ | _, none => .ok none
  | n + 1, some space =>
    let parts := splitQualified name
    match findDirect table s space parts, s.spaces[space]? with
    | some (_, a), _ => .ok (some a)
    | none, none => .ok none
    | none, some entry =>
      match offers table s parts entry.imports [] with
      | [] => findOutwards table s name n entry.parent
      | [(_, _, a)] => .ok (some a)
      | (first, _) :: (second, _) :: _ =>
        .error (name ++ " is ambiguous: found in " ++ qualifiedName s first ++ " and " ++
          qualifiedName s second)

/-- Finds a type; builtin types are found when nothing declared matches. -/
def findType (s : State) (space : Nat) (name : String) : Except String (Option Binding) := do
  match ← findOutwards (·.types) s name (s.spaces.size + 1) (some space) with
  | some b => return some b
  | none =>
    return (Types.Builtin.ofName? name).map fun kind =>
      { qualified := name, type := .builtin kind none }

/-- Finds a global or function. -/
def findValue (s : State) (space : Nat) (name : String) : Except String (Option Storage) :=
  findOutwards (·.values) s name (s.spaces.size + 1) (some space)

/-- Finds a namespace from another one outwards, through at most `n` namespaces; imports are not
followed. -/
def findSpaceOutwards (s : State) (parts : List String) : Nat → Option Nat → Option Nat
  | 0, _ | _, none => none
  | n + 1, some space =>
    match direct s space (parts ++ [""]), s.spaces[space]? with
    | some (home, _), _ => some home
    | none, some entry => findSpaceOutwards s parts n entry.parent
    | none, none => none

/-- Finds a namespace. -/
def findSpace (s : State) (space : Nat) (name : String) : Option Nat :=
  findSpaceOutwards s (splitQualified name) (s.spaces.size + 1) (some space)

/-- How the names of a program are found. -/
def directory : Directory := { findType, findValue }

end Qll.Program
