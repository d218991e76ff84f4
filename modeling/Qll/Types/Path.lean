/-!
# Paths through type definitions

While a definition is followed, a path records how each named type on it was reached: with nothing
in between, through a struct, through a pointer, or through both. A name met again through both is
a type of finite size; a name met again otherwise has infinite size.
-/

namespace Qll.Types

/-- How deep template applications may nest, both in types and in functions. -/
def maxExpansion : Nat := 10

/-- The names on a path by how they were reached, and the number of template expansions. -/
structure Path where
  direct : List String := []
  inStruct : List String := []
  behindPointer : List String := []
  passed : List String := []
  depth : Nat := 0
  deriving Inhabited

/-- What becomes of the use of a name on a path. -/
inductive Reference
  /-- The name was met through a struct and a pointer: nothing is left to check. -/
  | accepted
  /-- The type has infinite size. -/
  | infinite
  /-- The definition is to be checked along the longer path. -/
  | enter (next : Path)
  deriving Inhabited

namespace Path

/-- The name is being defined here. -/
def define (p : Path) (name : String) : Path := { p with direct := p.direct ++ [name] }

/-- The path behind a pointer or slice. -/
def pointer (p : Path) : Path :=
  { behindPointer := p.behindPointer ++ p.direct
    passed := p.passed ++ p.inStruct
    depth := p.depth }

/-- The path inside a struct. -/
def struct (p : Path) : Path :=
  { inStruct := p.inStruct ++ p.direct
    passed := p.passed ++ p.behindPointer
    depth := p.depth }

/-- The path in a function type, whose values are one word whatever it mentions. -/
def function (p : Path) : Path :=
  { passed := p.passed ++ p.direct ++ p.inStruct ++ p.behindPointer, depth := p.depth }

/-- The path inside one more template instance, unless there are too many. -/
def expand? (p : Path) : Option Path :=
  if maxExpansion ≤ p.depth then none else some { p with depth := p.depth + 1 }

/-- Whether a name is on the path without both a struct and a pointer before it. -/
def isOpen (p : Path) (name : String) : Bool :=
  p.direct.contains name || p.inStruct.contains name || p.behindPointer.contains name

/-- What becomes of the use of `name`. -/
def reference (p : Path) (name : String) : Reference :=
  if p.passed.contains name then .accepted
  else if p.isOpen name then .infinite
  else .enter (p.define name)

end Path

end Qll.Types
