import Qll.Release.Version

/-!
# Version constraints

A requirement is a choice, with `||` between its alternatives; each alternative is a list of
constraints that all have to hold, with blanks or commas between them. A constraint is a relation
and a version in which numbers may be left open, as in `>= 0.4`, `~1.2` or `1.x`. A pair of versions
with a dash between them is a range.
-/

namespace Qll.Release

/-- How a version is compared with the one of a constraint. -/
inductive Relation
  | same
  | different
  | above
  | below
  | atLeast
  | atMost
  /-- The last given number may grow, but not the one before it. -/
  | close
  /-- The first number that is not zero stays. -/
  | compatible
  deriving DecidableEq, Inhabited

/-- The first number of a version that is left open. -/
inductive Gap
  | complete
  | major
  | minor
  | patch
  deriving DecidableEq, Inhabited

/-- A constraint; numbers left open are zero in its version. -/
structure Constraint where
  relation : Relation
  bound : Version
  gap : Gap
  deriving DecidableEq, Inhabited

/-- Alternatives of constraints that hold together. -/
abbrev Requirement := List (List Constraint)

/-! ## When a constraint holds -/

/-- Within the last given number. Zero for all three numbers admits everything. -/
def holdsClose (v bound : Version) (gap : Gap) : Bool :=
  v.compare bound != .lt &&
    ((bound.major == 0 && bound.minor == 0 && bound.patch == 0 && gap != .minor && gap != .patch) ||
      (v.major == bound.major && (v.minor == bound.minor || gap == .minor)))

/-- Different in the given numbers. With the last number open a pre-release can still differ. -/
def holdsDifferent (v bound : Version) (gap : Gap) : Bool :=
  match gap with
  | .complete => v.compare bound != .eq
  | .minor => v.major != bound.major
  | .patch =>
    v.major != bound.major || v.minor != bound.minor ||
      ((v.pre != "" || bound.pre != "") &&
        comparePartLists (Text.splitOn '.' v.pre) (Text.splitOn '.' bound.pre) != .eq)
  | .major =>
    v.major != bound.major || v.minor != bound.minor || v.patch != bound.patch ||
      v.compare bound != .eq

/-- Above all versions that agree with the given numbers. -/
def holdsAbove (v bound : Version) (gap : Gap) : Bool :=
  match gap with
  | .complete => v.compare bound == .gt
  | .minor => bound.major < v.major
  | .patch => bound.major < v.major || (v.major == bound.major && bound.minor < v.minor)
  | .major => bound.major < v.major || (v.major == bound.major && v.compare bound == .gt)

/-- At most the versions that agree with the given numbers. -/
def holdsAtMost (v bound : Version) (gap : Gap) : Bool :=
  match gap with
  | .complete => v.compare bound != .gt
  | .minor => v.major ≤ bound.major
  | _ => v.major < bound.major || (v.major == bound.major && v.minor ≤ bound.minor)

/-- At least the bound, with the same first number that is not zero. -/
def holdsCompatible (v bound : Version) (gap : Gap) : Bool :=
  v.compare bound != .lt &&
    if 0 < bound.major || gap == .minor then v.major == bound.major
    else v.major == 0 &&
      if 0 < bound.minor || gap == .patch then v.minor == bound.minor
      else v.minor == 0 && v.patch == bound.patch

/-- Whether a version meets a constraint. A pre-release meets only constraints that name one. -/
def Constraint.admits (c : Constraint) (v : Version) : Bool :=
  (v.pre == "" || c.bound.pre != "") &&
    match c.relation with
    | .same => if c.gap = .complete then v.compare c.bound == .eq else holdsClose v c.bound c.gap
    | .different => holdsDifferent v c.bound c.gap
    | .above => holdsAbove v c.bound c.gap
    | .below => v.compare c.bound == .lt
    | .atLeast => v.compare c.bound != .lt
    | .atMost => holdsAtMost v c.bound c.gap
    | .close => holdsClose v c.bound c.gap
    | .compatible => holdsCompatible v c.bound c.gap

/-- Whether a version meets all constraints of some alternative. -/
def Requirement.admits (r : Requirement) (v : Version) : Bool :=
  r.any fun cs => cs.all (·.admits v)

/-! ## Reading a requirement

A reader gives all ways to read an initial part of the text, the preferred one first. -/

/-- All ways to read something from the front of a text, each with what is left. -/
abbrev Ways (α : Type) := List Char → List (α × List Char)

/-- One or more characters of a class, as many as possible first. -/
def run1 (p : Char → Bool) : Ways (List Char) := fun cs =>
  let n := (cs.takeWhile p).length
  (List.range n).map fun i => (cs.take (n - i), cs.drop (n - i))

/-- Something or, second choice, nothing. -/
def optional {α : Type} (w : Ways α) : Ways (Option α) := fun cs =>
  (w cs).map (fun (a, rest) => (some a, rest)) ++ [(none, cs)]

/-- A character, and then something. -/
def after {α : Type} (c : Char) (w : Ways α) : Ways α
  | d :: rest => if d = c then w rest else []
  | [] => []

/-- Blanks, as many as possible. -/
def isBlank (c : Char) : Bool :=
  c == ' ' || c == '\t' || c == '\n' || c == '\r' || c.toNat == 12

/-- Drops blanks. -/
def skip (cs : List Char) : List Char := cs.dropWhile isBlank

/-- The characters of a number that may be left open. -/
def isOpenChar (c : Char) : Bool := c.isDigit || c == '|' || c == 'x' || c == 'X' || c == '*'

/-- A version with its open numbers as they are written. -/
structure Pattern where
  major : List Char
  minor : Option (List Char)
  patch : Option (List Char)
  pre : Option (List Char)
  build : Option (List Char)
  deriving Inhabited

/-- A mark of parts with dots between them. A mark that ends in a dot is shorter by it. -/
def marks : Ways (List Char) := fun cs =>
  (run1 (fun c => isMarkChar c || c == '.') cs).filter fun (m, _) => isMark m

/-- A version pattern at the front of a text. -/
def patterns : Ways Pattern := fun cs =>
  let fronts := match cs with
    | 'v' :: rest => rest
    | cs => cs
  (run1 isOpenChar fronts).flatMap fun (major, cs) =>
  (optional (after '.' (run1 isOpenChar)) cs).flatMap fun (minor, cs) =>
  (optional (after '.' (run1 isOpenChar)) cs).flatMap fun (patch, cs) =>
  (optional (after '-' marks) cs).flatMap fun (pre, cs) =>
  (optional (after '+' marks) cs).map fun (build, cs) =>
  ({ major, minor, patch, pre, build }, cs)

/-- The signs of the relations, in the order in which they are tried. -/
def signs : List (List Char × Relation) :=
  [(['='], .same), ([], .same), (['!', '='], .different), (['>'], .above), (['<'], .below),
    (['>', '='], .atLeast), (['=', '>'], .atLeast), (['<', '='], .atMost), (['=', '<'], .atMost),
    (['~'], .close), (['~', '>'], .close), (['^'], .compatible)]

/-- A sign and a pattern at the front of a text. -/
def signed : Ways (Relation × Pattern) := fun cs =>
  signs.flatMap fun (sign, relation) =>
    if sign.isPrefixOf cs then
      (patterns (skip (cs.drop sign.length))).map fun (p, rest) => ((relation, p), rest)
    else []

/-- Whether a number is left open by a sign of its own. -/
def isOpen (digits : List Char) : Bool := digits == ['x'] || digits == ['X'] || digits == ['*']

/-- A number of a pattern, unless it is missing or open. -/
def given (part : Option (List Char)) : Option (List Char) := part.filter (!isOpen ·)

/-- The constraint of a sign and a pattern. The numbers behind an open one do not count, nor does
the build mark then. -/
def constraintOf? (relation : Relation) (p : Pattern) : Option Constraint := do
  let pre := p.pre.getD []
  guard (p.pre.all isPreRelease)
  let bound : Version := { major := 0, pre := String.ofList pre }
  match given (some p.major) with
  | none => return { relation, bound, gap := .major }
  | some a =>
    let bound := { bound with major := ← segment? a }
    match given p.minor with
    | none => return { relation, bound, gap := .minor }
    | some b =>
      let bound := { bound with minor := ← segment? b }
      match given p.patch with
      | none => return { relation, bound, gap := .patch }
      | some c =>
        return { relation, gap := .complete,
                 bound := { bound with patch := ← segment? c,
                                       build := String.ofList (p.build.getD []) } }

/-- The texts left after one more constraint. -/
def endsAfter (cs : List Char) : List (List Char) := (signed (skip cs)).map (·.2)

/-- Whether the text consists of more constraints, each after a blank or a comma. -/
def continues : Nat → List Char → Bool
  | 0, cs => (skip cs).isEmpty
  | n + 1, cs =>
    (skip cs).isEmpty ||
      match cs with
      | [] => true
      | c :: rest =>
        let next := match skip (c :: rest) with
          | ',' :: rest => some rest
          | rest => if isBlank c then some rest else none
        match next with
        | none => false
        | some next => (endsAfter next).any (continues n)

/-- Whether a text is a list of constraints. -/
def isConstraintList (cs : List Char) : Bool := (endsAfter cs).any (continues cs.length)

/-- The constraints found in a text, from left to right; `none` if one of them is malformed. -/
def constraints? : Nat → List Char → Option (List Constraint)
  | 0, _ => some []
  | _ + 1, [] => some []
  | n + 1, c :: cs =>
    match signed (c :: cs) with
    | [] => constraints? n cs
    | ((relation, p), rest) :: _ => do
      let first ← constraintOf? relation p
      return first :: (← constraints? n rest)

/-- A range at the front of a text: the two versions as they are written, and what is left. -/
def range? (cs : List Char) : Option (List Char × List Char × List Char) :=
  let found := (patterns (skip cs)).findSome? fun (_, rest) =>
    match rest, skip rest with
    | c :: _, '-' :: d :: second =>
      if isBlank c && isBlank d then
        (patterns (skip second)).head?.map fun (_, left) => (rest, skip second, left)
      else none
    | _, _ => none
  found.map fun (rest, second, left) =>
    let first := skip cs
    (first.take (first.length - rest.length), second.take (second.length - left.length), skip left)

/-- Writes each range as two constraints. -/
def expandRanges : Nat → List Char → List Char
  | 0, cs => cs
  | _ + 1, [] => []
  | n + 1, c :: cs =>
    match range? (c :: cs) with
    | none => c :: expandRanges n cs
    | some (first, second, rest) =>
      ['>', '=', ' '] ++ first ++ [',', ' ', '<', '=', ' '] ++ second ++ [' '] ++
        expandRanges n rest

/-- The parts of a text between the occurrences of `||`. -/
def alternatives : List Char → List (List Char)
  | [] => [[]]
  | '|' :: '|' :: rest => [] :: alternatives rest
  | c :: rest =>
    match alternatives rest with
    | [] => [[c]]
    | part :: parts => (c :: part) :: parts

/-- Reads a requirement. -/
def Requirement.parse? (s : String) : Option Requirement :=
  let cs := s.toList
  (alternatives (expandRanges (cs.length + 1) cs)).mapM fun part =>
    if isConstraintList part then constraints? (part.length + 1) part else none

end Qll.Release
