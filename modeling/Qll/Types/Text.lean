import Qll.Types.Store

/-!
# Types as text

A type has two texts. The plain one shows names as they were written; the mangled one shows them
fully qualified, so that types with one mangled text are one type.
-/

namespace Qll.Types

namespace Store

/-- Follows bound variables, and names that stand for template parameters. -/
def normalizeWithin (s : Store) : Nat → Ty → Except Fault Ty
  | 0, _ => .error .endless
  | n + 1, t =>
    match t with
    | .var v =>
      match s.bound? v with
      | none => .ok t
      | some u => s.normalizeWithin n u
    | .name id _ _ =>
      match s.binding? id with
      | some { type := .var v, .. } => s.normalizeWithin n (.var v)
      | _ => .ok t
    | _ => .ok t

/-- Follows bound variables, and names that stand for template parameters. -/
def normalize (s : Store) (t : Ty) : Except Fault Ty := s.normalizeWithin s.limit t

/-- Whether a type is, or names, the error type. -/
def isErrorWithin (s : Store) : Nat → Ty → Except Fault Bool
  | 0, _ => .error .endless
  | n + 1, t => do
    match ← s.normalize t with
    | .builtin kind _ => return kind == .error
    | .name id text _ =>
      if (s.binding? id).isNone then return false
      s.isErrorWithin n (← s.target id text)
    | .apply id _ _ _ _ =>
      match s.applies[id]? with
      | some { cyclic := true, .. } => return true
      | some { result := some u, .. } => s.isErrorWithin n u
      | _ => return false
    | _ => return false

/-- Whether a type is, or names, the error type. -/
def isError (s : Store) (t : Ty) : Except Fault Bool := s.isErrorWithin s.limit t

/-- The number of an array length, or the mark of a missing one. -/
def lengthText (length : Int) : String :=
  if length = unsized then "?" else Text.decimal length

/-- The texts of a list of arguments between angle brackets. -/
def bracket (parts : List String) : String := "<" ++ Text.join ", " parts ++ ">"

/-- The mangled text of the name with index `id`, where `inner` renders a variable. -/
def nameText (s : Store) (mangled : Bool) (inner : Ty → Except Fault String) (id : Nat)
    (text : String) : Except Fault String :=
  if mangled then
    match s.binding? id with
    | none => .ok text
    | some { type := .var v, .. } => inner (.var v)
    | some b => .ok b.qualified
  else .ok text

/-- The text of a type, mangled or plain. -/
def renderWithin (s : Store) (mangled : Bool) : Nat → Ty → Except Fault String
  | 0, _ => .error .endless
  | n + 1, t => do
    let inner := s.renderWithin mangled n
    match t with
    | .builtin kind _ => return kind.name
    | .name id text _ => s.nameText mangled inner id text
    | .pointer e _ => return "*" ++ (← inner e)
    | .slice e _ => return "[" ++ (← inner e) ++ "]"
    | .array e length _ => return "[" ++ (← inner e) ++ "; " ++ lengthText length ++ "]"
    | .struct members _ =>
      let parts ← members.mapM fun m => return " " ++ m.name ++ ": " ++ (← inner m.type) ++ ";"
      return "struct \x7b" ++ String.join parts ++ " \x7d"
    | .function arguments result _ =>
      let parts ← arguments.mapM inner
      return "(" ++ Text.join ", " parts ++ ") => " ++ (← inner result)
    | .apply _ head text arguments _ =>
      let name ← s.nameText mangled inner head text
      let parts ← arguments.mapM inner
      return name ++ bracket parts
    | .dot base member _ => return (← inner base) ++ "." ++ member
    | .var v =>
      match s.bound? v with
      | some u => inner u
      | none =>
        if mangled then return s.varName v ++ "#" ++ Nat.repr (v + 1) else return s.varName v
    | .template id =>
      match s.templates[id]? with
      | none => throw .missing
      | some entry =>
        let parts ← entry.params.mapM fun v => inner (.var v)
        return bracket parts ++ (← inner entry.body)

/-- The text of a type as it was written. -/
def text (s : Store) (t : Ty) : Except Fault String := s.renderWithin false s.limit t

/-- The text of a type with qualified names. -/
def mangle (s : Store) (t : Ty) : Except Fault String := s.renderWithin true s.limit t

/-- The mangled text of the name with index `id`. -/
def mangleName (s : Store) (id : Nat) (text : String) : Except Fault String :=
  s.nameText true s.mangle id text

/-- The key under which an instance is kept. -/
def key (s : Store) (arguments : List Ty) : Except Fault String :=
  return bracket (← arguments.mapM s.mangle)

end Store

end Qll.Types
