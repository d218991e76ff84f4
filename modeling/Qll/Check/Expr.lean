import Qll.Check.Name
import Qll.Text.Composed

/-!
# Checking expressions

An expression is checked in a context, with a hint of the type that is expected; it becomes a
checked expression and its type. What fails to check has the error type.
-/

namespace Qll.Check

open Source (Location TypeExpr Expr BinaryOp BinaryRule UnaryOp)
open Qll.Types (Ty Member)
open Diagnostic (Code)

/-- A checked expression and its type. -/
abbrev Typed := Checked.Expr × Ty

/-- The first rule of an operator that takes two families. -/
def ruleFor? (op : BinaryOp) (left right : Option Source.Family) : Option BinaryRule :=
  op.rules.find? fun r =>
    (left.any (r.left.contains ·)) && (right.any (r.right.contains ·))

/-- Checks an operation on two checked operands. -/
def checkBinary (c : Context) (op : BinaryOp) (l r : Typed) (location : Option Location) :
    CheckM Typed := do
  let (left, lt) := l
  let (right, rt) := r
  let failed : Typed := (.binary op none left right none, .error)
  if ← onTypes (Types.isError lt) then return failed
  if ← onTypes (Types.isError rt) then return failed
  let lf ← familyOf lt
  let rf ← familyOf rt
  match ruleFor? op lf rf with
  | none =>
    let code : Code := if op = .logicalAnd ∨ op = .logicalOr then .notIntegral else .notNumeric
    reportError c.scope location code
      ("operator " ++ op.spelling ++ " is not defined for " ++ (← textOf lt) ++ " and " ++
        (← textOf rt))
    return failed
  | some rule =>
    if rule.sameType then
      if !(← onTypes (Types.isConvertible rt lt)) then
        if !(← onTypes (Types.isConvertible lt rt)) then
          reportError c.scope location .mismatch
            ("operands of " ++ op.spelling ++ " have different types " ++ (← textOf lt) ++
              " and " ++ (← textOf rt))
          return failed
    let element ← if rule.scaled then elementOf? lt else pure none
    return (.binary op (some rule) left right element, if rule.resultLeft then lt else .byte)

/-- Checks an operation on one checked operand. -/
def checkUnary (c : Context) (op : UnaryOp) (operand : Typed) (location : Option Location) :
    CheckM Typed := do
  let (e, t) := operand
  let failed : Typed := (.unary op e .error, .error)
  if ← onTypes (Types.isError t) then return failed
  let undefined (code : Code) : CheckM Typed := do
    reportError c.scope location code
      ("operator " ++ op.spelling ++ " is not defined for " ++ (← textOf t))
    return failed
  match op with
  | .addressOf =>
    if e.isAddressable then
      let p : Ty := .pointer t t.location?
      return (.unary op e p, p)
    reportError c.scope location .notAddressable
      ("cannot take the address of a value of type " ++ (← textOf t))
    return failed
  | .deref =>
    let element ← elementOf? t
    let family ← if element.isSome then familyOf t else pure none
    match element, family with
    | some element, some .pointer =>
      if ← checkValueType c element location "dereferenced value" then
        return (.unary op e element, element)
      return failed
    | _, _ =>
      reportError c.scope location .notPointer
        ("cannot dereference a value of type " ++ (← textOf t))
      return failed
  | .neg | .bitNot =>
    if (← familyOf t) = some .numeric then return (.unary op e .byte, .byte)
    undefined .notNumeric
  | .not =>
    if (← familyOf t).isSome then return (.unary op e .byte, .byte)
    undefined .notIntegral

/-- Checks an indexed value. -/
def checkIndexed (c : Context) (base position : Typed) (unchecked : Bool)
    (positionLocation location : Option Location) : CheckM Typed := do
  let (be, bt) := base
  let (pe, pt) := position
  let failed : Typed := (.index be pe unchecked (.array 0) .error, .error)
  if ← onTypes (Types.isError bt) then return failed
  if ← onTypes (Types.isError pt) then return failed
  if !(← onTypes (Types.isNumeric pt)) then
    reportError c.scope positionLocation .notNumeric
      ("index must be numeric, got " ++ (← textOf pt))
    return failed
  let found : Option (Ty × Checked.IndexKind) ← match ← onTypes (Types.resolve bt) with
    | .array element length _ =>
      pure (some (element, if length = Types.unsized then .pointer else .array length))
    | .pointer element _ => pure (some (element, .pointer))
    | .slice element _ => pure (some (element, .slice))
    | _ => pure none
  match found with
  | none =>
    reportError c.scope location .notIndexable
      ("cannot index a value of type " ++ (← textOf bt))
    return failed
  | some (element, kind) =>
    if ← checkValueType c element location "element" then
      return (.index be pe unchecked kind element, element)
    return (.index be pe unchecked kind .error, .error)

/-- Checks a member of a checked value. -/
def checkMember (c : Context) (base : Typed) (name : String) (location : Option Location) :
    CheckM Typed := do
  let (e, t) := base
  let failed : Typed := (.member e 0 .error false, .error)
  if ← onTypes (Types.isError t) then return failed
  match ← memberOf c t name location with
  | none => return failed
  | some m => return (.member e m.offset m.type m.length, m.type)

/-- Checks a member behind a checked pointer. -/
def checkArrow (c : Context) (base : Typed) (name : String) (location : Option Location) :
    CheckM Typed := do
  let (e, t) := base
  let failed : Typed := (.arrow e 0 .error false, .error)
  if ← onTypes (Types.isError t) then return failed
  match ← onTypes (Types.resolve t) with
  | .pointer element _ =>
    match ← memberOf c element name location with
    | none => return failed
    | some m => return (.arrow e m.offset m.type m.length, m.type)
  | _ =>
    reportError c.scope location .notPointer ("-> needs a pointer, got " ++ (← textOf t))
    return failed

/-- Checks a cast of a checked value. -/
def checkCast (c : Context) (target : Ty) (operand : Typed) (location : Option Location) :
    CheckM Typed := do
  let (e, t) := operand
  let failed : Typed := (.cast e, .error)
  if ← onTypes (Types.isError target) then return failed
  if ← onTypes (Types.isError t) then return failed
  if !(← checkValueType c target location "cast target") then return failed
  if ← onTypes (Types.isConvertible t target) then
    let (e, _) ← coerce e t target
    return (.cast e, target)
  if ← onTypes (Types.isIntegral t) then
    if ← onTypes (Types.isIntegral target) then return (.cast e, target)
  reportError c.scope location .invalidCast
    ("cannot cast " ++ (← textOf t) ++ " to " ++ (← textOf target))
  return failed

/-- Checks an allocation of checked parts; `counted` says whether a count is written. -/
def checkAllocation (c : Context) (target : Ty) (count : Option Checked.Expr)
    (location : Option Location) : CheckM Typed := do
  let failed : Typed := (.new none count, .error)
  if !(← checkValueType c target location "allocated value") then return failed
  match ← heapFunction c "alloc" allocSignature location with
  | none => return failed
  | some st =>
    let result : Ty :=
      if count.isSome then .slice target location else .pointer target target.location?
    return (.new (some (target, st)) count, result)

/-- Checked arguments with their places. -/
abbrev Placed := List (Typed × Location)

/-- Checks a name that is called. The arguments of a template without written arguments are checked
by `infer` along with it, and given as the last component. -/
def checkCalledName (instances : Instances) (c : Context) (name : String)
    (written : List TypeExpr) (location : Option Location) (given : Nat)
    (infer : List Ty → CheckM (Placed × Bool)) (hint : Option Ty) :
    CheckM (Checked.Expr × Ty × Option Placed) := do
  match ← c.lookup name location with
  | none => return (.name name none .error, .error, none)
  | some st =>
    match ← templateOf? st, written with
    | some (item, template), [] =>
      let (body, vars) ← onTypes (Types.freshBody template)
      match body with
      | .function params result _ =>
        let (placed, failed) ← infer params
        let (e, t) ← checkInferredName instances c name location item vars params result given
          failed hint
        return (e, t, some placed)
      | _ => throw .missing
    | _, _ =>
      let (e, t) ← checkFoundName instances c name written location st none
      return (e, t, none)

/-- Checks checked arguments against the types of the parameters. -/
def useArguments (c : Context) : Placed → List Ty → Nat → CheckM (List Checked.Expr)
  | ((e, t), location) :: rest, p :: params, i => do
    let (e, _) ← useAs c (some location) e t p ("argument " ++ Nat.repr i)
    return e :: (← useArguments c rest params (i + 1))
  | _, _, _ => return []

mutual

/-- Checks an expression. -/
def checkExpr (instances : Instances) (c : Context) : Expr → Option Ty → CheckM Typed
  | .integer value l, _ => do
    match Machine.Word.ofInt? value with
    | some w => return (.integer w, .byte)
    | none =>
      reportError c.scope (some l) .invalidLiteral
        ("integer literal " ++ Text.decimal value ++ ": " ++ Machine.Word.misfit value)
      return (.integer 0, .error)
  | .text value l, _ => do
    let text := Text.compose value
    return (.text text, .array .byte text.length (some l))
  | .null l, hint => do
    let fits ← match hint with
      | none => pure none
      | some t =>
        match ← onTypes (Types.resolve t) with
        | .pointer .. => pure (some t)
        | _ => pure none
    match fits with
    | some t => return (.null, t)
    | none =>
      let v ← onTypes (Types.newVar "null" (some l))
      return (.null, .pointer (.var v) (some l))
  | .struct target fields l, _ => do
    let t ← checkWritten c target
    match ← onTypes (Types.resolve t) with
    | .struct members _ =>
      let fields ← checkFields instances c t members [] fields
      return (.struct (some members) fields, t)
    | _ =>
      if !(← onTypes (Types.isError t)) then
        reportError c.scope (some l) .mismatch ((← textOf t) ++ " is not a struct type")
      let fields ← checkLooseFields instances c fields
      return (.struct none fields, .error)
  | .array elements l, hint => do
    let expected ← match hint with
      | none => pure none
      | some t =>
        match ← onTypes (Types.resolve t) with
        | .array e _ _ | .slice e _ => pure (some e)
        | _ => pure none
    let (checked, element) ← checkElements instances c expected 1 elements
    match element with
    | none =>
      reportError c.scope (some l) .cannotInfer
        "cannot infer the element type of an empty array literal"
      return (.array none checked, .error)
    | some e => return (.array (some e) checked, .array e elements.length (some l))
  | .name text arguments l, hint => checkName instances c text arguments (some l) hint
  | .call callee arguments l, hint => do
    let (ce, ct, checked) ← match callee with
      | .name text written place =>
        checkCalledName instances c text written (some place) arguments.length
          (fun params => checkInferring instances c text arguments params 1) hint
      | _ => do
        let (e, t) ← checkExpr instances c callee none
        pure (e, t, none)
    match ← onTypes (Types.resolve ct) with
    | .function params result _ =>
      if arguments.length ≠ params.length then
        reportError c.scope (some l) .argumentCount
          ("call takes " ++ Nat.repr params.length ++ " arguments, got " ++
            Nat.repr arguments.length)
        return (.call ce [] none, .error)
      let used ← match checked with
        | some typed => useArguments c typed params 1
        | none => checkArguments instances c arguments params 1
      return (.call ce used (some (params, result)), result)
    | _ =>
      if !(← onTypes (Types.isError ct)) then
        reportError c.scope (some l) .notCallable
          ("value of type " ++ (← textOf ct) ++ " is not callable")
      if checked.isNone then discard (checkLoose instances c arguments)
      return (.call ce [] none, .error)
  | .member base name l, _ => do
    checkMember c (← checkExpr instances c base none) name (some l)
  | .arrow base name l, _ => do
    checkArrow c (← checkExpr instances c base none) name (some l)
  | .index base position unchecked l, _ => do
    let b ← checkExpr instances c base none
    let p ← checkExpr instances c position (some .byte)
    checkIndexed c b p unchecked (some position.location) (some l)
  | .cast target operand l, _ => do
    let t ← checkWritten c target
    checkCast c t (← checkExpr instances c operand (some t)) (some l)
  | .sizeOf target l, _ => do
    let t ← checkWritten c target
    if ← checkValueType c t (some l) "sizeof operand" then
      return (.sizeOf (← onTypes (Types.size t)), .byte)
    return (.sizeOf 0, .error)
  | .new target none l, _ => do
    let t ← checkWritten c target
    checkAllocation c t none (some l)
  | .new target (some count) l, _ => do
    let t ← checkWritten c target
    let (n, nt) ← checkExpr instances c count (some .byte)
    if !(← onTypes (Types.isError nt)) then
      if !(← onTypes (Types.isNumeric nt)) then
        reportError c.scope (some count.location) .notNumeric
          ("element count must be numeric, got " ++ (← textOf nt))
        return (.new none (some n), .error)
    checkAllocation c t (some n) (some l)
  | .binary op left right l, _ => do
    let a ← checkExpr instances c left none
    let b ← checkExpr instances c right (some a.2)
    checkBinary c op a b (some l)
  | .unary op operand l, _ => do
    checkUnary c op (← checkExpr instances c operand none) (some l)

/-- Checks the arguments of a called template, which fixes its parameters; tells whether one of
them failed. -/
def checkInferring (instances : Instances) (c : Context) (name : String) :
    List Expr → List Ty → Nat → CheckM (Placed × Bool)
  | [], _, _ => return ([], false)
  | a :: rest, params, i => do
    let (e, t) ← checkExpr instances c a params.head?
    let failed ←
      if ← onTypes (Types.isError t) then pure true
      else
        match params.head? with
        | none => pure false
        | some p =>
          let fits ← checkConvertible c (some a.location) t p
            ("argument " ++ Nat.repr i ++ " of " ++ name)
          pure !fits
    let (typed, more) ← checkInferring instances c name rest params.tail (i + 1)
    return (((e, t), a.location) :: typed, failed || more)

/-- Checks the arguments of a call against the types of the parameters. -/
def checkArguments (instances : Instances) (c : Context) :
    List Expr → List Ty → Nat → CheckM (List Checked.Expr)
  | a :: rest, p :: params, i => do
    let (e, t) ← checkExpr instances c a (some p)
    let (e, _) ← useAs c (some a.location) e t p ("argument " ++ Nat.repr i)
    return e :: (← checkArguments instances c rest params (i + 1))
  | _, _, _ => return []

/-- Checks expressions of which nothing is expected. -/
def checkLoose (instances : Instances) (c : Context) : List Expr → CheckM (List Checked.Expr)
  | [] => return []
  | a :: rest => do
    let (e, _) ← checkExpr instances c a none
    return e :: (← checkLoose instances c rest)

/-- Checks fields of which nothing is expected. -/
def checkLooseFields (instances : Instances) (c : Context) :
    List (String × Expr × Location) → CheckM (List (String × Checked.Expr))
  | [] => return []
  | (name, a, _) :: rest => do
    let (e, _) ← checkExpr instances c a none
    return (name, e) :: (← checkLooseFields instances c rest)

/-- Checks the fields of a struct value; `seen` holds the names before them. -/
def checkFields (instances : Instances) (c : Context) (whole : Ty) (members : List (Member Ty))
    (seen : List String) :
    List (String × Expr × Location) → CheckM (List (String × Checked.Expr))
  | [] => return []
  | (name, a, l) :: rest => do
    match ← onTypes (Types.findMember members name) with
    | none =>
      reportError c.scope (some l) .noMember ((← textOf whole) ++ " has no member " ++ name)
      let (e, _) ← checkExpr instances c a none
      return (name, e) :: (← checkFields instances c whole members seen rest)
    | some (m, _) =>
      if seen.contains name then
        reportError c.scope (some l) .duplicate ("member " ++ name ++ " is initialized twice")
      let (e, t) ← checkExpr instances c a (some m.type)
      let fits ← checkConvertible c (some l) t m.type
        ("member " ++ name ++ " of " ++ (← textOf whole))
      let (e, _) ← if fits then coerce e t m.type else pure (e, t)
      return (name, e) :: (← checkFields instances c whole members (name :: seen) rest)

/-- Checks the elements of an array value from number `i` on. The first of them gives the element
type if none is expected. -/
def checkElements (instances : Instances) (c : Context) (element : Option Ty) (i : Nat) :
    List Expr → CheckM (List Checked.Expr × Option Ty)
  | [] => return ([], element)
  | a :: rest => do
    let (e, t) ← checkExpr instances c a element
    match element with
    | none =>
      let usable ← checkValueType c t (some a.location) "array element"
      let (more, element) ←
        checkElements instances c (some (if usable then t else .error)) (i + 1) rest
      return (e :: more, element)
    | some want =>
      let (e, _) ← useAs c (some a.location) e t want ("element " ++ Nat.repr i)
      let (more, element) ← checkElements instances c (some want) (i + 1) rest
      return (e :: more, element)

end

end Qll.Check
