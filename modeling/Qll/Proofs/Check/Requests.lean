import Qll.Proofs.Check.Watching

/-!
# Requests of bodies

What is watched at the requests for instances is watched in all expressions and statements. A body is
checked in one context, and all its requests are made from there. The proof follows the recursion of
the checker.
-/

namespace Qll.Check.Watch

open Source (Location TypeExpr Expr Stmt BinaryOp UnaryOp)
open Qll.Types (Ty Member)

variable {W : Watch} {d : Directory} {c : Context} {location : Option Location}

/-! ## Operations -/

/-- Checking a binary operator makes no requests. -/
theorem steady_checkBinary (op : BinaryOp) (l r : Typed) : W.Steady d (checkBinary c op l r location) := by
  refine .bind (.types _) fun _ => .ite (.pure _) (.bind (.types _) fun _ => .ite (.pure _) ?_)
  refine .bind (.types _) fun lf => .bind (.types _) fun rf => ?_
  cases ruleFor? op lf rf with
  | none => exact .bind (steady_textOf _) fun _ => steady_telling (.pure _)
  | some rule =>
    have helement : W.Steady d (if rule.scaled then do
        let element ← elementOf? l.2
        pure ((.binary op (some rule) l.1 r.1 element : Checked.Expr),
          if rule.resultLeft then l.2 else .byte)
      else do
        let element ← pure none
        pure ((.binary op (some rule) l.1 r.1 element : Checked.Expr),
          if rule.resultLeft then l.2 else .byte)) :=
      .ite (.bind (.types _) fun _ => .pure _) (.bind (.pure _) fun _ => .pure _)
    refine .ite (.bind (.types _) fun _ => .ite ?_ helement) helement
    refine .bind (.types _) fun _ => .ite ?_ helement
    exact .bind (steady_textOf _) fun _ => steady_telling (.pure _)

/-- Checking a unary operator makes no requests. -/
theorem steady_checkUnary (op : UnaryOp) (operand : Typed) : W.Steady d (checkUnary c op operand location) := by
  refine .bind (.types _) fun _ => .ite (.pure _) ?_
  cases op with
  | addressOf => exact .ite (.pure _) (steady_telling (.pure _))
  | deref =>
    refine .bind (.types _) fun element => .ite (.bind (.types _) fun family => ?_) (.bind (.pure _) fun family => ?_)
    all_goals
      dsimp only
      split
      · exact .bind (steady_checkValueType _ _) fun _ => .ite (.pure _) (.pure _)
      · exact steady_telling (.pure _)
  | neg | bitNot | not => exact .bind (.types _) fun _ => .ite (.pure _) (steady_telling (.pure _))

/-- Checking an index makes no requests. -/
theorem steady_checkIndexed (base position : Typed) (unchecked : Bool) (place : Option Location) :
    W.Steady d (checkIndexed c base position unchecked place location) := by
  refine .bind (.types _) fun _ => .ite (.pure _) (.bind (.types _) fun _ => .ite (.pure _) ?_)
  refine .bind (.types _) fun _ => .ite (steady_telling (.pure _)) (.bind (.types _) fun shape => ?_)
  cases shape
  all_goals
    refine .bind (.pure _) fun found => ?_
    cases found with
    | none => exact steady_telling (.pure _)
    | some found => exact .bind (steady_checkValueType _ _) fun _ => .ite (.pure _) (.pure _)

/-- Checking a member of a struct makes no requests. -/
theorem steady_checkMember (base : Typed) (name : String) :
    W.Steady d (checkMember c base name location) := by
  refine .bind (.types _) fun _ => .ite (.pure _) (.bind (steady_memberOf _ _) fun found => ?_)
  cases found with
  | none => exact .pure _
  | some => exact .pure _

/-- Checking a member behind a pointer makes no requests. -/
theorem steady_checkArrow (base : Typed) (name : String) : W.Steady d (checkArrow c base name location) := by
  refine .bind (.types _) fun _ => .ite (.pure _) (.bind (.types _) fun shape => ?_)
  cases shape with
  | pointer =>
    refine .bind (steady_memberOf _ _) fun found => ?_
    cases found with
    | none => exact .pure _
    | some => exact .pure _
  | _ => exact steady_telling (.pure _)

/-- Checking a conversion makes no requests. -/
theorem steady_checkCast (target : Ty) (operand : Typed) :
    W.Steady d (checkCast c target operand location) := by
  have hlast : W.Steady d (do
      reportError c.scope location .invalidCast
        ("cannot cast " ++ (← textOf operand.2) ++ " to " ++ (← textOf target))
      return ((.cast operand.1 : Checked.Expr), (.error : Ty))) :=
    .bind (steady_textOf _) fun _ => steady_telling (.pure _)
  refine .bind (.types _) fun _ => .ite (.pure _) (.bind (.types _) fun _ => .ite (.pure _) ?_)
  refine .bind (steady_checkValueType _ _) fun _ => .ite (.pure _) (.bind (.types _) fun _ => .ite ?_ ?_)
  · exact .bind (.types _) fun _ => .pure _
  · refine .bind (.types _) fun _ => .ite ?_ hlast
    exact .bind (.types _) fun _ => .ite (.pure _) hlast

/-- Checking an allocation makes no requests. -/
theorem steady_checkAllocation (target : Ty) (count : Option Checked.Expr) :
    W.Steady d (checkAllocation c target count location) := by
  refine .bind (steady_checkValueType _ _) fun _ => .ite (.pure _) ?_
  refine .bind (steady_heapFunction _ _) fun found => ?_
  cases found with
  | none => exact .pure _
  | some => exact .pure _

/-- Using checked arguments makes no requests. -/
theorem steady_useArguments : ∀ (placed : Placed) (params : List Ty) (k : Nat),
    W.Steady d (useArguments c placed params k)
  | _ :: rest, _ :: params, k =>
    .bind (steady_useAs _ _ _ _) fun _ => .bind (steady_useArguments rest params (k + 1)) fun _ => .pure _
  | [], _, _ | _ :: _, [], _ => .pure _

/-- Checking an initial value makes no requests. -/
theorem steady_checkInit (name : String) (l : Location) (type : Option Ty) (init : Typed) (place : Location) :
    W.Steady d (checkInit c name l type init place) := by
  cases type with
  | none => exact .bind (steady_checkValueType _ _) fun _ => .pure _
  | some t =>
    refine .bind (.types _) fun _ => .ite (.pure _) (.bind (.types _) fun _ => .ite (.pure _) ?_)
    exact .bind (steady_useAs _ _ _ _) fun _ => .pure _

/-- Checking the type of a variable makes no requests. -/
theorem steady_checkVarType (name : String) (l : Location) (type : Option TypeExpr) :
    W.Steady d (checkVarType c name l type) := by
  cases type with
  | none => exact .pure _
  | some t => exact .bind (steady_checkWritten t) fun _ => .bind (steady_checkValueType _ _) fun _ => .pure _

/-! ## Names -/

/-- Looking for the template of a function makes no requests. -/
theorem steady_templateOf (st : Storage) : W.Steady d (templateOf? st) := by
  unfold templateOf?
  split
  · exact .get fun _ => .pure _
  · exact .pure _

/-- Inferring type arguments from what is expected makes no requests. -/
theorem steady_inferFromHint (template : Nat) (hint : Ty) : W.Steady d (inferFromHint? template hint) := by
  refine .bind (.types _) fun _ => .bind (.types _) fun _ => .ite ?_ (.pure _)
  exact .get fun _ => .pure _

/-- Checking type arguments makes no requests. -/
theorem steady_checkTypeArguments : ∀ arguments : List TypeExpr,
    W.Steady d (checkTypeArguments c arguments)
  | [] => .pure _
  | a :: rest => .bind (steady_checkWritten a) fun _ => .bind (steady_checkValueType _ _) fun _ =>
      .bind (steady_checkTypeArguments rest) fun _ => .pure _

/-- Taking over inferred type arguments makes no requests. -/
theorem steady_inferredArguments (name : String) : ∀ vars : List Nat,
    W.Steady d (inferredArguments c name location vars)
  | [] => .pure _
  | v :: rest => by
    refine .get fun s => ?_
    dsimp only
    split
    · exact .bind steady_error fun _ => .pure _
    · exact .bind (steady_inferredArguments name rest) fun _ => .pure _

section Walk

set_option linter.unusedSectionVars false

variable {x y : Instances} (h : ∀ item arguments l, W.Tracks d (x c item arguments l) (y c item arguments l))
include h

/-- Using an instance comes to the same with either source of instances. -/
theorem tracks_useInstance (name : String) (item : Nat) (arguments : List Ty) :
    W.Tracks d (useInstance x c name location item arguments) (useInstance y c name location item arguments) := by
  refine .bind (.anyM fun a _ => .types _) fun _ => .ite (.pure _) (.bind (h item arguments location) fun r => ?_)
  cases r with
  | none => exact .pure _
  | some st => exact .bind (steady_refer _) fun _ => .pure _

/-- A name with type arguments comes to the same with either source of instances. -/
theorem tracks_checkAppliedName (name : String) (arguments : List TypeExpr) (st : Storage) :
    W.Tracks d (checkAppliedName x c name arguments location st)
      (checkAppliedName y c name arguments location st) := by
  refine .bind (steady_templateOf st) fun found => ?_
  cases found with
  | none => exact .bind steady_error fun _ => .pure _
  | some =>
    refine .bind (steady_checkTypeArguments arguments) fun types => .bind (.types _) fun _ => ?_
    exact .ite (.bind steady_error fun _ => .pure _) (tracks_useInstance h _ _ _)

/-- A name without type arguments comes to the same with either source of instances. -/
theorem tracks_checkBareName (name : String) (st : Storage) (hint : Option Ty) :
    W.Tracks d (checkBareName x c name location st hint) (checkBareName y c name location st hint) := by
  refine .bind (steady_templateOf st) fun found => ?_
  cases found with
  | none =>
    dsimp only
    split
    · exact .get fun _ => .ite (.bind steady_error fun _ => .pure _) (.pure _)
    · exact .pure _
  | some found =>
    cases hint
    case' none => refine .bind (.pure _) fun inferred => ?_
    case' some => refine .bind (steady_inferFromHint _ _) fun inferred => ?_
    all_goals
      cases inferred with
      | none => exact .bind (steady_postpone _) fun _ => .pure _
      | some arguments => exact tracks_useInstance h _ _ _

/-- A name that was found comes to the same with either source of instances. -/
theorem tracks_checkFoundName (name : String) (arguments : List TypeExpr) (st : Storage) (hint : Option Ty) :
    W.Tracks d (checkFoundName x c name arguments location st hint)
      (checkFoundName y c name arguments location st hint) :=
  .ite (tracks_checkBareName h _ _ _) (tracks_checkAppliedName h _ _ _)

/-- A name comes to the same with either source of instances. -/
theorem tracks_checkName (name : String) (arguments : List TypeExpr) (hint : Option Ty) :
    W.Tracks d (checkName x c name arguments location hint) (checkName y c name arguments location hint) := by
  refine .bind (steady_lookup _) fun found => ?_
  cases found with
  | none => exact .pure _
  | some st => exact tracks_checkFoundName h _ _ _ _

/-- A template function with inferred arguments comes to the same with either source of instances. -/
theorem tracks_checkInferredName (name : String) (item : Nat) (vars : List Nat) (params : List Ty)
    (result : Ty) (given : Nat) (failed : Bool) (hint : Option Ty) :
    W.Tracks d (checkInferredName x c name location item vars params result given failed hint)
      (checkInferredName y c name location item vars params result given failed hint) := by
  refine .ite (.bind steady_error fun _ => .pure _) (.ite (.pure _) ?_)
  cases hint
  case' some => refine .bind (.discard (.types _)) fun _ => ?_
  all_goals
    refine .bind (steady_inferredArguments _ _) fun found => ?_
    cases found with
    | none => exact .pure _
    | some types => exact tracks_useInstance h _ _ _

/-- A called name comes to the same with either source of instances. -/
theorem tracks_checkCalledName {infer infer' : List Ty → CheckM (Placed × Bool)}
    (hinfer : ∀ params, W.Tracks d (infer params) (infer' params)) (name : String) (written : List TypeExpr)
    (given : Nat) (hint : Option Ty) :
    W.Tracks d (checkCalledName x c name written location given infer hint)
      (checkCalledName y c name written location given infer' hint) := by
  refine .bind (steady_lookup _) fun found => ?_
  cases found with
  | none => exact .pure _
  | some st =>
    have hplain : W.Tracks d
        (do
          let r ← checkFoundName x c name written location st none
          return (r.1, r.2, (none : Option Placed)))
        (do
          let r ← checkFoundName y c name written location st none
          return (r.1, r.2, (none : Option Placed))) :=
      .bind (tracks_checkFoundName h _ _ _ _) fun _ => .pure _
    refine .bind (steady_templateOf st) fun found => ?_
    match found, written with
    | some (item, template), [] =>
      refine .bind (.types _) fun fresh => ?_
      obtain ⟨body, vars⟩ := fresh
      cases body with
      | function params result l =>
        refine .bind (hinfer params) fun inferred => ?_
        exact .bind (tracks_checkInferredName h _ _ _ _ _ _ _ _) fun _ => .pure _
      | _ => exact .throw _
    | some _, _ :: _ => exact hplain
    | none, _ => exact hplain

/-! ## Expressions -/

/-- A call of a checked callee, whose arguments were checked along with it or are checked now. -/
theorem tracks_callOf {arguments : List Expr} (r : Checked.Expr × Ty × Option Placed)
    (harguments : ∀ params, W.Tracks d (checkArguments x c arguments params 1)
      (checkArguments y c arguments params 1))
    (hloose : W.Tracks d (checkLoose x c arguments) (checkLoose y c arguments))
    (location : Option Location) : W.Tracks d
      (do
        match ← onTypes (Types.resolve r.2.1) with
        | .function params result _ =>
          if arguments.length ≠ params.length then
            reportError c.scope location .argumentCount
              ("call takes " ++ Nat.repr params.length ++ " arguments, got " ++
                Nat.repr arguments.length)
            return ((.call r.1 [] none : Checked.Expr), .error)
          let used ← match r.2.2 with
            | some typed => useArguments c typed params 1
            | none => checkArguments x c arguments params 1
          return (.call r.1 used (some (params, result)), result)
        | _ =>
          if !(← onTypes (Types.isError r.2.1)) then
            reportError c.scope location .notCallable
              ("value of type " ++ (← textOf r.2.1) ++ " is not callable")
          if r.2.2.isNone then discard (checkLoose x c arguments)
          return (.call r.1 [] none, .error))
      (do
        match ← onTypes (Types.resolve r.2.1) with
        | .function params result _ =>
          if arguments.length ≠ params.length then
            reportError c.scope location .argumentCount
              ("call takes " ++ Nat.repr params.length ++ " arguments, got " ++
                Nat.repr arguments.length)
            return ((.call r.1 [] none : Checked.Expr), .error)
          let used ← match r.2.2 with
            | some typed => useArguments c typed params 1
            | none => checkArguments y c arguments params 1
          return (.call r.1 used (some (params, result)), result)
        | _ =>
          if !(← onTypes (Types.isError r.2.1)) then
            reportError c.scope location .notCallable
              ("value of type " ++ (← textOf r.2.1) ++ " is not callable")
          if r.2.2.isNone then discard (checkLoose y c arguments)
          return (.call r.1 [] none, .error)) := by
  refine .bind (.types _) fun shape => ?_
  have hrest : W.Tracks d
      (do
        if r.2.2.isNone then discard (checkLoose x c arguments)
        return ((.call r.1 [] none : Checked.Expr), (.error : Ty)))
      (do
        if r.2.2.isNone then discard (checkLoose y c arguments)
        return ((.call r.1 [] none : Checked.Expr), (.error : Ty))) :=
    .ite (.bind hloose.discard fun _ => .pure _) (.pure _)
  cases shape with
  | function params result l =>
    refine .ite (.bind steady_error fun _ => .pure _) ?_
    cases r.2.2 with
    | some placed => exact .bind (steady_useArguments _ _ _) fun _ => .pure _
    | none => exact .bind (harguments params) fun _ => .pure _
  | _ =>
    refine .bind (.types _) fun _ => .ite ?_ hrest
    exact .bind (steady_textOf _) fun _ => .bind steady_error fun _ => hrest

mutual

/-- An expression comes to the same with either source of instances. -/
theorem tracks_checkExpr : ∀ (e : Expr) (hint : Option Ty),
    W.Tracks d (checkExpr x c e hint) (checkExpr y c e hint)
  | .integer value l, hint => by
    simp only [checkExpr]
    split
    · exact .pure _
    · exact .bind steady_error fun _ => .pure _
  | .text value l, hint => .pure _
  | .null l, hint => by
    have hlast (fits : Option Ty) : W.Steady d (match fits with
        | some t => return ((.null : Checked.Expr), t)
        | none => do
          let v ← onTypes (Types.newVar "null" (some l))
          return (.null, .pointer (.var v) (some l))) := by
      cases fits with
      | none => exact .bind (.types _) fun _ => .pure _
      | some t => exact .pure _
    cases hint with
    | none => exact .bind (.pure _) hlast
    | some t =>
      refine .bind (.types _) fun shape => ?_
      cases shape with
      | pointer => exact .bind (.pure _) hlast
      | _ => exact .bind (.pure _) hlast
  | .struct target fields l, hint => by
    refine .bind (steady_checkWritten target) fun t => .bind (.types _) fun shape => ?_
    cases shape with
    | struct members => exact .bind (tracks_checkFields t members [] fields) fun _ => .pure _
    | _ =>
      have hloose : W.Tracks d
          (do
            let fields ← checkLooseFields x c fields
            return ((.struct none fields : Checked.Expr), (.error : Ty)))
          (do
            let fields ← checkLooseFields y c fields
            return ((.struct none fields : Checked.Expr), (.error : Ty))) :=
        .bind (tracks_checkLooseFields fields) fun _ => .pure _
      refine .bind (.types _) fun _ => .ite ?_ hloose
      exact .bind (steady_textOf t) fun _ => .bind steady_error fun _ => hloose
  | .array elements l, hint => by
    have hlast (expected : Option Ty) : W.Tracks d
        (do
          let (checked, element) ← checkElements x c expected 1 elements
          match element with
          | none =>
            reportError c.scope (some l) .cannotInfer
              "cannot infer the element type of an empty array literal"
            return ((.array none checked : Checked.Expr), (.error : Ty))
          | some e => return (.array (some e) checked, .array e elements.length (some l)))
        (do
          let (checked, element) ← checkElements y c expected 1 elements
          match element with
          | none =>
            reportError c.scope (some l) .cannotInfer
              "cannot infer the element type of an empty array literal"
            return ((.array none checked : Checked.Expr), (.error : Ty))
          | some e => return (.array (some e) checked, .array e elements.length (some l))) := by
      refine .bind (tracks_checkElements expected 1 elements) fun ⟨checked, element⟩ => ?_
      cases element with
      | none => exact .bind steady_error fun _ => .pure _
      | some e => exact .pure _
    cases hint with
    | none => exact .bind (.pure _) hlast
    | some t =>
      refine .bind (.types _) fun shape => ?_
      cases shape with
      | array | slice => exact .bind (.pure _) hlast
      | _ => exact .bind (.pure _) hlast
  | .name text arguments l, hint => tracks_checkName h text arguments hint
  | .call callee arguments l, hint => by
    have hlast (r : Checked.Expr × Ty × Option Placed) :=
      tracks_callOf h r (tracks_checkArguments arguments · 1) (tracks_checkLoose arguments) (some l)
    cases callee with
    | name text written place =>
      exact .bind (tracks_checkCalledName h (fun params => tracks_checkInferring text arguments params 1) text
        written arguments.length hint) hlast
    | _ => exact .bind (tracks_checkExpr _ none) fun r => hlast (r.1, r.2, none)
  | .member base name l, hint => .bind (tracks_checkExpr base none) fun _ => steady_checkMember _ _
  | .arrow base name l, hint => .bind (tracks_checkExpr base none) fun _ => steady_checkArrow _ _
  | .index base position unchecked l, hint => .bind (tracks_checkExpr base none) fun _ =>
      .bind (tracks_checkExpr position (some .byte)) fun _ => steady_checkIndexed _ _ _ _
  | .cast target operand l, hint => .bind (steady_checkWritten target) fun t =>
      .bind (tracks_checkExpr operand (some t)) fun _ => steady_checkCast _ _
  | .sizeOf target l, hint => by
    refine .bind (steady_checkWritten target) fun _ => .bind (steady_checkValueType _ _) fun _ => ?_
    exact .ite (.bind (.types _) fun _ => .pure _) (.pure _)
  | .new target none l, hint => .bind (steady_checkWritten target) fun _ => steady_checkAllocation _ _
  | .new target (some count) l, hint => by
    refine .bind (steady_checkWritten target) fun t => .bind (tracks_checkExpr count (some .byte)) fun n => ?_
    refine .bind (.types _) fun _ => .ite ?_ (steady_checkAllocation _ _)
    exact .bind (.types _) fun _ => .ite (steady_telling (.pure _)) (steady_checkAllocation _ _)
  | .binary op left right l, hint => .bind (tracks_checkExpr left none) fun a =>
      .bind (tracks_checkExpr right (some a.2)) fun _ => steady_checkBinary _ _ _
  | .unary op operand l, hint => .bind (tracks_checkExpr operand none) fun _ => steady_checkUnary _ _

/-- Inferring arguments comes to the same with either source of instances. -/
theorem tracks_checkInferring (name : String) : ∀ (arguments : List Expr) (params : List Ty) (k : Nat),
    W.Tracks d (checkInferring x c name arguments params k) (checkInferring y c name arguments params k)
  | [], _, _ => .pure _
  | a :: rest, params, k => by
    refine .bind (tracks_checkExpr a params.head?) fun r => ?_
    have hrest (failed : Bool) : W.Tracks d
        (do
          let (typed, more) ← checkInferring x c name rest params.tail (k + 1)
          return ((r, a.location) :: typed, failed || more))
        (do
          let (typed, more) ← checkInferring y c name rest params.tail (k + 1)
          return ((r, a.location) :: typed, failed || more)) :=
      .bind (tracks_checkInferring name rest params.tail (k + 1)) fun _ => .pure _
    refine .bind (.types _) fun _ => .ite (.bind (.pure _) hrest) ?_
    cases params with
    | nil => exact .bind (.pure _) hrest
    | cons p params =>
      exact .bind (steady_checkConvertible _ _ _) fun _ => .bind (.pure _) hrest

/-- Arguments come to the same with either source of instances. -/
theorem tracks_checkArguments : ∀ (arguments : List Expr) (params : List Ty) (k : Nat),
    W.Tracks d (checkArguments x c arguments params k) (checkArguments y c arguments params k)
  | a :: rest, p :: params, k => .bind (tracks_checkExpr a (some p)) fun _ =>
      .bind (steady_useAs _ _ _ _) fun _ => .bind (tracks_checkArguments rest params (k + 1)) fun _ => .pure _
  | [], _, _ | _ :: _, [], _ => .pure _

/-- Arguments of unknown types come to the same with either source of instances. -/
theorem tracks_checkLoose : ∀ arguments : List Expr,
    W.Tracks d (checkLoose x c arguments) (checkLoose y c arguments)
  | [] => .pure _
  | a :: rest => .bind (tracks_checkExpr a none) fun _ => .bind (tracks_checkLoose rest) fun _ => .pure _

/-- Fields of unknown types come to the same with either source of instances. -/
theorem tracks_checkLooseFields : ∀ fields : List (String × Expr × Location),
    W.Tracks d (checkLooseFields x c fields) (checkLooseFields y c fields)
  | [] => .pure _
  | (_, a, _) :: rest => .bind (tracks_checkExpr a none) fun _ =>
      .bind (tracks_checkLooseFields rest) fun _ => .pure _

/-- Fields come to the same with either source of instances. -/
theorem tracks_checkFields (whole : Ty) (members : List (Member Ty)) (seen : List String) :
    ∀ fields : List (String × Expr × Location),
      W.Tracks d (checkFields x c whole members seen fields) (checkFields y c whole members seen fields)
  | [] => .pure _
  | (name, a, l) :: rest => by
    refine .bind (.types _) fun found => ?_
    cases found with
    | none =>
      refine .bind (steady_textOf _) fun _ => .bind steady_error fun _ => .bind (tracks_checkExpr a none) fun _ => ?_
      exact .bind (tracks_checkFields whole members seen rest) fun _ => .pure _
    | some found =>
      have hrest (e : Checked.Expr × Ty) : W.Tracks d
          (do return (name, e.1) :: (← checkFields x c whole members (name :: seen) rest))
          (do return (name, e.1) :: (← checkFields y c whole members (name :: seen) rest)) :=
        .bind (tracks_checkFields whole members (name :: seen) rest) fun _ => .pure _
      have hlast : W.Tracks d
          (do
            let (e, t) ← checkExpr x c a (some found.1.type)
            let fits ← checkConvertible c (some l) t found.1.type
              ("member " ++ name ++ " of " ++ (← textOf whole))
            let (e, _) ← if fits then coerce e t found.1.type else pure (e, t)
            return (name, e) :: (← checkFields x c whole members (name :: seen) rest))
          (do
            let (e, t) ← checkExpr y c a (some found.1.type)
            let fits ← checkConvertible c (some l) t found.1.type
              ("member " ++ name ++ " of " ++ (← textOf whole))
            let (e, _) ← if fits then coerce e t found.1.type else pure (e, t)
            return (name, e) :: (← checkFields y c whole members (name :: seen) rest)) := by
        refine .bind (tracks_checkExpr a (some found.1.type)) fun r => .bind (steady_textOf _) fun _ => ?_
        refine .bind (steady_checkConvertible _ _ _) fun _ => ?_
        exact .ite (.bind (.types _) hrest) (.bind (.pure _) hrest)
      exact .ite (.bind steady_error fun _ => hlast) hlast

/-- Elements come to the same with either source of instances. -/
theorem tracks_checkElements (element : Option Ty) (k : Nat) : ∀ elements : List Expr,
    W.Tracks d (checkElements x c element k elements) (checkElements y c element k elements)
  | [] => .pure _
  | a :: rest => by
    refine .bind (tracks_checkExpr a element) fun r => ?_
    cases element with
    | none =>
      refine .bind (steady_checkValueType _ _) fun _ => ?_
      exact .bind (tracks_checkElements _ (k + 1) rest) fun _ => .pure _
    | some want =>
      refine .bind (steady_useAs _ _ _ _) fun _ => ?_
      exact .bind (tracks_checkElements (some want) (k + 1) rest) fun _ => .pure _

end

/-! ## Statements -/

/-- A condition comes to the same with either source of instances. -/
theorem tracks_checkCondition (e : Expr) : W.Tracks d (checkCondition x c e) (checkCondition y c e) := by
  refine .bind (tracks_checkExpr h e none) fun _ => .bind (.types _) fun _ => .ite ?_ (.pure _)
  exact .bind (.types _) fun _ => .ite (steady_telling (.pure _)) (.pure _)

/-- An assignment comes to the same with either source of instances. -/
theorem tracks_checkAssign (target value : Expr) :
    W.Tracks d (checkAssign x c target value) (checkAssign y c target value) := by
  refine .bind (tracks_checkExpr h target none) fun l => .bind (tracks_checkExpr h value (some l.2)) fun _ => ?_
  refine .bind (.types _) fun _ => .ite (.pure _) (.bind (.types _) fun _ => .ite (.pure _) ?_)
  exact .ite (steady_telling (.pure _)) (.bind (steady_useAs _ _ _ _) fun _ => .pure _)

/-- A return comes to the same with either source of instances. -/
theorem tracks_checkReturn (value : Option Expr) (l : Location) :
    W.Tracks d (checkReturn x c value l) (checkReturn y c value l) := by
  refine .bind steady_result fun result => ?_
  cases result with
  | none =>
    cases value with
    | none => exact .bind steady_error fun _ => .pure _
    | some e => exact .bind steady_error fun _ => .bind (tracks_checkExpr h e none) fun _ => .pure _
  | some ret =>
    cases value with
    | none =>
      refine .bind (.types _) fun _ => .ite ?_ (.pure _)
      exact .bind (.types _) fun _ => .ite (steady_telling (.pure _)) (.pure _)
    | some e =>
      refine .bind (tracks_checkExpr h e (some ret)) fun _ => .bind (.types _) fun _ => .ite (.pure _) ?_
      refine .bind (.types _) fun _ => .ite (.pure _) (.bind (.types _) fun _ => .ite ?_ ?_)
      · exact steady_telling (.pure _)
      · exact .bind (steady_useAs _ _ _ _) fun _ => .pure _

/-- Giving back memory comes to the same with either source of instances. -/
theorem tracks_checkDelete (value : Expr) (l : Location) :
    W.Tracks d (checkDelete x c value l) (checkDelete y c value l) := by
  refine .bind (tracks_checkExpr h value none) fun r => .bind (.types _) fun _ => .ite (.pure _) ?_
  refine .bind (.types _) fun shape => ?_
  cases shape
  all_goals
    refine .bind (.pure _) fun slice => ?_
    cases slice with
    | none => exact steady_telling (.pure _)
    | some => exact .bind (steady_heapFunction _ _) fun _ => .pure _

/-- A local variable comes to the same with either source of instances. -/
theorem tracks_checkVar (name : String) (type : Option TypeExpr) (init : Option Expr) (l : Location) :
    W.Tracks d (checkVar x c name type init l) (checkVar y c name type init l) := by
  refine .bind (steady_checkVarType name l type) fun t => ?_
  cases init with
  | none =>
    have hlast (u : Ty) : W.Steady d (do
        return Checked.Stmt.var (← c.declare name u .automatic (some l)) none) :=
      .bind (steady_declare _ _ _) fun _ => .pure _
    cases t with
    | none => exact .bind steady_error fun _ => .bind (.pure _) hlast
    | some t => exact .bind (.pure _) hlast
  | some e =>
    refine .bind (tracks_checkExpr h e t) fun typed => .bind (steady_checkInit _ _ _ _ _) fun r => ?_
    exact .bind (steady_declare _ _ _) fun _ => .pure _

mutual

/-- A statement comes to the same with either source of instances. -/
theorem tracks_checkStmt : ∀ s : Stmt, W.Tracks d (checkStmt x c s) (checkStmt y c s)
  | .expression e l => .bind (tracks_checkExpr h e none) fun _ => .pure _
  | .var name type init l => tracks_checkVar h name type init l
  | .assign target value l => tracks_checkAssign h target value
  | .cond condition yes no l => .bind (tracks_checkCondition h condition) fun _ =>
      .bind (tracks_checkBlock yes) fun _ => .bind (tracks_checkBlock no) fun _ => .pure _
  | .whileLoop condition body l => .bind (tracks_checkCondition h condition) fun _ =>
      .bind steady_enterLoop fun _ => .bind (tracks_checkBlock body) fun _ => .bind steady_leaveLoop fun _ => .pure _
  | .forLoop init condition step body l => by
    refine .bind steady_push fun _ => .bind (tracks_checkOptionStmt init) fun first => ?_
    have hrest (e : Option Checked.Expr) : W.Tracks d
        (do
          c.enterLoop
          let body ← checkBlock x c body
          c.leaveLoop
          let step ← checkOptionStmt x c step
          c.pop
          return Checked.Stmt.forLoop first e step body)
        (do
          c.enterLoop
          let body ← checkBlock y c body
          c.leaveLoop
          let step ← checkOptionStmt y c step
          c.pop
          return Checked.Stmt.forLoop first e step body) :=
      .bind steady_enterLoop fun _ => .bind (tracks_checkBlock body) fun _ => .bind steady_leaveLoop fun _ =>
        .bind (tracks_checkOptionStmt step) fun _ => .bind steady_pop fun _ => .pure _
    cases condition with
    | none => exact .bind (.pure _) hrest
    | some e => exact .bind (.map (tracks_checkCondition h e)) hrest
  | .breakLoop l => .bind steady_inLoop fun _ => .ite (.bind steady_error fun _ => .pure _) (.pure _)
  | .giveBack value l => tracks_checkReturn h value l
  | .block body l => .bind (tracks_checkBlock body) fun _ => .pure _
  | .delete value l => tracks_checkDelete h value l

/-- A statement that may be missing comes to the same with either source of instances. -/
theorem tracks_checkOptionStmt : ∀ s : Option Stmt,
    W.Tracks d (checkOptionStmt x c s) (checkOptionStmt y c s)
  | none => .pure _
  | some s => .map (tracks_checkStmt s)

/-- Statements come to the same with either source of instances. -/
theorem tracks_checkStmts : ∀ ss : List Stmt, W.Tracks d (checkStmts x c ss) (checkStmts y c ss)
  | [] => .pure _
  | s :: rest => .bind (tracks_checkStmt s) fun _ => .bind (tracks_checkStmts rest) fun _ => .pure _

/-- A block comes to the same with either source of instances. -/
theorem tracks_checkBlock : ∀ ss : List Stmt, W.Tracks d (checkBlock x c ss) (checkBlock y c ss)
  | [] => .bind steady_push fun _ => .bind steady_pop fun _ => .pure _
  | s :: rest => .bind steady_push fun _ => .bind (tracks_checkStmt s) fun _ =>
      .bind (tracks_checkStmts rest) fun _ => .bind steady_pop fun _ => .pure _

end

end Walk

end Qll.Check.Watch
