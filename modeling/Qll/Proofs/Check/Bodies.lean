import Qll.Proofs.Check.Values

/-!
# Bodies under check

Checking an expression or a statement keeps a state sound, and what it leaves names only storage
that is local or was recorded. The proof follows the recursion of the checker.
-/

namespace Qll.Check

open Qll.Computation
open Qll.Types (Ty Vocabulary Scope Member)
open Qll.Types.Vocabulary (Keeps)
open Source (Location TypeExpr Expr Stmt BinaryOp UnaryOp)

variable {S : Setting} {O : Storage → Prop} {P : Prop} {c : Context} {location : Option Location}

/-! ## Operations -/

/-- What failed to check has the error type. -/
theorem yields_failed {e : Checked.Expr} (he : e.Over O) : S.Yields O (e, .error) :=
  ⟨he, Vocabulary.admits_error⟩

/-- A binary operator yields what its operands allow. -/
theorem checks_checkBinary (op : BinaryOp) {l r : Typed} (hl : P → S.Yields O l)
    (hr : P → S.Yields O r) : Checks S P (S.Yields O) (checkBinary c op l r location) := by
  have hfailed (h : P) : S.Yields O (.binary op none l.1 r.1 none, .error) :=
    yields_failed ⟨(hl h).1, (hr h).1⟩
  refine .seq (.types fun _ => .isError l.2) fun _ => .ite (.pure hfailed) ?_
  refine .seq (.types fun _ => .isError r.2) fun _ => .ite (.pure hfailed) ?_
  refine .seq (checks_familyOf fun h => (hl h).2) fun lf => ?_
  refine .seq (checks_familyOf fun h => (hr h).2) fun rf => ?_
  cases ruleFor? op lf rf with
  | none => exact .seq (.textOf _) fun _ => .seq (.textOf _) fun _ => .failing
  | some rule =>
    have hlast (element : Option Ty) : Checks S P (S.Yields O) (pure (f := CheckM)
        ((.binary op (some rule) l.1 r.1 element : Checked.Expr),
          if rule.resultLeft then l.2 else .byte)) := by
      refine .pure fun h => ⟨⟨(hl h).1, (hr h).1⟩, ?_⟩
      dsimp only
      split
      · exact (hl h).2
      · exact Vocabulary.admits_byte
    have helement : Checks S P (S.Yields O) (if rule.scaled then do
        let element ← elementOf? l.2
        pure ((.binary op (some rule) l.1 r.1 element : Checked.Expr),
          if rule.resultLeft then l.2 else .byte)
      else do
        let element ← pure none
        pure ((.binary op (some rule) l.1 r.1 element : Checked.Expr),
          if rule.resultLeft then l.2 else .byte)) := by
      refine .ite (.seq (checks_elementOf fun h => (hl h).2).drop hlast) (hlast none)
    refine .ite ?_ helement
    refine .seq (.types fun h => .isConvertible (hr h).2 (hl h).2) fun _ => .ite ?_ helement
    refine .seq (.types fun h => .isConvertible (hl h).2 (hr h).2) fun _ => .ite ?_ helement
    exact .seq (.textOf _) fun _ => .seq (.textOf _) fun _ => .failing

/-- What a pointer points to. -/
theorem checks_deref {operand : Typed} (ho : P → S.Yields O operand) (element : Option Ty)
    (family : Option Source.Family) : Checks S (P ∧ ∀ e ∈ element, S.vocabulary.Admits e) (S.Yields O)
      (match element, family with
        | some element, some .pointer => do
          if ← checkValueType c element location "dereferenced value" then
            return ((.unary .deref operand.1 element : Checked.Expr), element)
          return (.unary .deref operand.1 .error, .error)
        | _, _ => do
          reportError c.scope location .notPointer
            ("cannot dereference a value of type " ++ (← textOf operand.2))
          return (.unary .deref operand.1 .error, .error)) := by
  split
  · refine .seq (checks_checkValueType (fun h => h.2 _ rfl) _) fun _ => .ite ?_ ?_
    · exact .pure fun h => ⟨(ho h.1).1, h.2 _ rfl⟩
    · exact .pure fun h => yields_failed (ho h.1).1
  · exact .seq (.textOf _) fun _ => .failing

/-- A unary operator yields what its operand allows. -/
theorem checks_checkUnary (op : UnaryOp) {operand : Typed} (ho : P → S.Yields O operand) :
    Checks S P (S.Yields O) (checkUnary c op operand location) := by
  have hfailed (h : P) : S.Yields O (.unary op operand.1 .error, .error) := yields_failed (ho h).1
  have hword (h : P) : S.Yields O (.unary op operand.1 .byte, .byte) :=
    ⟨(ho h).1, Vocabulary.admits_byte⟩
  refine .seq (.types fun _ => .isError operand.2) fun _ => .ite (.pure hfailed) ?_
  cases op with
  | addressOf => exact .ite (.pure ho) (.seq (.textOf _) fun _ => .failing)
  | deref =>
    refine .bind (checks_elementOf fun h => (ho h).2) fun element => ?_
    refine .ite ?_ (checks_deref ho element none)
    exact .seq (checks_familyOf fun h => (ho h.1).2) (checks_deref ho element)
  | neg | bitNot | not =>
    refine .seq (checks_familyOf fun h => (ho h).2) fun _ => .ite (.pure hword) ?_
    exact .seq (.textOf _) fun _ => .failing

/-- An element of a value that can be indexed. -/
theorem checks_element {base position : Typed} (hb : P → S.Yields O base)
    (hp : P → S.Yields O position) (unchecked : Bool) (found : Option (Ty × Checked.IndexKind)) :
    Checks S (P ∧ ∀ f ∈ found, S.vocabulary.Admits f.1) (S.Yields O) (match found with
      | none => do
        reportError c.scope location .notIndexable
          ("cannot index a value of type " ++ (← textOf base.2))
        return ((.index base.1 position.1 unchecked (.array 0) .error : Checked.Expr), .error)
      | some (element, kind) => do
        if ← checkValueType c element location "element" then
          return (.index base.1 position.1 unchecked kind element, element)
        return (.index base.1 position.1 unchecked kind .error, .error)) := by
  cases found with
  | none => exact .seq (.textOf _) fun _ => .failing
  | some found =>
    refine .seq (checks_checkValueType (fun h => h.2 found rfl) _) fun _ => .ite ?_ ?_
    · exact .pure fun h => ⟨⟨(hb h.1).1, (hp h.1).1⟩, h.2 found rfl⟩
    · exact .pure fun h => yields_failed ⟨(hb h.1).1, (hp h.1).1⟩

/-- An index expression yields what its base and its position allow. -/
theorem checks_checkIndexed {base position : Typed} (hb : P → S.Yields O base)
    (hp : P → S.Yields O position) (unchecked : Bool) (positionLocation : Option Location) :
    Checks S P (S.Yields O)
      (checkIndexed c base position unchecked positionLocation location) := by
  have hfailed (kind : Checked.IndexKind) (h : P) :
      S.Yields O (.index base.1 position.1 unchecked kind .error, .error) :=
    yields_failed ⟨(hb h).1, (hp h).1⟩
  refine .seq (.types fun _ => .isError base.2) fun _ => .ite (.pure (hfailed _)) ?_
  refine .seq (.types fun _ => .isError position.2) fun _ => .ite (.pure (hfailed _)) ?_
  refine .seq (.types fun h => .isNumeric (hp h).2) fun _ =>
    .ite (.seq (.textOf _) fun _ => .failing) ?_
  refine .bind (.types fun h => .resolve (hb h).2) fun shape => ?_
  cases shape with
  | array element length l | pointer element l | slice element l =>
    exact (checks_element hb hp unchecked (some (element, _))).pre fun h => ⟨h.1, by simpa using h.2⟩
  | _ => exact (checks_element hb hp unchecked none).pre fun h => ⟨h.1, by simp⟩

/-- A member of a struct yields what the struct allows. -/
theorem checks_checkMember {base : Typed} (hb : P → S.Yields O base) (name : String) :
    Checks S P (S.Yields O) (checkMember c base name location) := by
  have hfailed (h : P) : S.Yields O (.member base.1 0 .error false, .error) :=
    yields_failed (hb h).1
  refine .seq (.types fun _ => .isError base.2) fun _ => .ite (.pure hfailed) ?_
  refine .bind (checks_memberOf (fun h => (hb h).2) name) fun found => ?_
  cases found with
  | none => exact .pure fun h => hfailed h.1
  | some m => exact .pure fun h => ⟨(hb h.1).1, h.2 m rfl⟩

/-- A member behind a pointer yields what the pointer allows. -/
theorem checks_checkArrow {base : Typed} (hb : P → S.Yields O base) (name : String) :
    Checks S P (S.Yields O) (checkArrow c base name location) := by
  have hfailed (h : P) : S.Yields O (.arrow base.1 0 .error false, .error) :=
    yields_failed (hb h).1
  refine .seq (.types fun _ => .isError base.2) fun _ => .ite (.pure hfailed) ?_
  refine .bind (.types fun h => .resolve (hb h).2) fun shape => ?_
  cases shape with
  | pointer element l =>
    refine .bind (checks_memberOf (fun h => h.2) name) fun found => ?_
    cases found with
    | none => exact .pure fun h => hfailed h.1.1
    | some m => exact .pure fun h => ⟨(hb h.1.1).1, h.2 m rfl⟩
  | _ => exact .seq (.textOf _) fun _ => .failing

/-- A conversion yields a value of the target. -/
theorem checks_checkCast {target : Ty} {operand : Typed} (ht : P → S.vocabulary.Admits target)
    (ho : P → S.Yields O operand) : Checks S P (S.Yields O) (checkCast c target operand location) := by
  have hfailed (h : P) : S.Yields O (.cast operand.1, .error) := yields_failed (ho h).1
  have hcast (h : P) : S.Yields O (.cast operand.1, target) := ⟨(ho h).1, ht h⟩
  refine .seq (.types fun _ => .isError target) fun _ => .ite (.pure hfailed) ?_
  refine .seq (.types fun _ => .isError operand.2) fun _ => .ite (.pure hfailed) ?_
  refine .seq (checks_checkValueType ht _) fun _ => .ite (.pure hfailed) ?_
  refine .seq (.types fun h => .isConvertible (ho h).2 (ht h)) fun _ => .ite ?_ ?_
  · exact .bind (checks_coerce ho ht) fun r => .pure fun h => ⟨h.2.1, ht h.1⟩
  · have hlast : Checks S P (S.Yields O) (do
        reportError c.scope location .invalidCast
          ("cannot cast " ++ (← textOf operand.2) ++ " to " ++ (← textOf target))
        return ((.cast operand.1 : Checked.Expr), .error)) :=
      .seq (.textOf _) fun _ => .seq (.textOf _) fun _ => .failing
    refine .seq (.types fun h => .isIntegral (ho h).2) fun _ => .ite ?_ hlast
    exact .seq (.types fun h => .isIntegral (ht h)) fun _ => .ite (.pure hcast) hlast

/-- Checked arguments are used as those of the parameters. -/
theorem checks_useArguments : ∀ (placed : Placed) (params : List Ty) (k : Nat),
    Checks S ((∀ p ∈ placed, S.Yields O p.1) ∧ ∀ t ∈ params, S.vocabulary.Admits t)
      (Checked.ExprsOver O) (useArguments c placed params k)
  | ((e, t), l) :: rest, p :: params, k => by
    refine .bind (checks_useAs (fun h => h.1 ((e, t), l) (by simp)) (fun h => h.2 p (by simp)) _) fun r => ?_
    refine .bind ((checks_useArguments rest params (k + 1)).pre fun h =>
      ⟨fun q hq => h.1.1 q (by simp [hq]), fun t ht => h.1.2 t (by simp [ht])⟩) fun es => ?_
    exact .pure fun h => ⟨h.1.2.1, h.2⟩
  | [], _, _ | _ :: _, [], _ => .pure fun _ => trivial

/-! ## Expressions -/

variable {w : World} {i : Nat} {R : Set String} {instances : Instances}

/-- An allocation yields a value if its count does. -/
theorem checks_checkAllocation (hc : c.body = some i) {target : Ty}
    {count : Option Checked.Expr} (ht : P → w.vocabulary.Admits target)
    (hcount : P → ∀ e ∈ count, e.Over (w.Recorded R)) :
    Checks (w.within (some i) R) P (w.Yields R) (checkAllocation c target count location) := by
  have hnew {heap : Option (Ty × Storage)} (h : P) (hheap : ∀ p ∈ heap, w.Recorded R p.2) :
      (Checked.Expr.new heap count).Over (w.Recorded R) := by
    cases count with
    | none => exact hheap
    | some e => exact ⟨hheap, hcount h e rfl⟩
  have hfailed (h : P) : w.Yields R (.new none count, .error) := yields_failed (hnew h (by simp))
  refine .seq (checks_checkValueType ht _) fun _ => .ite (.pure hfailed) ?_
  refine .bind (checks_heapFunction hc _ (by simp)) fun found => ?_
  cases found with
  | none => exact .pure fun h => hfailed h.1
  | some st =>
    refine .pure fun h => ⟨hnew h.1 (by simpa using h.2), ?_⟩
    dsimp only
    split <;> exact ht h.1

/-- What a called name stands for, and the arguments that were checked along with it. -/
def World.YieldsCalled (w : World) (R : Set String) (r : Checked.Expr × Ty × Option Placed) : Prop :=
  w.Yields R (r.1, r.2.1) ∧ ∀ placed ∈ r.2.2, ∀ p ∈ placed, w.Yields R p.1

/-- A called name yields storage that the name stands for. -/
theorem checks_checkCalledName (hinstances : w.Provides instances) (hc : c.body = some i)
    {written : List TypeExpr} {hint : Option Ty} {infer : List Ty → CheckM (Placed × Bool)}
    (hnames : P → w.vocabulary.Scopes c.scope ∧
      w.vocabulary.AcceptsAll (Source.typesNames written))
    (hhint : P → ∀ t ∈ hint, w.vocabulary.Admits t)
    (hinfer : ∀ params, Checks (w.within (some i) R) (P ∧ ∀ t ∈ params, w.vocabulary.Admits t)
      (fun r => ∀ p ∈ r.1, w.Yields R p.1) (infer params)) (name : String) (given : Nat) :
    Checks (w.within (some i) R) P (w.YieldsCalled R)
      (checkCalledName instances c name written location given infer hint) := by
  refine .bind (checks_lookup hc name location) fun found => ?_
  cases found with
  | none => exact .pure fun _ => ⟨yields_failed trivial, by simp⟩
  | some st =>
    have hplain : Checks (w.within (some i) R) (P ∧ w.Found R st) (w.YieldsCalled R) (do
        let r ← checkFoundName instances c name written location st none
        return (r.1, r.2, none)) :=
      .bind (checks_checkFoundName hinstances hc (fun h => h.2) (fun h => hnames h.1) (by simp) name)
        fun r => .pure fun h => ⟨h.2, by simp⟩
    refine .bind (checks_templateOf fun h => h.2 st rfl) fun template => ?_
    split
    · next item id =>
      refine .bind (.types fun h => .freshBody (h.2.2 _ rfl)) fun fresh => ?_
      obtain ⟨body, vars⟩ := fresh
      cases body with
      | function params result l =>
        have hbody {Q : Prop} (h : Q ∧ w.vocabulary.Admits (.function params result l)) :=
          Vocabulary.admits_function.1 h.2
        refine .bind ((hinfer params).pre fun h => ⟨h.1.1.1, (hbody h).1⟩) fun inferred => ?_
        obtain ⟨placed, failed⟩ := inferred
        refine .bind (checks_checkInferredName hinstances hc (fun h => (hbody h.1).2)
          (fun h => hhint h.1.1.1.1) name item given vars failed) fun r => ?_
        exact .pure fun h => ⟨h.2, by simpa using h.1.2⟩
      | _ => exact .throw
    · exact hplain.pre fun h => ⟨h.1.1, h.1.2 st rfl⟩

/-- What is written may be checked: the scope is admitted, and so are the names in written types. -/
def World.Ready (w : World) (c : Context) (names : List String) : Prop :=
  w.vocabulary.Scopes c.scope ∧ w.vocabulary.AcceptsAll names

/-- What is written may be checked if each part of it may. -/
theorem World.ready_append {names more : List String} :
    w.Ready c (names ++ more) ↔ w.Ready c names ∧ w.Ready c more := by
  simp only [World.Ready, Vocabulary.acceptsAll_append]
  exact ⟨fun h => ⟨⟨h.1, h.2.1⟩, h.1, h.2.2⟩, fun h => ⟨h.1.1, h.1.2, h.2.2⟩⟩

/-- The types that are expected of a value are admitted. -/
abbrev World.Hints (w : World) (hint : Option Ty) : Prop := ∀ t ∈ hint, w.vocabulary.Admits t

/-- Where nothing is expected, all that is expected is admitted. -/
theorem World.hints_none : w.Hints none := by simp [World.Hints]

/-- An admitted type may be expected. -/
theorem World.hints_some {t : Ty} (ht : w.vocabulary.Admits t) : w.Hints (some t) := by
  simpa [World.Hints] using ht

/-- A call of a checked callee, whose arguments were checked along with it or are checked now. -/
theorem checks_callOf {arguments : List Expr} (r : Checked.Expr × Ty × Option Placed)
    (harguments : ∀ params, Checks (w.within (some i) R)
      (w.Ready c (Source.exprsNames arguments) ∧ ∀ t ∈ params, w.vocabulary.Admits t)
      (Checked.ExprsOver (w.Recorded R)) (checkArguments instances c arguments params 1))
    (hloose : Checks (w.within (some i) R) (w.Ready c (Source.exprsNames arguments))
      (Checked.ExprsOver (w.Recorded R)) (checkLoose instances c arguments))
    (location : Option Location) : Checks (w.within (some i) R)
      (w.Ready c (Source.exprsNames arguments) ∧ w.YieldsCalled R r) (w.Yields R) (do
        match ← onTypes (Types.resolve r.2.1) with
        | .function params result _ =>
          if arguments.length ≠ params.length then
            reportError c.scope location .argumentCount
              ("call takes " ++ Nat.repr params.length ++ " arguments, got " ++
                Nat.repr arguments.length)
            return ((.call r.1 [] none : Checked.Expr), .error)
          let used ← match r.2.2 with
            | some typed => useArguments c typed params 1
            | none => checkArguments instances c arguments params 1
          return (.call r.1 used (some (params, result)), result)
        | _ =>
          if !(← onTypes (Types.isError r.2.1)) then
            reportError c.scope location .notCallable
              ("value of type " ++ (← textOf r.2.1) ++ " is not callable")
          if r.2.2.isNone then discard (checkLoose instances c arguments)
          return (.call r.1 [] none, .error)) := by
  refine .bind (.types fun h => .resolve h.2.1.2) fun shape => ?_
  have hfailed : Checks (w.within (some i) R)
      (w.Ready c (Source.exprsNames arguments) ∧ w.YieldsCalled R r) (w.Yields R)
      (pure (f := CheckM) ((.call r.1 [] none : Checked.Expr), .error)) :=
    .pure fun h => yields_failed ⟨h.2.1.1, trivial⟩
  have hrest : Checks (w.within (some i) R)
      (w.Ready c (Source.exprsNames arguments) ∧ w.YieldsCalled R r) (w.Yields R) (do
        if r.2.2.isNone then discard (checkLoose instances c arguments)
        return ((.call r.1 [] none : Checked.Expr), .error)) :=
    .ite (.seq (hloose.pre And.left).discard fun _ => hfailed) hfailed
  cases shape with
  | function params result l =>
    have hshape {Q : Prop} (h : Q ∧ w.vocabulary.Admits (.function params result l)) :=
      Vocabulary.admits_function.1 h.2
    have hcall (used : List Checked.Expr) : Checks (w.within (some i) R)
        (((w.Ready c (Source.exprsNames arguments) ∧ w.YieldsCalled R r) ∧
          w.vocabulary.Admits (.function params result l)) ∧ Checked.ExprsOver (w.Recorded R) used)
        (w.Yields R) (pure (f := CheckM)
          ((.call r.1 used (some (params, result)) : Checked.Expr), result)) :=
      .pure fun h => ⟨⟨h.1.1.2.1.1, h.2⟩, (hshape h.1).2⟩
    refine .ite .failing ?_
    cases hplaced : r.2.2 with
    | some placed =>
      exact .bind ((checks_useArguments placed params 1).pre fun h =>
        ⟨h.1.2.2 placed hplaced, (hshape h).1⟩) hcall
    | none => exact .bind ((harguments params).pre fun h => ⟨h.1.1, (hshape h).1⟩) hcall
  | _ =>
    refine .seq (.types fun _ => .isError r.2.1) fun _ => .ite ?_ (hrest.pre And.left)
    exact .seq (.textOf _) fun _ => .seq .noted fun _ => hrest.pre And.left

section Values

set_option linter.unusedSectionVars false

/-- The null pointer has the type that is expected of it, if that is one of pointers. -/
theorem checks_checkNull (l : Location) (hint : Option Ty) : Checks (w.within (some i) R)
    (w.Ready c (Expr.null l).names ∧ w.Hints hint) (w.Yields R) (checkExpr instances c (.null l) hint) := by
  have hknown (t : Ty) : Checks (w.within (some i) R) (w.vocabulary.Admits t) (w.Yields R)
      (pure (f := CheckM) ((.null : Checked.Expr), t)) := .pure fun h => ⟨trivial, h⟩
  have hfresh : Checks (w.within (some i) R) True (w.Yields R) (do
      let v ← onTypes (Types.newVar "null" (some l))
      return ((.null : Checked.Expr), .pointer (.var v) (some l))) := by
    refine .seq (.types fun _ => .newVar (.inr w.vocabulary.null) _) fun v => ?_
    exact .pure fun _ => ⟨trivial, Vocabulary.admits_var⟩
  cases hint with
  | none => exact hfresh.pre fun _ => trivial
  | some t =>
    refine .seq (.types fun h => (Keeps.resolve (h.2 t rfl)).drop) fun shape => ?_
    cases shape with
    | pointer e l' => exact (hknown t).pre fun h => h.2 t rfl
    | _ => exact hfresh.pre fun _ => trivial

/-- The value of a struct, if its fields are checked. -/
theorem checks_checkStruct {fields : List (String × Expr × Location)}
    (hfields : ∀ (t : Ty) (members : List (Member Ty)), Checks (w.within (some i) R)
      (w.Ready c (Source.fieldsNames fields) ∧ ∀ m ∈ members, w.vocabulary.AdmitsMember m)
      (Checked.FieldsOver (w.Recorded R)) (checkFields instances c t members [] fields))
    (hothers : Checks (w.within (some i) R) (w.Ready c (Source.fieldsNames fields))
      (Checked.FieldsOver (w.Recorded R)) (checkLooseFields instances c fields))
    (target : Source.TypeExpr) (l : Location) (hint : Option Ty) : Checks (w.within (some i) R)
      (w.Ready c (Expr.struct target fields l).names ∧ w.Hints hint) (w.Yields R)
      (checkExpr instances c (.struct target fields l) hint) := by
  simp only [Expr.names, World.ready_append]
  refine .bind ((checks_checkWritten target).pre fun h => h.1.1) fun t => ?_
  refine .bind (.types fun h => .resolve h.2) fun shape => ?_
  have hloose : Checks (w.within (some i) R) (w.Ready c (Source.fieldsNames fields)) (w.Yields R) (do
      let fields ← checkLooseFields instances c fields
      return ((.struct none fields : Checked.Expr), .error)) :=
    .bind hothers fun _ => .pure fun h => ⟨h.2, Vocabulary.admits_error⟩
  cases shape with
  | struct members l' =>
    refine .bind ((hfields t members).pre fun h =>
      ⟨h.1.1.1.2, Vocabulary.admits_struct.1 h.2⟩) fun checked => ?_
    exact .pure fun h => ⟨h.2, h.1.1.2⟩
  | _ =>
    refine .seq (.types fun _ => .isError t) fun _ => .ite ?_ (hloose.pre fun h => h.1.1.1.2)
    exact .seq (.textOf t) fun _ => .seq .noted fun _ => hloose.pre fun h => h.1.1.1.2

/-- The value of an array whose elements are expected to have one type, if they are checked. -/
theorem checks_arrayOf {elements : List Expr} {expected : Option Ty}
    (helements : Checks (w.within (some i) R) (w.Ready c (Source.exprsNames elements) ∧ w.Hints expected)
      (fun r => Checked.ExprsOver (w.Recorded R) r.1 ∧ w.Hints r.2)
      (checkElements instances c expected 1 elements)) (l : Location) :
    Checks (w.within (some i) R) (w.Ready c (Source.exprsNames elements) ∧ w.Hints expected) (w.Yields R) (do
      let (checked, element) ← checkElements instances c expected 1 elements
      match element with
      | none =>
        reportError c.scope (some l) .cannotInfer
          "cannot infer the element type of an empty array literal"
        return ((.array none checked : Checked.Expr), .error)
      | some e => return (.array (some e) checked, .array e elements.length (some l))) := by
  refine .bind helements fun r => ?_
  obtain ⟨checked, element⟩ := r
  cases element with
  | none => exact .failing
  | some e => exact .pure fun h => ⟨h.2.1, h.2.2 e rfl⟩

/-- The value of an array, if its elements are checked. -/
theorem checks_checkArray {elements : List Expr}
    (helements : ∀ expected : Option Ty, Checks (w.within (some i) R)
      (w.Ready c (Source.exprsNames elements) ∧ w.Hints expected)
      (fun r => Checked.ExprsOver (w.Recorded R) r.1 ∧ w.Hints r.2)
      (checkElements instances c expected 1 elements))
    (l : Location) (hint : Option Ty) : Checks (w.within (some i) R)
      (w.Ready c (Expr.array elements l).names ∧ w.Hints hint) (w.Yields R)
      (checkExpr instances c (.array elements l) hint) := by
  cases hint with
  | none => exact checks_arrayOf (helements none) l
  | some t =>
    refine .bind (.types fun h => .resolve (h.2 t rfl)) fun shape => ?_
    cases shape with
    | array e k l' | slice e l' =>
      exact (checks_arrayOf (helements (some e)) l).pre fun h => ⟨h.1.1, World.hints_some h.2⟩
    | _ => exact (checks_arrayOf (helements none) l).pre fun h => ⟨h.1.1, World.hints_none⟩

/-- The allocation of a slice, if its count is checked. -/
theorem checks_checkNewSlice (hc : c.body = some i) {count : Expr}
    (hcount : Checks (w.within (some i) R) (w.Ready c count.names ∧ w.Hints (some .byte)) (w.Yields R)
      (checkExpr instances c count (some .byte)))
    (target : Source.TypeExpr) (l : Location) (hint : Option Ty) : Checks (w.within (some i) R)
      (w.Ready c (Expr.new target (some count) l).names ∧ w.Hints hint) (w.Yields R)
      (checkExpr instances c (.new target (some count) l) hint) := by
  simp only [Expr.names, World.ready_append]
  refine .bind ((checks_checkWritten target).pre fun h => h.1.1) fun t => ?_
  refine .bind (hcount.pre fun h =>
    ⟨h.1.1.2, World.hints_some Vocabulary.admits_byte⟩) fun n => ?_
  have hlast : Checks (w.within (some i) R) (w.vocabulary.Admits t ∧ w.Yields R n) (w.Yields R)
      (checkAllocation c t (some n.1) (some l)) :=
    checks_checkAllocation hc And.left fun h => by simpa using h.2.1
  refine .seq (.types fun _ => .isError n.2) fun _ => .ite ?_ (hlast.pre fun h => ⟨h.1.2, h.2⟩)
  refine .seq (.types fun h => .isNumeric h.2.2) fun _ => .ite ?_ (hlast.pre fun h => ⟨h.1.2, h.2⟩)
  exact .seq (.textOf _) fun _ => .failing

end Values

section Walk

set_option linter.unusedSectionVars false

variable (hinstances : w.Provides instances) (hc : c.body = some i)
include hinstances hc

mutual

/-- An expression yields storage that its names stand for, and an admitted type. -/
theorem checks_checkExpr : ∀ (e : Expr) (hint : Option Ty), Checks (w.within (some i) R)
    (w.Ready c e.names ∧ w.Hints hint) (w.Yields R) (checkExpr instances c e hint)
  | .integer value l, hint => by
    simp only [checkExpr]
    split
    · exact .pure fun _ => ⟨trivial, Vocabulary.admits_byte⟩
    · exact .failing
  | .text value l, hint => .pure fun _ => ⟨trivial, trivial⟩
  | .null l, hint => checks_checkNull l hint
  | .struct target fields l, hint => checks_checkStruct (fun t members => checks_checkFields t members [] fields)
      (checks_checkLooseFields fields) target l hint
  | .array elements l, hint => checks_checkArray (fun expected => checks_checkElements expected 1 elements) l hint
  | .name text arguments l, hint => checks_checkName hinstances hc And.left And.right text
  | .call callee arguments l, hint => by
    simp only [Expr.names, World.ready_append]
    have hlast (r : Checked.Expr × Ty × Option Placed) :=
      checks_callOf r (checks_checkArguments arguments · 1) (checks_checkLoose arguments) (some l)
    cases callee with
    | name text written place =>
      refine .bind (checks_checkCalledName hinstances hc (fun h => h.1.1) (fun h => h.2) (fun params =>
        (checks_checkInferring text arguments params 1).pre fun h => ⟨h.1.1.2, h.2⟩) text
          arguments.length) fun r => (hlast r).pre fun h => ⟨h.1.1.2, h.2⟩
    | _ =>
      refine .bind ((checks_checkExpr _ none).pre fun h => ⟨h.1.1, World.hints_none⟩) fun r => ?_
      exact (hlast (r.1, r.2, none)).pre fun h => ⟨h.1.1.2, h.2, by simp⟩
  | .member base name l, hint =>
    .bind ((checks_checkExpr base none).pre fun h => ⟨h.1, World.hints_none⟩) fun _ =>
      checks_checkMember And.right name
  | .arrow base name l, hint =>
    .bind ((checks_checkExpr base none).pre fun h => ⟨h.1, World.hints_none⟩) fun _ =>
      checks_checkArrow And.right name
  | .index base position unchecked l, hint => by
    simp only [Expr.names, World.ready_append]
    refine .bind ((checks_checkExpr base none).pre fun h => ⟨h.1.1, World.hints_none⟩) fun b => ?_
    refine .bind ((checks_checkExpr position (some .byte)).pre fun h =>
      ⟨h.1.1.2, World.hints_some Vocabulary.admits_byte⟩) fun p => ?_
    exact checks_checkIndexed (fun h => h.1.2) (fun h => h.2) unchecked _
  | .cast target operand l, hint => by
    simp only [Expr.names, World.ready_append]
    refine .bind ((checks_checkWritten target).pre fun h => h.1.1) fun t => ?_
    refine .bind ((checks_checkExpr operand (some t)).pre fun h =>
      ⟨h.1.1.2, World.hints_some h.2⟩) fun r => ?_
    exact checks_checkCast (fun h => h.1.2) fun h => h.2
  | .sizeOf target l, hint => by
    refine .bind ((checks_checkWritten target).pre fun h => h.1) fun t => ?_
    refine .seq (checks_checkValueType And.right _) fun _ => .ite ?_ ?_
    · refine .seq (.types fun h => .size h.2) fun _ => .pure fun _ => ?_
      exact ⟨trivial, Vocabulary.admits_byte⟩
    · exact .pure fun _ => ⟨trivial, Vocabulary.admits_error⟩
  | .new target none l, hint => by
    refine .bind ((checks_checkWritten target).pre fun h => h.1) fun t => ?_
    exact checks_checkAllocation hc And.right (by simp)
  | .new target (some count) l, hint => checks_checkNewSlice hc (checks_checkExpr count (some .byte)) target l hint
  | .binary op left right l, hint => by
    simp only [Expr.names, World.ready_append]
    refine .bind ((checks_checkExpr left none).pre fun h => ⟨h.1.1, World.hints_none⟩) fun a => ?_
    refine .bind ((checks_checkExpr right (some a.2)).pre fun h =>
      ⟨h.1.1.2, World.hints_some h.2.2⟩) fun b => ?_
    exact checks_checkBinary op (fun h => h.1.2) fun h => h.2
  | .unary op operand l, hint =>
    .bind ((checks_checkExpr operand none).pre fun h => ⟨h.1, World.hints_none⟩) fun _ =>
      checks_checkUnary op And.right

/-- Arguments are checked while the types of the parameters are inferred from them. -/
theorem checks_checkInferring (name : String) : ∀ (arguments : List Expr) (params : List Ty) (k : Nat),
    Checks (w.within (some i) R)
      (w.Ready c (Source.exprsNames arguments) ∧ ∀ t ∈ params, w.vocabulary.Admits t)
      (fun r => ∀ p ∈ r.1, w.Yields R p.1) (checkInferring instances c name arguments params k)
  | [], _, _ => .pure (by simp)
  | a :: rest, params, k => by
    simp only [Source.exprsNames, World.ready_append]
    have hhead (h : ∀ t ∈ params, w.vocabulary.Admits t) : w.Hints params.head? :=
      fun t ht => h t (List.mem_of_head? ht)
    refine .bind ((checks_checkExpr a params.head?).pre fun h => ⟨h.1.1, hhead h.2⟩) fun r => ?_
    have hlast (failed : Bool) : Checks (w.within (some i) R)
        ((w.Ready c (Source.exprsNames rest) ∧ ∀ t ∈ params, w.vocabulary.Admits t) ∧ w.Yields R r)
        (fun r => ∀ p ∈ r.1, w.Yields R p.1) (do
          let (typed, more) ← checkInferring instances c name rest params.tail (k + 1)
          return ((r, a.location) :: typed, failed || more)) := by
      refine .bind ((checks_checkInferring name rest params.tail (k + 1)).pre fun h =>
        ⟨h.1.1, fun t ht => h.1.2 t (List.mem_of_mem_tail ht)⟩) fun more => ?_
      exact .pure fun h => List.forall_mem_cons.2 ⟨h.1.2, h.2⟩
    refine .seq (.types fun _ => .isError r.2) fun _ => .ite ?_ ?_
    · exact (hlast true).pre fun h => ⟨⟨h.1.1.2, h.1.2⟩, h.2⟩
    · cases hp : params.head? with
      | none => exact (hlast false).pre fun h => ⟨⟨h.1.1.2, h.1.2⟩, h.2⟩
      | some p =>
        refine .seq (checks_checkConvertible (fun h => h.2.2) (fun h => hhead h.1.2 p hp) _)
          fun fits => (hlast !fits).pre fun h => ⟨⟨h.1.1.2, h.1.2⟩, h.2⟩

/-- Arguments name storage that is recorded. -/
theorem checks_checkArguments : ∀ (arguments : List Expr) (params : List Ty) (k : Nat),
    Checks (w.within (some i) R)
      (w.Ready c (Source.exprsNames arguments) ∧ ∀ t ∈ params, w.vocabulary.Admits t)
      (Checked.ExprsOver (w.Recorded R)) (checkArguments instances c arguments params k)
  | a :: rest, p :: params, k => by
    simp only [Source.exprsNames, World.ready_append, List.forall_mem_cons]
    refine .bind ((checks_checkExpr a (some p)).pre fun h => ⟨h.1.1, World.hints_some h.2.1⟩) fun r => ?_
    refine .bind (checks_useAs (fun h => h.2) (fun h => h.1.2.1) _) fun r' => ?_
    refine .bind ((checks_checkArguments rest params (k + 1)).pre fun h =>
      ⟨h.1.1.1.2, h.1.1.2.2⟩) fun es => ?_
    exact .pure fun h => ⟨h.1.2.1, h.2⟩
  | [], _, _ => .pure fun _ => trivial
  | _ :: _, [], _ => .pure fun _ => trivial

/-- Arguments of unknown types name storage that is recorded. -/
theorem checks_checkLoose : ∀ arguments : List Expr, Checks (w.within (some i) R)
    (w.Ready c (Source.exprsNames arguments)) (Checked.ExprsOver (w.Recorded R))
      (checkLoose instances c arguments)
  | [] => .pure fun _ => trivial
  | a :: rest => by
    simp only [Source.exprsNames, World.ready_append]
    refine .bind ((checks_checkExpr a none).pre fun h => ⟨h.1, World.hints_none⟩) fun r => ?_
    refine .bind ((checks_checkLoose rest).pre fun h => h.1.2) fun es => ?_
    exact .pure fun h => ⟨h.1.2.1, h.2⟩

/-- Fields of unknown types name storage that is recorded. -/
theorem checks_checkLooseFields : ∀ fields : List (String × Expr × Location),
    Checks (w.within (some i) R) (w.Ready c (Source.fieldsNames fields))
      (Checked.FieldsOver (w.Recorded R)) (checkLooseFields instances c fields)
  | [] => .pure fun _ => trivial
  | (name, a, l) :: rest => by
    simp only [Source.fieldsNames, World.ready_append]
    refine .bind ((checks_checkExpr a none).pre fun h => ⟨h.1, World.hints_none⟩) fun r => ?_
    refine .bind ((checks_checkLooseFields rest).pre fun h => h.1.2) fun es => ?_
    exact .pure fun h => ⟨h.1.2.1, h.2⟩

/-- Fields name storage that is recorded. -/
theorem checks_checkFields (whole : Ty) (members : List (Member Ty)) (seen : List String) :
    ∀ fields : List (String × Expr × Location), Checks (w.within (some i) R)
      (w.Ready c (Source.fieldsNames fields) ∧ ∀ m ∈ members, w.vocabulary.AdmitsMember m)
      (Checked.FieldsOver (w.Recorded R)) (checkFields instances c whole members seen fields)
  | [] => .pure fun _ => trivial
  | (name, a, l) :: rest => by
    simp only [Source.fieldsNames, World.ready_append]
    refine .bind (.types fun h => .findMember h.2 name) fun found => ?_
    cases found with
    | none =>
      refine .seq (.textOf whole) fun _ => .seq .noted fun _ => ?_
      refine .bind ((checks_checkExpr a none).pre fun h => ⟨h.1.1.1, World.hints_none⟩) fun r => ?_
      refine .bind ((checks_checkFields whole members seen rest).pre fun h =>
        ⟨h.1.1.1.2, h.1.1.2⟩) fun es => ?_
      exact .pure fun h => ⟨h.1.2.1, h.2⟩
    | some found =>
      have hrest (r : Typed) : Checks (w.within (some i) R)
          ((w.Ready c (Source.fieldsNames rest) ∧ ∀ m ∈ members, w.vocabulary.AdmitsMember m) ∧
            w.Yields R r) (Checked.FieldsOver (w.Recorded R)) (do
          return (name, r.1) :: (← checkFields instances c whole members (name :: seen) rest)) := by
        refine .bind ((checks_checkFields whole members (name :: seen) rest).pre And.left) fun es => ?_
        exact .pure fun h => ⟨h.1.2.1, h.2⟩
      have hlast : Checks (w.within (some i) R)
          (((w.Ready c a.names ∧ w.Ready c (Source.fieldsNames rest)) ∧
            ∀ m ∈ members, w.vocabulary.AdmitsMember m) ∧ w.vocabulary.Admits found.1.type)
          (Checked.FieldsOver (w.Recorded R)) (do
          let (e, t) ← checkExpr instances c a (some found.1.type)
          let fits ← checkConvertible c (some l) t found.1.type
            ("member " ++ name ++ " of " ++ (← textOf whole))
          let (e, _) ← if fits then coerce e t found.1.type else pure (e, t)
          return (name, e) :: (← checkFields instances c whole members (name :: seen) rest)) := by
        refine .bind ((checks_checkExpr a (some found.1.type)).pre fun h =>
          ⟨h.1.1.1, World.hints_some h.2⟩) fun r => ?_
        refine .seq (.textOf whole) fun _ => ?_
        refine .seq (checks_checkConvertible (fun h => h.2.2) (fun h => h.1.2) _) fun _ => .ite ?_ ?_
        · refine .bind (checks_coerce (fun h => h.2) fun h => h.1.2) fun r' => ?_
          exact (hrest r').pre fun h => ⟨⟨h.1.1.1.1.2, h.1.1.1.2⟩, h.2⟩
        · exact (hrest r).pre fun h => ⟨⟨h.1.1.1.2, h.1.1.2⟩, h.2⟩
      have hfound (h : ((w.Ready c a.names ∧ w.Ready c (Source.fieldsNames rest)) ∧
          ∀ m ∈ members, w.vocabulary.AdmitsMember m) ∧
          ∀ m ∈ some found, w.vocabulary.AdmitsMember m.1) := (h.2 found rfl).2
      exact .ite (.seq .noted fun _ => hlast.pre fun h => ⟨h.1, hfound h⟩)
        (hlast.pre fun h => ⟨h.1, hfound h⟩)

/-- Elements name storage that is recorded, and have an admitted type. -/
theorem checks_checkElements (element : Option Ty) (k : Nat) : ∀ elements : List Expr,
    Checks (w.within (some i) R) (w.Ready c (Source.exprsNames elements) ∧ w.Hints element)
      (fun r => Checked.ExprsOver (w.Recorded R) r.1 ∧ w.Hints r.2)
      (checkElements instances c element k elements)
  | [] => .pure fun h => ⟨trivial, h.2⟩
  | a :: rest => by
    simp only [Source.exprsNames, World.ready_append]
    refine .bind ((checks_checkExpr a element).pre fun h => ⟨h.1.1, h.2⟩) fun r => ?_
    have hrest (e : Checked.Expr) (t : Ty) : Checks (w.within (some i) R)
        (w.Ready c (Source.exprsNames rest) ∧ e.Over (w.Recorded R) ∧ w.vocabulary.Admits t)
        (fun r => Checked.ExprsOver (w.Recorded R) r.1 ∧ w.Hints r.2) (do
          let (more, element) ← checkElements instances c (some t) (k + 1) rest
          return (e :: more, element)) := by
      refine .bind ((checks_checkElements (some t) (k + 1) rest).pre fun h =>
        ⟨h.1, World.hints_some h.2.2⟩) fun more => ?_
      exact .pure fun h => ⟨⟨h.1.2.1, h.2.1⟩, h.2.2⟩
    cases element with
    | none =>
      refine .seq (checks_checkValueType (fun h => h.2.2) _) fun usable => ?_
      refine (hrest r.1 _).pre fun h => ⟨h.1.1.2, h.2.1, ?_⟩
      split
      · exact h.2.2
      · exact Vocabulary.admits_error
    | some want =>
      refine .bind (checks_useAs (fun h => h.2) (fun h => h.1.2 want rfl) _) fun r' => ?_
      exact (hrest r'.1 want).pre fun h => ⟨h.1.1.1.2, h.2.1, h.1.1.2 want rfl⟩

end

/-! ## Statements -/

omit hinstances hc in
/-- An initial value is yielded with the type of its variable. -/
theorem checks_checkInit (name : String) (location initLocation : Location) {type : Option Ty}
    {init : Typed} (ht : P → ∀ t ∈ type, S.vocabulary.Admits t) (hi : P → S.Yields O init) :
    Checks S P (S.Yields O) (checkInit c name location type init initLocation) := by
  cases type with
  | none =>
    refine .seq (checks_checkValueType (fun h => (hi h).2) _) fun usable => .pure fun h => ?_
    refine ⟨(hi h).1, ?_⟩
    dsimp only
    split
    · exact (hi h).2
    · exact Vocabulary.admits_error
  | some t =>
    have hplain (h : P) : S.Yields O (init.1, t) := ⟨(hi h).1, ht h t rfl⟩
    refine .seq (.types fun _ => .isError t) fun _ => .ite (.pure hplain) ?_
    refine .seq (.types fun _ => .isError init.2) fun _ => .ite (.pure hplain) ?_
    refine .bind (checks_useAs hi (fun h => ht h t rfl) _) fun r => .pure fun h => ?_
    exact ⟨h.2.1, ht h.1 t rfl⟩

omit hinstances hc in
/-- The written type of a variable is admitted. -/
theorem checks_checkVarType (name : String) (location : Location) (type : Option TypeExpr) :
    Checks S (S.vocabulary.Scopes c.scope ∧ S.vocabulary.AcceptsAll (Source.resultNames type))
      (fun r => ∀ t ∈ r, S.vocabulary.Admits t) (checkVarType c name location type) := by
  cases type with
  | none => exact .pure (by simp)
  | some t =>
    refine .bind (checks_checkWritten t) fun u => ?_
    refine .seq (checks_checkValueType And.right _) fun usable => .pure fun h u' hu' => ?_
    obtain rfl := Option.some.inj hu'
    split
    · exact h.2
    · exact Vocabulary.admits_error

/-- A condition names storage that is recorded. -/
theorem checks_checkCondition (e : Expr) : Checks (w.within (some i) R) (w.Ready c e.names)
    (Checked.Expr.Over (w.Recorded R)) (checkCondition instances c e) := by
  refine .bind ((checks_checkExpr hinstances hc e none).pre fun h => ⟨h, World.hints_none⟩) fun r => ?_
  refine .seq (.types fun _ => .isError r.2) fun _ => .ite ?_ (.pure fun h => h.2.1)
  refine .seq (.types fun h => .isIntegral h.2.2) fun _ => .ite ?_ (.pure fun h => h.2.1)
  exact .seq (.textOf _) fun _ => .failing

/-- An assignment names storage that is recorded. -/
theorem checks_checkAssign (target value : Expr) : Checks (w.within (some i) R)
    (w.Ready c (target.names ++ value.names)) (Checked.Stmt.Over (w.Recorded R))
    (checkAssign instances c target value) := by
  rw [World.ready_append]
  refine .bind ((checks_checkExpr hinstances hc target none).pre fun h =>
    ⟨h.1, World.hints_none⟩) fun l => ?_
  refine .bind ((checks_checkExpr hinstances hc value (some l.2)).pre fun h =>
    ⟨h.1.2, World.hints_some h.2.2⟩) fun r => ?_
  refine .seq (.types fun _ => .isError l.2) fun _ => .ite (.pure fun h => ⟨h.1.2.1, h.2.1⟩) ?_
  refine .seq (.types fun _ => .isError r.2) fun _ => .ite (.pure fun h => ⟨h.1.2.1, h.2.1⟩) ?_
  refine .ite (.seq (.textOf _) fun _ => .failing) ?_
  refine .bind (checks_useAs (fun h => h.2) (fun h => h.1.2.2) _) fun r' => ?_
  exact .pure fun h => ⟨h.1.1.2.1, h.2.1⟩

/-- A return names storage that is recorded. -/
theorem checks_checkReturn (value : Option Expr) (location : Location) :
    Checks (w.within (some i) R) (w.Ready c (Source.initNames value))
      (Checked.Stmt.Over (w.Recorded R)) (checkReturn instances c value location) := by
  refine .bind checks_result fun result => ?_
  cases result with
  | none =>
    cases value with
    | none => exact .failing
    | some e =>
      refine .fail fun _ => .seq ?_ fun _ => .pure False.elim
      exact ((checks_checkExpr hinstances hc e none).pre False.elim).drop
  | some ret =>
    cases value with
    | none =>
      have hplain : Checks (w.within (some i) R) (w.Ready c (Source.initNames none) ∧
          ∀ t ∈ some ret, w.vocabulary.Admits t) (Checked.Stmt.Over (w.Recorded R))
          (pure (Checked.Stmt.giveBack none)) := .pure fun _ => by simp [Checked.Stmt.Over]
      refine .seq (.types fun h => .isVoid (h.2 ret rfl)) fun _ => .ite ?_ hplain
      refine .seq (.types fun _ => .isError ret) fun _ => .ite ?_ hplain
      exact .seq (.textOf _) fun _ => .failing
    | some e =>
      refine .bind ((checks_checkExpr hinstances hc e (some ret)).pre fun h =>
        ⟨h.1, h.2⟩) fun r => ?_
      have hplain {Q : Prop} : Checks (w.within (some i) R) (Q ∧ w.Yields R r)
          (Checked.Stmt.Over (w.Recorded R)) (pure (Checked.Stmt.giveBack (some r))) :=
        .pure fun h => by simpa [Checked.Stmt.Over] using h.2.1
      refine .seq (.types fun _ => .isError r.2) fun _ => .ite hplain ?_
      refine .seq (.types fun _ => .isError ret) fun _ => .ite hplain ?_
      refine .seq (.types fun h => .isVoid (h.1.2 ret rfl)) fun _ => .ite ?_ ?_
      · exact .seq (.textOf _) fun _ => .failing
      · refine .bind (checks_useAs (fun h => h.2) (fun h => h.1.2 ret rfl) _) fun r' => ?_
        exact .pure fun h => by simpa [Checked.Stmt.Over] using h.2.1

omit hinstances in
/-- What is behind a pointer or a slice is given back. -/
theorem checks_deallocation (r : Typed) (place : Option Location) (location : Location)
    (slice : Option Bool) : Checks (w.within (some i) R) (P ∧ w.Yields R r)
      (Checked.Stmt.Over (w.Recorded R)) (match slice with
        | none => do
          reportError c.scope place .notPointer
            ("cannot delete a value of type " ++ (← textOf r.2))
          return Checked.Stmt.delete r.1 false none
        | some slice => do
          return .delete r.1 slice (← heapFunction c "dealloc" deallocSignature (some location))) := by
  cases slice with
  | none => exact .seq (.textOf _) fun _ => .failing
  | some slice =>
    refine .bind (checks_heapFunction hc _ (by simp)) fun found => ?_
    exact .pure fun h => ⟨h.1.2.1, h.2⟩

/-- Giving back memory names storage that is recorded. -/
theorem checks_checkDelete (value : Expr) (location : Location) :
    Checks (w.within (some i) R) (w.Ready c value.names) (Checked.Stmt.Over (w.Recorded R))
      (checkDelete instances c value location) := by
  refine .bind ((checks_checkExpr hinstances hc value none).pre fun h =>
    ⟨h, World.hints_none⟩) fun r => ?_
  refine .seq (.types fun _ => .isError r.2) fun _ => .ite (.pure fun h => ⟨h.2.1, by simp⟩) ?_
  refine .seq (.types fun h => (Keeps.resolve h.2.2).drop) fun shape => ?_
  cases shape with
  | pointer e l => exact checks_deallocation hc r (some value.location) location (some false)
  | slice e l => exact checks_deallocation hc r (some value.location) location (some true)
  | _ => exact checks_deallocation hc r (some value.location) location none

/-- A local variable names storage that is recorded. -/
theorem checks_checkVar (name : String) (type : Option TypeExpr) (init : Option Expr)
    (location : Location) : Checks (w.within (some i) R)
      (w.Ready c (Source.resultNames type ++ Source.initNames init))
      (Checked.Stmt.Over (w.Recorded R)) (checkVar instances c name type init location) := by
  rw [World.ready_append]
  refine .bind ((checks_checkVarType name location type).pre And.left) fun t => ?_
  cases init with
  | none =>
    have hlast (u : Ty) : Checks (w.within (some i) R) (w.vocabulary.Admits u)
        (Checked.Stmt.Over (w.Recorded R)) (do
          return Checked.Stmt.var (← c.declare name u .automatic (some location)) none) :=
      .bind (checks_declare hc (fun h => h) _ _ _) fun st => .pure And.right
    cases t with
    | none => exact .fail fun _ => (hlast .error).pre False.elim
    | some t => exact (hlast t).pre fun h => h.2 t rfl
  | some e =>
    refine .bind ((checks_checkExpr hinstances hc e t).pre fun h => ⟨h.1.2, h.2⟩) fun typed => ?_
    refine .bind (checks_checkInit name location e.location (fun h => h.1.2) fun h => h.2) fun r => ?_
    refine .bind (checks_declare hc (fun h => h.2.2) _ _ _) fun st => .pure fun h => ?_
    exact ⟨h.2, h.1.2.1⟩

mutual

/-- A statement names storage that is recorded. -/
theorem checks_checkStmt : ∀ s : Stmt, Checks (w.within (some i) R) (w.Ready c s.names)
    (Checked.Stmt.Over (w.Recorded R)) (checkStmt instances c s)
  | .expression e l => .bind ((checks_checkExpr hinstances hc e none).pre fun h =>
      ⟨h, World.hints_none⟩) fun _ => .pure fun h => h.2.1
  | .var name type init l => checks_checkVar hinstances hc name type init l
  | .assign target value l => checks_checkAssign hinstances hc target value
  | .cond condition yes no l => by
    simp only [Stmt.names, World.ready_append]
    refine .bind ((checks_checkCondition hinstances hc condition).pre fun h => h.1.1) fun e => ?_
    refine .bind ((checks_checkBlock yes).pre fun h => h.1.1.2) fun ys => ?_
    refine .bind ((checks_checkBlock no).pre fun h => h.1.1.2) fun ns => ?_
    exact .pure fun h => ⟨h.1.1.2, h.1.2, h.2⟩
  | .whileLoop condition body l => by
    simp only [Stmt.names, World.ready_append]
    refine .bind ((checks_checkCondition hinstances hc condition).pre And.left) fun e => ?_
    refine .seq (checks_enterLoop hc) fun _ => ?_
    refine .bind ((checks_checkBlock body).pre fun h => h.1.2) fun ss => ?_
    exact .seq (checks_leaveLoop hc) fun _ => .pure fun h => ⟨h.1.2, h.2⟩
  | .forLoop init condition step body l => by
    simp only [Stmt.names, World.ready_append]
    refine .seq (checks_push hc) fun _ => ?_
    refine .bind ((checks_checkOptionStmt init).pre fun h => h.1.1.1) fun first => ?_
    have hrest (e : Option Checked.Expr) : Checks (w.within (some i) R)
        ((w.Ready c (Source.stepNames step) ∧ w.Ready c (Source.stmtsNames body)) ∧
          Checked.StmtOver? (w.Recorded R) first ∧ ∀ e' ∈ e, e'.Over (w.Recorded R))
        (Checked.Stmt.Over (w.Recorded R)) (do
          c.enterLoop
          let body ← checkBlock instances c body
          c.leaveLoop
          let step ← checkOptionStmt instances c step
          c.pop
          return Checked.Stmt.forLoop first e step body) := by
      refine .seq (checks_enterLoop hc) fun _ => ?_
      refine .bind ((checks_checkBlock body).pre fun h => h.1.2) fun ss => ?_
      refine .seq (checks_leaveLoop hc) fun _ => ?_
      refine .bind ((checks_checkOptionStmt step).pre fun h => h.1.1.1) fun last => ?_
      exact .seq (checks_pop hc) fun _ => .pure fun h => ⟨h.1.1.2.1, h.1.1.2.2, h.2, h.1.2⟩
    cases condition with
    | none => exact (hrest none).pre fun h => ⟨⟨h.1.1.2, h.1.2⟩, h.2, by simp⟩
    | some e =>
      refine .bind (.map (R := fun r => ∀ e' ∈ r, e'.Over (w.Recorded R)) ?_) fun r =>
        (hrest r).pre fun h => ⟨⟨h.1.1.1.2, h.1.1.2⟩, h.1.2, h.2⟩
      exact (checks_checkCondition hinstances hc e).mono (fun h => h.1.1.1.2) fun _ r hr => by
        simpa using hr
  | .breakLoop l => by
    refine .seq checks_inLoop fun _ => .ite .failing ?_
    exact .pure fun _ => trivial
  | .giveBack value l => checks_checkReturn hinstances hc value l
  | .block body l => .bind (checks_checkBlock body) fun _ => .pure And.right
  | .delete value l => checks_checkDelete hinstances hc value l

/-- A statement that may be missing names storage that is recorded. -/
theorem checks_checkOptionStmt : ∀ s : Option Stmt, Checks (w.within (some i) R)
    (w.Ready c (Source.stepNames s)) (Checked.StmtOver? (w.Recorded R))
    (checkOptionStmt instances c s)
  | none => .pure fun _ => trivial
  | some s => .map (checks_checkStmt s)

/-- Statements name storage that is recorded. -/
theorem checks_checkStmts : ∀ ss : List Stmt, Checks (w.within (some i) R)
    (w.Ready c (Source.stmtsNames ss)) (Checked.StmtsOver (w.Recorded R))
    (checkStmts instances c ss)
  | [] => .pure fun _ => trivial
  | s :: rest => by
    simp only [Source.stmtsNames, World.ready_append]
    refine .bind ((checks_checkStmt s).pre And.left) fun r => ?_
    exact .bind ((checks_checkStmts rest).pre fun h => h.1.2) fun rs => .pure fun h => ⟨h.1.2, h.2⟩

/-- A block names storage that is recorded. -/
theorem checks_checkBlock : ∀ ss : List Stmt, Checks (w.within (some i) R)
    (w.Ready c (Source.stmtsNames ss)) (Checked.StmtsOver (w.Recorded R))
    (checkBlock instances c ss)
  | [] => .seq (checks_push hc) fun _ => .seq (checks_pop hc) fun _ => .pure fun _ => trivial
  | s :: rest => by
    simp only [Source.stmtsNames, World.ready_append]
    refine .seq (checks_push hc) fun _ => ?_
    refine .bind ((checks_checkStmt s).pre And.left) fun r => ?_
    refine .bind ((checks_checkStmts rest).pre fun h => h.1.2) fun rs => ?_
    exact .seq (checks_pop hc) fun _ => .pure fun h => ⟨h.1.2, h.2⟩

end

end Walk

end Qll.Check
