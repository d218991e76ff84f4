import Qll.Proofs.Program.Naming

/-!
# Entering declarations

What holds of the tables of types, functions and templates, and of the gravest report, while
declarations are entered: it is kept by every step that leaves these, and by every new entry as it is
made.
-/

namespace Qll.Program

open Qll.Computation
open Check (State Space CheckM onTypes check_bind_ok check_pure_ok check_get_ok check_set_ok check_modify_ok)
open Source (Decl Location TypeExpr)
open Qll.Types (Ty Scope TypeM)

/-- What entering a declaration keeps. -/
structure Enters (I : State → Prop) : Prop where
  aside : ∀ {s s'}, s'.typeItems = s.typeItems → s'.functions = s.functions → s'.templates = s.templates →
    s'.bodies = s.bodies → (s.Graded → s'.Graded) → I s → I s'
  typeItem : ∀ {s item}, ':' ∈ item.qualified.toList → I s → I { s with typeItems := s.typeItems.push item }
  function : ∀ {s f}, f.checked = none → f.scope.chain = [] → I s →
    I { s with functions := s.functions.push f }
  template : ∀ {s t}, t.instances = [] → I s → I { s with templates := s.templates.push t }

namespace Enters

set_option linter.unusedSectionVars false

variable {I : State → Prop} (h : Enters I) {space : Nat} {name : String} {l : Option Location}
include h

/-- Work on types leaves all items and bodies alone. -/
theorem onTypes {α : Type} {x : TypeM α} : Preserves I (onTypes x) := by
  intro s a s' hrun hs
  obtain ⟨T, -, rfl⟩ := Check.onTypes_ok hrun
  exact h.aside (s := s) rfl rfl rfl rfl (fun h => h) hs

/-- Reading a namespace changes nothing. -/
theorem getSpace : Preserves I (getSpace space) := by
  intro s entry s' hrun hs
  obtain ⟨-, rfl⟩ := getSpace_eq hrun
  exact hs

/-- Making a qualified name changes nothing. -/
theorem qualify : Preserves I (qualify space name) := .bind h.getSpace fun _ => .pure

/-- A change to a namespace keeps what does not depend on the namespaces. -/
theorem modifySpace {f : Space → Space} : Preserves I (modifySpace space f) := by
  intro s u s' hrun hs
  obtain rfl := check_modify_ok.1 hrun
  exact h.aside (s := s) rfl rfl rfl rfl (fun h => h) hs

/-- Adding a type keeps what its parts keep. -/
theorem addType {b : Types.Binding} : Preserves I (addType space name b l) := by
  intro s free s' hrun hs
  obtain ⟨-, rfl⟩ | ⟨-, report, hreport, rfl⟩ := addType_ok hrun
  · exact h.aside (s := s) rfl rfl rfl rfl (fun h => h) hs
  · exact h.aside (s := s) rfl rfl rfl rfl (State.graded_push fun _ => hreport) hs

/-- Adding a value keeps what its parts keep. -/
theorem addValue {st : Check.Storage} : Preserves I (addValue space name st l) := by
  intro s free s' hrun hs
  obtain ⟨-, rfl⟩ | ⟨-, report, hreport, rfl⟩ := addValue_ok hrun
  · exact h.aside (s := s) rfl rfl rfl rfl (fun h => h) hs
  · exact h.aside (s := s) rfl rfl rfl rfl (State.graded_push fun _ => hreport) hs

/-- A new storage keeps what its parts keep. -/
theorem newStorage {qualified : String} {type : Ty} {kind : Check.StorageClass} :
    Preserves I (Check.Context.newStorage name qualified type kind l) := by
  intro s st s' hrun hs
  obtain ⟨-, rfl⟩ := Check.newStorage_ok hrun
  exact h.aside (s := s) rfl rfl rfl rfl (fun h => h) hs

/-- Type parameters keep what their parts keep. -/
theorem typeParams {names : List String} : Preserves I (typeParams names l) :=
  .bind (.mapM fun _ _ => h.onTypes) fun _ => .pure

/-- Parameters keep what their parts keep. -/
theorem internParams {params : List Source.Parameter} : Preserves I (internParams params) :=
  .mapM fun _ _ => .bind h.onTypes fun _ => .pure

/-- A value is entered, and then its item. -/
theorem item {st : Check.Storage} {f : State → State} (hf : ∀ s, I s → I (f s)) :
    Preserves I (do if ← Program.addValue space name st l then modify f : CheckM Unit) := by
  refine .bind h.addValue fun free => .ite (fun s u s' hrun hs => ?_) .pure
  obtain rfl := check_modify_ok.1 hrun
  exact hf s hs

/-- A declared type gets a qualified name. -/
theorem declareType {params : List String} {definition : TypeExpr} :
    Preserves I (declareType space name params definition l) := by
  intro s u s' hrun hs
  obtain ⟨qualified, s₁, hqualify, h₁⟩ := check_bind_ok.1 hrun
  have hcolon : ':' ∈ qualified.toList := by
    obtain ⟨entry, s₂, -, hlast⟩ := check_bind_ok.1 hqualify
    obtain ⟨rfl, -⟩ := check_pure_ok.1 hlast
    simp [separator]
  have hlast (type : Ty) (scope : Scope) : Preserves I (do
      if ← Program.addType space name { qualified, type, scope := some scope } l then
        modify fun s => { s with typeItems := s.typeItems.push { qualified, type, scope } }
      : CheckM Unit) := by
    refine .bind h.addType fun free => .ite (fun s u s' hrun hs => ?_) .pure
    obtain rfl := check_modify_ok.1 hrun
    exact h.typeItem hcolon hs
  refine (?_ : Preserves I _) s₁ u s' h₁ (h.qualify s _ s₁ hqualify hs)
  refine .bind h.onTypes fun t => ?_
  split
  · exact hlast _ _
  · exact .bind h.typeParams fun _ => .bind h.onTypes fun _ => hlast _ _

/-- Declaring a global keeps what its parts keep. -/
theorem declareGlobal {type : Option TypeExpr} {init : Option Source.Expr} {exported : Bool} :
    Preserves I (declareGlobal space name type init exported l) := by
  have hlast {qualified : String} {type : Ty} {f : Check.Storage → State → State}
      (hf : ∀ st s, I s → I (f st s)) : Preserves I (do
        let storage ← Check.Context.newStorage name qualified type .global l
        if ← Program.addValue space name storage l then modify (f storage) : CheckM Unit) :=
    .bind h.newStorage fun st => h.item (hf st)
  have hglobal (s : State) (globals : Array Check.GlobalItem) (hs : I s) : I { s with globals } :=
    h.aside (s := s) rfl rfl rfl rfl (fun h => h) hs
  refine .bind h.qualify fun qualified => ?_
  cases type with
  | some t =>
    refine .bind (.map h.onTypes) fun written => ?_
    cases written with
    | some t => exact .bind .pure fun _ => hlast fun _ s hs => hglobal s _ hs
    | none => exact .bind (.map h.onTypes) fun _ => hlast fun _ s hs => hglobal s _ hs
  | none =>
    refine .bind .pure fun written => ?_
    cases written with
    | some t => exact .bind .pure fun _ => hlast fun _ s hs => hglobal s _ hs
    | none => exact .bind (.map h.onTypes) fun _ => hlast fun _ s hs => hglobal s _ hs

/-- Declaring a function keeps what its parts keep. -/
theorem declareFunction {params : List Source.Parameter} {result : Option TypeExpr}
    {body : List Source.Stmt} {exported interrupt : Bool} :
    Preserves I (declareFunction space name params result body exported interrupt l) :=
  .bind h.qualify fun _ => .bind h.internParams fun _ => .bind h.onTypes fun _ =>
    .bind h.newStorage fun _ => h.item fun _ hs => h.function rfl rfl hs

/-- Declaring a template keeps what its parts keep. -/
theorem declareTemplate {typeNames : List String} {params : List Source.Parameter}
    {result : Option TypeExpr} {body : List Source.Stmt} :
    Preserves I (declareTemplate space name typeNames params result body l) :=
  .bind h.qualify fun _ => .bind h.typeParams fun _ => .bind h.internParams fun _ =>
    .bind h.onTypes fun _ => .bind h.onTypes fun _ => .bind h.newStorage fun _ =>
      h.item fun _ hs => h.template rfl hs

/-- Declaring an import keeps what its parts keep. -/
theorem declareImport : Preserves I (declareImport space name l) := by
  refine .get fun s hs => .bind (fun s' u s'' hrun _ => ?_) fun _ => h.modifySpace
  obtain rfl := check_set_ok.1 hrun
  exact h.aside (s := s) rfl rfl rfl rfl (fun h => h) hs

/-- Making a namespace, or finding the one that is there, keeps what its parts keep. -/
theorem childSpace : Preserves I (childSpace space name) := by
  refine .bind h.getSpace fun entry => ?_
  cases entry.children.lookup name with
  | some child => exact .pure
  | none =>
    refine .get fun s hs => .bind (fun s' u s'' hrun _ => ?_) fun _ => .bind h.modifySpace fun _ => .pure
    obtain rfl := check_set_ok.1 hrun
    exact h.aside (s := s) rfl rfl rfl rfl (fun h => h) hs

mutual

/-- A declaration is entered. -/
theorem declare (space : Nat) : ∀ decl : Decl, Preserves I (declare space decl)
  | .type .. => h.declareType
  | .global .. => h.declareGlobal
  | .function _ [] .. => h.declareFunction
  | .function _ (_ :: _) .. => h.declareTemplate
  | .use .. => h.declareImport
  | .space _ decls _ => .bind h.childSpace fun child => declareAll child decls

/-- Declarations are entered. -/
theorem declareAll (space : Nat) : ∀ decls : List Decl, Preserves I (declareAll space decls)
  | [] => .pure
  | decl :: decls => .bind (declare space decl) fun _ => declareAll space decls

end

end Enters

/-- No report of a declaration is graver than an error. -/
theorem graded_enters : Enters State.Graded where
  aside _ _ _ _ hgraded hs := hgraded hs
  typeItem _ hs := hs
  function _ _ hs := hs
  template _ hs := hs

end Qll.Program
