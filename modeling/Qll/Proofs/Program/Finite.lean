import Qll.Proofs.Check.Accepted
import Qll.Proofs.Program.Headers
import Qll.Proofs.Program.Recursion
import Qll.Proofs.Types.Extents

/-!
# Accepted types are finite

The stages up to the kind stage enter type declarations, templates of types included, and follow each
of them. If no error was reported, shapes and sizes of the declared types, and the members of their
structs, are found in finitely many steps.
-/

namespace Qll.Source

/-- A declaration of a type or of a template of one, an import, or a namespace of such declarations. -/
inductive Decl.OnlyTypes : Decl → Prop
  | type {name params t l} : OnlyTypes (.type name params t l)
  | use {name l} : OnlyTypes (.use name l)
  | space {name decls l} (h : ∀ d ∈ decls, OnlyTypes d) : OnlyTypes (.space name decls l)

end Qll.Source

namespace Qll.Check

open Qll.Computation
open Source (TypeExpr Location)
open Qll.Types (Ty Member Store Steady Appends Moves Ranged plainParts typesOver_iff membersOver_iff)

/-! ## Written types -/

/-- A written type has its entries in the store, and neither variables nor templates. -/
def Interned (T : Store) (t : Ty) : Prop := Ranged T t ∧ t.Over plainParts

/-- A written type keeps its entries when others are appended. -/
theorem Interned.appends {T T' : Store} {t : Ty} (h : Interned T t) (hT : Appends T T') : Interned T' t :=
  ⟨h.1.extends hT.extends, h.2⟩

mutual

/-- A written type is entered. -/
theorem moves_internType {T : Store} (hT : Steady T) :
    ∀ t : TypeExpr, Moves Appends T Interned (internType t)
  | .name text l => by
    unfold internType
    refine (Types.moves_newName hT text (some l)).mono fun u T' _ hu => ?_
    obtain ⟨id, rfl, hid⟩ := hu
    exact ⟨.name hid, trivial⟩
  | .pointer e l => by
    unfold internType
    exact .bind (moves_internType hT e) fun u T' hT' _ hu => .pure hT' ⟨.pointer hu.1, hu.2⟩
  | .slice e l => by
    unfold internType
    exact .bind (moves_internType hT e) fun u T' hT' _ hu => .pure hT' ⟨.slice hu.1, hu.2⟩
  | .array e n l => by
    unfold internType
    exact .bind (moves_internType hT e) fun u T' hT' _ hu => .pure hT' ⟨.array hu.1, hu.2⟩
  | .struct ms l => by
    unfold internType
    refine .bind (moves_internMembers hT ms) fun us T' hT' _ hus => .pure hT' ⟨.struct fun m hm =>
      (hus m hm).1, membersOver_iff.2 fun m hm => ⟨trivial, (hus m hm).2⟩⟩
  | .function as r l => by
    unfold internType
    refine .bind (moves_internTypes hT as) fun us T₁ hT₁ _ hus => ?_
    refine .bind (moves_internResult hT₁ r) fun u T₂ hT₂ hrel hu => .pure hT₂ ⟨?_, ?_⟩
    · exact .function (fun a ha => ((hus a ha).appends hrel).1) hu.1
    · exact ⟨typesOver_iff.2 fun a ha => (hus a ha).2, hu.2⟩
  | .apply text as l => by
    unfold internType
    refine .bind (moves_internTypes hT as) fun us T₁ hT₁ _ hus => ?_
    refine (Types.moves_newApply hT₁ text us (some l)).mono fun u T₂ hrel hu => ?_
    obtain ⟨id, head, rfl, hid, hhead⟩ := hu
    exact ⟨.apply hid hhead fun a ha => ((hus a ha).appends hrel).1, trivial,
      typesOver_iff.2 fun a ha => (hus a ha).2⟩
  | .dot b m l => by
    unfold internType
    exact .bind (moves_internType hT b) fun u T' hT' _ hu => .pure hT' ⟨.dot hu.1, hu.2, trivial⟩

/-- Written types get their entries one after another. -/
theorem moves_internTypes {T : Store} (hT : Steady T) :
    ∀ ts : List TypeExpr, Moves Appends T (fun T' us => ∀ u ∈ us, Interned T' u) (internTypes ts)
  | [] => .pure hT (by simp)
  | t :: ts => by
    unfold internTypes
    refine .bind (moves_internType hT t) fun u T₁ hT₁ _ hu => ?_
    refine .bind (moves_internTypes hT₁ ts) fun us T₂ hT₂ hrel hus => .pure hT₂ ?_
    simpa using ⟨hu.appends hrel, hus⟩

/-- Written members get their entries one after another. -/
theorem moves_internMembers {T : Store} (hT : Steady T) : ∀ ms : List (String × TypeExpr × Location),
    Moves Appends T (fun T' us => ∀ u ∈ us, Interned T' u.type) (internMembers ms)
  | [] => .pure hT (by simp)
  | (name, t, l) :: ms => by
    unfold internMembers
    refine .bind (moves_internType hT t) fun u T₁ hT₁ _ hu => ?_
    refine .bind (moves_internMembers hT₁ ms) fun us T₂ hT₂ hrel hus => .pure hT₂ ?_
    simpa using ⟨hu.appends hrel, hus⟩

/-- A written result gets its entries, or there is none. -/
theorem moves_internResult {T : Store} (hT : Steady T) :
    ∀ t : Option TypeExpr, Moves Appends T Interned (internResult t)
  | none => .pure hT ⟨.builtin, trivial⟩
  | some t => moves_internType hT t

end

end Qll.Check

namespace Qll.Program

open Qll.Computation
open Check (State Space CheckM Ready Onto Advances check_bind_ok check_pure_ok check_get_ok check_set_ok
  check_modify_ok)
open Source (Decl Location TypeExpr)
open Qll.Types (Ty Store Binding Steady Extends Ranged Layout Finishes Settles)

/-! ## Declarations -/

/-- Only types are declared, and the tables refer to entries of the store. -/
structure TypesOnly (s : State) : Prop extends Ready s where
  others : s.globals = #[] ∧ s.functions = #[] ∧ s.templates = #[]

section Declare

variable {s s' : State} {d : Check.Directory} {space : Nat} {name : String} {l : Option Location}

/-- A later store has the entries of an earlier one, and no variable with a type. -/
theorem TypesOnly.store (hs : TypesOnly s) {T : Store} (hT : Steady T)
    (hnames : s.types.names.size ≤ T.names.size) (happlies : s.types.applies.size ≤ T.applies.size) :
    TypesOnly { s with types := T } where
  types := hT
  spaces n hn p hp := ⟨(hs.spaces n hn p hp).1.mono hnames happlies, (hs.spaces n hn p hp).2⟩
  items item hitem := ⟨(hs.items item hitem).1.mono hnames happlies, (hs.items item hitem).2⟩
  others := hs.others

/-- The tables of a namespace get the entry of a type, or none. -/
theorem TypesOnly.changeSpace (hs : TypesOnly s) {f : Space → Space}
    (hf : ∀ n, ∀ p ∈ (f n).types, p ∈ n.types ∨
      Ranged s.types p.2.type ∧ ∀ scope ∈ p.2.scope, scope.OnlyVars) :
    TypesOnly { s with spaces := s.spaces.modify space f } where
  types := hs.types
  spaces n hn p hp := by
    obtain hn | ⟨old, hold, rfl⟩ := Check.mem_modify hn
    · exact hs.spaces n hn p hp
    · exact (hf old p hp).elim (hs.spaces old hold p) fun h => h
  items := hs.items
  others := hs.others

/-- A new variable is unbound. -/
theorem steady_push_var {T : Store} (hT : Steady T) (name : String) (l : Option Location) :
    Steady { T with vars := T.vars.push { name, location := l } } where
  binding hb := ⟨(hT.binding hb).1.mono (Nat.le_refl _) (Nat.le_refl _), (hT.binding hb).2⟩
  result he ht := (hT.result he ht).mono (Nat.le_refl _) (Nat.le_refl _)
  body he := ⟨(hT.body he).1.mono (Nat.le_refl _) (Nat.le_refl _), (hT.body he).2⟩
  instances he hp := (hT.instances he hp).mono (Nat.le_refl _) (Nat.le_refl _)
  unbound v := by
    simp only [Store.bound?, Array.getElem?_push]
    split
    · rfl
    · exact hT.unbound v

/-- A new template has its body, and no instances. -/
theorem steady_push_template {T : Store} (hT : Steady T) {body : Ty} (hbody : Check.Interned T body)
    (params : List Nat) (l : Option Location) :
    Steady { T with templates := T.templates.push { params, body, location := l } } where
  binding hb := ⟨(hT.binding hb).1.mono (Nat.le_refl _) (Nat.le_refl _), (hT.binding hb).2⟩
  result he ht := (hT.result he ht).mono (Nat.le_refl _) (Nat.le_refl _)
  body {id e} he := by
    simp only [Array.getElem?_push] at he
    split at he
    · cases he
      exact ⟨hbody.1.mono (Nat.le_refl _) (Nat.le_refl _), hbody.2⟩
    · exact ⟨(hT.body he).1.mono (Nat.le_refl _) (Nat.le_refl _), (hT.body he).2⟩
  instances {id e p} he hp := by
    simp only [Array.getElem?_push] at he
    split at he
    · cases he
      simp at hp
    · exact (hT.instances he hp).mono (Nat.le_refl _) (Nat.le_refl _)
  unbound := hT.unbound

/-- The parameters of a template are new variables. -/
theorem typeParams_ok (hs : TypesOnly s) {names : List String} {r : List Nat × List (String × Ty)}
    (h : typeParams names l d s = .ok r s') :
    TypesOnly s' ∧ s'.types.names = s.types.names ∧ s'.types.applies = s.types.applies ∧
      ∀ p ∈ r.2, ∃ v, p.2 = .var v := by
  obtain ⟨vars, s₁, hvars, hlast⟩ := check_bind_ok.1 h
  obtain ⟨rfl, rfl⟩ := check_pure_ok.1 hlast
  have hstore : TypesOnly s₁ ∧ s₁.types.names = s.types.names ∧ s₁.types.applies = s.types.applies := by
    clear hlast h
    induction names generalizing s vars with
    | nil =>
      obtain ⟨-, rfl⟩ := check_pure_ok.1 hvars
      exact ⟨hs, rfl, rfl⟩
    | cons n rest ih =>
      rw [List.mapM_cons] at hvars
      obtain ⟨v, s₂, hv, hvars⟩ := check_bind_ok.1 hvars
      obtain ⟨vs, s₃, hvs, hlast⟩ := check_bind_ok.1 hvars
      obtain ⟨-, rfl⟩ := check_pure_ok.1 hlast
      obtain ⟨T, hvar, rfl⟩ := Check.onTypes_ok hv
      simp only [Types.newVar, bind_ok, get_ok, set_ok, pure_ok] at hvar
      obtain ⟨_, _, ⟨rfl, rfl⟩, _, _, rfl, -, rfl⟩ := hvar
      have hs₂ := hs.store (steady_push_var hs.types n l) (Nat.le_refl _) (Nat.le_refl _)
      have hrest := ih hs₂ vs hvs
      exact hrest
  refine ⟨hstore.1, hstore.2.1, hstore.2.2, fun p hp => ?_⟩
  obtain ⟨v, -, hv⟩ := List.mem_map.1 (List.of_mem_zip (List.mem_reverse.1 hp)).2
  exact ⟨v, hv.symm⟩

/-- A type is entered together with its item, unless its name is taken. -/
theorem TypesOnly.enter (hs : TypesOnly s) {qualified : String} {type : Ty} {scope : Types.Scope}
    (htype : Ranged s.types type) (hscope : scope.OnlyVars) {u : Unit}
    (h : (do
      if ← addType space name { qualified, type, scope := some scope } l then
        modify fun s => { s with typeItems := s.typeItems.push { qualified, type, scope } }
      : CheckM Unit) d s = .ok u s') : TypesOnly s' := by
  obtain ⟨free, s₁, hadd, h₁⟩ := check_bind_ok.1 h
  obtain ⟨rfl, rfl⟩ | ⟨rfl, _, -, rfl⟩ := addType_ok hadd
  · obtain rfl := check_modify_ok.1 h₁
    let f (n : Space) : Space :=
      { n with types := (name, { qualified, type, scope := some scope }) :: n.types }
    have hentered : TypesOnly { s with spaces := s.spaces.modify space f } :=
      hs.changeSpace fun n p hp => (List.mem_cons.1 hp).symm.imp_right fun hp => by
        subst hp
        simpa using ⟨htype, hscope⟩
    exact ⟨⟨hs.types, hentered.spaces, Check.forall_push hs.items ⟨htype, hscope⟩⟩, hs.others⟩
  · obtain ⟨-, rfl⟩ := check_pure_ok.1 h₁
    exact ⟨⟨hs.types, hs.spaces, hs.items⟩, hs.others⟩

/-- A type or a template of one is declared. -/
theorem typesOnly_declareType (hs : TypesOnly s) {params : List String} {definition : TypeExpr}
    {u : Unit} (h : declareType space name params definition l d s = .ok u s') : TypesOnly s' := by
  obtain ⟨qualified, s₁, hqualify, h₁⟩ := check_bind_ok.1 h
  obtain ⟨-, -, -, rfl⟩ := qualify_eq hqualify
  obtain ⟨t, s₃, hintern, h₂⟩ := check_bind_ok.1 h₁
  obtain ⟨T, hT, rfl⟩ := Check.onTypes_ok hintern
  obtain ⟨hsteady, happends, ht⟩ := Check.moves_internType hs.types definition t T hT
  have hs₃ := hs.store hsteady happends.extends.names happends.extends.applies
  split at h₂
  · exact hs₃.enter ht.1 (by simp [Types.Scope.OnlyVars, scopeOf]) h₂
  · obtain ⟨⟨vars, bound⟩, s₄, hparams, h₃⟩ := check_bind_ok.1 h₂
    obtain ⟨hs₄, hnames, happlies, hbound⟩ := typeParams_ok hs₃ hparams
    obtain ⟨template, s₅, htemplate, h₄⟩ := check_bind_ok.1 h₃
    obtain ⟨T', hnew, rfl⟩ := Check.onTypes_ok htemplate
    cases hnew
    have hscope : Types.Scope.OnlyVars { scopeOf space with params := bound } := hbound
    have ht₄ : Check.Interned s₄.types t :=
      ⟨ht.1.mono (by rw [hnames]) (by rw [happlies]), ht.2⟩
    exact (hs₄.store (steady_push_template hs₄.types ht₄ vars l) (Nat.le_refl _) (Nat.le_refl _)).enter
      .template hscope h₄

/-- An import is declared. -/
theorem typesOnly_declareImport (hs : TypesOnly s) {u : Unit}
    (h : declareImport space name l d s = .ok u s') : TypesOnly s' := by
  obtain rfl := declareImport_ok h
  have himports : TypesOnly { s with imports := s.imports.push { owner := space, name, location := l } } :=
    ⟨⟨hs.types, hs.spaces, hs.items⟩, hs.others⟩
  exact himports.changeSpace fun _ _ hp => .inl hp

/-- The search for a nested namespace declares nothing but types. -/
theorem typesOnly_childSpace (hs : TypesOnly s) {child : Nat}
    (h : childSpace space name d s = .ok child s') : TypesOnly s' := by
  obtain ⟨entry, -, ⟨-, rfl⟩ | ⟨-, -, rfl⟩⟩ := childSpace_ok h
  · exact hs
  · let new : Space := { name, qualified := entry.qualified ++ separator ++ name, parent := some space }
    have hpushed : TypesOnly { s with spaces := s.spaces.push new } :=
      ⟨⟨hs.types, Check.forall_push hs.spaces (by simp [new]), hs.items⟩, hs.others⟩
    exact hpushed.changeSpace fun _ _ hp => .inl hp

/-- Declarations of types are entered one by one. -/
theorem typesOnly_declareAll {decls : List Decl} (hdecls : ∀ decl ∈ decls, ∀ {s s' : State} {space : Nat}
      {u : Unit}, TypesOnly s → declare space decl d s = .ok u s' → TypesOnly s')
    (hs : TypesOnly s) {u : Unit} (h : declareAll space decls d s = .ok u s') : TypesOnly s' := by
  induction decls generalizing s with
  | nil =>
    obtain ⟨-, rfl⟩ := check_pure_ok.1 h
    exact hs
  | cons decl rest ih =>
    obtain ⟨_, s₁, hfirst, hrest⟩ := check_bind_ok.1 h
    exact ih (fun decl hdecl => hdecls decl (by simp [hdecl])) (hdecls decl (by simp) hs hfirst) hrest

/-- A declaration of types is entered. -/
theorem typesOnly_declare {decl : Decl} (hdecl : decl.OnlyTypes) (hs : TypesOnly s) {u : Unit}
    (h : declare space decl d s = .ok u s') : TypesOnly s' := by
  induction hdecl generalizing s s' space u with
  | type => exact typesOnly_declareType hs h
  | use => exact typesOnly_declareImport hs h
  | space _ ih =>
    obtain ⟨child, s₁, hchild, h₁⟩ := check_bind_ok.1 h
    exact typesOnly_declareAll (fun decl hdecl _ _ _ _ hs h => ih decl hdecl hs h)
      (typesOnly_childSpace hs hchild) h₁

/-- At first nothing is declared. -/
theorem typesOnly_emptyState (n : Nat) : TypesOnly (emptyState.withLimit n) where
  types := by
    refine ⟨fun h => ?_, fun h => ?_, fun h => ?_, fun h => ?_, fun _ => rfl⟩
    all_goals simp [State.withLimit, Store.withLimit, Store.binding?, emptyState] at h
  spaces := by simp [State.withLimit, emptyState]
  items := by simp [State.withLimit, emptyState]
  others := ⟨rfl, rfl, rfl⟩

end Declare

/-! ## Names and definitions -/

section Follow

variable {s s' : State}

/-- The namespaces of imports are looked up. -/
theorem typesOnly_resolveImports (hs : TypesOnly s) {indices : List Nat} {u : PUnit}
    (h : indices.forM resolveImport directory s = .ok u s') : TypesOnly s' := by
  obtain ⟨htypes, hbeside⟩ := resolveImports_ok h
  rw [hbeside rfl, htypes]
  exact ⟨⟨hs.types, hs.spaces, hs.items⟩, hs.others⟩

/-- The names in the definitions of types are resolved. -/
theorem typesOnly_bind (hs : TypesOnly s) {u : Unit} (h : bind directory s = .ok u s') : TypesOnly s' := by
  obtain ⟨_, s₁, himports, h₁⟩ := check_bind_ok.1 (check_get_ok.1 h)
  have hs₁ := typesOnly_resolveImports hs himports
  have hadvances : Advances s₁ (fun _ _ => True) (s₁.typeItems.toList.forM fun item =>
      Check.bindNames item.scope item.type) := by
    refine .forM hs₁.toReady fun item hitem s' hs' honto => ?_
    obtain ⟨ht, hscope⟩ := hs₁.items item (by simpa using hitem)
    exact Check.advances_bindNames hs' hscope (ht.extends honto.types)
  obtain ⟨hsteady, honto, -⟩ := hadvances u s' (check_get_ok.1 h₁)
  refine ⟨hs₁.toReady.onto honto hsteady, ?_⟩
  rw [honto.same]
  exact hs₁.others

/-- The definitions of types are followed one by one. -/
theorem advances_items {items : List Check.TypeItem} (hs : Ready s)
    (hitems : ∀ item ∈ items, Ranged s.types item.type ∧ item.scope.OnlyVars) :
    Advances s (fun s' _ => s'.Clean → ∀ item ∈ items, Check.Finite s' item.type)
      (items.forM fun item => Check.kindcheck item.scope (Types.Path.define {} item.qualified) item.type) := by
  induction items generalizing s with
  | nil => exact .pure hs fun _ => by simp
  | cons item rest ih =>
    obtain ⟨⟨ht, hscope⟩, hrest⟩ := List.forall_mem_cons.1 hitems
    change Advances s _ (Check.kindcheck _ _ _ >>= fun _ => rest.forM _)
    have hfirst : Advances s (fun s' _ => s'.Clean → Check.Finite s' item.type)
        (Check.kindcheck item.scope (Types.Path.define {} item.qualified) item.type) :=
      .bind hs (.types (.limit hs.types)) fun n s₁ hs₁ honto _ =>
        (Check.advances_kindcheckWithin n _ hs₁ hscope (ht.extends honto.types)).mono
          fun _ _ _ h => h (Types.Path.inline_define _)
    refine .bind hs hfirst fun _ s₁ hs₁ honto₁ hfinite => ?_
    refine (ih hs₁ fun item hitem => ⟨(hrest item hitem).1.extends honto₁.types, (hrest item hitem).2⟩).mono
      fun _ s' honto h hclean => List.forall_mem_cons.2 ⟨?_, h hclean⟩
    exact (hfinite (honto.clean hclean)).onto honto

/-- The kind stage follows the declared types, and each of them has a finite layout unless there is an
error. -/
theorem follows_kindcheck (hs : TypesOnly s) {u : Unit} (h : kindcheck directory s = .ok u s') :
    Steady s'.types ∧ Onto s s' ∧ (s'.Clean → ∀ item ∈ s'.typeItems, Check.Finite s' item.type) := by
  obtain ⟨_, s₁, hitems, h₁⟩ := check_bind_ok.1 (check_get_ok.1 h)
  obtain ⟨hsteady, honto, hfinite⟩ := advances_items hs.toReady
    (fun item hitem => hs.items item (by simpa using hitem)) _ s₁ hitems
  -- Nothing else than types is declared, so nothing else is checked.
  have hlast : s₁ = s' := by
    have hothers : s₁.globals = #[] ∧ s₁.functions = #[] ∧ s₁.templates = #[] := by
      rw [honto.same]
      exact hs.others
    rw [check_get_ok, hothers.1] at h₁
    obtain ⟨_, s₂, hnone, h₂⟩ := check_bind_ok.1 h₁
    obtain ⟨-, rfl⟩ := check_pure_ok.1 hnone
    rw [check_get_ok, hothers.2.1] at h₂
    obtain ⟨_, s₃, hnone, h₃⟩ := check_bind_ok.1 h₂
    obtain ⟨-, rfl⟩ := check_pure_ok.1 hnone
    rw [check_get_ok, hothers.2.2] at h₃
    exact (check_pure_ok.1 h₃).2
  subst hlast
  refine ⟨hsteady, honto, fun hclean item hitem => ?_⟩
  rw [honto.same] at hitem
  exact hfinite hclean item (by simpa using hitem)

/-- A program of type declarations that goes through the kind stage without an error declares types
with finite layouts. -/
theorem finite_kinds {decls : List Decl} (hdecls : ∀ decl ∈ decls, decl.OnlyTypes) {n : Nat} {u : Unit}
    (h : kinds decls directory (emptyState.withLimit n) = .ok u s) (hclean : s.Clean) :
    ∀ item ∈ s.typeItems, Check.Finite s item.type := by
  obtain ⟨_, s₁, hdeclare, h₁⟩ := check_bind_ok.1 h
  obtain ⟨_, s₂, hbind, hkind⟩ := check_bind_ok.1 h₁
  have hs₁ := typesOnly_declareAll (fun decl hdecl _ _ _ _ hs h => typesOnly_declare (hdecls decl hdecl) hs h)
    (typesOnly_emptyState n) hdeclare
  exact (follows_kindcheck (typesOnly_bind hs₁ hbind) hkind).2.2 hclean

end Follow

/-! ## Accepted programs -/

/-- The recursions for the shape and the size of a declared type that was accepted, and for the members
of its struct, are finite: no declared type contains itself by value. -/
theorem accepted_types_finite {decls : List Decl} (hdecls : ∀ decl ∈ decls, decl.OnlyTypes) {n : Nat}
    {s : State} (hrun : kinds decls directory (emptyState.withLimit n) = .ok () s)
    (haccepted : s.failed = false) : ∀ item ∈ s.typeItems,
      ¬ Relation.TransGen (Types.Contains s.types) item.type item.type ∧
      Finishes (· ≠ .endless) (fun _ => Types.resolve item.type) s.types ∧
      Finishes (· ≠ .endless) (fun _ => Types.size item.type) s.types ∧
      ∀ ms l name, Settles (fun _ => Types.resolve item.type) s.types (.ok (.struct ms l)) →
        Finishes (· ≠ .endless) (fun _ => Types.findMember ms name) s.types := by
  intro item hitem
  have hfinite := finite_kinds hdecls hrun (Check.State.clean_of_accepted haccepted) item hitem
  obtain ⟨hshape, hsize⟩ := hfinite.finishes (E := (· ≠ .endless)) fun _ _ h => h
  refine ⟨hfinite.not_contains, hshape.limited, hsize.limited, fun ms l name hms => ?_⟩
  obtain ⟨r, -, hr⟩ := hshape
  obtain rfl := hr.limited.unique hms
  have hmembers := hfinite.members hr
  exact (Layout.findMember_finishes (fun m hm =>
    ((hmembers m hm).finishes (E := (· ≠ .endless)) fun _ _ h => h).2) name 0).limited

/-- A template of lists, a struct with two of its instances, and a member of a member of it. -/
def listTypes : List Decl :=
  let name (text : String) : TypeExpr := .name text somewhere
  let list (t : TypeExpr) : TypeExpr := .apply "List" [t] somewhere
  [.type "List" ["T"] (.struct [("head", name "T", somewhere),
      ("tail", .pointer (list (name "T")) somewhere, somewhere)] somewhere) somewhere,
    .type "Two" [] (.struct [("bytes", list (name "byte"), somewhere),
      ("lists", .array (list (list (name "byte"))) 3 somewhere, somewhere)] somewhere) somewhere,
    .type "Head" [] (.dot (.dot (name "Two") "bytes" somewhere) "head" somewhere) somewhere]

/-- The program of lists declares types only. -/
theorem onlyTypes_listTypes : ∀ decl ∈ listTypes, decl.OnlyTypes := by
  intro decl hdecl
  obtain rfl | rfl | rfl : decl = _ ∨ decl = _ ∨ decl = _ := by simpa [listTypes] using hdecl
  all_goals exact .type

/-- Whether a run ended well, without an error and with types of some names. -/
def acceptedWith (names : List String) : EStateM.Result Fault State Unit → Bool
  | .ok _ s => !s.failed && itemNames s == names
  | .error _ _ => false

/-- A run is accepted with some names if it ends in such a state. -/
theorem acceptedWith_iff {names : List String} {r : EStateM.Result Fault State Unit} :
    acceptedWith names r = true ↔ ∃ s, r = .ok () s ∧ s.failed = false ∧ itemNames s = names := by
  cases r with
  | ok u s => simp [acceptedWith]
  | error e s => simp [acceptedWith]

/-- The program of lists is accepted, and none of its types contains itself. -/
theorem accepted_types_finite_lists :
    ∃ s, kinds listTypes directory (emptyState.withLimit 40) = .ok () s ∧ s.failed = false ∧
      itemNames s = ["global::List", "global::Two", "global::Head"] ∧ ∀ item ∈ s.typeItems,
        ¬ Relation.TransGen (Types.Contains s.types) item.type item.type ∧
        Finishes (· ≠ .endless) (fun _ => Types.resolve item.type) s.types ∧
        Finishes (· ≠ .endless) (fun _ => Types.size item.type) s.types ∧
        ∀ ms l name, Settles (fun _ => Types.resolve item.type) s.types (.ok (.struct ms l)) →
          Finishes (· ≠ .endless) (fun _ => Types.findMember ms name) s.types := by
  have hlists : acceptedWith ["global::List", "global::Two", "global::Head"]
      (kinds listTypes directory (emptyState.withLimit 40)) = true := by decide +kernel
  obtain ⟨s, hrun, haccepted, hnames⟩ := acceptedWith_iff.1 hlists
  exact ⟨s, hrun, haccepted, hnames, accepted_types_finite onlyTypes_listTypes hrun haccepted⟩

/-! ## Sizes of accepted types -/

/-- A written type that is checked after the declared ones has a finite layout unless there is an
error. -/
theorem finite_checkWritten {decls : List Decl} (hdecls : ∀ decl ∈ decls, decl.OnlyTypes) {n : Nat}
    {s s' : State} (hrun : kinds decls directory (emptyState.withLimit n) = .ok () s)
    {c : Check.Context} (hscope : c.scope.OnlyVars) {written : TypeExpr} {t : Ty}
    (hcheck : Check.checkWritten c written directory s = .ok t s') (hclean : s'.Clean) :
    Check.Finite s' t := by
  obtain ⟨_, s₁, hdeclare, h₁⟩ := check_bind_ok.1 hrun
  obtain ⟨_, s₂, hbind, hkind⟩ := check_bind_ok.1 h₁
  have hs₂ := typesOnly_bind (typesOnly_declareAll (fun decl hdecl _ _ _ _ hs h =>
    typesOnly_declare (hdecls decl hdecl) hs h) (typesOnly_emptyState n) hdeclare) hbind
  obtain ⟨hsteady, honto, -⟩ := follows_kindcheck hs₂ hkind
  have hs : Ready s := hs₂.toReady.onto honto hsteady
  have hadvances : Advances s (fun s' t => s'.Clean → Check.Finite s' t) (Check.checkWritten c written) := by
    refine .bind hs (.types (Check.moves_internType hs.types written).appends) fun t s₁ hs₁ _ ht => ?_
    refine .bind hs₁ (Q := fun s' _ => s'.Clean → Check.Finite s' t) ?_ fun _ s₂ hs₂ _ h => .pure hs₂ h
    refine .bind hs₁ (Check.advances_bindNames hs₁ hscope ht.1) fun _ s₂ hs₂ honto₂ _ => ?_
    refine .bind hs₂ (.types (.limit hs₂.types)) fun k s₃ hs₃ honto₃ _ => ?_
    exact (Check.advances_kindcheckWithin k _ hs₃ hscope
      ((ht.1.extends honto₂.types).extends honto₃.types)).mono fun _ _ _ h => h ⟨rfl, rfl⟩
  exact (hadvances t s' hcheck).2.2 hclean

/-- The size of an accepted type is its extent modulo 2^64, and so is the offset of each member of the
struct that it stands for: what the members in front of it take together. Both are the numbers that
they stand for exactly if these are below 2^63. -/
theorem accepted_sizes_congruent {decls : List Decl} (hdecls : ∀ decl ∈ decls, decl.OnlyTypes) {n : Nat}
    {s s' : State} (hrun : kinds decls directory (emptyState.withLimit n) = .ok () s)
    {c : Check.Context} (hscope : c.scope.OnlyVars) {written : TypeExpr} {t : Ty}
    (hcheck : Check.checkWritten c written directory s = .ok t s') (haccepted : s'.failed = false)
    (hground : Types.Ground s'.types t) :
    ∃ k, Types.Extent s'.types t k ∧
      Settles (fun _ => Types.size t) s'.types (.ok (Machine.wrap k)) ∧
      ∀ ms l, Settles (fun _ => Types.resolve t) s'.types (.ok (.struct ms l)) →
        ∃ words : Types.Member Ty → Int, (∀ m ∈ ms, Types.Extent s'.types m.type (words m)) ∧
          ∀ front m rest, ms = front ++ m :: rest → (∀ x ∈ front, x.name ≠ m.name) →
            Settles (fun _ => Types.findMember ms m.name) s'.types
              (.ok (some (m, Machine.wrap (front.map words).sum))) := by
  have hlayout := (finite_checkWritten hdecls hrun hscope hcheck
    (Check.State.clean_of_accepted haccepted)).of_ground hground
  obtain ⟨k, hk, hsize⟩ := hlayout.congruent
  refine ⟨k, hk, hsize.limited, fun ms l hms => ?_⟩
  obtain ⟨r, -, hr⟩ := (hlayout.finishes (E := fun _ => True) fun _ _ _ => trivial).1
  obtain rfl := hr.limited.unique hms
  obtain ⟨words, hwords⟩ := Types.exists_words fun m hm => (hlayout.members hr m hm).congruent
  refine ⟨words, fun m hm => (hwords m hm).1, ?_⟩
  rintro front m rest rfl hnames
  have hfound := Types.settles_findMember rest
    (fun x hx => (hwords x (List.mem_append_left _ hx)).2) hnames 0
  rw [Int.zero_add] at hfound
  exact hfound.limited

/-- Whether a written type is accepted after some declarations, with a property of it. -/
def acceptsWritten (decls : List Decl) (written : TypeExpr) (holds : Ty → Store → Bool) : Bool :=
  match kinds decls directory (emptyState.withLimit 40) with
  | .ok () s =>
    match Check.checkWritten { scope := scopeOf 0 } written directory s with
    | .ok t s' => !s'.failed && holds t s'.types
    | .error _ _ => false
  | .error _ _ => false

/-- An accepted type is accepted in some state. -/
theorem exists_of_acceptsWritten {decls : List Decl} {written : TypeExpr} {holds : Ty → Store → Bool}
    (h : acceptsWritten decls written holds = true) :
    ∃ s t s', kinds decls directory (emptyState.withLimit 40) = .ok () s ∧
      Check.checkWritten { scope := scopeOf 0 } written directory s = .ok t s' ∧ s'.failed = false ∧
        holds t s'.types = true := by
  unfold acceptsWritten at h
  split at h
  · next s hrun =>
    split at h
    · next t s' hcheck =>
      simp only [Bool.and_eq_true, Bool.not_eq_true'] at h
      exact ⟨s, t, s', hrun, hcheck, h⟩
    · cases h
  · cases h

/-- An array of lists is accepted, and its size is that of its layout. -/
theorem accepted_sizes_congruent_lists :
    ∃ s t s', kinds listTypes directory (emptyState.withLimit 40) = .ok () s ∧
      Check.checkWritten { scope := scopeOf 0 } (.name "Two" somewhere) directory s = .ok t s' ∧
      s'.failed = false ∧ Types.Ground s'.types t ∧ ∃ k, Types.Extent s'.types t k ∧
        Settles (fun _ => Types.size t) s'.types (.ok (Machine.wrap k)) := by
  obtain ⟨s, t, s', hrun, hcheck, haccepted, hground⟩ := exists_of_acceptsWritten
    (show acceptsWritten listTypes (.name "Two" somewhere) (fun t T => Types.groundWithin T 40 t) = true by
      decide +kernel)
  have hground := Types.ground_of_groundWithin hground
  obtain ⟨k, hk, hsize, -⟩ := accepted_sizes_congruent onlyTypes_listTypes hrun
    (c := { scope := scopeOf 0 }) (fun p hp => by cases hp) hcheck haccepted hground
  exact ⟨s, t, s', hrun, hcheck, haccepted, hground, k, hk, hsize⟩

/-- An array of 2^32 arrays of 2^32 words, and one more word. -/
def wideMembers : List (Types.Member Ty) :=
  [⟨"table", .array (.array .byte 4294967296 none) 4294967296 none, none⟩, ⟨"last", .byte, none⟩]

/-- Sizes wrap around. An accepted struct of 2^64 + 1 words has the size 1, and its last member stands
at its start although 2^64 words are in front of it. -/
theorem accepted_size_wraps :
    Check.checkType {} (.struct wideMembers none) directory {} = .ok () {} ∧
      ({} : State).failed = false ∧
      Types.Extent {} (.struct wideMembers none) 18446744073709551617 ∧
      Types.size (.struct wideMembers none) {} = .ok 1 {} ∧
      Types.findMember wideMembers "last" {} = .ok (some (⟨"last", .byte, none⟩, 0)) {} := by
  refine ⟨rfl, rfl, ?_, rfl, rfl⟩
  refine @Types.Extent.struct _ wideMembers _
    (fun m => if m.name = "table" then 18446744073709551616 else 1) fun m hm => ?_
  obtain rfl | rfl : m = _ ∨ m = _ := by simpa [wideMembers] using hm
  · exact .array (k := 4294967296) (by decide) (.array (k := 1) (by decide) .builtin)
  · exact .builtin

end Qll.Program
