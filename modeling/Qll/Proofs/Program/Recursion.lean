import Mathlib.Data.Set.Finite.List
import Mathlib.Order.Filter.AtTopBot.Basic
import Mathlib.Order.Filter.Finite
import Qll.Proofs.Program.Plain

/-!
# Recursive types

The kind stage finds the recursive types of a program without templates and member types, and only
those. Afterwards every declared type can be used, whether it was rejected or not: the references
that close a type of infinite size stand for the error type, and each of them was reported.
-/

namespace Qll.Program

open Check (State CheckM Runs Outcome Found TypeItem)
open Source (Decl Location)
open Qll.Types (Ty Store Path Plain Resolved Closed Declares Meets Marked OnRoute Visits Route Edge Follows
  Unguarded Recurs Layout Settles)

/-! ## Declared types -/

/-- A type is declared with a qualified name. -/
def Declared (s : State) (q : String) (t : Ty) : Prop :=
  ∃ item ∈ s.typeItems, item.qualified = q ∧ item.type = t

section Stages

variable {M : Prop} {L : Int → Prop} {s s' : State}

/-- Items with distinct names are told apart by them. -/
theorem item_unique (hnodup : (itemNames s).Nodup) {item item' : TypeItem}
    (h : item ∈ s.typeItems) (h' : item' ∈ s.typeItems) (hq : item.qualified = item'.qualified) :
    item = item' :=
  List.inj_on_of_nodup_map hnodup (by simpa using h) (by simpa using h') hq

/-- What a name stands for is declared or builtin. -/
theorem provided_of_listed (hs : Listed M L s) {id : Nat} {b : Types.Binding}
    (hb : s.types.binding? id = some b) :
    (∃ item ∈ s.typeItems, b = item.binding) ∨ ∃ kind l, b.type = .builtin kind l := by
  obtain ⟨e, he, hbinding⟩ := Option.bind_eq_some_iff.1 hb
  exact ((hs.names e (Array.mem_of_getElem? he)).2 b hbinding).imp_right
    fun ⟨kind, l, htype, _⟩ => ⟨kind, l, htype⟩

/-- The definitions that names stand for are declared. -/
theorem declares_of_listed (hs : Listed M L s) : Declares s.types (Declared s) := by
  intro _ b hb hdef
  obtain ⟨item, hitem, rfl⟩ | ⟨kind, l, hkind⟩ := provided_of_listed hs hb
  · exact ⟨item, hitem, rfl, rfl⟩
  · rw [hkind] at hdef
    exact hdef.elim

/-- A qualified name is declared once if the names of items are distinct. -/
theorem Declared.unique (hnodup : (itemNames s).Nodup) {q : String} {u u' : Ty} (h : Declared s q u)
    (h' : Declared s q u') : u = u' := by
  obtain ⟨item, hitem, rfl, rfl⟩ := h
  obtain ⟨item', hitem', hq, rfl⟩ := h'
  rw [item_unique hnodup hitem hitem' hq.symm]

/-- Once the names of a program are resolved, each stands for what is declared. -/
theorem closed_of_listed (hs : Listed M L s) (hitems : ∀ item ∈ s.typeItems, Resolved s.types L item.type)
    (hnodup : (itemNames s).Nodup) : Closed s.types L (Declared s) where
  declares := declares_of_listed hs
  plain := by
    intro id b hb
    obtain ⟨item, hitem, rfl⟩ | ⟨kind, l, hkind⟩ := provided_of_listed hs hb
    · exact hitems item hitem
    · exact hkind ▸ .builtin
  unique := Declared.unique hnodup

/-- The endless references that the traversals of declared types find. -/
def Endless (s : State) : Found := fun id l =>
  ∃ item ∈ s.typeItems, Meets s.types (Path.define {} item.qualified) item.type id l

/-- The names of declared types are the names of items. -/
theorem Declared.mem_names {q : String} {t : Ty} (h : Declared s q t) : q ∈ (itemNames s).toFinset := by
  obtain ⟨item, hitem, rfl, rfl⟩ := h
  simpa [itemNames] using ⟨item, hitem, rfl⟩

/-- The traversal of a declared type ends. -/
theorem visits_item (hclosed : Closed s.types L (Declared s))
    (hitems : ∀ item ∈ s.typeItems, Resolved s.types L item.type) {item : TypeItem}
    (hitem : item ∈ s.typeItems) : Visits s.types (Path.define {} item.qualified) item.type :=
  (hitems item hitem).visits hclosed (fun _ _ => Declared.mem_names) _

/-- The definitions of types are followed one by one. -/
theorem runs_kindcheckItems (hclosed : Closed s.types L (Declared s))
    (hitems : ∀ item ∈ s.typeItems, Resolved s.types L item.type) {items : List TypeItem}
    (hsub : ∀ item ∈ items, item ∈ s.typeItems) {s₁ : State}
    (hs₁ : ∀ id, s₁.types.binding? id = s.types.binding? id) :
    ∃ s', Runs directory (fun _ => items.forM fun item =>
        Check.kindcheck item.scope (Path.define {} item.qualified) item.type) s₁ () s' ∧
      Outcome (fun id l => ∃ item ∈ items,
        Meets s.types (Path.define {} item.qualified) item.type id l) s₁ s' := by
  induction items generalizing s₁ with
  | nil => exact ⟨s₁, .const fun _ => rfl, .nothing (by simp) s₁⟩
  | cons item rest ih =>
    obtain ⟨hitem, hrest⟩ := List.forall_mem_cons.1 hsub
    have hfollows := Check.follows_of_visits (d := directory) hclosed
      (visits_item hclosed hitems hitem) (hitems item hitem) (.define ⟨item, hitem, rfl, rfl⟩)
    obtain ⟨s₂, hrun₂, hout₂⟩ := hfollows item.scope s₁ hs₁
    obtain ⟨s₃, hrun₃, hout₃⟩ := ih hrest fun id => (hout₂.binding id).trans (hs₁ id)
    exact ⟨s₃, hrun₂.limited.bind hrun₃, (hout₂.trans hout₃).congr (by simp)⟩

/-- Where nothing is declared nothing is to be checked. -/
theorem runs_none {α : Type} {table : State → Array α} {check : α → CheckM Unit}
    (h : ∀ m, table (s.withLimit m) = #[]) :
    Runs directory (fun _ => do (table (← get)).toList.forM check) s () s := by
  refine .const fun m => ?_
  change (table (s.withLimit m)).toList.forM check directory _ = _
  rw [h]
  rfl

/-- The kind stage follows the definitions of types, where nothing else is declared. -/
theorem runs_kindcheck_of_items {F : Found} (hothers : s.globals = #[] ∧ s.functions = #[] ∧ s.templates = #[])
    (hrun : Runs directory (fun _ => s.typeItems.toList.forM fun item =>
      Check.kindcheck item.scope (Path.define {} item.qualified) item.type) s () s')
    (hout : Outcome F s s') : Runs directory (fun _ => kindcheck) s () s' := by
  have hothers' : s'.globals = #[] ∧ s'.functions = #[] ∧ s'.templates = #[] := by
    rw [hout.same]
    exact hothers
  refine (hrun.bind (f := fun _ _ => do
    (← get).globals.toList.forM kindcheckGlobal
    (← get).functions.toList.forM kindcheckFunction
    (← get).templates.toList.forM fun t => Check.checkType t.scope t.signature) ?_).congr fun _ _ => rfl
  exact (runs_none fun _ => hothers'.1).bind
    ((runs_none fun _ => hothers'.2.1).bind (runs_none fun _ => hothers'.2.2))

/-- The kind stage ends, and finds the endless references. -/
theorem runs_kindcheck (hclosed : Closed s.types L (Declared s))
    (hitems : ∀ item ∈ s.typeItems, Resolved s.types L item.type)
    (hothers : s.globals = #[] ∧ s.functions = #[] ∧ s.templates = #[]) :
    ∃ s', Runs directory (fun _ => kindcheck) s () s' ∧ Outcome (Endless s) s s' := by
  have hall : ∀ item ∈ s.typeItems.toList, item ∈ s.typeItems := by simp
  obtain ⟨s', hrun, hout⟩ := runs_kindcheckItems hclosed hitems hall fun id => Eq.refl (s.types.binding? id)
  exact ⟨s', runs_kindcheck_of_items hothers hrun hout, hout.congr (by simp [Endless])⟩

/-- The stages of a program up to the kind stage. -/
def kinds (decls : List Decl) : CheckM Unit := do
  declareProgram decls
  bind
  kindcheck

/-- A program of plain declarations goes through the stages up to the kind stage. -/
theorem runs_kinds {decls : List Decl} (hdecls : ∀ decl ∈ decls, decl.Plain L)
    (hnodup : (Source.declsTypeNames rootName decls).Nodup) :
    ∃ s s', Runs directory (fun _ => kinds decls) emptyState () s' ∧ Listed False L s ∧
      (∀ item ∈ s.typeItems, Resolved s.types L item.type) ∧
      itemNames s = Source.declsTypeNames rootName decls ∧ Outcome (Endless s) s s' := by
  obtain ⟨s₀, hrun₀, hs₀, hnames⟩ := runs_declareProgram (d := directory) (M := False)
    fun decl hdecl => (hdecls decl hdecl).projected
  obtain ⟨s, hrun, hs, hitems, hprojected⟩ := runs_bind hs₀
  have hresolved : ∀ item ∈ s.typeItems, Resolved s.types L item.type :=
    fun item hitem => (hprojected item hitem).plain fun h => h
  have hnames : itemNames s = Source.declsTypeNames rootName decls := by
    rw [itemNames, hitems]
    exact hnames hnodup
  obtain ⟨s', hrun', hout⟩ := runs_kindcheck
    (closed_of_listed hs hresolved (hnames ▸ hnodup)) hresolved hs.others
  exact ⟨s, s', hrun₀.bind (hrun.bind hrun'), hs, hresolved, hnames, hout⟩

end Stages

/-! ## Recursive types are found -/

/-- The parts of a plain type are plain, and what its names stand for is. -/
theorem resolved_of_follows {L : Int → Prop} {T : Store} {D : String → Ty → Prop}
    (hT : Closed T L D) {t u : Ty} {e : Edge} (h : Follows T t e u) (ht : Resolved T L t) :
    Resolved T L u := by
  cases h with
  | definition hb => exact hT.plain hb
  | member hm => cases ht with | struct h => exact h _ hm
  | argument ha => cases ht with | function h _ => exact h _ ha
  | result => cases ht with | function _ h => exact h
  | pointer => cases ht with | pointer h => exact h
  | slice => cases ht with | slice h => exact h
  | unsized => cases ht with | array _ h => exact h
  | element => cases ht with | array _ h => exact h
  | malformed => cases ht with | array _ h => exact h

/-- Where all lengths make sense no route goes through an array of negative length. -/
theorem malformed_notMem {T : Store} {D : String → Ty → Prop} (hT : Closed T (-1 ≤ ·) D) {t u : Ty}
    {es : List Edge} (h : Route T t es u) (ht : Resolved T (-1 ≤ ·) t) : .malformed ∉ es := by
  induction h with
  | refl => simp
  | step hfirst _ ih =>
    rw [List.mem_cons, not_or]
    refine ⟨?_, ih (resolved_of_follows hT hfirst ht)⟩
    rintro rfl
    cases hfirst with
    | malformed hneg hn =>
      cases ht with
      | array hlength _ => exact hn (by unfold Types.unsized; omega)

section Declared

variable {M : Prop} {L : Int → Prop} {s : State}

/-- A reference to the name of a declared type stands for it. -/
theorem binding_of_refers (hs : Listed M L s) (hnodup : (itemNames s).Nodup) {item : TypeItem}
    (hitem : item ∈ s.typeItems) {id : Nat} (h : Types.Refers s.types id item.qualified) :
    s.types.binding? id = some item.binding := by
  obtain ⟨b, hb, hq, hdef⟩ := h
  obtain ⟨item', hitem', rfl⟩ | ⟨kind, l, hkind⟩ := provided_of_listed hs hb
  · rw [hb, item_unique hnodup hitem' hitem hq]
  · rw [hkind] at hdef
    exact hdef.elim

/-- The traversals find an endless reference exactly if a declared type leads back to itself. -/
theorem endless_iff (hs : Listed M (-1 ≤ ·) s)
    (hitems : ∀ item ∈ s.typeItems, Resolved s.types (-1 ≤ ·) item.type)
    (hnodup : (itemNames s).Nodup) : (∃ id l, Endless s id l) ↔
      ∃ item ∈ s.typeItems, ∃ es id text l, Route s.types item.type es (.name id text l) ∧
        s.types.binding? id = some item.binding ∧ Unguarded es := by
  have hclosed := closed_of_listed hs hitems hnodup
  constructor
  · rintro ⟨id, l, item, hitem, h⟩
    obtain ⟨q, u, es, id, text, l, ⟨item, hitem, rfl, rfl⟩, hroute, hrefers, hes⟩ :=
      h.recurs hclosed.declares (.define ⟨item, hitem, rfl, rfl⟩)
    exact ⟨item, hitem, es, id, text, l, hroute, binding_of_refers hs hnodup hitem hrefers, hes⟩
  · rintro ⟨item, hitem, es, id, text, l, hroute, hb, hes⟩
    have hlengths (q : String) (u : Ty) (es : List Edge) (v : Ty) (hu : Declared s q u)
        (hroute : Route s.types u es v) : .malformed ∉ es := by
      obtain ⟨item, hitem, rfl, rfl⟩ := hu
      exact malformed_notMem hclosed hroute (hitems item hitem)
    have hrecurs : Recurs s.types (Declared s) :=
      ⟨item.qualified, item.type, es, id, text, l, ⟨item, hitem, rfl, rfl⟩, hroute,
        ⟨item.binding, hb, rfl, hroute.isDefinition⟩, hes⟩
    obtain ⟨q, u, id, l, ⟨item, hitem, rfl, rfl⟩, h⟩ := hrecurs.meets hclosed.declares hlengths
    exact ⟨id, l, item, hitem, h⟩

end Declared

/-- The kind stage reports a recursive type exactly if some declared type leads back to itself
without a function type in between and without both a struct and an indirection. -/
theorem recursive_types_found {decls : List Decl} (hdecls : ∀ decl ∈ decls, decl.Plain (-1 ≤ ·))
    (hnodup : (Source.declsTypeNames rootName decls).Nodup) :
    ∃ s N, (∀ n ≥ N, kinds decls directory (emptyState.withLimit n) = .ok () (s.withLimit n)) ∧
      itemNames s = Source.declsTypeNames rootName decls ∧
      ((∃ d ∈ s.reports, d.code = .recursiveType) ↔
        ∃ item ∈ s.typeItems, ∃ es id text l, Route s.types item.type es (.name id text l) ∧
          s.types.binding? id = some item.binding ∧ Unguarded es) := by
  obtain ⟨s₀, s, ⟨N, hN⟩, hs₀, hitems, hnames, hout⟩ := runs_kinds hdecls hnodup
  have hsame : s.typeItems = s₀.typeItems := by rw [hout.same]
  have hreported : (∃ d ∈ s.reports, d.code = .recursiveType) ↔ ∃ id l, Endless s₀ id l := by
    constructor
    · rintro ⟨d, hd, hcode⟩
      exact (hout.recursive d hd hcode).resolve_left fun hd => hs₀.reports d hd hcode
    · rintro ⟨id, l, h⟩
      obtain ⟨d, hd, -, hcode, -⟩ := hout.reported id l h
      exact ⟨d, hd, hcode⟩
  refine ⟨s, N, fun n hn => hN n n hn hn, by rw [itemNames, hsame, ← itemNames, hnames], ?_⟩
  rw [hreported, endless_iff hs₀ hitems (hnames ▸ hnodup), hsame]
  have hroute {t u : Ty} {es : List Edge} : Route s.types t es u ↔ Route s₀.types t es u :=
    ⟨fun h => h.congr fun id => (hout.binding id).symm, fun h => h.congr hout.binding⟩
  simp only [hroute, hout.binding]

/-- A place in a source. -/
def somewhere : Location := { file := "types", line := 1, column := 1 }

/-- Two types that hold each other, one of them also behind a pointer. -/
def mutualTypes : List Decl :=
  let name (text : String) : Source.TypeExpr := .name text somewhere
  [.type "A" [] (.struct [("next", .pointer (name "A") somewhere, somewhere),
      ("b", name "B", somewhere)] somewhere) somewhere,
    .type "B" [] (.array (name "A") 2 somewhere) somewhere]

/-- The two types of the example are plain. -/
theorem plain_mutualTypes : ∀ decl ∈ mutualTypes, decl.Plain (-1 ≤ ·) := by
  intro decl hdecl
  obtain rfl | rfl : decl = _ ∨ decl = _ := by simpa [mutualTypes] using hdecl
  · refine .type (.struct ?_)
    rintro m hm
    obtain rfl | rfl : m = _ ∨ m = _ := by simpa using hm
    · exact .pointer .name
    · exact .name
  · exact .type (.array (by decide) .name)

/-- In the example a recursive type is reported, since there is a route from a type back to it. -/
theorem recursive_types_found_mutual :
    ∃ s N, (∀ n ≥ N, kinds mutualTypes directory (emptyState.withLimit n) = .ok () (s.withLimit n)) ∧
      itemNames s = ["global::A", "global::B"] ∧
      ((∃ d ∈ s.reports, d.code = .recursiveType) ↔
        ∃ item ∈ s.typeItems, ∃ es id text l, Route s.types item.type es (.name id text l) ∧
          s.types.binding? id = some item.binding ∧ Unguarded es) :=
  recursive_types_found plain_mutualTypes (by decide)

/-! ## Rejected types stay usable -/

/-- Nothing else than what names stand for matters for a closed store. -/
theorem closed_congr {L : Int → Prop} {T T' : Store} {D : String → Ty → Prop} (hT : Closed T L D)
    (h : ∀ id, T'.binding? id = T.binding? id) : Closed T' L D where
  declares hb := hT.declares ((h _).symm.trans hb)
  plain hb := by
    refine Plain.mono (hT.plain ((h _).symm.trans hb)) (fun id hid => ?_) fun _ hn => hn
    rwa [h id]
  unique := hT.unique

/-- Computations that settle one by one settle together. -/
theorem settles_all {α β : Type} {T : Store} {x : α → Types.TypeM β} (l : Array α)
    (h : ∀ a ∈ l, ∃ r, Settles (fun _ => x a) T (.ok r)) :
    ∃ N, ∀ n ≥ N, ∀ a ∈ l, ∃ r, x a (T.withLimit n) = .ok r (T.withLimit n) := by
  have hfinite : {a | a ∈ l}.Finite := by simpa using l.toList.finite_toSet
  rw [← Filter.eventually_atTop]
  refine (Filter.eventually_all_finite hfinite).2 fun a ha => ?_
  obtain ⟨r, N, hN⟩ := h a ha
  exact Filter.eventually_atTop.2 ⟨N, fun n hn => ⟨r, hN n n hn hn⟩⟩

section Usable

variable {L : Int → Prop} {s s' : State} (hclosed : Closed s.types L (Declared s))
  (hitems : ∀ item ∈ s.typeItems, Resolved s.types L item.type) (hout : Outcome (Endless s) s s')

include hclosed hitems hout

/-- A declared type stands for a shape. -/
theorem resolve_settles {item : TypeItem} (hitem : item ∈ s.typeItems) :
    ∃ u, Settles (fun _ => Types.resolve item.type) s'.types (.ok u) := by
  have hends := (visits_item hclosed hitems hitem).ends hout.binding hclosed
    (.define ⟨item, hitem, rfl, rfl⟩) fun id l h => (hout.marked id).2 (.inr ⟨l, item, hitem, h⟩)
  obtain ⟨u, -, hu⟩ := hends.resolves
  exact ⟨u, hu.limited⟩

/-- A declared type has a size if none is inside itself through an array of negative length. -/
theorem size_settles (hself : ∀ q, ¬ Types.Holds s'.types (Declared s) q q) {item : TypeItem}
    (hitem : item ∈ s.typeItems) :
    ∃ size, Settles (fun _ => Types.size item.type) s'.types (.ok size) := by
  have houter (q : String) (u : Ty) (hu : Declared s q u) : Layout s'.types (0 ≤ ·) False u := by
    obtain ⟨item, hitem, rfl, rfl⟩ := hu
    exact (visits_item hclosed hitems hitem).layout hout.binding hclosed (Path.inline_define _)
      fun id l h => (hout.marked id).2 (.inr ⟨l, item, hitem, h⟩)
  have hplain (q : String) (u : Ty) (hu : Declared s q u) : Resolved s'.types L u := by
    obtain ⟨item, hitem, rfl, rfl⟩ := hu
    exact Plain.mono (hitems item hitem) (fun id hid => by rwa [hout.binding]) fun _ hn => hn
  have hlayout := Types.layout_of_negative (closed_congr hclosed hout.binding)
    (fun _ _ => Declared.mem_names) houter hplain hself ⟨item, hitem, rfl, rfl⟩
  obtain ⟨r, hr, hsize⟩ := (hlayout.finishes (E := fun _ => False) False.elim).2
  cases r with
  | ok size => exact ⟨size, hsize.limited⟩
  | error e => exact (hr e rfl).elim

end Usable

/-- Once the kind stage is over every declared type stands for a shape, whatever was reported; its
size is known unless some declared type lies inside itself by value through an array of negative
length; and every reference that was marked is one that an error was reported for. -/
theorem rejected_types_usable {decls : List Decl} (hdecls : ∀ decl ∈ decls, decl.Plain fun _ => True)
    (hnodup : (Source.declsTypeNames rootName decls).Nodup) :
    ∃ s N, (∀ n ≥ N, kinds decls directory (emptyState.withLimit n) = .ok () (s.withLimit n)) ∧
      itemNames s = Source.declsTypeNames rootName decls ∧
      (∀ n ≥ N, ∀ item ∈ s.typeItems, ∃ u, Types.resolve item.type (s.types.withLimit n) =
        .ok u (s.types.withLimit n)) ∧
      ((∀ q, ¬ Types.Holds s.types (Declared s) q q) → ∀ n ≥ N, ∀ item ∈ s.typeItems, ∃ size,
        Types.size item.type (s.types.withLimit n) = .ok size (s.types.withLimit n)) ∧
      ∀ id, Marked s.types id → ∃ item ∈ s.typeItems, ∃ es text l,
        Route s.types item.type es (.name id text l) ∧
        ∃ d ∈ s.reports, d.severity = .error ∧ d.code = .recursiveType ∧ d.location = l := by
  obtain ⟨s₀, s, ⟨N₁, hN₁⟩, hs₀, hitems, hnames, hout⟩ := runs_kinds hdecls hnodup
  have hclosed := closed_of_listed hs₀ hitems (hnames ▸ hnodup)
  have hsame : s.typeItems = s₀.typeItems := by rw [hout.same]
  have hdeclared : Declared s = Declared s₀ := by
    unfold Declared
    rw [hsame]
  obtain ⟨N₂, hN₂⟩ := settles_all s₀.typeItems fun item => resolve_settles hclosed hitems hout
  obtain ⟨N₃, hN₃⟩ : ∃ N, (∀ q, ¬ Types.Holds s.types (Declared s₀) q q) → ∀ n ≥ N,
      ∀ item ∈ s₀.typeItems, ∃ size, Types.size item.type (s.types.withLimit n) =
        .ok size (s.types.withLimit n) := by
    by_cases hself : ∀ q, ¬ Types.Holds s.types (Declared s₀) q q
    · obtain ⟨N, hN⟩ := settles_all s₀.typeItems fun item => size_settles hclosed hitems hout hself
      exact ⟨N, fun _ => hN⟩
    · exact ⟨0, fun h => absurd h hself⟩
  refine ⟨s, max N₁ (max N₂ N₃), fun n hn => hN₁ n n (by omega) (by omega),
    by rw [itemNames, hsame, ← itemNames, hnames], ?_⟩
  rw [hdeclared, hsame]
  refine ⟨fun n hn => hN₂ n (by omega), fun hself n hn => hN₃ hself n (by omega), fun id hid => ?_⟩
  obtain ⟨e, he, hcyclic⟩ | ⟨l, item, hitem, h⟩ := (hout.marked id).1 hid
  · simp [(hs₀.names e (Array.mem_of_getElem? he)).1] at hcyclic
  · obtain ⟨es, text, hroute⟩ := h.route
    exact ⟨item, hitem, es, text, l, hroute.congr hout.binding, hout.reported id l ⟨item, hitem, h⟩⟩

/-- A type that is an array of itself, of a length that makes no sense. -/
def selfArray : List Decl :=
  [.type "A" [] (.array (.name "A" somewhere) (-5) somewhere) somewhere]

/-- After a rejected array of itself its types can still be used, and the error is reported. -/
theorem rejected_types_usable_self :
    ∃ s N, (∀ n ≥ N, kinds selfArray directory (emptyState.withLimit n) = .ok () (s.withLimit n)) ∧
      itemNames s = ["global::A"] ∧
      (∀ n ≥ N, ∀ item ∈ s.typeItems, ∃ u, Types.resolve item.type (s.types.withLimit n) =
        .ok u (s.types.withLimit n)) ∧
      ((∀ q, ¬ Types.Holds s.types (Declared s) q q) → ∀ n ≥ N, ∀ item ∈ s.typeItems, ∃ size,
        Types.size item.type (s.types.withLimit n) = .ok size (s.types.withLimit n)) ∧
      ∀ id, Marked s.types id → ∃ item ∈ s.typeItems, ∃ es text l,
        Route s.types item.type es (.name id text l) ∧
        ∃ d ∈ s.reports, d.severity = .error ∧ d.code = .recursiveType ∧ d.location = l :=
  rejected_types_usable (by simpa [selfArray] using .type (.array trivial .name)) (by decide)

/-- What declares the array of itself. -/
def selfArrayItem : TypeItem :=
  { qualified := "global::A", scope := scopeOf root
    type := .array (.name 0 "A" (some somewhere)) (-5) (some somewhere) }

/-- The program after the kind stage: the length was reported, and nothing is marked. -/
def selfArrayChecked : State where
  types := { names := #[{ binding := some selfArrayItem.binding }] }
  reports := #[{ severity := .error, code := .invalidLength, location := some somewhere,
                 message := "invalid array length -5", notes := [] }]
  spaces := #[{ name := rootName, qualified := rootName, parent := none,
                types := [("A", selfArrayItem.binding)] }]
  typeItems := #[selfArrayItem]

/-- The size of the array of itself is found at no limit. -/
theorem selfArray_size (k n : Nat) :
    Types.sizeWithin k selfArrayItem.type (selfArrayChecked.types.withLimit n) =
      .error .endless (selfArrayChecked.types.withLimit n) := by
  induction k using Nat.twoStepInduction with
  | zero => rfl
  | one => rfl
  | more k ih _ =>
    change EStateM.bind (Types.sizeWithin k selfArrayItem.type) _ _ = _
    rw [EStateM.bind, ih]

/-- The size of an array of itself never comes to an end, because its reference is not marked. -/
theorem selfArray_endless :
    (∀ n ≥ 4, kinds selfArray directory (emptyState.withLimit n) =
        .ok () (selfArrayChecked.withLimit n)) ∧
      ∀ n, Types.size selfArrayItem.type (selfArrayChecked.types.withLimit n) =
        .error .endless (selfArrayChecked.types.withLimit n) := by
  refine ⟨fun n hn => ?_, fun n => selfArray_size n n⟩
  obtain ⟨k, rfl⟩ := Nat.exists_eq_add_of_le' hn
  rfl

end Qll.Program
