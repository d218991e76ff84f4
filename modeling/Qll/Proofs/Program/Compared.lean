import Mathlib
import Qll.Proofs.Program.Finite
import Qll.Proofs.Program.Projections
import Qll.Proofs.Program.Spelling
import Qll.Proofs.Types.Comparing

/-!
# Comparisons of accepted types

Types are declared without templates, their definitions are followed, and then other types are written
and checked. If no error was reported, the store is definite and the checked types are fixed: names stand
for what was declared or for builtin types, and have finite layouts. A comparison of two checked types
comes to an end then, unless it comes to a pair that leads back to itself without a pair of names in
between.
-/

namespace Qll.Program

open Qll.Computation
open Check (State CheckM Ready Onto Advances Runs onTypes check_bind_ok check_pure_ok check_get_ok)
open Source (Decl Location TypeExpr)
open Qll.Types (Ty Store Scope Binding Layout Settles Projected Definite Fixed Agreement)

/-- A type is written in a namespace, and checked. -/
def checkedType (written : Nat × TypeExpr) : CheckM Ty := do
  let type ← onTypes (Check.internType written.2)
  Check.checkType (scopeOf written.1) type
  return type

/-- The definitions of types are followed, and then types are written and checked. -/
def checkedTypes (decls : List Decl) (written : List (Nat × TypeExpr)) : CheckM (List Ty) := do
  kinds decls
  written.mapM checkedType

/-! ## What names stand for -/

/-- What is declared in a state, and the builtin types. -/
def declared (s₀ : State) : Offer where
  binding b := Provided s₀ b ∧ ∀ scope ∈ b.scope, scope.params = []
  scope scope := scope.params = []
  builtin kind := ⟨.inr ⟨kind, none, rfl, rfl, fun _ => rfl⟩, by simp⟩
  error _ := ⟨.inr ⟨.error, none, rfl, rfl, by simp⟩, by simp⟩
  parameter hscope hp := by simp [hscope] at hp
  inner hb := hb.2 _
  space _ := rfl

section Naming

variable {O : Offer} {M : Prop} {L : Int → Prop} {scope : Scope}

/-- What is known once the names of a type are resolved. -/
structure Completes (O : Offer) (M : Prop) (L : Int → Prop) (s s' : State) (t : Ty) : Prop where
  after : After O s s'
  size : s'.types.names.size = s.types.names.size
  type : Projected M (fun id => (s'.types.binding? id).isSome) L t

/-- What is known of a type stays known afterwards. -/
theorem Completes.lasts {s₁ s' : State} {t : Ty} (h : Projected M (fun id => (s₁.types.binding? id).isSome) L t)
    (hs : After O s₁ s') : Projected M (fun id => (s'.types.binding? id).isSome) L t :=
  h.mono fun _ hid => hs.2.isSome hid

/-- The names of types are resolved one type after another. -/
theorem completes_each {α : Type} {type : α → Ty} {items : List α} {g : α → CheckM PUnit}
    (hg : ∀ a ∈ items, ∀ {s s' : State} {u : PUnit}, O.Holds s → Inside M L s.types (type a) →
      g a directory s = .ok u s' → Completes O M L s s' (type a)) {s s' : State} {u : PUnit} (hs : O.Holds s)
    (hin : ∀ a ∈ items, Inside M L s.types (type a)) (hrun : items.forM g directory s = .ok u s') :
    (After O s s' ∧ s'.types.names.size = s.types.names.size) ∧
      ∀ a ∈ items, Projected M (fun id => (s'.types.binding? id).isSome) L (type a) := by
  induction items generalizing s with
  | nil =>
    obtain ⟨-, rfl⟩ := check_pure_ok.1 hrun
    exact ⟨⟨⟨hs, .refl _⟩, rfl⟩, by simp⟩
  | cons a rest ih =>
    obtain ⟨_, s₁, hfirst, hlast⟩ := check_bind_ok.1 hrun
    have h₁ := hg a (by simp) hs (hin a (by simp)) hfirst
    obtain ⟨⟨hafter, hsize⟩, hrest⟩ := ih (fun b hb => hg b (by simp [hb])) h₁.after.1
      (fun b hb => (hin b (by simp [hb])).mono h₁.size.ge) hlast
    exact ⟨⟨h₁.after.trans hafter, hsize.trans h₁.size⟩,
      List.forall_mem_cons.2 ⟨Completes.lasts h₁.type hafter, hrest⟩⟩

/-- The names of a type are resolved. -/
theorem completes_bindNames (hscope : O.scope scope) {n : Nat} {t : Ty} {s s' : State} {u : Unit}
    (hs : O.Holds s) (hin : Inside M L s.types t)
    (hrun : Check.bindNamesWithin scope n t directory s = .ok u s') : Completes O M L s s' t := by
  induction n generalizing s s' u t with
  | zero => exact absurd hrun Check.check_throw_ok
  | succ n ih =>
    have hafter := (keeps_bindNamesWithin hscope (n + 1) t).run hrun hs
    unfold Check.bindNamesWithin at hrun
    cases hin with
    | builtin =>
      obtain ⟨-, rfl⟩ := check_pure_ok.1 hrun
      exact ⟨hafter, rfl, .builtin⟩
    | @name id text l hid =>
      obtain ⟨hsome, rfl⟩ | ⟨-, b, reports, -, rfl⟩ := resolveName_ok hs hscope hrun
      · exact ⟨hafter, rfl, .name hsome⟩
      · have hbinding := binding_withBinding (s := { s with reports }) hid b
        exact ⟨hafter, by simp [withBinding], .name (by simp [hbinding])⟩
    | pointer h => exact ⟨hafter, (ih hs h hrun).size, .pointer (ih hs h hrun).type⟩
    | slice h => exact ⟨hafter, (ih hs h hrun).size, .slice (ih hs h hrun).type⟩
    | array hn h => exact ⟨hafter, (ih hs h hrun).size, .array hn (ih hs h hrun).type⟩
    | dot hM h => exact ⟨hafter, (ih hs h hrun).size, .dot hM (ih hs h hrun).type⟩
    | struct hms =>
      obtain ⟨⟨-, hsize⟩, hall⟩ := completes_each (fun (m : Types.Member Ty) _ _ _ _ hs
        (hin : Inside M L _ m.type) hrun => ih hs hin hrun) hs hms hrun
      exact ⟨hafter, hsize, .struct hall⟩
    | function has hr =>
      obtain ⟨_, s₁, hargs, hlast⟩ := check_bind_ok.1 hrun
      obtain ⟨⟨hafter₁, hsize₁⟩, hall⟩ := completes_each (fun (a : Ty) _ _ _ _ hs
        (hin : Inside M L _ a) hrun => ih hs hin hrun) hs has hargs
      have hresult := ih hafter₁.1 (Inside.mono hr hsize₁.ge) hlast
      exact ⟨hafter, hresult.size.trans hsize₁,
        .function (fun a ha => Completes.lasts (hall a ha) hresult.after) hresult.type⟩

/-- A written type is entered. -/
theorem enters_type {t : TypeExpr} (ht : t.Projected M L) {s s' : State} {type : Ty} (hs : O.Holds s)
    (hready : Ready s) (hrun : onTypes (Check.internType t) directory s = .ok type s') :
    After O s s' ∧ Onto s s' ∧ Ready s' ∧ Inside M L s'.types type ∧ Types.Ranged s'.types type := by
  obtain ⟨T, hT, rfl⟩ := Check.onTypes_ok hrun
  obtain ⟨hsteady, happends, hinterned⟩ := Check.moves_internType hready.types t type T hT
  obtain ⟨type', T', hwrites, hrenamed, hin⟩ := writes_type ht s.types
  have hsame : Check.internType t s.types = .ok type' (T'.withLimit s.types.limit) := hwrites s.types.limit
  rw [hT, EStateM.Result.ok.injEq] at hsame
  obtain ⟨rfl, rfl⟩ := hsame
  have honto : Onto s { s with types := T'.withLimit s.types.limit } := ⟨happends.extends, fun _ h => h, rfl⟩
  refine ⟨After.onto ⟨hs, .refl _⟩ ⟨fun hb => ?_, fun he => ?_⟩ (fun {id b} hb => .inr ?_) fun v => ?_, honto,
    hready.onto honto hsteady, hin, hinterned.1⟩
  · obtain ⟨e, he, hbinding⟩ := Option.bind_eq_some_iff.1 hb
    exact Option.bind_eq_some_iff.2 ⟨e, happends.names he, hbinding⟩
  · obtain ⟨e, he, hresult⟩ := Option.bind_eq_some_iff.1 he
    exact Option.bind_eq_some_iff.2 ⟨e, happends.applies he, hresult⟩
  · obtain ⟨e, he, hbinding⟩ := Option.bind_eq_some_iff.1 hb
    obtain hmem | rfl := hrenamed.fresh e (Array.mem_of_getElem? he)
    · obtain ⟨id', hid'⟩ := Array.getElem?_of_mem hmem
      have hbound : s.types.binding? id' = some b := Option.bind_eq_some_iff.2 ⟨e, hid', hbinding⟩
      exact hs.binding hbound
    · cases hbinding
  · simp [Store.bound?, happends.vars]

/-- A written type is checked. -/
theorem checks_type {written : Nat × TypeExpr} (ht : written.2.Projected M L) {s s' : State} {type : Ty}
    (hs : O.Holds s) (hready : Ready s) (hrun : checkedType written directory s = .ok type s') :
    After O s s' ∧ Onto s s' ∧ Ready s' ∧ Projected M (fun id => (s'.types.binding? id).isSome) L type := by
  obtain ⟨u, s₁, hintern, h₁⟩ := check_bind_ok.1 hrun
  obtain ⟨_, s₂, hcheck, hlast⟩ := check_bind_ok.1 h₁
  obtain ⟨rfl, rfl⟩ := check_pure_ok.1 hlast
  obtain ⟨hafter₁, honto₁, hready₁, hin, hranged⟩ := enters_type ht hs hready hintern
  obtain ⟨_, s₃, hbind, hkind⟩ := check_bind_ok.1 hcheck
  have hvars : (scopeOf written.1).OnlyVars := by simp [Types.Scope.OnlyVars, scopeOf]
  obtain ⟨hsteady₃, honto₃, -⟩ := Check.advances_bindNames hready₁ hvars hranged _ s₃ hbind
  have hready₃ := hready₁.onto honto₃ hsteady₃
  obtain ⟨n, s₄, hlimit, hwithin⟩ := check_bind_ok.1 hkind
  obtain ⟨T, hn, rfl⟩ := Check.onTypes_ok hlimit
  obtain ⟨-, rfl⟩ := Types.limit_ok.1 hn
  obtain ⟨hsteady₂, honto₂, -⟩ := Check.advances_kindcheckWithin n {} hready₃ hvars
    (hranged.extends honto₃.types) _ s₂ hwithin
  have hafter₂ := (keeps_checkType (O.space _) u).run hcheck hafter₁.1
  obtain ⟨k, s₅, hlimit, hnames⟩ := check_bind_ok.1 hbind
  obtain ⟨T, hk, rfl⟩ := Check.onTypes_ok hlimit
  obtain ⟨-, rfl⟩ := Types.limit_ok.1 hk
  have hcompletes := completes_bindNames (O.space _) hafter₁.1 hin hnames
  have hkept := (keeps_kindcheckWithin n (O.space _) {} u).run hwithin hcompletes.after.1
  exact ⟨hafter₁.trans hafter₂, (honto₁.trans honto₃).trans honto₂, hready₃.onto honto₂ hsteady₂,
    Completes.lasts hcompletes.type hkept⟩

/-- Written types are checked one after another. -/
theorem checks_each {written : List (Nat × TypeExpr)} (hwritten : ∀ w ∈ written, w.2.Projected M L)
    {s s' : State} {types : List Ty} (hs : O.Holds s) (hready : Ready s)
    (hrun : written.mapM checkedType directory s = .ok types s') :
    After O s s' ∧ Onto s s' ∧
      ∀ t ∈ types, Projected M (fun id => (s'.types.binding? id).isSome) L t := by
  induction written generalizing s types with
  | nil =>
    obtain ⟨rfl, rfl⟩ := check_pure_ok.1 hrun
    exact ⟨⟨hs, .refl _⟩, .refl s, by simp⟩
  | cons w rest ih =>
    rw [List.mapM_cons] at hrun
    obtain ⟨type, s₁, hfirst, h₁⟩ := check_bind_ok.1 hrun
    obtain ⟨others, s₂, hrest, hlast⟩ := check_bind_ok.1 h₁
    obtain ⟨rfl, rfl⟩ := check_pure_ok.1 hlast
    obtain ⟨hafter₁, honto₁, hready₁, htype⟩ := checks_type (hwritten w (by simp)) hs hready hfirst
    obtain ⟨hafter₂, honto₂, hothers⟩ := ih (fun v hv => hwritten v (by simp [hv])) hafter₁.1 hready₁ hrest
    exact ⟨hafter₁.trans hafter₂, honto₁.trans honto₂,
      List.forall_mem_cons.2 ⟨Completes.lasts htype hafter₂, hothers⟩⟩

end Naming

/-! ## Accepted types -/

/-- A declaration without templates declares types only. -/
theorem onlyTypes_of_projected {M : Prop} {L : Int → Prop} {decl : Decl} (h : decl.Projected M L) :
    decl.OnlyTypes := by
  induction h with
  | type => exact .type
  | use => exact .use
  | space _ ih => exact .space ih

/-- Names stay resolved in a later store. -/
theorem resolved_later {T T' : Store} (h : Types.Extends T T') {id : Nat} (hid : (T.binding? id).isSome) :
    (T'.binding? id).isSome := by
  obtain ⟨b, hb⟩ := Option.isSome_iff_exists.1 hid
  obtain ⟨u, hu⟩ : ∃ u, T'.target id "" = .ok u := by
    obtain htarget | htarget := Types.target_of_binding hb ""
    all_goals obtain hlater | hlater := h.onward.target htarget <;> exact ⟨_, hlater⟩
  unfold Store.target at hu
  split at hu
  · next b' cyclic hb' => simp [Store.binding?, hb']
  · cases hu

/-- Names stand for what is declared once the names of all definitions are resolved. -/
theorem declared_of_listed {M : Prop} {L : Int → Prop} {s : State} (hs : Listed M L s) (hready : Ready s) :
    (declared s).Holds s where
  tables n hn p hp := by
    obtain ⟨item, hitem, hb, -⟩ := hs.types n hn p hp
    refine ⟨.inl ⟨item, hitem, hb⟩, fun scope hscope => ?_⟩
    rw [hb] at hscope
    obtain rfl := Option.some.inj hscope
    exact (hs.items item hitem).1
  items item hitem := (hs.items item hitem).1
  templates := by simp [hs.others.2.2]
  binding {id b} hb := by
    obtain ⟨e, he, hbinding⟩ := Option.bind_eq_some_iff.1 hb
    have hprovided := (hs.names e (Array.mem_of_getElem? he)).2 b hbinding
    refine ⟨hprovided, fun scope hscope => ?_⟩
    obtain ⟨item, hitem, rfl⟩ | ⟨kind, l, -, hnone, -⟩ := hprovided
    · obtain rfl := Option.some.inj hscope
      exact (hs.items item hitem).1
    · simp [hnone] at hscope
  bound {v t} ht := by simp [hready.types.unbound v] at ht

section Accepted

variable {M : Prop} {decls : List Decl} {written : List (Nat × TypeExpr)} {types : List Ty} {s : State}

/-- The stages before types are written: once names are resolved definitions are followed. Then the types
are checked. -/
structure Stages (M : Prop) (decls : List Decl) (written : List (Nat × TypeExpr)) (types : List Ty)
    (s₁ s₂ s : State) : Prop where
  only : TypesOnly s₁
  listed : Listed M (fun _ => True) s₁
  resolved : ∀ item ∈ s₁.typeItems, Fixed M s₁.types item.type
  spaced : Spaced s₁
  names : (Source.declsTypeNames rootName decls).Nodup → (itemNames s₁).Nodup
  kinds : ∃ n, kinds decls directory (emptyState.withLimit n) = .ok () s₂
  kindcheck : kindcheck directory s₁ = .ok () s₂
  checks : written.mapM checkedType directory s₂ = .ok types s

/-- A run that checks types comes through the stages before that. -/
theorem stages_of_checked (hdecls : ∀ decl ∈ decls, decl.Projected M fun _ => True)
    (hrun : Runs directory (fun _ => checkedTypes decls written) emptyState types s) :
    ∃ n s₁ s₂, Stages M decls written types s₁ s₂ (s.withLimit n) := by
  obtain ⟨s₁, hdeclare, hs₁, hnames⟩ := runs_declareProgram (d := directory) hdecls
  obtain ⟨s₂, hbind, hs₂, hitems, hresolved⟩ := runs_bind hs₁
  obtain ⟨N, hN⟩ := hrun
  obtain ⟨N₁, hN₁⟩ := hdeclare
  obtain ⟨N₂, hN₂⟩ := hbind
  let n := N + N₁ + N₂
  have hdeclare := hN₁ n n (by omega) (by omega)
  have hbind := hN₂ n n (by omega) (by omega)
  obtain ⟨_, s₃, hkinds, hchecks⟩ := check_bind_ok.1 (hN n n (by omega) (by omega))
  obtain ⟨_, s₁', hdeclare', hrest⟩ := check_bind_ok.1 hkinds
  obtain ⟨_, s₂', hbind', hkind⟩ := check_bind_ok.1 hrest
  obtain rfl : s₁.withLimit n = s₁' := (EStateM.Result.ok.inj (hdeclare.symm.trans hdeclare')).2
  obtain rfl : s₂.withLimit n = s₂' := (EStateM.Result.ok.inj (hbind.symm.trans hbind')).2
  have hspaced : Spaced (s₁.withLimit n) := spaced_enters.declareAll root decls _ _ _ hdeclare
    (by simp [Spaced, emptyState, State.withLimit])
  refine ⟨n, s₂.withLimit n, s₃, ?_, ?_, hresolved, ?_, fun hnodup => ?_, ⟨n, hkinds⟩, hkind, hchecks⟩
  · exact typesOnly_bind (typesOnly_declareAll
      (fun decl hdecl _ _ _ _ hs h => typesOnly_declare (onlyTypes_of_projected (hdecls decl hdecl)) hs h)
      (typesOnly_emptyState n) hdeclare) hbind
  · exact ⟨hs₂.children, hs₂.types, hs₂.items, hs₂.names, hs₂.others, hs₂.reports⟩
  · intro item hitem
    replace hitem : item ∈ s₂.typeItems := hitem
    rw [hitems] at hitem
    exact hspaced item hitem
  · change (itemNames s₂).Nodup
    rw [itemNames, hitems, ← itemNames, hnames hnodup]
    exact hnodup

/-- What holds once definitions were followed holds once types were checked. -/
theorem Stages.after {O : Offer} {s₁ s₂ : State} (h : Stages M decls written types s₁ s₂ s)
    (hwritten : ∀ w ∈ written, w.2.Projected M fun _ => True) (hs : O.Holds s₂) :
    O.Holds s ∧ Onto s₂ s ∧ ∀ t ∈ types, Fixed M s.types t := by
  obtain ⟨hsteady, honto, -⟩ := follows_kindcheck h.only h.kindcheck
  obtain ⟨⟨hholds, -⟩, honto, htypes⟩ :=
    checks_each hwritten hs (h.only.toReady.onto honto hsteady) h.checks
  exact ⟨hholds, honto, htypes⟩

/-- Names stand for what was declared once types were checked. -/
theorem Stages.declared {s₁ s₂ : State} (h : Stages M decls written types s₁ s₂ s)
    (hwritten : ∀ w ∈ written, w.2.Projected M fun _ => True) : (declared s₁).Holds s :=
  (h.after hwritten
    (holds_kindcheck _ _ _ h.kindcheck (declared_of_listed h.listed h.only.toReady))).1

/-- The store is definite once types were checked without an error, and the checked types are fixed. -/
theorem definite_of_checked (hdecls : ∀ decl ∈ decls, decl.Projected M fun _ => True)
    (hwritten : ∀ w ∈ written, w.2.Projected M fun _ => True)
    (hrun : Runs directory (fun _ => checkedTypes decls written) emptyState types s)
    (haccepted : s.failed = false) : Definite M s.types ∧ ∀ t ∈ types, Fixed M s.types t := by
  obtain ⟨n, s₁, s₂, h⟩ := stages_of_checked hdecls hrun
  have hdeclared := h.declared hwritten
  obtain ⟨-, honto, htypes⟩ := h.after hwritten
    (holds_kindcheck _ _ _ h.kindcheck (declared_of_listed h.listed h.only.toReady))
  obtain ⟨-, honto₂, hfinite⟩ := follows_kindcheck h.only h.kindcheck
  have hclean : State.Clean (s.withLimit n) := State.clean_of_accepted haccepted
  refine ⟨⟨fun {id b} hb => ?_, fun {id b} hb => ?_⟩, htypes⟩
  · obtain ⟨⟨item, hitem, rfl⟩ | ⟨kind, l, hkind, -⟩, -⟩ := hdeclared.binding hb
    · exact (h.resolved item hitem).mono fun id hid =>
        resolved_later honto.types (resolved_later honto₂.types hid)
    · rw [hkind]
      exact .builtin
  · obtain ⟨⟨item, hitem, rfl⟩ | ⟨kind, l, hkind, -⟩, -⟩ := hdeclared.binding hb
    · have hitem : item ∈ s₂.typeItems := by
        rw [honto₂.same]
        exact hitem
      exact ((hfinite (honto.clean hclean) item hitem).onto honto).onward (.of_withLimit (n := n) rfl)
    · rw [hkind]
      exact .builtin

/-- The comparison of two accepted types comes to an end with an answer, unless it comes to a pair that
leads back to itself through pairs that are not written down. Without member types there is no such pair
if names are compared as names. -/
theorem comparisons_end (hdecls : ∀ decl ∈ decls, decl.Projected M fun _ => True)
    (hwritten : ∀ w ∈ written, w.2.Projected M fun _ => True)
    (hrun : Runs directory (fun _ => checkedTypes decls written) emptyState types s)
    (haccepted : s.failed = false) {a b : Ty} (ha : a ∈ types) (hb : b ∈ types) :
    (¬ Types.Returns s.types .conversion a b →
      ∃ r, Settles (fun _ => Types.isConvertible a b) s.types (.ok r)) ∧
    ((M → ¬ Types.Returns s.types .nominal a b) →
      ∃ r, Settles (fun _ => Types.isEqual a b) s.types (.ok r)) := by
  obtain ⟨hT, hfixed⟩ := definite_of_checked hdecls hwritten hrun haccepted
  have hends {mode : Agreement} (h : ¬ Types.Returns s.types mode a b) :
      ∃ r, Settles (fun _ => do return (← (Types.unifyWithin mode (← Types.limit) a b).run []).1)
        s.types (.ok r) := by
    obtain ⟨r, L, hanswers⟩ := hT.answers (hfixed a ha) (hfixed b hb) h
    exact ⟨r, hanswers.settles hT (hfixed a ha) (hfixed b hb)⟩
  refine ⟨hends, fun h => hends fun hreturns => ?_⟩
  by_cases hM : M
  · exact h hM hreturns
  · exact hT.not_returns hM (hfixed a ha) (hfixed b hb) (fun hmode => by cases hmode) hreturns

end Accepted

/-- Lists of bytes, and a struct that has such a list and a pointer to the type of its first member. -/
def chainTypes : List Decl :=
  let name (text : String) : TypeExpr := .name text somewhere
  [.type "P" [] (.struct [("x", name "byte", somewhere), ("next", .pointer (name "P") somewhere, somewhere)]
      somewhere) somewhere,
    .type "Q" [] (.struct [("first", name "P", somewhere),
      ("rest", .pointer (.dot (name "Q") "first" somewhere) somewhere, somewhere)] somewhere) somewhere]

/-- The type of the member, and the type of lists. -/
def chainWritten : List (Nat × TypeExpr) :=
  [(root, .dot (.name "Q" somewhere) "first" somewhere), (root, .name "P" somewhere)]

/-- What declares the lists. -/
def chainItem : Check.TypeItem :=
  { qualified := "global::P", scope := scopeOf root
    type := .struct [⟨"x", .name 0 "byte" (some somewhere), some somewhere⟩,
      ⟨"next", .pointer (.name 1 "P" (some somewhere)) (some somewhere), some somewhere⟩] (some somewhere) }

/-- What declares the struct. -/
def chainedItem : Check.TypeItem :=
  { qualified := "global::Q", scope := scopeOf root
    type := .struct [⟨"first", .name 2 "P" (some somewhere), some somewhere⟩,
      ⟨"rest", .pointer (.dot (.name 3 "Q" (some somewhere)) "first" (some somewhere)) (some somewhere),
        some somewhere⟩] (some somewhere) }

/-- The state once the two types were checked. -/
def chainState : State where
  types := { names := #[{ binding := some { qualified := "byte", type := .builtin .byte none } },
    { binding := some chainItem.binding }, { binding := some chainItem.binding },
    { binding := some chainedItem.binding }, { binding := some chainedItem.binding },
    { binding := some chainItem.binding }] }
  spaces := #[{ name := rootName, qualified := rootName, parent := none,
                types := [("Q", chainedItem.binding), ("P", chainItem.binding)] }]
  typeItems := #[chainItem, chainedItem]

/-- The type of the member as it is written. -/
def chainProjection : Ty := .dot (.name 4 "Q" (some somewhere)) "first" (some somewhere)

/-- The type of lists as it is written. -/
def chainName : Ty := .name 5 "P" (some somewhere)

/-- The types of the chain are accepted whatever the limit. -/
theorem chain_checked (n : Nat) : checkedTypes chainTypes chainWritten directory
    (emptyState.withLimit (n + 12)) = .ok [chainProjection, chainName] (chainState.withLimit (n + 12)) := by
  cbv

/-- The declarations of the chain are without templates. -/
theorem projected_chainTypes : ∀ decl ∈ chainTypes, decl.Projected True fun _ => True := by
  intro decl hdecl
  obtain rfl | rfl : decl = _ ∨ decl = _ := by simpa [chainTypes] using hdecl
  all_goals
    refine .type (.struct ?_)
    rintro m hm
    obtain rfl | rfl : m = _ ∨ m = _ := by simpa using hm
  · exact .name
  · exact .pointer .name
  · exact .name
  · exact .pointer (.dot trivial .name)

/-- The written types of the chain are without templates. -/
theorem projected_chainWritten : ∀ w ∈ chainWritten, w.2.Projected True fun _ => True := by
  intro w hw
  obtain rfl | rfl : w = _ ∨ w = _ := by simpa [chainWritten] using hw
  · exact .dot trivial .name
  · exact .name

/-- The struct of lists is compared with itself, once the name was written down. -/
theorem chain_opens : Types.Opens chainState.types .conversion chainProjection chainName
    ⟨some ("struct \x7b x: byte; next: *global::P; \x7d", "global::P"),
      [some (chainItem.type, chainItem.type)]⟩ :=
  have hheads : Types.Heads chainState.types chainProjection chainName chainItem.type chainName :=
    ⟨by decide, ⟨.steps 4 fun _ _ => by cbv, .steps 4 fun _ _ => by cbv⟩, .steps 4 fun _ _ => by cbv,
      .steps 4 fun _ _ => by cbv⟩
  .names rfl hheads rfl (.steps 8 fun _ _ => by cbv) (.steps 8 fun _ _ => by cbv)
    (.steps 8 fun _ _ => by cbv) (.steps 8 fun _ _ => by cbv)
    ⟨.steps 4 fun _ _ => by cbv, .steps 4 fun _ _ => by cbv⟩

/-- The comparison of lists with themselves stays among the pairs that are assumed. -/
theorem chain_closes : Types.Opens chainState.types .conversion chainItem.type chainItem.type ⟨none, []⟩ :=
  .same (by decide)

/-- A struct and a name differ if names are compared as names. -/
theorem chain_nominal : Types.Opens chainState.types .nominal chainProjection chainName ⟨none, [none]⟩ :=
  .nominal rfl ⟨by decide, ⟨.steps 4 fun _ _ => by cbv, .steps 4 fun _ _ => by cbv⟩,
    .steps (r := .ok chainItem.type) 4 fun _ _ => by cbv, .steps (r := .ok chainName) 4 fun _ _ => by cbv⟩

/-- No pair that the comparison of the two types comes to leads back to itself. -/
theorem chain_not_returns (mode : Agreement) :
    ¬ Types.Returns chainState.types mode chainProjection chainName := by
  rintro ⟨p, hreached, hreturns⟩
  obtain ⟨q, ⟨parts, ho, hq⟩, -⟩ := Relation.TransGen.head'_iff.1 hreturns
  cases mode with
  | nominal =>
    obtain rfl | ⟨p', ⟨o, ho', hp'⟩, -⟩ := Relation.ReflTransGen.cases_head hreached
    · cases ho.unique chain_nominal
      simp at hq
    · obtain rfl := ho'.unique chain_nominal
      simp at hp'
  | conversion =>
    obtain rfl | ⟨p', ⟨o, ho', hp'⟩, hreached⟩ := Relation.ReflTransGen.cases_head hreached
    · nomatch ho.unique chain_opens
    obtain rfl := ho'.unique chain_opens
    obtain rfl : p' = _ := by simpa using hp'
    obtain rfl | ⟨p', ⟨o, ho', hp'⟩, -⟩ := Relation.ReflTransGen.cases_head hreached
    · cases ho.unique chain_closes
      simp at hq
    · obtain rfl := ho'.unique chain_closes
      simp at hp'

/-- The comparisons of the example end, both for conversion and for equality. -/
theorem comparisons_end_chain :
    (∃ r, Settles (fun _ => Types.isConvertible chainProjection chainName) chainState.types (.ok r)) ∧
      ∃ r, Settles (fun _ => Types.isEqual chainProjection chainName) chainState.types (.ok r) :=
  have h := comparisons_end projected_chainTypes projected_chainWritten (s := chainState) ⟨12, fun n m _ hm => by
    obtain ⟨k, rfl⟩ := Nat.exists_eq_add_of_le' hm
    exact chain_checked k⟩ rfl (a := chainProjection) (b := chainName) (by simp) (by simp)
  ⟨h.1 (chain_not_returns _), h.2 fun _ => chain_not_returns _⟩

/-- A struct with a pointer to the type of the pointer. -/
def pointedDecl (name : String) : Decl :=
  .type name [] (.struct [("n", .pointer (.dot (.name name somewhere) "n" somewhere) somewhere, somewhere)]
    somewhere) somewhere

/-- The two structs and the types of their members. -/
def pointedWritten : List (Nat × TypeExpr) :=
  [(root, .name "S" somewhere), (root, .name "T" somewhere), (root, .dot (.name "S" somewhere) "n" somewhere),
    (root, .dot (.name "T" somewhere) "n" somewhere)]

/-- The type of the member. -/
def pointedProjection (id : Nat) (text : String) : Ty :=
  .dot (.name id text (some somewhere)) "n" (some somewhere)

/-- What declares a struct. -/
def pointedItem (qualified : String) (id : Nat) (text : String) : Check.TypeItem :=
  { qualified, scope := scopeOf root
    type := .struct [⟨"n", .pointer (pointedProjection id text) (some somewhere), some somewhere⟩] (some somewhere) }

/-- The state once the types were checked. -/
def pointedState : State :=
  let first := pointedItem "global::S" 0 "S"
  let second := pointedItem "global::T" 1 "T"
  { types := { names := #[{ binding := some first.binding }, { binding := some second.binding },
      { binding := some first.binding }, { binding := some second.binding }, { binding := some first.binding },
      { binding := some second.binding }] }
    spaces := #[{ name := rootName, qualified := rootName, parent := none,
                  types := [("T", second.binding), ("S", first.binding)] }]
    typeItems := #[first, second] }

/-- The two structs with pointers are accepted whatever the limit. -/
theorem pointed_checked (n : Nat) :
    checkedTypes [pointedDecl "S", pointedDecl "T"] pointedWritten directory (emptyState.withLimit (n + 12)) =
      .ok [.name 2 "S" (some somewhere), .name 3 "T" (some somewhere), pointedProjection 4 "S",
        pointedProjection 5 "T"] (pointedState.withLimit (n + 12)) := by cbv

/-- The types of the pointers lead to the pointers, and these to the types of the pointers. -/
theorem pointed_compared (mode : Agreement) (k n : Nat) (L : List (String × String)) :
    Types.unifyWithin mode k (pointedProjection 0 "S") (pointedProjection 1 "T") L
      (pointedState.types.withLimit (n + 12)) = .error .endless (pointedState.types.withLimit (n + 12)) := by
  induction k with
  | zero => rfl
  | succ k ih =>
    cases mode
    · exact ih
    · exact ih

/-- The names are opened first, and then their structs and the pointers in these. -/
theorem pointed_named {k : Nat} (hk : 3 ≤ k) (n : Nat) : Types.unifyWithin .conversion k
    (.name 2 "S" (some somewhere)) (.name 3 "T" (some somewhere)) [] (pointedState.types.withLimit (n + 12)) =
      .error .endless (pointedState.types.withLimit (n + 12)) := by
  obtain ⟨k, rfl⟩ := Nat.exists_eq_add_of_le' hk
  change EStateM.bind (Types.unifyWithin .conversion k (pointedProjection 0 "S")
    (pointedProjection 1 "T") _) _ _ = _
  rw [EStateM.bind, pointed_compared]

/-- Members of the two structs are compared again and again, up to any limit. -/
theorem pointed_projected {k : Nat} (hk : 1 ≤ k) (n : Nat) : Types.unifyWithin .nominal k
    (pointedProjection 4 "S") (pointedProjection 5 "T") [] (pointedState.types.withLimit (n + 12)) =
      .error .endless (pointedState.types.withLimit (n + 12)) := by
  obtain ⟨k, rfl⟩ := Nat.exists_eq_add_of_le' hk
  exact pointed_compared .nominal k n []

/-- A comparison that ends at no limit fails with its run. -/
theorem run_endless {mode : Agreement} {a b : Ty} {T : Store}
    (h : Types.unifyWithin mode T.limit a b [] T = .error .endless T) :
    (do return (← (Types.unifyWithin mode (← Types.limit) a b).run []).1 : Types.TypeM Bool) T =
      .error .endless T := by
  change EStateM.bind (Types.unifyWithin mode T.limit a b []) _ _ = _
  rw [EStateM.bind, h]

/-- Two structs with pointers to the types of their pointers are accepted, and comparing them, or the types
of their pointers by names, never comes to an end. -/
theorem pointed_comparisons_endless :
    Runs directory (fun _ => checkedTypes [pointedDecl "S", pointedDecl "T"] pointedWritten) emptyState
      [.name 2 "S" (some somewhere), .name 3 "T" (some somewhere), pointedProjection 4 "S",
        pointedProjection 5 "T"] pointedState ∧ pointedState.failed = false ∧
    Settles (fun _ => Types.isConvertible (.name 2 "S" (some somewhere)) (.name 3 "T" (some somewhere)))
      pointedState.types (.error .endless) ∧
    Settles (fun _ => Types.isEqual (pointedProjection 4 "S") (pointedProjection 5 "T"))
      pointedState.types (.error .endless) := by
  refine ⟨⟨12, fun _ m _ hm => ?_⟩, rfl, ⟨12, fun _ m _ hm => ?_⟩, ⟨12, fun _ m _ hm => ?_⟩⟩
  all_goals obtain ⟨n, rfl⟩ := Nat.exists_eq_add_of_le' hm
  · exact pointed_checked n
  · exact run_endless (pointed_named (k := n + 12) (by omega) n)
  · exact run_endless (pointed_projected (k := n + 12) (by omega) n)

end Qll.Program
