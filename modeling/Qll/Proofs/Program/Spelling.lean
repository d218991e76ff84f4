import Mathlib
import Qll.Proofs.Program.Entering
import Qll.Proofs.Types.Nominal

/-!
# Mangled texts of checked types

Declared types have the name of a namespace in front, and builtin types are called by their own names.
Once the declarations of a program are entered, types are checked one after another, and variables get
types. At all times two of the checked types that have one mangled text have one constructor tree.
-/

namespace Qll.Program

open Qll.Computation
open Check (State Space CheckM onTypes check_bind_ok check_pure_ok check_get_ok check_set_ok check_modify_ok)
open Source (Decl Location TypeExpr)
open Qll.Types (Ty Store Scope TypeM Tree IsPlain Named Remembers Written Carries)

/-! ## Declarations -/

/-- Declared types have a namespace in their names. -/
def Spaced (s : State) : Prop := ∀ item ∈ s.typeItems, ':' ∈ item.qualified.toList

/-- Entering declarations puts the namespace in front of each name. -/
theorem spaced_enters : Enters Spaced where
  aside hitems _ _ _ _ hs := by rwa [Spaced, hitems]
  typeItem hcolon hs := Check.forall_push hs hcolon
  function _ _ hs := hs
  template _ hs := hs

/-! ## Stages -/

/-- Names stand for what they are called after. -/
def called : Offer where
  binding b := b.Proper ∧ ∀ scope ∈ b.scope, scope.OnlyVars
  scope := Scope.OnlyVars
  builtin _ := ⟨.builtin, by simp⟩
  error _ := ⟨.error, by simp⟩
  parameter {scope p} hscope hp := by
    obtain ⟨name, t⟩ := p
    obtain ⟨v, hv⟩ := hscope (name, t) hp
    obtain rfl : t = .var v := hv
    exact ⟨.parameter, by simp⟩
  inner hb := hb.2 _
  space _ := by simp [scopeOf, Scope.OnlyVars]

/-- What is declared is called after its namespace. -/
theorem called_of_entered {s : State} (hs : Entered IsPlain s) (hspaced : Spaced s) : called.Holds s where
  tables n hn p hp := by
    obtain ⟨-, item, hitem, hb⟩ := hs.types n hn p hp
    obtain ⟨hqualified, hparams, -⟩ := hs.typeItems item hitem
    rw [hb]
    exact ⟨.declared hqualified (hspaced item hitem), fun scope hscope p hp => by
      obtain rfl : item.scope = scope := Option.some.inj hscope
      exact (hparams p hp).2⟩
  items item hitem p hp := ((hs.typeItems item hitem).params p hp).2
  templates t ht p hp := ((hs.templates t ht).params p hp).2
  binding {id b} hb := by simp [hs.store.binding id] at hb
  bound {v t} ht := by simp [hs.store.bound v] at ht

/-- What keeps the offer preserves that it holds. -/
theorem Keeps.holds {α : Type} {O : Offer} {x : CheckM α} (hx : Keeps O x) : Preserves O.Holds x :=
  fun _ _ _ hrun hs => (hx.run hrun hs).1

section Offer

variable {O : Offer}

/-- Imports are resolved. -/
theorem holds_resolveImport (index : Nat) : Preserves O.Holds (resolveImport index) := by
  intro s u s' hrun hs
  obtain ⟨htypes, hbeside⟩ := resolveImport_ok hrun
  have hbeside := hbeside (show Beside s s from rfl)
  rw [hbeside, htypes]
  exact ⟨hs.tables, hs.items, hs.templates, hs.binding, hs.bound⟩

/-- The names in the definitions of types are resolved. -/
theorem holds_bind : Preserves O.Holds bind := by
  refine .get fun s hs => .bind (.forM fun i _ => holds_resolveImport i) fun _ => .get fun s hs => ?_
  exact .forM fun item hitem => (keeps_bindNames (hs.items item (by simpa using hitem)) item.type).holds

/-- The type of a value is looked at. -/
theorem keeps_checkValueType (c : Check.Context) (t : Ty) (l : Option Location) (what : String) :
    Keeps O (Check.checkValueType c t l what) := by
  refine .bind .read fun _ => .ite .pure (.bind (keeps_isVoid t) fun _ => ?_)
  refine .ite (.bind .reportError fun _ => .pure) (.bind (keeps_resolve t) fun shape => ?_)
  split
  · exact .bind (.textOf t) fun _ => .bind .reportError fun _ => .pure
  · exact .pure

/-- A variable gets the error type. -/
theorem holds_bindError (v : Nat) : Preserves O.Holds (onTypes (Types.bindVar v .error)) := by
  intro s u s' hrun hs
  obtain ⟨T, hbind, rfl⟩ := Check.onTypes_ok hrun
  -- The tables do not matter for the store.
  have hends := Types.upholds_bindVar (I := fun T => O.Holds { s with types := T }) (v := v) (t := .error)
    (fun T hT _ => ⟨hT.tables, hT.items, hT.templates, hT.binding, fun {w t} ht => ?_⟩) s.types hs
  · rw [hbind] at hends
    exact hends.1
  · obtain ht | ⟨rfl, rfl⟩ := Types.bound?_bind ht
    · have hremembers : Remembers T (T.bind v .error) := ⟨fun h => h, fun h => h⟩
      exact (hT.bound ht).mono hremembers
    · exact .builtin

/-- The type of a global is checked. -/
theorem holds_kindcheckGlobal (g : Check.GlobalItem) : Preserves O.Holds (kindcheckGlobal g) := by
  unfold kindcheckGlobal
  split
  · exact ((keeps_checkType (O.space _) _).bind fun _ =>
      .bind (keeps_checkValueType _ _ _ _) fun _ => .pure).holds
  · exact .pure
  · exact .bind Keeps.reportError.holds fun _ => holds_bindError _

/-- The types of a function are checked. -/
theorem holds_kindcheckFunction (f : Check.FunctionItem) :
    Preserves O.Holds (kindcheckFunction f) := by
  refine .bind (keeps_checkType (O.space _) _).holds fun _ => .ite ?_ .pure
  split
  · exact .bind (keeps_isVoid _).holds fun _ => .ite Keeps.reportError.holds .pure
  · exact .bind .pure fun _ => .ite Keeps.reportError.holds .pure

/-- The types of all declarations are checked. -/
theorem holds_kindcheck : Preserves O.Holds kindcheck := by
  refine .get fun s hs => .bind (.forM fun item hitem => ?_) fun _ => .get fun _ _ => .bind (.forM fun g _ =>
    holds_kindcheckGlobal g) fun _ => .get fun _ _ => .bind (.forM fun f _ => holds_kindcheckFunction f)
      fun _ => .get fun s hs => .forM fun t ht => ?_
  · exact (keeps_kindcheck (hs.items item (by simpa using hitem)) _ _).holds
  · exact (keeps_checkType (hs.templates t (by simpa using ht)) _).holds

end Offer

/-- After the kind stage names stand for what they are called after. -/
theorem called_kinds {decls : List Decl} (hnames : ∀ n ∈ Source.declsNames decls, IsPlain n) {n : Nat}
    {s : State} (h : kinds decls directory (emptyState.withLimit n) = .ok () s) : called.Holds s := by
  obtain ⟨_, s₁, hdeclare, h₁⟩ := check_bind_ok.1 h
  obtain ⟨_, s₂, hbind, hkind⟩ := check_bind_ok.1 h₁
  have hentered := entered_declareProgram (by decide) hnames hdeclare
  have hspaced := spaced_enters.declareAll root decls _ _ _ hdeclare (by simp [Spaced, emptyState, Check.State.withLimit])
  exact holds_kindcheck _ _ _ hkind (holds_bind _ _ _ hbind (called_of_entered hentered hspaced))

/-! ## Checked types -/

/-- How checking goes on once the declarations of a program are entered: the states that are reached, with
the types that were checked. -/
inductive Checking (decls : List Decl) : State → Set Ty → Prop
  /-- The declarations have gone through the stages up to the kind stage. -/
  | declared {n s} (hrun : kinds decls directory (emptyState.withLimit n) = .ok () s) : Checking decls s ∅
  /-- A type is checked in a scope of the program. The names that are new are its own. -/
  | checked {s A scope t k lo hi s'} (h : Checking decls s A) (hscope : scope.OnlyVars)
      (ht : Written s.types k lo t hi)
      (hnew : ∀ id, Slots lo hi id → id < s.types.names.size ∧ s.types.binding? id = none)
      (hk : k ≤ s.types.applies.size) (hrun : Check.checkType scope t directory s = .ok () s') :
      Checking decls s' (insert t A)
  /-- Other types are made, of which the names are resolved, and variables get types. -/
  | inferred {s A s'} (h : Checking decls s A)
      (htables : s'.spaces = s.spaces ∧ s'.typeItems = s.typeItems ∧ s'.templates = s.templates)
      (hremembers : Remembers s.types s'.types)
      (hbinding : ∀ id b, s'.types.binding? id = some b → ∃ id', s.types.binding? id' = some b)
      (hbound : ∀ v t, s'.types.bound? v = some t → Named s'.types t) : Checking decls s' A

/-- At all times names stand for what they are called after, and the names of checked types are
resolved. -/
theorem Checking.named {decls : List Decl} (hnames : ∀ n ∈ Source.declsNames decls, IsPlain n) {s : State}
    {A : Set Ty} (h : Checking decls s A) : called.Holds s ∧ ∀ t ∈ A, Named s.types t := by
  induction h with
  | declared hrun => exact ⟨called_kinds hnames hrun, by simp⟩
  | @checked s A scope t k lo hi s' _ hscope ht hnew hk hrun ih =>
    obtain ⟨hs, hA⟩ := ih
    have hscope : called.scope scope := hscope
    obtain ⟨hholds, hremembers⟩ := (keeps_checkType hscope t).run hrun hs
    obtain ⟨_, s₁, hbind, hkind⟩ := check_bind_ok.1 hrun
    obtain ⟨n, s₂, hlimit, hwithin⟩ := check_bind_ok.1 hbind
    obtain ⟨T, hn, rfl⟩ := Check.onTypes_ok hlimit
    obtain ⟨-, rfl⟩ := Types.limit_ok.1 hn
    obtain ⟨-, hnamed⟩ := (resolves_bindNamesWithin hscope n ht).2 _ _ s₁ ⟨⟨hs, .refl _⟩, hnew, hk⟩ hwithin
    have hs₁ := ((keeps_bindNames hscope t).run hbind hs).1
    refine ⟨hholds, fun u hu => ?_⟩
    obtain rfl | hu := hu
    · exact hnamed.mono ((keeps_kindcheck hscope {} _).run hkind hs₁).2
    · exact (hA u hu).mono hremembers
  | @inferred s A s' _ htables hremembers hbinding hbound ih =>
    obtain ⟨hs, hA⟩ := ih
    obtain ⟨hspaces, hitems, htemplates⟩ := htables
    refine ⟨⟨?_, ?_, ?_, fun {id b} hb => ?_, fun {v t} ht => hbound v t ht⟩, fun t ht => (hA t ht).mono hremembers⟩
    · rw [hspaces]
      exact hs.tables
    · rw [hitems]
      exact hs.items
    · rw [htemplates]
      exact hs.templates
    · obtain ⟨id', hb'⟩ := hbinding id b hb
      exact hs.binding hb'

end Qll.Program

namespace Qll.Types

/-- A type without unbound variables, and without components that stand for the error type. -/
structure Whole (s : Store) (t : Ty) : Prop where
  closed : ∀ v, Relation.ReflTransGen (Carries s) t (.var v) → ∃ u, s.bound? v = some u
  sound : ∀ u l, Relation.ReflTransGen (Carries s) t u → ¬ Shape s u (.builtin .error l)

/-- The components of a whole type are whole. -/
theorem Whole.carries {s : Store} {t u : Ty} (h : Whole s t) (hstep : Carries s t u) : Whole s u :=
  ⟨fun v hv => h.closed v (hv.head hstep), fun w l hw => h.sound w l (hw.head hstep)⟩

/-- In a family that has the components of its members, variables are bound, and no type stands for the error
type. -/
theorem Whole.of_closed {s : Store} {D : Ty → Prop} (hD : ∀ {t u}, D t → Carries s t u → D u)
    (hvar : ∀ v, D (.var v) → ∃ u, s.bound? v = some u)
    (hsound : ∀ u, D u → ∃ w, Shape s u w ∧ ∀ l, w ≠ .builtin .error l) {t : Ty} (ht : D t) : Whole s t := by
  refine ⟨fun v hv => hvar v (reaches_closed hD ht hv), fun u l hu herror => ?_⟩
  obtain ⟨w, hw, hne⟩ := hsound u (reaches_closed hD ht hu)
  exact hne l (hw.unique herror)

/-- The members of a struct, or the member that is projected, have plain names. -/
def Ty.PlainMembers : Ty → Prop
  | .struct ms _ => ∀ m ∈ ms, IsPlain m.name
  | .dot _ m _ => IsPlain m
  | _ => True

/-- The names in the components of a type are resolved, too. -/
theorem Named.carries {s : Store} (hbound : ∀ {v t}, s.bound? v = some t → Named s t) {t u : Ty}
    (h : Named s t) (hstep : Carries s t u) : Named s u := by
  cases hstep with
  | pointer | slice | array | base => cases h; assumption
  | member hm => cases h with | struct h => exact h _ hm
  | argument ha => cases h with | function has _ => exact has _ ha
  | result => cases h with | function _ hr => exact hr
  | typeArgument ha => cases h with | apply _ _ has => exact has _ ha
  | head | parameter => exact .var
  | bound ht => exact hbound ht

/-- An application that stands for the error type. -/
theorem shape_of_error {s : Store} {id head : Nat} {text : String} {as : List Ty}
    {l : Option Source.Location} (h : s.result? id = some .error) :
    Shape s (.apply id head text as l) .error := by
  have happlied : applied id head text as s = .ok .error s := by
    obtain ⟨⟨result, cyclic⟩, he, rfl⟩ := Option.bind_eq_some_iff.1 h
    have hget {g : Store → TypeM Ty} : (MonadState.get >>= g) s = g s s := rfl
    rw [applied, hget, he]
    cases cyclic <;> rfl
  exact (Stands.apply happlied).shape_iff.2 (Ty.IsShape.self trivial)

end Qll.Types

namespace Qll.Program

open Check (State)
open Source (Decl)
open Qll.Types (Ty Store IsPlain Named Carries Whole Spelled)

/-- A checked type, and each of its components. -/
theorem spelled_checked {s : Store} (hproper : ∀ {id b}, s.binding? id = some b → b.Proper)
    (hbound : ∀ {v t}, s.bound? v = some t → Named s t) :
    Spelled s fun t => Named s t ∧ Whole s t ∧
      ∀ u, Relation.ReflTransGen (Carries s) t u → u.PlainMembers where
  carries := fun ⟨hnamed, hwhole, hplain⟩ hstep =>
    ⟨hnamed.carries hbound hstep, hwhole.carries hstep, fun u hu => hplain u (hu.head hstep)⟩
  name := fun ⟨hnamed, _⟩ => by
    cases hnamed with
    | name hid =>
      obtain ⟨b, hb⟩ := Option.isSome_iff_exists.1 hid
      exact ⟨b, hb, hproper hb⟩
  apply := fun ⟨hnamed, hwhole, _⟩ => by
    cases hnamed with
    | apply _ happly _ =>
      obtain ⟨b, template, hb, htemplate⟩ | herror := happly
      · exact ⟨b, template, hb, htemplate, hproper hb⟩
      · exact absurd (Types.shape_of_error herror) (hwhole.sound _ none .refl)
  var := fun ⟨_, hwhole, _⟩ => hwhole.closed _ .refl
  template := fun ⟨hnamed, _⟩ => nomatch hnamed
  member := fun ⟨_, _, hplain⟩ => hplain _ .refl
  dot := fun ⟨_, _, hplain⟩ => hplain _ .refl
  error := fun ⟨_, hwhole, _⟩ => hwhole.sound _ _ .refl

/-- An application that stands for the error type is an error. -/
theorem faulty_of_error {s : Store} {id : Nat} (h : s.result? id = some .error) (head : Nat) (text : String)
    (as : List Ty) (l : Option Source.Location) : Types.Faulty s (.apply id head text as l) true := by
  obtain ⟨⟨result, cyclic⟩, he, hresult⟩ := Option.bind_eq_some_iff.1 h
  obtain rfl : result = some .error := hresult
  refine .steps 2 fun n m => ?_
  have he' : (s.withLimit (m + 2)).applies[id]? = some ⟨some .error, cyclic⟩ := he
  have hself : (s.withLimit (m + 2)).normalize (.apply id head text as l) = .ok (.apply id head text as l) := rfl
  change (s.withLimit (m + 2)).isErrorWithin (m + 1 + 1) _ = _
  rw [Store.isErrorWithin, hself]
  simp only [Bind.bind, Except.bind, he']
  cases cyclic <;> rfl

/-- Checked types without projections are told apart by their names, if they are closed and no type in them
is an error. -/
theorem equatable_checked {decls : List Decl} (hnames : ∀ n ∈ Source.declsNames decls, IsPlain n)
    {s : State} {A : Set Ty} (h : Checking decls s A) (hacyclic : s.types.Acyclic)
    (hclosed : ∀ t ∈ A, ∀ v, Relation.ReflTransGen (Carries s.types) t (.var v) → (s.types.bound? v).isSome)
    (hdot : ∀ t ∈ A, ∀ b m l, ¬ Relation.ReflTransGen (Carries s.types) t (.dot b m l))
    (hsound : ∀ t ∈ A, ∀ u, Relation.ReflTransGen (Carries s.types) t u → Types.Faulty s.types u false)
    (hnode : ∀ t ∈ A, ∀ t' ∈ A, ∀ {id head head' text text' as as' l l'},
      Relation.ReflTransGen (Carries s.types) t (.apply id head text as l) →
      Relation.ReflTransGen (Carries s.types) t' (.apply id head' text' as' l') → head = head' ∧ as = as') :
    Types.Equatable s.types fun u => ∃ t ∈ A, Relation.ReflTransGen (Carries s.types) t u := by
  obtain ⟨hholds, hnamed⟩ := h.named hnames
  have hreached {t u : Ty} (ht : t ∈ A) (hu : Relation.ReflTransGen (Carries s.types) t u) : Named s.types u :=
    Types.reaches_closed (Named.carries hholds.bound) (hnamed t ht) hu
  exact {
    carries := fun ⟨t, ht, hu⟩ hstep => ⟨t, ht, hu.tail hstep⟩
    ends := fun _ => Types.acc_of_variables fun v _ => hacyclic.acc_var v
    name := fun ⟨t, ht, hu⟩ => by
      cases hreached ht hu with
      | name h => exact h
    apply := fun ⟨t, ht, hu⟩ => by
      cases hreached ht hu with
      | apply _ happly _ =>
        obtain ⟨b, template, hb, htemplate⟩ | herror := happly
        · exact ⟨b, hb, fun v hv => nomatch htemplate.symm.trans hv⟩
        · exact absurd (Types.Tells.unique (hsound t ht _ hu) (faulty_of_error herror ..)) Bool.false_ne_true
    var := fun ⟨t, ht, hu⟩ => hclosed t ht _ hu
    dot := fun ⟨t, ht, hu⟩ => hdot t ht _ _ _ hu
    template := fun ⟨t, ht, hu⟩ => nomatch hreached ht hu
    sound := fun ⟨t, ht, hu⟩ => hsound t ht _ hu
    node := fun ⟨t, ht, hu⟩ ⟨t', ht', hu'⟩ => hnode t ht t' ht' hu hu' }

/-- The mangled text of a checked type without errors, in which all names are plain. -/
theorem mangled_checked {decls : List Decl} (hnames : ∀ n ∈ Source.declsNames decls, IsPlain n)
    {s : State} {A : Set Ty} (h : Checking decls s A) {a : Ty} (ha : a ∈ A) (hwhole : Whole s.types a)
    (hplain : ∀ u, Relation.ReflTransGen (Carries s.types) a u → u.PlainMembers) {text : String}
    (htext : s.types.mangle a = .ok text) : Types.Mangled IsPlain text := by
  obtain ⟨hholds, hnamed⟩ := h.named hnames
  have hspelled := spelled_checked (fun hb => (hholds.binding hb).1) hholds.bound
  obtain ⟨tree, -, ⟨hlegal, hspells⟩, -⟩ := hspelled.tree_of_render ⟨hnamed a ha, hwhole, hplain⟩ htext
  exact hlegal.mangled hspells

/-- Checked types with one mangled text have one constructor tree: what they are made of, the lengths of
arrays, the names of members, and the qualified names of what is declared are the same. -/
theorem mangled_types_alike {decls : List Decl} (hnames : ∀ n ∈ Source.declsNames decls, IsPlain n)
    {s : State} {A : Set Ty} (h : Checking decls s A) {a b : Ty} (ha : a ∈ A) (hb : b ∈ A)
    (hwhole : Whole s.types a ∧ Whole s.types b)
    (hplain : ∀ u, Relation.ReflTransGen (Carries s.types) a u ∨ Relation.ReflTransGen (Carries s.types) b u →
      u.PlainMembers)
    {text : String} (htext : s.types.mangle a = .ok text) (htext' : s.types.mangle b = .ok text) :
    ∃ tree, s.types.tree a = some tree ∧ s.types.tree b = some tree := by
  obtain ⟨hholds, hnamed⟩ := h.named hnames
  have hspelled := spelled_checked (fun hb => (hholds.binding hb).1) hholds.bound
  exact hspelled.tree_eq ⟨hnamed a ha, hwhole.1, fun u hu => hplain u (.inl hu)⟩
    ⟨hnamed b hb, hwhole.2, fun u hu => hplain u (.inr hu)⟩ htext htext'

/-- A declared struct. -/
def structDecls : List Decl :=
  [.type "S" [] (.struct [("n", .name "byte" somewhere, somewhere)] somewhere) somewhere]

/-- The item of the struct. -/
def structItem : Check.TypeItem :=
  { qualified := "global::S", scope := scopeOf root
    type := .struct [⟨"n", .name 0 "byte" (some somewhere), some somewhere⟩] (some somewhere) }

/-- What is declared with the struct. -/
def structState (types : Store) : State where
  types := types
  spaces := #[{ name := rootName, qualified := rootName, parent := none, types := [("S", structItem.binding)] }]
  typeItems := #[structItem]

/-- The name of the member, and two names of the struct of which some are resolved. -/
def structNames (resolved : Nat) : Array Types.NameEntry :=
  let entry (id : Nat) : Types.NameEntry :=
    { binding := if id < resolved then some structItem.binding else none }
  #[{ binding := some { qualified := "byte", type := .builtin .byte none } }, entry 1, entry 2]

/-- Some of the names are resolved, and a variable may stand for a type. -/
def structStore (resolved : Nat) (bound : Option Ty) : Store :=
  { limit := 10, names := structNames resolved, vars := #[{ name := "v", location := none, bound }] }

/-- A pointer to the struct. -/
def structPointer (id : Nat) : Ty := .pointer (.name id "S" none) none

/-- The kind stage of the declared struct resolves the name of its member. -/
theorem kinds_structDecls : kinds structDecls directory (emptyState.withLimit 10) =
    .ok () (structState { limit := 10, names := (structNames 0).take 1 }) := by cbv

/-- Entries from the first free number on are free. -/
theorem slots_new {i : Nat} {s : State} (hlt : i < s.types.names.size) (hnone : s.types.binding? i = none) :
    ∀ id, Slots i (i + 1) id → id < s.types.names.size ∧ s.types.binding? id = none := by
  rintro id ⟨hle, hlt'⟩
  obtain rfl : id = i := by omega
  exact ⟨hlt, hnone⟩

/-- Names of the example stand for the builtin type or for the struct. -/
theorem binding_structStore {resolved : Nat} {bound : Option Ty} {id : Nat} {b : Types.Binding}
    (h : (structStore resolved bound).binding? id = some b) :
    id = 0 ∧ b = { qualified := "byte", type := .builtin .byte none } ∨
      (id = 1 ∨ id = 2) ∧ id < resolved ∧ b = structItem.binding := by
  match id with
  | 0 => exact .inl ⟨rfl, (Option.some.inj h).symm⟩
  | 1 =>
    change (if 1 < resolved then _ else _) = _ at h
    split at h
    · next hlt => exact .inr ⟨.inl rfl, hlt, (Option.some.inj h).symm⟩
    · cases h
  | 2 =>
    change (if 2 < resolved then _ else _) = _ at h
    split at h
    · next hlt => exact .inr ⟨.inr rfl, hlt, (Option.some.inj h).symm⟩
    · cases h
  | n + 3 => simp [structStore, structNames, Store.binding?] at h

/-- In the example a variable, what it stands for and a written type are checked. -/
theorem checking_structPointers : Checking structDecls (structState (structStore 3 (some (structPointer 2))))
    {.var 0, structPointer 2, structPointer 1} := by
  have hdeclared : Checking structDecls (structState (structStore 0 none)) ∅ := by
    refine .inferred (.declared kinds_structDecls) ⟨rfl, rfl, rfl⟩ ⟨fun {id b} hb => ?_, fun {id} h => ?_⟩ ?_ ?_
    · cases id with
      | zero => exact hb
      | succ n => simp [structState, structNames, Store.binding?] at hb
    · simp [structState, Store.result?] at h
    · intro id b hb
      obtain ⟨rfl, rfl⟩ | ⟨-, hlt, -⟩ := binding_structStore hb
      · exact ⟨0, rfl⟩
      · omega
    · intro v t ht
      cases v with
      | zero => cases ht
      | succ n => simp [structState, structStore, Store.bound?] at ht
  have hfirst : Checking structDecls (structState (structStore 2 none)) {structPointer 1} := by
    rw [← insert_empty_eq]
    exact .checked hdeclared (called.space root) (.pointer .name) (slots_new (by decide) rfl) (Nat.zero_le _) rfl
  have hsecond : Checking structDecls (structState (structStore 3 none)) {structPointer 2, structPointer 1} :=
    .checked hfirst (called.space root) (.pointer .name) (slots_new (by decide) rfl) (Nat.zero_le _) rfl
  have hbound : Checking structDecls (structState (structStore 3 (some (structPointer 2))))
      {structPointer 2, structPointer 1} := by
    refine .inferred hsecond ⟨rfl, rfl, rfl⟩ ⟨fun h => h, fun h => h⟩ (fun id b hb => ⟨id, hb⟩) fun v t ht => ?_
    cases v with
    | zero =>
      cases ht
      exact .pointer (.name rfl)
    | succ n => simp [structState, structStore, Store.bound?] at ht
  have hwritten : Types.Written (structStore 3 (some (structPointer 2))) 0 0 (.var 0) 0 := .var
  exact .checked hbound (called.space root) hwritten (fun id h => absurd h.2 (Nat.not_lt_zero id))
    (Nat.zero_le _) rfl

/-- The types that are reached. -/
def StructType (t : Ty) : Prop :=
  t = .var 0 ∨ ∃ id, (id = 1 ∨ id = 2) ∧ (t = structPointer id ∨ t = .name id "S" none)

/-- The components of the types of the example are among them. -/
theorem structType_carries {t u : Ty} (ht : StructType t)
    (h : Carries (structStore 3 (some (structPointer 2))) t u) : StructType u := by
  obtain rfl | ⟨id, hid, rfl | rfl⟩ := ht
  · cases h with
    | bound hu =>
      cases hu
      exact .inr ⟨2, .inr rfl, .inl rfl⟩
  · cases h with
    | pointer => exact .inr ⟨id, hid, .inr rfl⟩
  · cases h with
    | parameter hb hv =>
      obtain ⟨-, rfl⟩ | ⟨-, -, rfl⟩ := binding_structStore hb <;> cases hv

/-- The types of the example are whole. -/
theorem whole_structType {t : Ty} (ht : StructType t) : Whole (structStore 3 (some (structPointer 2))) t := by
  refine .of_closed structType_carries (fun v hv => ?_) (fun u hu => ?_) ht
  · obtain hv | ⟨id, -, hv | hv⟩ := hv
    · cases hv
      exact ⟨structPointer 2, rfl⟩
    · cases hv
    · cases hv
  · obtain rfl | ⟨id, hid, rfl | rfl⟩ := hu
    · exact ⟨structPointer 2, ⟨2, rfl⟩, nofun⟩
    · exact ⟨structPointer id, ⟨1, rfl⟩, nofun⟩
    · refine ⟨structItem.type, ⟨2, ?_⟩, nofun⟩
      obtain rfl | rfl := hid <;> rfl

/-- In the example a variable and a written type with one text have one tree. -/
theorem mangled_types_alike_struct : (∀ n ∈ Source.declsNames structDecls, IsPlain n) ∧
    ∃ tree, (structStore 3 (some (structPointer 2))).tree (.var 0) = some tree ∧
      (structStore 3 (some (structPointer 2))).tree (structPointer 1) = some tree := by
  have hnames : ∀ n ∈ Source.declsNames structDecls, IsPlain n := by decide
  have htext : (structStore 3 (some (structPointer 2))).mangle (.var 0) = .ok "*global::S" := rfl
  refine ⟨hnames, mangled_types_alike hnames checking_structPointers (by simp) (by simp)
    ⟨whole_structType (.inl rfl), whole_structType (.inr ⟨1, .inl rfl, .inl rfl⟩)⟩ ?_ htext rfl⟩
  rintro u (hu | hu)
  all_goals
    have htype := Types.reaches_closed structType_carries (by simp [StructType]) hu
    obtain rfl | ⟨id, -, rfl | rfl⟩ := htype <;> trivial

/-- A struct with two members. -/
def twoMembers : Ty :=
  .struct [⟨"a", .name 0 "byte" none, none⟩, ⟨"b", .name 1 "byte" none, none⟩] none

/-- A struct with one member, in the name of which another one is written. -/
def oneMember : Ty := .struct [⟨"a: byte; b", .name 2 "byte" none, none⟩] none

/-- A state with three names, of which some stand for the type of bytes. -/
def bytesState (resolved : Nat) : State :=
  let byte : Types.Binding := { qualified := "byte", type := .builtin .byte none }
  let entry (id : Nat) : Types.NameEntry := { binding := if id < resolved then some byte else none }
  { emptyState.withLimit 10 with types := { limit := 10, names := #[entry 0, entry 1, entry 2] } }

/-- A program without declarations is checked at once. -/
theorem kinds_nil : kinds [] directory (emptyState.withLimit 10) = .ok () (emptyState.withLimit 10) := by cbv

/-- The struct with two members is accepted. -/
theorem check_two : Check.checkType (scopeOf root) twoMembers directory (bytesState 0) = .ok () (bytesState 2) := by
  cbv

/-- The struct with one oddly named member is accepted. -/
theorem check_one : Check.checkType (scopeOf root) oneMember directory (bytesState 2) = .ok () (bytesState 3) := by
  cbv

/-- Both structs are checked types of a program without declarations. -/
theorem checking_members : Checking [] (bytesState 3) {oneMember, twoMembers} := by
  have hdeclared : Checking [] (bytesState 0) ∅ := by
    refine .inferred (.declared kinds_nil) ⟨rfl, rfl, rfl⟩ ⟨fun {id b} h => ?_, fun {id} h => ?_⟩
      (fun id b h => ?_) fun v t h => ?_
    · simp [emptyState, State.withLimit, Store.withLimit, Store.binding?] at h
    · simp [emptyState, State.withLimit, Store.withLimit, Store.result?] at h
    · obtain _ | _ | _ | n := id
      · cases h
      · cases h
      · cases h
      · simp [bytesState, Store.binding?] at h
    · simp [bytesState, Store.bound?] at h
  have hfirst : Checking [] (bytesState 2) {twoMembers} := by
    rw [← insert_empty_eq]
    have hwritten : Types.Written (bytesState 0).types 0 0 twoMembers 2 := .struct (.cons .name (.cons .name .nil))
    refine .checked hdeclared (called.space root) hwritten ?_ (Nat.zero_le _) check_two
    rintro id ⟨-, hlt⟩
    obtain _ | _ | n := id
    · exact ⟨by decide, rfl⟩
    · exact ⟨by decide, rfl⟩
    · omega
  exact .checked hfirst (called.space root) (.struct (.cons .name .nil)) (slots_new (by decide) rfl)
    (Nat.zero_le _) check_one

/-- Where other names are members, two structs have one text, although one has two members and the other
one has a single member. -/
theorem members_run_together :
    Checking [] (bytesState 3) {oneMember, twoMembers} ∧ (bytesState 3).failed = false ∧
      Whole (bytesState 3).types oneMember ∧ Whole (bytesState 3).types twoMembers ∧
      (bytesState 3).types.mangle oneMember = .ok "struct \x7b a: byte; b: byte; \x7d" ∧
      (bytesState 3).types.mangle twoMembers = .ok "struct \x7b a: byte; b: byte; \x7d" ∧
      (bytesState 3).types.tree oneMember ≠ (bytesState 3).types.tree twoMembers := by
  have hwhole {t : Ty} (ht : t = oneMember ∨ t = twoMembers ∨ ∃ id < 3, t = .name id "byte" none) :
      Whole (bytesState 3).types t := by
    refine .of_closed (D := fun t => t = oneMember ∨ t = twoMembers ∨ ∃ id < 3, t = .name id "byte" none)
      (fun {t u} ht h => ?_) (fun v hv => ?_) (fun u hu => ?_) ht
    · obtain rfl | rfl | ⟨id, hid, rfl⟩ := ht
      · cases h with
        | member hm =>
          obtain rfl := List.mem_singleton.1 hm
          exact .inr (.inr ⟨2, by decide, rfl⟩)
      · cases h with
        | member hm =>
          simp only [List.mem_cons, List.not_mem_nil, or_false] at hm
          obtain rfl | rfl := hm
          · exact .inr (.inr ⟨0, by decide, rfl⟩)
          · exact .inr (.inr ⟨1, by decide, rfl⟩)
      · cases h with
        | parameter hb hv =>
          obtain _ | _ | _ | n := id
          · cases hb
            cases hv
          · cases hb
            cases hv
          · cases hb
            cases hv
          · omega
    · obtain h | h | ⟨id, -, h⟩ := hv <;> cases h
    · obtain rfl | rfl | ⟨id, hid, rfl⟩ := hu
      · exact ⟨oneMember, ⟨1, rfl⟩, fun v h => by cases h⟩
      · exact ⟨twoMembers, ⟨1, rfl⟩, fun v h => by cases h⟩
      · refine ⟨.builtin .byte none, ⟨2, ?_⟩, fun v h => by cases h⟩
        obtain _ | _ | _ | n := id
        · rfl
        · rfl
        · rfl
        · omega
  refine ⟨checking_members, rfl, hwhole (.inl rfl), hwhole (.inr (.inl rfl)), rfl, rfl, fun h => ?_⟩
  have hone : (bytesState 3).types.tree oneMember = some (.struct [("a: byte; b", .builtin .byte)]) := rfl
  have htwo : (bytesState 3).types.tree twoMembers =
      some (.struct [("a", .builtin .byte), ("b", .builtin .byte)]) := rfl
  simp [hone, htwo] at h

end Qll.Program
