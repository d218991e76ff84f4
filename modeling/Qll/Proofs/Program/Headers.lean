import Qll.Program.Check
import Qll.Proofs.Check.Resolving
import Qll.Proofs.Check.Values
import Qll.Proofs.Program.Declaring

/-!
# The types of declarations

First the names in definitions of types are resolved, then the types of globals and functions. Each
time more entries of the store are known to be resolved, and a type is admitted once all its names
are. In the end the types of all declarations are admitted, unless an error was reported.
-/

namespace Qll.Program

open Qll.Computation
open Check (State Space Setting Checks CheckM onTypes Resolving Resolves Resolvable Finds
  check_bind_ok check_pure_ok check_get_ok check_set_ok check_modify_ok)
open Source (Location)
open Qll.Types (Ty Binding Scope Store Vocabulary Parts)

/-! ## What is known of the store -/

/-- A state that differs from another one in its types, its reports and its imports only. -/
def Beside (s₀ s : State) : Prop :=
  s = { s₀ with types := s.types, reports := s.reports, imports := s.imports }

/-- The vocabulary of a program whose declarations are entered: the resolved entries of a store,
and the templates of types. -/
def known (V : Vocabulary) (s₀ : State) (T : Store) : Vocabulary :=
  { V with
    resolved := fun id => (T.binding? id).isSome
    template := fun id => ∃ item ∈ s₀.typeItems, item.type = .template id
    entries := s₀.types.names.size
    idle := fun id e => s₀.types.templates[id]? = some e }

/-- While headers are checked the declarations stay as they were entered. -/
def headers (V : Vocabulary) (s₀ : State) : Setting where
  vocabulary := V
  Inv s := V.Fits s.types ∧ Offers V s ∧ Beside s₀ s
  Ahead s := ¬ s.Doomed
  back h ahead hs := ahead (h.doomed hs)
  sound ahead := ahead
  fits hs := hs.1
  offers hs := hs.2.1
  types := fun ⟨_, hoffers, hbeside⟩ hfits =>
    ⟨hfits, ⟨hoffers.children, hoffers.types⟩, by rw [Beside, hbeside]⟩
  reports := fun ⟨hfits, hoffers, hbeside⟩ =>
    ⟨hfits, ⟨hoffers.children, hoffers.types⟩, by rw [Beside, hbeside]⟩

variable {V : Vocabulary} {s₀ s s' : State}

/-- A state of which as much is known as its store tells. -/
def Known (V : Vocabulary) (s₀ s : State) : Prop := (headers (known V s₀ s.types) s₀).Inv s

/-- More entries are resolved. -/
theorem known_admits {T T' : Store} (h : ∀ id, (T.binding? id).isSome → (T'.binding? id).isSome)
    {t : Ty} (ht : (known V s₀ T).Admits t) : (known V s₀ T').Admits t := by
  have hname (id : Nat) (text : String) (hid : (known V s₀ T).parts.name id text) :
      (known V s₀ T').parts.name id text := hid.imp_left (h id)
  exact ht.mono hname (fun _ h => h) (fun _ h => h) fun _ h => h

/-- What stands for something in a store stands for it in a store with more resolved names. -/
theorem known_binds {T T' : Store} (h : ∀ id, (T.binding? id).isSome → (T'.binding? id).isSome)
    {b : Binding} (hb : (known V s₀ T).Binds b) : (known V s₀ T').Binds b :=
  ⟨hb.qualified, known_admits h hb.type, fun scope hscope p hp =>
    (hb.scope scope hscope p hp).imp_right (known_admits h)⟩

/-- What a store tells is known as soon as the store fits what was known before. -/
theorem known_renew {T : Store} (hs : (headers (known V s₀ T) s₀).Inv s) :
    Known V s₀ s ∧ ∀ t, (known V s₀ T).Admits t → (known V s₀ s.types).Admits t := by
  obtain ⟨hfits, hoffers, hbeside⟩ := hs
  have hmore (id : Nat) (h : (T.binding? id).isSome) : (s.types.binding? id).isSome := hfits.resolved h
  refine ⟨⟨?_, ⟨hoffers.children, fun n hn p hp => ?_⟩, hbeside⟩, fun t => known_admits hmore⟩
  · exact { hfits with
      resolved := fun h => h
      binding := fun h => known_binds hmore (hfits.binding h)
      result := fun he ht => known_admits hmore (hfits.result he ht)
      bound := fun h => known_admits hmore (hfits.bound h)
      body := fun h he => known_admits hmore (hfits.body h he)
      instances := fun h he hp => known_admits hmore (hfits.instances h he hp) }
  · exact (hoffers.types n hn p hp).imp_right (known_binds hmore)

/-! ## Definitions of types -/

mutual

/-- Where everything is allowed every type is. -/
theorem over_all {P : Parts} (hname : ∀ id text, P.name id text) (hmember : ∀ m, P.member m)
    (hvar : ∀ v, P.var v) (htemplate : ∀ id, P.template id) : ∀ t : Ty, t.Over P
  | .builtin .. => trivial
  | .name .. => hname _ _
  | .pointer e _ | .slice e _ | .array e _ _ => over_all hname hmember hvar htemplate e
  | .struct ms _ => members_over_all hname hmember hvar htemplate ms
  | .function as r _ =>
    ⟨types_over_all hname hmember hvar htemplate as, over_all hname hmember hvar htemplate r⟩
  | .apply _ _ _ as _ => ⟨hname _ _, types_over_all hname hmember hvar htemplate as⟩
  | .dot b _ _ => ⟨over_all hname hmember hvar htemplate b, hmember _⟩
  | .var _ => hvar _
  | .template _ => htemplate _

/-- Types have the parts of which everything is accepted. -/
theorem types_over_all {P : Parts} (hname : ∀ id text, P.name id text) (hmember : ∀ m, P.member m)
    (hvar : ∀ v, P.var v) (htemplate : ∀ id, P.template id) : ∀ ts : List Ty, Types.TypesOver P ts
  | [] => trivial
  | t :: ts => ⟨over_all hname hmember hvar htemplate t, types_over_all hname hmember hvar htemplate ts⟩

/-- Members have the parts of which everything is accepted. -/
theorem members_over_all {P : Parts} (hname : ∀ id text, P.name id text) (hmember : ∀ m, P.member m)
    (hvar : ∀ v, P.var v) (htemplate : ∀ id, P.template id) :
    ∀ ms : List (Types.Member Ty), Types.MembersOver P ms
  | [] => trivial
  | ⟨_, t, _⟩ :: ms => ⟨⟨hmember _, over_all hname hmember hvar htemplate t⟩,
      members_over_all hname hmember hvar htemplate ms⟩

end

/-- The vocabulary that has everything. -/
def everything : Vocabulary where
  accepts _ := True
  resolved _ := False
  template _ := True
  entries := 0
  idle _ _ := True
  root := trivial
  null := trivial
  builtin _ := trivial

/-- The full vocabulary admits every type. -/
theorem everything_admits (t : Ty) : everything.Admits t :=
  over_all (P := everything.parts) (fun _ _ => .inr (.name trivial)) (fun _ => trivial)
    (fun _ => trivial) (fun _ => trivial) t

/-- The full vocabulary has every scope. -/
theorem everything_scopes (scope : Scope) : everything.Scopes scope :=
  fun _ _ => ⟨trivial, everything_admits _⟩

/-- The full vocabulary fits every store. -/
theorem everything_fits (T : Store) : everything.Fits T where
  entries := Nat.zero_le _
  resolved := False.elim
  binding _ := ⟨.name trivial, everything_admits _, fun _ _ => everything_scopes _⟩
  result _ _ := everything_admits _
  bound _ := everything_admits _
  varName _ := .inr trivial
  body _ _ := everything_admits _
  instances _ _ _ := everything_admits _
  idle _ _ := trivial

/-- Before types are resolved nothing is asked of them. -/
theorem inv_everything (h : Beside s₀ s) : (headers everything s₀).Inv s :=
  ⟨everything_fits _, ⟨fun _ _ _ _ => trivial, fun _ _ _ _ =>
    ⟨trivial, .name trivial, everything_admits _, fun _ _ => everything_scopes _⟩⟩, h⟩

/-- What a name in the definition of a type can stand for: a parameter, a builtin type, or a
declared type. -/
inductive Offered (accepts : String → Prop) (s₀ : State) : Binding → Prop
  | param {name : String} (hname : accepts name) (v : Nat) :
      Offered accepts s₀ { qualified := name, type := .var v }
  | builtin {name : String} {kind : Types.Builtin} (h : Types.Builtin.ofName? name = some kind) :
      Offered accepts s₀ { qualified := name, type := .builtin kind none }
  | item {item : Check.TypeItem} (h : item ∈ s₀.typeItems) :
      Offered accepts s₀ { qualified := item.qualified, type := item.type, scope := some item.scope }

/-- Scopes of declarations: their parameters are variables. -/
def Plainly (accepts : String → Prop) (scope : Scope) : Prop :=
  ∀ p ∈ scope.params, accepts p.1 ∧ ∃ v, p.2 = .var v

/-- A declared type is found in the tables. -/
theorem findType_item {accepts : String → Prop} (hs : Entered accepts s₀) (hbeside : Beside s₀ s)
    {space : Nat} {name : String} {b : Binding} (hfind : findType s space name = .ok (some b)) :
    Offered accepts s₀ b := by
  simp only [findType, except_bind_ok] at hfind
  obtain ⟨found, hfound, hb⟩ := hfind
  cases found with
  | none =>
    rw [except_pure_ok] at hb
    obtain ⟨kind, hkind, rfl⟩ := Option.map_eq_some_iff.1 hb
    exact .builtin hkind
  | some found =>
    obtain rfl : found = b := by simpa [except_pure_ok] using hb
    obtain ⟨home, _, hdirect⟩ := findOutwards_some hfound
    obtain ⟨entry, hentry, leaf, hleaf, -⟩ := findDirect_some hdirect
    rw [hbeside] at hentry
    obtain ⟨-, item, hitem, rfl⟩ := hs.types entry hentry _ hleaf
    exact .item hitem

/-- A name in a header stands for something that is offered. -/
theorem finds_offered {accepts : String → Prop} (hs : Entered accepts s₀) (hbeside : Beside s₀ s)
    {scope : Scope} (hscope : Plainly accepts scope) {name : String} {b : Binding}
    (h : Finds scope s name b) : Offered accepts s₀ b := by
  obtain ⟨t, ht, rfl⟩ | ⟨kind, hkind, rfl⟩ | ⟨space, -, hfind⟩ := h.cases
  · obtain ⟨hname, v, rfl⟩ := hscope (name, t) ht
    exact .param hname v
  · exact .builtin hkind
  · exact findType_item hs hbeside hfind

/-- A header with its names resolved. -/
def Complete (accepts : String → Prop) (s₀ : State) (T : Store) (t : Ty) : Prop :=
  t.Over (Check.resolvedParts (headerParts s₀.types.names.size accepts) T)

/-- The definition of a type with its names resolved. -/
def Settled (accepts : String → Prop) (s₀ : State) (T : Store) (item : Check.TypeItem) : Prop :=
  Complete accepts s₀ T item.type ∨ ∃ id e, item.type = .template id ∧
    s₀.types.templates[id]? = some e ∧ Complete accepts s₀ T e.body

/-- An import is resolved in the table of imports. -/
theorem resolveImport_ok {index : Nat} {u : Unit}
    (hrun : resolveImport index directory s = .ok u s') :
    s'.types = s.types ∧ (Beside s₀ s → Beside s₀ s') := by
  unfold resolveImport at hrun
  rw [check_get_ok] at hrun
  cases himport : s.imports[index]? with
  | none =>
    rw [himport] at hrun
    obtain ⟨-, rfl⟩ := check_pure_ok.1 hrun
    exact ⟨rfl, fun h => h⟩
  | some i =>
    rw [himport] at hrun
    cases hspace : findSpace s i.owner i.name with
    | none =>
      simp only [hspace] at hrun
      obtain rfl := check_modify_ok.1 hrun
      exact ⟨rfl, fun h => by rw [Beside, h]⟩
    | some target =>
      simp only [hspace] at hrun
      obtain rfl := check_set_ok.1 hrun
      exact ⟨rfl, fun h => by rw [Beside, h]⟩

/-- Resolving imports leaves the types and the declarations. -/
theorem resolveImports_ok {indices : List Nat} {u : PUnit}
    (hrun : indices.forM resolveImport directory s = .ok u s') :
    s'.types = s.types ∧ (Beside s₀ s → Beside s₀ s') := by
  induction indices generalizing s with
  | nil =>
    obtain ⟨-, rfl⟩ := check_pure_ok.1 hrun
    exact ⟨rfl, fun h => h⟩
  | cons index indices ih =>
    obtain ⟨_, s₁, hfirst, hrest⟩ := check_bind_ok.1 hrun
    obtain ⟨htypes, hbeside⟩ : s₁.types = s.types ∧ (Beside s₀ s → Beside s₀ s₁) :=
      resolveImport_ok hfirst
    obtain ⟨htypes', hbeside'⟩ := ih hrest
    exact ⟨htypes'.trans htypes, fun h => hbeside' (hbeside h)⟩

/-- Resolving names does not touch declarations. -/
theorem checks_bindNames (s₀ : State) (scope : Scope) (t : Ty) :
    Checks (headers everything s₀) True (fun _ => True) (Check.bindNames scope t) :=
  (Check.checks_bindNames t).pre fun _ => everything_scopes scope

/-- Resolved definitions stay resolved. -/
theorem Settled.mono {accepts : String → Prop} {G : Nat → Binding → Prop} {T T' : Store}
    {item : Check.TypeItem} (h : Settled accepts s₀ T item) (hstep : Resolving G T T') :
    Settled accepts s₀ T' item := by
  refine h.imp hstep.over ?_
  rintro ⟨id, e, hid, he, hbody⟩
  exact ⟨id, e, hid, he, hstep.over hbody⟩

/-- The names in the definition of a type are resolved. -/
theorem bindNames_item {accepts : String → Prop} (hs₀ : Entered accepts s₀)
    {item : Check.TypeItem} (hitem : item ∈ s₀.typeItems) {u : Unit}
    (hrun : Check.bindNames item.scope item.type directory s = .ok u s') (hbeside : Beside s₀ s)
    (hresolving : Resolving (fun _ => Offered accepts s₀) s₀.types s.types) (ahead : ¬ s'.Doomed) :
    Resolving (fun _ => Offered accepts s₀) s.types s'.types ∧ Settled accepts s₀ s'.types item := by
  have hentered := hs₀.typeItems item hitem
  have hscope := everything_scopes item.scope
  have hinv := inv_everything hbeside
  have hM : Resolvable (headers everything s₀) item.scope s₀.types.names.size
      (headerParts s₀.types.names.size accepts) (fun _ => Offered accepts s₀) :=
    ⟨fun h => h, fun _ hs h => finds_offered hs₀ hs.2.2 hentered.params h, fun _ h => h, fun _ h => h⟩
  have hsize : s₀.types.names.size ≤ s.types.names.size := hresolving.size ▸ Nat.le_refl _
  obtain htype | ⟨id, e, hid, he, hbody⟩ := hentered.type
  · obtain ⟨hstep, hcomplete⟩ :=
      (Check.resolves_bindNames hscope hM htype).2 s u s' hrun hsize hinv ahead
    exact ⟨hstep, .inl hcomplete⟩
  · -- The body of a template is looked up in the store, which still has its entry.
    rw [hid] at hrun
    obtain ⟨n, s₁, hlimit, hrun⟩ := check_bind_ok.1 hrun
    obtain ⟨types, hn, rfl⟩ := Check.onTypes_ok hlimit
    obtain ⟨-, rfl⟩ := Types.limit_ok.1 hn
    cases n with
    | zero => exact absurd hrun Check.check_throw_ok
    | succ n =>
      obtain ⟨e', s₂, hentry, hbind⟩ := check_bind_ok.1 hrun
      obtain ⟨he', rfl⟩ := Check.onTypes_entry hentry
      obtain rfl : e = e' := by
        rw [hresolving.templates, he] at he'
        exact Option.some.inj he'
      obtain ⟨hstep, hcomplete⟩ :=
        (Check.resolves_bindNamesWithin hscope hM _ hbody).2 _ u s' hbind hsize hinv ahead
      exact ⟨hstep, .inr ⟨id, e, hid, he, hcomplete⟩⟩

/-- The names in the definitions of types are resolved. -/
theorem bindNames_items {accepts : String → Prop} (hs₀ : Entered accepts s₀)
    {items : List Check.TypeItem} (hitems : ∀ item ∈ items, item ∈ s₀.typeItems) {u : PUnit}
    (hrun : (items.forM fun item => Check.bindNames item.scope item.type) directory s = .ok u s')
    (hbeside : Beside s₀ s)
    (hresolving : Resolving (fun _ => Offered accepts s₀) s₀.types s.types) (ahead : ¬ s'.Doomed) :
    Resolving (fun _ => Offered accepts s₀) s.types s'.types ∧
      ∀ item ∈ items, Settled accepts s₀ s'.types item := by
  induction items generalizing s with
  | nil =>
    obtain ⟨-, rfl⟩ := check_pure_ok.1 hrun
    exact ⟨.refl _, by simp⟩
  | cons item items ih =>
    simp only [List.forall_mem_cons] at hitems ⊢
    obtain ⟨_, s₁, hfirst, hrest⟩ := check_bind_ok.1 hrun
    have hgrows : s₁.Grows s' :=
      (Checks.forM (fun item _ => checks_bindNames s₀ item.scope item.type) s₁ u s' hrest).1
    have ahead₁ : ¬ s₁.Doomed := fun h => ahead (hgrows.doomed h)
    obtain ⟨hstep, hsettled⟩ := bindNames_item hs₀ hitems.1 hfirst hbeside hresolving ahead₁
    have hbeside₁ : Beside s₀ s₁ :=
      ((checks_bindNames s₀ item.scope item.type s _ s₁ hfirst).2 trivial (inv_everything hbeside)
        ahead₁).1.2.2
    obtain ⟨hsteps, hall⟩ := ih hitems.2 hrest hbeside₁ (hresolving.trans hstep)
    exact ⟨hstep.trans hsteps, hsettled.mono hsteps, hall⟩

/-- A header whose names are resolved is admitted. -/
theorem Complete.admits {T : Store} {t : Ty} (h : Complete V.accepts s₀ T t) :
    (known V s₀ T).Admits t := by
  have hname (id : Nat) (text : String)
      (hid : (Check.resolvedParts (headerParts s₀.types.names.size V.accepts) T).name id text) :
      (known V s₀ T).parts.name id text := .inl hid.2
  exact Types.Ty.Over.mono hname (fun _ h => h) (fun _ _ => trivial) (fun _ h => h.elim) h

/-- Scopes of declarations are in order whatever is resolved. -/
theorem Plainly.scopes {T : Store} {scope : Scope} (h : Plainly V.accepts scope) :
    (known V s₀ T).Scopes scope := by
  intro p hp
  obtain ⟨hname, v, hv⟩ := h p hp
  exact ⟨hname, hv ▸ Vocabulary.admits_var⟩

/-- The definition of a type is admitted once it is resolved. -/
theorem Settled.admits {T : Store} {item : Check.TypeItem} (hitem : item ∈ s₀.typeItems)
    (h : Settled V.accepts s₀ T item) : (known V s₀ T).Admits item.type := by
  obtain h | ⟨id, e, hid, -, -⟩ := h
  · exact h.admits
  · rw [hid]
    exact ⟨item, hitem, hid⟩

/-- What the tables offer is admitted once the definitions of types are resolved. -/
theorem binds_offered (hs₀ : Entered V.accepts s₀) {T : Store}
    (hall : ∀ item ∈ s₀.typeItems, Settled V.accepts s₀ T item) {b : Binding}
    (h : Offered V.accepts s₀ b) : (known V s₀ T).Binds b := by
  cases h with
  | param hname v => exact ⟨.name hname, Vocabulary.admits_var, by simp⟩
  | builtin hkind => exact (binds_builtin hkind).1
  | item hitem =>
    refine ⟨(hs₀.typeItems _ hitem).qualified, (hall _ hitem).admits hitem, fun scope hscope => ?_⟩
    obtain rfl := Option.some.inj hscope
    exact Plainly.scopes (hs₀.typeItems _ hitem).params

/-- Once the definitions of types are resolved, what the tables offer is known. -/
theorem known_bind (hs₀ : Entered V.accepts s₀) {u : Unit}
    (hrun : bind directory s₀ = .ok u s) (ahead : ¬ s.Doomed) :
    Known V s₀ s ∧ ∀ item ∈ s₀.typeItems, (known V s₀ s.types).Admits item.type := by
  obtain ⟨_, s₁, himports, hitems⟩ := check_bind_ok.1 (check_get_ok.1 hrun)
  obtain ⟨htypes, hbeside₁⟩ : s₁.types = s₀.types ∧ (Beside s₀ s₀ → Beside s₀ s₁) :=
    resolveImports_ok himports
  have hbeside₁ := hbeside₁ rfl
  rw [check_get_ok] at hitems
  have hbeside : Beside s₀ s :=
    ((Checks.forM (fun item _ => checks_bindNames s₀ item.scope item.type) s₁ u s hitems).2
      trivial (inv_everything hbeside₁) ahead).1.2.2
  have hsame : s₁.typeItems = s₀.typeItems := by rw [hbeside₁]
  rw [hsame] at hitems
  obtain ⟨hresolving, hsettled⟩ := bindNames_items hs₀ (by simp) hitems hbeside₁
    (htypes ▸ .refl _) ahead
  simp only [Array.mem_toList_iff] at hsettled
  rw [htypes] at hresolving
  have hstore := hs₀.store
  refine ⟨?_, fun item hitem => (hsettled item hitem).admits hitem⟩
  refine ⟨⟨?_, fun h => h, fun {id b} hb => ?_, fun {id e t} he ht => ?_, fun {v t} ht => ?_,
    fun {v e} he => ?_, fun {id e} hid he => ?_, fun {id e p} _ he hp => ?_, fun {id e} _ he => ?_⟩,
    ⟨fun n hn => ?_, fun n hn p hp => ?_⟩, hbeside⟩
  · exact hresolving.size ▸ Nat.le_refl _
  · obtain hb | hb := hresolving.new hb
    · simp [hstore.binding] at hb
    · exact binds_offered hs₀ hsettled hb
  · obtain rfl | ⟨e', he', ht'⟩ := hresolving.results he ht
    · exact Vocabulary.admits_error
    · simp [hstore.result he'] at ht'
  · have hnone := hstore.bound v
    rw [Store.bound?, ← hresolving.vars, ← Store.bound?, ht] at hnone
    cases hnone
  · rw [hresolving.vars] at he
    exact .inr (hstore.varName he)
  · rw [hresolving.templates] at he
    obtain ⟨item, hitem, htype⟩ := hid
    obtain h | ⟨id', e', hid', he', hbody⟩ := hsettled item hitem
    · rw [htype] at h
      exact h.elim
    · obtain rfl : id = id' := by simpa [htype] using hid'
      obtain rfl : e = e' := by simpa [he] using he'
      exact hbody.admits
  · rw [hresolving.templates] at he
    simp [hstore.instances he] at hp
  · rwa [hresolving.templates] at he
  · rw [hbeside] at hn
    exact hs₀.children n hn
  · rw [hbeside] at hn
    obtain ⟨hname, item, hitem, hb⟩ := hs₀.types n hn p hp
    exact ⟨hname, hb ▸ binds_offered hs₀ hsettled (.item hitem)⟩

/-! ## Types of globals and functions -/

/-- A computation adds to the state and, given `P` and some admitted types and unless the run is
doomed, keeps what is known and gets further types admitted. -/
def Renews {α : Type} (V : Vocabulary) (s₀ : State) (P : Prop) (before after : Set Ty)
    (x : CheckM α) : Prop :=
  ∀ s a s', x directory s = .ok a s' → s.Grows s' ∧
    (P → Known V s₀ s → (∀ t ∈ before, (known V s₀ s.types).Admits t) → ¬ s'.Doomed →
      Known V s₀ s' ∧ (∀ t, (known V s₀ s.types).Admits t → (known V s₀ s'.types).Admits t) ∧
        ∀ t ∈ after, (known V s₀ s'.types).Admits t)

namespace Renews

variable {α β : Type} {P : Prop} {before before' after after' : Set Ty} {x : CheckM α} {f : α → CheckM β}

/-- A computation that needs no more than what is known. -/
theorem of_checks {Q : α → Prop} (hx : ∀ T, Checks (headers (known V s₀ T) s₀)
    (P ∧ ∀ t ∈ before, (known V s₀ T).Admits t) Q x) : Renews V s₀ P before ∅ x := by
  intro s a s' hrun
  obtain ⟨hgrows, hkeeps⟩ := hx s.types s a s' hrun
  refine ⟨hgrows, fun hP hs hbefore ahead => ?_⟩
  obtain ⟨hknown, hmore⟩ := known_renew (hkeeps ⟨hP, hbefore⟩ hs ahead).1
  exact ⟨hknown, hmore, fun _ h => h.elim⟩

/-- Two computations in a row renew what each of them does. -/
theorem bind (hx : Renews V s₀ P before after x)
    (hf : ∀ a, Renews V s₀ P (before ∪ after) after' (f a)) :
    Renews V s₀ P before (after ∪ after') (x >>= f) := by
  intro s b s' hrun
  obtain ⟨a, s₁, hrun₁, hrun₂⟩ := check_bind_ok.1 hrun
  obtain ⟨hgrows₁, hkeeps₁⟩ := hx s a s₁ hrun₁
  obtain ⟨hgrows₂, hkeeps₂⟩ := hf a s₁ b s' hrun₂
  refine ⟨hgrows₁.trans hgrows₂, fun hP hs hbefore ahead => ?_⟩
  obtain ⟨hs₁, hmore₁, hafter⟩ := hkeeps₁ hP hs hbefore fun h => ahead (hgrows₂.doomed h)
  obtain ⟨hs', hmore₂, hafter'⟩ := hkeeps₂ hP hs₁
    (fun t ht => ht.elim (fun ht => hmore₁ t (hbefore t ht)) (hafter t)) ahead
  exact ⟨hs', fun t ht => hmore₂ t (hmore₁ t ht),
    fun t ht => ht.elim (fun ht => hmore₂ t (hafter t ht)) (hafter' t)⟩

/-- The declarations are the same at all times. -/
theorem get {g : State → CheckM β} (h : ∀ s, Renews V s₀ (P ∧ Beside s₀ s) before after (g s)) :
    Renews V s₀ P before after (MonadState.get >>= g) := by
  intro s b s' hrun
  obtain ⟨hgrows, hkeeps⟩ := h s s b s' hrun
  exact ⟨hgrows, fun hP hs => hkeeps ⟨hP, hs.2.2⟩ hs⟩

/-- More may be given to a computation, and less taken of it. -/
theorem mono {P' : Prop} (hx : Renews V s₀ P before after x) (hP : P' → P)
    (hbefore : P' → before ⊆ before') (hafter : P' → after' ⊆ after) :
    Renews V s₀ P' before' after' x := by
  intro s a s' hrun
  obtain ⟨hgrows, hkeeps⟩ := hx s a s' hrun
  refine ⟨hgrows, fun hP' hs hall ahead => ?_⟩
  obtain ⟨hs', hmore, hnew⟩ := hkeeps (hP hP') hs (fun t ht => hall t (hbefore hP' ht)) ahead
  exact ⟨hs', hmore, fun t ht => hnew t (hafter hP' ht)⟩

/-- A loop gets the types admitted that its rounds do. -/
theorem forM {g : α → CheckM PUnit} {types : α → Set Ty} {l : List α}
    (h : ∀ a ∈ l, Renews V s₀ P before (types a) (g a)) :
    Renews V s₀ P before { t | ∃ a ∈ l, t ∈ types a } (l.forM g) := by
  induction l with
  | nil =>
    have hnone : Renews V s₀ P before ∅ ([].forM g) :=
      of_checks (Q := fun _ => True) fun T => .pure fun _ => trivial
    exact hnone.mono (fun h => h) (fun _ _ h => h) fun _ _ ⟨_, ha, _⟩ => by simp at ha
  | cons a l ih =>
    have hrest := ih fun b hb => h b (by simp [hb])
    have hboth : Renews V s₀ P before (types a ∪ { t | ∃ b ∈ l, t ∈ types b }) ((a :: l).forM g) :=
      bind (h a (by simp)) fun _ => hrest.mono (fun h => h) (fun _ _ h => .inl h) fun _ _ h => h
    refine hboth.mono (fun h => h) (fun _ _ h => h) ?_
    rintro - t ⟨b, hb, ht⟩
    obtain rfl | hb := List.mem_cons.1 hb
    · exact .inl ht
    · exact .inr ⟨b, hb, ht⟩

/-- A part that relies on nothing may follow any other. -/
theorem seq {y : CheckM β} (hx : Renews V s₀ P before after x) (hy : Renews V s₀ P ∅ after' y) :
    Renews V s₀ P before (after ∪ after') (x >>= fun _ => y) :=
  bind hx fun _ => hy.mono (fun h => h) (fun _ _ h => h.elim) fun _ _ h => h

/-- All declarations of a kind are checked. -/
theorem each (items : State → Array α) (hitems : ∀ s, Beside s₀ s → items s = items s₀)
    {g : α → CheckM PUnit} {types : α → Set Ty}
    (h : ∀ a, Renews V s₀ (a ∈ items s₀) before (types a) (g a)) :
    Renews V s₀ True before { t | ∃ a ∈ items s₀, t ∈ types a }
      (MonadState.get >>= fun s => (items s).toList.forM g) := by
  refine .get fun s => ?_
  have hall : Renews V s₀ (True ∧ Beside s₀ s) before { t | ∃ a ∈ (items s).toList, t ∈ types a }
      ((items s).toList.forM g) := by
    refine .forM fun a ha => (h a).mono (fun hs => ?_) (fun _ _ h => h) fun _ _ h => h
    rw [← hitems s hs.2]
    exact Array.mem_toList_iff.1 ha
  refine hall.mono (fun h => h) (fun _ _ h => h) fun hs t ⟨a, ha, ht⟩ => ⟨a, ?_, ht⟩
  rw [hitems s hs.2]
  exact Array.mem_toList_iff.2 ha

end Renews

/-- The names of a header are resolved. -/
theorem renews_bindNames {P : Prop} {scope : Scope} {t : Ty}
    (hscope : P → Plainly V.accepts scope) (ht : P → Header V.accepts s₀.types t) :
    Renews V s₀ P ∅ {t} (Check.bindNames scope t) := by
  intro s u s' hrun
  have hchecks := Check.checks_bindNames (S := headers (known V s₀ s.types) s₀) t s u s' hrun
  refine ⟨hchecks.1, fun hP hs _ ahead => ?_⟩
  have hscopes : (known V s₀ s.types).Scopes scope := (hscope hP).scopes
  have hM : Resolvable (headers (known V s₀ s.types) s₀) scope s₀.types.names.size
      (headerParts s₀.types.names.size V.accepts) (fun _ _ => True) :=
    ⟨fun h => h, fun _ _ _ => trivial, fun _ h => h, fun _ h => h⟩
  obtain ⟨-, hcomplete⟩ := (Check.resolves_bindNames hscopes hM (ht hP)).2 s u s' hrun
    hs.1.entries hs ahead
  obtain ⟨hknown, hmore⟩ := known_renew (hchecks.2 hscopes hs ahead).1
  refine ⟨hknown, hmore, fun t' ht' => ?_⟩
  obtain rfl : t' = t := ht'
  exact Complete.admits hcomplete

/-- The type of a declaration is resolved and checked. -/
theorem renews_checkType {P : Prop} {scope : Scope} {t : Ty}
    (hscope : P → Plainly V.accepts scope) (ht : P → Header V.accepts s₀.types t) :
    Renews V s₀ P ∅ {t} (Check.checkType scope t) := by
  refine ((renews_bindNames hscope ht).bind fun _ => .of_checks fun T =>
    (Check.checks_kindcheck {} t).pre fun h => ?_).mono (fun h => h) (fun _ _ h => h)
      fun _ _ h => .inl h
  exact ⟨(hscope h.1).scopes, h.2 t (.inr rfl)⟩

/-- The scope of a namespace has no parameters. -/
theorem plainly_scopeOf {accepts : String → Prop} (space : Nat) : Plainly accepts (scopeOf space) :=
  fun p hp => absurd hp (by simp [scopeOf])

/-- The written type of a global is checked. -/
theorem renews_kindcheckGlobal (hs₀ : Entered V.accepts s₀) (g : Check.GlobalItem) :
    Renews V s₀ (g ∈ s₀.globals) ∅ { t | g.type = some t } (kindcheckGlobal g) := by
  unfold kindcheckGlobal
  split
  · next t ht =>
    refine ((renews_checkType (fun _ => plainly_scopeOf _) fun hg =>
      ((hs₀.globals g hg).type t ht).1).bind fun _ => .of_checks (Q := fun _ => True) fun T =>
        .discard (Check.checks_checkValueType (fun h => h.2 t (.inr rfl)) _)).mono (fun h => h)
          (fun _ _ h => h) fun _ t' ht' => .inl ?_
    exact Option.some.inj (ht'.symm.trans ht)
  · next hnone hinit =>
    refine (Renews.of_checks (Q := fun _ => True) fun T => .pure fun _ => trivial).mono
      (fun h => h) (fun _ _ h => h) fun _ t ht => ?_
    exact absurd (hnone.symm.trans ht) (by simp)
  · next hnone hinit =>
    refine (Renews.of_checks (Q := fun _ => True) fun T => .fail fun _ => .types False.elim).mono
      (fun h => h) (fun _ _ h => h) fun _ t ht => ?_
    exact absurd (hnone.symm.trans ht) (by simp)

/-- The types of a function are checked. -/
theorem renews_kindcheckFunction (hs₀ : Entered V.accepts s₀) (f : Check.FunctionItem) :
    Renews V s₀ (f ∈ s₀.functions) ∅ {f.signature} (kindcheckFunction f) := by
  refine ((renews_checkType (fun _ => plainly_scopeOf _) fun hf =>
    (hs₀.functions f hf).signature).bind fun _ => .of_checks (Q := fun _ => True) fun T => ?_).mono
      (fun h => h) (fun _ _ h => h) fun _ _ h => .inl h
  have hresult (h : f ∈ s₀.functions ∧ ∀ t ∈ (∅ ∪ {f.signature} : Set Ty), (known V s₀ T).Admits t) :
      (known V s₀ T).Admits f.result :=
    (Vocabulary.admits_function.1 (h.2 f.signature (.inr rfl))).2
  have hlast (void : Bool) : Checks (headers (known V s₀ T) s₀)
      (f ∈ s₀.functions ∧ ∀ t ∈ (∅ ∪ {f.signature} : Set Ty), (known V s₀ T).Admits t)
      (fun _ => True) (if !void then Check.reportError (scopeOf f.space) f.location .invalidInterrupt
        ("interrupt handler " ++ f.name ++ " must take no parameters and return void")
          else pure ()) := .ite .noted (.pure fun _ => trivial)
  exact .ite (.ite (.seq (.types fun h => .isVoid (hresult h)) hlast) (hlast false))
    (.pure fun _ => trivial)

/-- The types of the declarations of a program. -/
def declaredTypes (s₀ : State) : Set Ty :=
  { t | ∃ g ∈ s₀.globals, g.type = some t } ∪ ({ t | ∃ f ∈ s₀.functions, t = f.signature } ∪
    { t | ∃ item ∈ s₀.templates, t = item.signature })

/-- The types of all declarations are checked. -/
theorem renews_kindcheck (hs₀ : Entered V.accepts s₀) :
    Renews V s₀ True { t | ∃ item ∈ s₀.typeItems, t = item.type } (declaredTypes s₀) kindcheck := by
  have hitem (item : Check.TypeItem) : Renews V s₀ (item ∈ s₀.typeItems)
      { t | ∃ item ∈ s₀.typeItems, t = item.type } ∅
      (Check.kindcheck item.scope (Types.Path.define {} item.qualified) item.type) :=
    .of_checks fun T => (Check.checks_kindcheck _ item.type).pre fun h =>
      ⟨Plainly.scopes (hs₀.typeItems item h.1).params, h.2 item.type ⟨item, h.1, rfl⟩⟩
  have hitems := Renews.each State.typeItems (fun s hs => by rw [hs]) hitem
  have hglobals := Renews.each State.globals (fun s hs => by rw [hs])
    (renews_kindcheckGlobal hs₀)
  have hfunctions := Renews.each State.functions (fun s hs => by rw [hs])
    (renews_kindcheckFunction hs₀)
  have htemplates := Renews.each State.templates (fun s hs => by rw [hs])
    fun t => renews_checkType (fun h => (hs₀.templates t h).params)
      fun h => (hs₀.templates t h).signature
  have hall := hitems.seq (hglobals.seq (hfunctions.seq htemplates))
  simp only [bind_assoc] at hall
  exact hall.mono (fun h => h) (fun _ _ h => h) fun _ _ h => .inr h

/-- Once the types of all declarations are checked they are admitted. -/
theorem known_kindcheck (hs₀ : Entered V.accepts s₀) {u u' : Unit}
    (hbind : bind directory s₀ = .ok u s) (hkind : kindcheck directory s = .ok u' s')
    (ahead : ¬ s'.Doomed) :
    Known V s₀ s' ∧ ∀ t ∈ declaredTypes s₀, (known V s₀ s'.types).Admits t := by
  obtain ⟨hgrows, hkeeps⟩ := renews_kindcheck hs₀ s u' s' hkind
  obtain ⟨hknown, hitems⟩ := known_bind hs₀ hbind fun h => ahead (hgrows.doomed h)
  obtain ⟨hknown', -, hall⟩ := hkeeps trivial hknown
    (fun t ⟨item, hitem, ht⟩ => ht ▸ hitems item hitem) ahead
  exact ⟨hknown', hall⟩

end Qll.Program
