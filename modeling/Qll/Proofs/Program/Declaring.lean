import Qll.Program.Declare
import Qll.Proofs.Check.World
import Qll.Proofs.Check.Written

/-!
# Declarations in the tables

Entering declarations makes items, and what the tables of the namespaces offer belongs to these
items. No name is resolved yet: the types of the items have new entries only.
-/

namespace Qll.Program

open Qll.Computation
open Check (State Space Storage CheckM onTypes Wrote forall_push
  check_bind_ok check_pure_ok check_get_ok check_state_ok check_set_ok check_modify_ok check_throw_ok)
open Source (Location Decl Expr Stmt TypeExpr Parameter)
open Qll.Types (Ty Binding Scope Store IsQualified Parts)

variable {accepts : String → Prop}

/-! ## The store -/

/-- The parts of a type in a header: entries for names, below a number. -/
def headerParts (hi : Nat) (accepts : String → Prop) : Parts where
  name id _ := id < hi
  member := accepts
  var _ := False
  template _ := False

/-- A type in a header. -/
def Header (accepts : String → Prop) (T : Store) (t : Ty) : Prop :=
  t.Over (headerParts T.names.size accepts)

/-- The store gets new entries. -/
structure Enlarges (T T' : Store) : Prop where
  names : T.names.size ≤ T'.names.size
  templates : ∀ {id : Nat} {e : Types.TemplateEntry}, T.templates[id]? = some e →
    T'.templates[id]? = some e

/-- Nothing in the store is resolved, bound or instantiated. -/
structure Pristine (accepts : String → Prop) (T : Store) : Prop where
  binding : ∀ id, T.binding? id = none
  result : ∀ {id : Nat} {e : Types.ApplyEntry}, T.applies[id]? = some e → e.result = none
  bound : ∀ v, T.bound? v = none
  varName : ∀ {v : Nat} {e : Types.VarEntry}, T.vars[v]? = some e → accepts e.name
  instances : ∀ {id : Nat} {e : Types.TemplateEntry}, T.templates[id]? = some e → e.instances = []

section Store

variable {T T' T'' : Store}

/-- No entries are new if nothing happens. -/
theorem Enlarges.refl (T : Store) : Enlarges T T := ⟨Nat.le_refl _, fun h => h⟩

/-- New entries after new entries are new entries. -/
theorem Enlarges.trans (h : Enlarges T T') (h' : Enlarges T' T'') : Enlarges T T'' :=
  ⟨Nat.le_trans h.names h'.names, fun he => h'.templates (h.templates he)⟩

/-- What is written to a store enlarges it. -/
theorem Enlarges.of_wrote (h : Wrote T T') : Enlarges T T' :=
  ⟨h.size, fun he => by rwa [h.templates]⟩

/-- A header stays one. -/
theorem Header.mono {t : Ty} (ht : Header accepts T t) (h : Enlarges T T') : Header accepts T' t := by
  have hname (id : Nat) (text : String) (hid : (headerParts T.names.size accepts).name id text) :
      (headerParts T'.names.size accepts).name id text := Nat.lt_of_lt_of_le hid h.names
  exact Types.Ty.Over.mono hname (fun _ h => h) (fun _ h => h) (fun _ h => h) ht

/-- A written type is a header. -/
theorem header_of_labelled {t : Ty} (h : Check.Labelled accepts T T' t.Over) : Header accepts T' t := by
  obtain ⟨label, hover⟩ := h
  have hname (id : Nat) (text : String)
      (hid : (Check.writtenParts T.names.size T'.names.size label accepts).name id text) :
      (headerParts T'.names.size accepts).name id text := hid.2.1
  exact hover.mono hname (fun _ h => h) (fun _ h => h) fun _ h => h

/-- Written types do not resolve anything. -/
theorem Pristine.wrote (h : Pristine accepts T) (hw : Wrote T T') : Pristine accepts T' where
  binding id := (hw.binding id).trans (h.binding id)
  result {id e} he := by
    cases ht : e.result with
    | none => rfl
    | some t =>
      obtain ⟨e', he', ht'⟩ := hw.results he ht
      simp [h.result he'] at ht'
  bound v := by
    have hbound := h.bound v
    rwa [Store.bound?, ← hw.vars] at hbound
  varName he := h.varName (by rwa [hw.vars] at he)
  instances he := h.instances (by rwa [hw.templates] at he)

/-- A new variable is not bound. -/
theorem Pristine.push_var (h : Pristine accepts T) {name : String} (hname : accepts name)
    (l : Option Location) : Pristine accepts { T with vars := T.vars.push { name, location := l } } := by
  refine { h with bound := fun v => ?_, varName := fun {v e} he => ?_ }
  · simp only [Store.bound?, Array.getElem?_push]
    split
    · rfl
    · exact h.bound v
  · simp only [Array.getElem?_push] at he
    split at he
    · obtain rfl : ({ name, location := l } : Types.VarEntry) = e := by simpa using he
      exact hname
    · exact h.varName he

/-- A new template has no instances. -/
theorem Pristine.push_template (h : Pristine accepts T) (params : List Nat) (body : Ty)
    (l : Option Location) :
    Pristine accepts { T with templates := T.templates.push { params, body, location := l } } := by
  refine { h with instances := fun {id e} he => ?_ }
  simp only [Array.getElem?_push] at he
  split at he
  · obtain rfl : ({ params, body, location := l } : Types.TemplateEntry) = e := by simpa using he
    rfl
  · exact h.instances he

end Store

/-- A step that adds to the store and changes nothing else. -/
def Stores (accepts : String → Prop) (s s' : State) : Prop :=
  ∃ T, s' = { s with types := T } ∧ Enlarges s.types T ∧
    (Pristine accepts s.types → Pristine accepts T)

section Steps

variable {s s' s'' : State}

/-- Nothing is added if nothing happens. -/
theorem Stores.refl (s : State) : Stores accepts s s := ⟨s.types, rfl, .refl _, fun h => h⟩

/-- Steps that add to the store do so in a row. -/
theorem Stores.trans (h : Stores accepts s s') (h' : Stores accepts s' s'') : Stores accepts s s'' := by
  obtain ⟨T, rfl, hlarger, hpristine⟩ := h
  obtain ⟨T', rfl, hlarger', hpristine'⟩ := h'
  exact ⟨T', rfl, hlarger.trans hlarger', fun h => hpristine' (hpristine h)⟩

/-- Namespaces stay when something is added to the store. -/
theorem Stores.spaces (h : Stores accepts s s') : s'.spaces = s.spaces := by
  obtain ⟨T, rfl, -, -⟩ := h
  rfl

/-- The store is enlarged when something is added to it. -/
theorem Stores.enlarges (h : Stores accepts s s') : Enlarges s.types s'.types := by
  obtain ⟨T, rfl, hlarger, -⟩ := h
  exact hlarger

variable {d : Check.Directory}

/-- A type is written. -/
theorem stores_internType {t : TypeExpr} {u : Ty} (h : onTypes (Check.internType t) d s = .ok u s')
    (hnames : ∀ n ∈ t.names, accepts n) : Stores accepts s s' ∧ Header accepts s'.types u := by
  obtain ⟨T, hintern, rfl⟩ := Check.onTypes_ok h
  obtain ⟨hwrote, hlabel⟩ := Check.wrote_type accepts t hintern
  exact ⟨⟨T, rfl, .of_wrote hwrote, fun h => h.wrote hwrote⟩, header_of_labelled (hlabel hnames)⟩

/-- A result type is written. -/
theorem stores_internResult {t : Option TypeExpr} {u : Ty}
    (h : onTypes (Check.internResult t) d s = .ok u s')
    (hnames : ∀ n ∈ Source.resultNames t, accepts n) :
    Stores accepts s s' ∧ Header accepts s'.types u := by
  obtain ⟨T, hintern, rfl⟩ := Check.onTypes_ok h
  obtain ⟨hwrote, hlabel⟩ := Check.wrote_result accepts t hintern
  exact ⟨⟨T, rfl, .of_wrote hwrote, fun h => h.wrote hwrote⟩, header_of_labelled (hlabel hnames)⟩

/-- A new variable. -/
theorem stores_newVar {name : String} {l : Option Location} {v : Nat}
    (h : onTypes (Types.newVar name l) d s = .ok v s') (hname : accepts name) :
    Stores accepts s s' := by
  obtain ⟨T, hvar, rfl⟩ := Check.onTypes_ok h
  simp only [Types.newVar, bind_ok, get_ok, set_ok, pure_ok] at hvar
  obtain ⟨_, _, ⟨rfl, rfl⟩, _, _, rfl, -, rfl⟩ := hvar
  exact ⟨_, rfl, ⟨Nat.le_refl _, fun h => h⟩, fun h => h.push_var hname l⟩

/-- A new template. -/
theorem stores_newTemplate (accepts : String → Prop) {params : List Nat} {body : Ty} {l : Option Location} {id : Nat}
    (h : onTypes (Types.newTemplate params body l) d s = .ok id s') : Stores accepts s s' ∧
      ∃ e, s'.types.templates[id]? = some e ∧ e.body = body := by
  obtain ⟨T, htemplate, rfl⟩ := Check.onTypes_ok h
  simp only [Types.newTemplate, bind_ok, get_ok, set_ok, pure_ok] at htemplate
  obtain ⟨_, _, ⟨rfl, rfl⟩, _, _, rfl, rfl, rfl⟩ := htemplate
  refine ⟨⟨_, rfl, ⟨Nat.le_refl _, fun {id e} he => ?_⟩, fun h => h.push_template params body l⟩,
    ⟨{ params, body, location := l }, by simp, rfl⟩⟩
  have hid := (Array.getElem?_eq_some_iff.1 he).1
  simp [Array.getElem?_push, Nat.ne_of_lt hid, he]

/-- Variables for the parameters of a template. -/
theorem stores_typeParams {names : List String} {l : Option Location}
    {r : List Nat × List (String × Ty)} (h : typeParams names l d s = .ok r s')
    (hnames : ∀ n ∈ names, accepts n) :
    Stores accepts s s' ∧ ∀ p ∈ r.2, accepts p.1 ∧ ∃ v, p.2 = .var v := by
  obtain ⟨vars, s₁, hvars, hlast⟩ := check_bind_ok.1 h
  obtain ⟨rfl, rfl⟩ := check_pure_ok.1 hlast
  constructor
  · clear hlast h
    induction names generalizing s vars with
    | nil =>
      obtain ⟨-, rfl⟩ := check_pure_ok.1 hvars
      exact .refl _
    | cons n rest ih =>
      rw [List.mapM_cons] at hvars
      obtain ⟨v, s₂, hv, hvars⟩ := check_bind_ok.1 hvars
      obtain ⟨vs, s₃, hvs, hlast⟩ := check_bind_ok.1 hvars
      obtain ⟨-, rfl⟩ := check_pure_ok.1 hlast
      exact (stores_newVar hv (hnames n (by simp))).trans
        (ih (fun m hm => hnames m (by simp [hm])) vs hvs)
  · intro p hp
    obtain ⟨hname, htype⟩ := List.of_mem_zip (List.mem_reverse.1 hp)
    obtain ⟨v, -, hv⟩ := List.mem_map.1 htype
    exact ⟨hnames _ hname, v, hv.symm⟩

/-- The types of parameters are written. -/
theorem stores_internParams {params : List Parameter} {ps : List Check.TypedParam}
    (h : internParams params d s = .ok ps s')
    (hnames : ∀ n ∈ Source.paramsNames params, accepts n) :
    Stores accepts s s' ∧ ∀ p ∈ ps, Header accepts s'.types p.type := by
  unfold internParams at h
  induction params generalizing s ps with
  | nil =>
    obtain ⟨rfl, rfl⟩ := check_pure_ok.1 h
    exact ⟨.refl _, by simp⟩
  | cons p rest ih =>
    simp only [Source.paramsNames, List.mem_append, or_imp, forall_and] at hnames
    rw [List.mapM_cons] at h
    obtain ⟨first, s₁, hfirst, h⟩ := check_bind_ok.1 h
    obtain ⟨u, s₂, hu, hpure⟩ := check_bind_ok.1 hfirst
    obtain ⟨rfl, rfl⟩ := check_pure_ok.1 hpure
    obtain ⟨others, s₃, hothers, hlast⟩ := check_bind_ok.1 h
    obtain ⟨rfl, rfl⟩ := check_pure_ok.1 hlast
    obtain ⟨hstores, hheader⟩ := stores_internType hu hnames.1
    obtain ⟨hstores', hheaders⟩ := ih hothers hnames.2
    exact ⟨hstores.trans hstores',
      List.forall_mem_cons.2 ⟨hheader.mono hstores'.enlarges, hheaders⟩⟩

end Steps

/-! ## Items and tables -/

/-- The qualified name of a declaration. -/
def EnteredName (accepts : String → Prop) (q : String) : Prop := IsQualified accepts q ∧ q ≠ ""

/-- A declared type: a header, or a template of one. -/
structure EnteredType (accepts : String → Prop) (T : Store) (item : Check.TypeItem) : Prop where
  qualified : IsQualified accepts item.qualified
  params : ∀ p ∈ item.scope.params, accepts p.1 ∧ ∃ v, p.2 = .var v
  type : Header accepts T item.type ∨ ∃ id e, item.type = .template id ∧
    T.templates[id]? = some e ∧ Header accepts T e.body

/-- A declared global. -/
structure EnteredGlobal (accepts : String → Prop) (T : Store) (g : Check.GlobalItem) : Prop where
  storage : g.storage.kind = .global ∧ g.storage.qualified = g.qualified
  qualified : EnteredName accepts g.qualified
  type : ∀ t ∈ g.type, Header accepts T t ∧ g.storage.type = t
  inferred : g.type = none → ∃ v, g.storage.type = .var v
  init : ∀ n ∈ Source.initNames g.init, accepts n
  checked : g.checked = none

/-- A declared function. -/
structure EnteredFunction (accepts : String → Prop) (T : Store) (f : Check.FunctionItem) : Prop where
  storage : f.storage.kind = .function ∧ f.storage.qualified = f.qualified
  type : f.storage.type = f.signature
  signature : Header accepts T f.signature
  qualified : EnteredName accepts f.qualified
  scope : f.scope = scopeOf f.space
  body : ∀ n ∈ Source.stmtsNames f.body, accepts n
  checked : f.checked = none

/-- A declared template function. -/
structure EnteredTemplate (accepts : String → Prop) (T : Store) (t : Check.TemplateItem) : Prop where
  name : accepts t.name
  qualified : EnteredName accepts t.qualified
  typeParams : ∀ n ∈ t.typeParams, accepts n
  params : ∀ p ∈ t.scope.params, accepts p.1 ∧ ∃ v, p.2 = .var v
  signature : Header accepts T t.signature
  template : ∃ e, T.templates[t.template]? = some e ∧ e.body = t.signature
  body : ∀ n ∈ Source.stmtsNames t.body, accepts n
  instances : t.instances = []

/-- A template function is called after its namespace. -/
def Homed (spaces : Array Space) (t : Check.TemplateItem) : Prop :=
  ∃ n, spaces[t.space]? = some n ∧ t.qualified = n.qualified ++ separator ++ t.name

/-- The value of a table belongs to an item. -/
def HasItem (s : State) (st : Storage) : Prop :=
  (∃ g ∈ s.globals, g.storage = st) ∨ (∃ f ∈ s.functions, f.storage = st) ∨
    ∃ t ∈ s.templates, t.qualified = st.qualified ∧ st.kind = .function ∧
      st.type = .template t.template

/-- The tables while declarations are entered. -/
structure Entered (accepts : String → Prop) (s : State) : Prop where
  store : Pristine accepts s.types
  spaces : ∀ n ∈ s.spaces, IsQualified accepts n.qualified
  children : ∀ n ∈ s.spaces, ∀ p ∈ n.children, accepts p.1
  types : ∀ n ∈ s.spaces, ∀ p ∈ n.types, accepts p.1 ∧ ∃ item ∈ s.typeItems,
    p.2 = { qualified := item.qualified, type := item.type, scope := some item.scope }
  values : ∀ n ∈ s.spaces, ∀ p ∈ n.values, HasItem s p.2
  typeItems : ∀ item ∈ s.typeItems, EnteredType accepts s.types item
  globals : ∀ g ∈ s.globals, EnteredGlobal accepts s.types g
  functions : ∀ f ∈ s.functions, EnteredFunction accepts s.types f
  templates : ∀ t ∈ s.templates, EnteredTemplate accepts s.types t
  homes : ∀ t ∈ s.templates, Homed s.spaces t
  bodies : s.bodies = #[]

section Homes

variable {spaces : Array Space} {t : Check.TemplateItem}

/-- A change of a namespace that leaves its name. -/
theorem Homed.modify (h : Homed spaces t) {f : Space → Space} (hf : ∀ n, (f n).qualified = n.qualified)
    (space : Nat) : Homed (spaces.modify space f) t := by
  obtain ⟨n, hn, hq⟩ := h
  rw [Homed, Array.getElem?_modify, hn]
  split
  · exact ⟨f n, rfl, by rw [hf, hq]⟩
  · exact ⟨n, rfl, hq⟩

/-- A new namespace. -/
theorem Homed.push (h : Homed spaces t) (n : Space) : Homed (spaces.push n) t := by
  obtain ⟨m, hm, hq⟩ := h
  have hlt := (Array.getElem?_eq_some_iff.1 hm).1
  exact ⟨m, by rw [Array.getElem?_push, if_neg (Nat.ne_of_lt hlt), hm], hq⟩

end Homes

section Enter

variable {s s' : State} {d : Check.Directory}

/-- New entries of the store leave the items. -/
theorem Entered.stores (hs : Entered accepts s) (h : Stores accepts s s') : Entered accepts s' := by
  obtain ⟨T, rfl, hlarger, hpristine⟩ := h
  refine ⟨hpristine hs.store, hs.spaces, hs.children, hs.types, hs.values, fun item hitem => ?_,
    fun g hg => ?_, fun f hf => ?_, fun t ht => ?_, hs.homes, hs.bodies⟩
  · obtain ⟨hqualified, hparams, htype⟩ := hs.typeItems item hitem
    refine ⟨hqualified, hparams, htype.imp (·.mono hlarger) ?_⟩
    rintro ⟨id, e, hid, he, hbody⟩
    exact ⟨id, e, hid, hlarger.templates he, hbody.mono hlarger⟩
  · obtain ⟨hstorage, hqualified, htype, hinferred, hinit, hchecked⟩ := hs.globals g hg
    exact ⟨hstorage, hqualified, fun t ht => (htype t ht).imp_left (·.mono hlarger), hinferred, hinit,
      hchecked⟩
  · exact { hs.functions f hf with signature := (hs.functions f hf).signature.mono hlarger }
  · obtain ⟨e, he, hbody⟩ := (hs.templates t ht).template
    exact { hs.templates t ht with
      signature := (hs.templates t ht).signature.mono hlarger
      template := ⟨e, hlarger.templates he, hbody⟩ }

/-- Reports and numbers of storages do not matter. -/
theorem Entered.reports (hs : Entered accepts s) (reports : Array Diagnostic) (storages : Nat) :
    Entered accepts { s with reports, storages } :=
  ⟨hs.store, hs.spaces, hs.children, hs.types, hs.values, hs.typeItems, hs.globals, hs.functions,
    hs.templates, hs.homes, hs.bodies⟩

/-- The namespace that is looked at is there. -/
theorem getSpace_eq {space : Nat} {n : Space} (h : getSpace space d s = .ok n s') :
    s.spaces[space]? = some n ∧ s' = s := by
  unfold getSpace at h
  rw [check_get_ok] at h
  cases hspace : s.spaces[space]? with
  | none =>
    rw [hspace] at h
    exact absurd h check_throw_ok
  | some n' =>
    rw [hspace] at h
    obtain ⟨rfl, rfl⟩ := check_pure_ok.1 h
    exact ⟨rfl, rfl⟩

/-- The qualified name of a declaration is that of its namespace with its own behind. -/
theorem qualify_eq {space : Nat} {name q : String} (h : qualify space name d s = .ok q s') :
    ∃ n, s.spaces[space]? = some n ∧ q = n.qualified ++ separator ++ name ∧ s' = s := by
  obtain ⟨n, s₁, hspace, hlast⟩ := check_bind_ok.1 h
  obtain ⟨hn, rfl⟩ := getSpace_eq hspace
  obtain ⟨rfl, rfl⟩ := check_pure_ok.1 hlast
  exact ⟨n, hn, rfl, rfl⟩

/-- A declaration gets a qualified name. -/
theorem qualify_ok {space : Nat} {name q : String} (h : qualify space name d s = .ok q s')
    (hs : Entered accepts s) (hname : accepts name) : EnteredName accepts q ∧ s' = s := by
  obtain ⟨n, hn, rfl, rfl⟩ := qualify_eq h
  refine ⟨⟨.nested (hs.spaces n (Array.mem_of_getElem? hn)) hname, fun hempty => ?_⟩, rfl⟩
  have := congrArg String.toList hempty
  simp [separator] at this

/-- A type is entered, unless its name is taken. -/
theorem addType_ok {space : Nat} {name : String} {b : Binding} {l : Option Location} {free : Bool}
    (h : addType space name b l d s = .ok free s') :
    (free = true ∧ s' = { s with
      spaces := s.spaces.modify space fun n => { n with types := (name, b) :: n.types } }) ∨
    (free = false ∧ ∃ report : Diagnostic, report.severity = .error ∧
      s' = { s with reports := s.reports.push report }) := by
  obtain ⟨entry, s₁, hspace, hlast⟩ := check_bind_ok.1 h
  obtain ⟨-, rfl⟩ := getSpace_eq hspace
  split at hlast
  all_goals
    obtain ⟨_, s₂, hstep, hpure⟩ := check_bind_ok.1 hlast
    obtain ⟨rfl, rfl⟩ := check_pure_ok.1 hpure
    obtain rfl := check_modify_ok.1 hstep
  · exact .inr ⟨rfl, _, rfl, rfl⟩
  · exact .inl ⟨rfl, rfl⟩

/-- A value is entered, unless its name is taken. -/
theorem addValue_ok {space : Nat} {name : String} {st : Storage} {l : Option Location} {free : Bool}
    (h : addValue space name st l d s = .ok free s') :
    (free = true ∧ s' = { s with
      spaces := s.spaces.modify space fun n => { n with values := (name, st) :: n.values } }) ∨
    (free = false ∧ ∃ report : Diagnostic, report.severity = .error ∧
      s' = { s with reports := s.reports.push report }) := by
  obtain ⟨entry, s₁, hspace, hlast⟩ := check_bind_ok.1 h
  obtain ⟨-, rfl⟩ := getSpace_eq hspace
  split at hlast
  all_goals
    obtain ⟨_, s₂, hstep, hpure⟩ := check_bind_ok.1 hlast
    obtain ⟨rfl, rfl⟩ := check_pure_ok.1 hpure
    obtain rfl := check_modify_ok.1 hstep
  · exact .inr ⟨rfl, _, rfl, rfl⟩
  · exact .inl ⟨rfl, rfl⟩

/-- A type is entered together with its item. -/
theorem Entered.pushType (hs : Entered accepts s) {item : Check.TypeItem}
    (hitem : EnteredType accepts s.types item) {name : String} (hname : accepts name) (space : Nat) :
    Entered accepts { s with
      spaces := s.spaces.modify space fun n => { n with types := (name,
        { qualified := item.qualified, type := item.type, scope := some item.scope }) :: n.types },
      typeItems := s.typeItems.push item } := by
  have hold {b : Binding} (h : ∃ item ∈ s.typeItems, b =
      { qualified := item.qualified, type := item.type, scope := some item.scope }) :
      ∃ item' ∈ s.typeItems.push item, b =
        { qualified := item'.qualified, type := item'.type, scope := some item'.scope } := by
    obtain ⟨old, hmem, rfl⟩ := h
    exact ⟨old, Array.mem_push_of_mem item hmem, rfl⟩
  refine ⟨hs.store, fun n hn => ?_, fun n hn => ?_, fun n hn => ?_, fun n hn => ?_,
    forall_push hs.typeItems hitem, hs.globals, hs.functions, hs.templates,
    fun t ht => (hs.homes t ht).modify (by intro; rfl) space, hs.bodies⟩
  all_goals
    dsimp only at hn
    obtain hn | ⟨old, hmem, rfl⟩ := Check.mem_modify hn
  · exact hs.spaces n hn
  · exact hs.spaces old hmem
  · exact hs.children n hn
  · exact hs.children old hmem
  · exact fun p hp => (hs.types n hn p hp).imp_right hold
  · intro p hp
    obtain rfl | hp := List.mem_cons.1 hp
    · exact ⟨hname, item, by simp, rfl⟩
    · exact (hs.types old hmem p hp).imp_right hold
  · exact hs.values n hn
  · exact hs.values old hmem

/-- A value is entered together with its item. -/
theorem Entered.pushValue (hs : Entered accepts s) {globals : Array Check.GlobalItem}
    {functions : Array Check.FunctionItem} {templates : Array Check.TemplateItem} {st : Storage}
    (hglobals : ∀ g ∈ globals, EnteredGlobal accepts s.types g)
    (hfunctions : ∀ f ∈ functions, EnteredFunction accepts s.types f)
    (htemplates : ∀ t ∈ templates, EnteredTemplate accepts s.types t)
    (hhomes : ∀ t ∈ templates, Homed s.spaces t)
    (hold : s.globals.toList ⊆ globals.toList ∧ s.functions.toList ⊆ functions.toList ∧
      s.templates.toList ⊆ templates.toList)
    (hst : HasItem { s with globals, functions, templates } st) (space : Nat) (name : String) :
    Entered accepts { s with
      spaces := s.spaces.modify space fun n => { n with values := (name, st) :: n.values },
      globals, functions, templates } := by
  have hkept {st : Storage} (h : HasItem s st) :
      HasItem { s with globals, functions, templates } st := by
    obtain ⟨g, hg, h⟩ | ⟨f, hf, h⟩ | ⟨t, ht, h⟩ := h
    · exact .inl ⟨g, by simpa using hold.1 (Array.mem_toList_iff.2 hg), h⟩
    · exact .inr (.inl ⟨f, by simpa using hold.2.1 (Array.mem_toList_iff.2 hf), h⟩)
    · exact .inr (.inr ⟨t, by simpa using hold.2.2 (Array.mem_toList_iff.2 ht), h⟩)
  refine ⟨hs.store, fun n hn => ?_, fun n hn => ?_, fun n hn => ?_, fun n hn => ?_,
    hs.typeItems, hglobals, hfunctions, htemplates,
    fun t ht => (hhomes t ht).modify (by intro; rfl) space, hs.bodies⟩
  all_goals
    dsimp only at hn
    obtain hn | ⟨old, hmem, rfl⟩ := Check.mem_modify hn
  · exact hs.spaces n hn
  · exact hs.spaces old hmem
  · exact hs.children n hn
  · exact hs.children old hmem
  · exact hs.types n hn
  · exact hs.types old hmem
  · exact fun p hp => hkept (hs.values n hn p hp)
  · intro p hp
    obtain rfl | hp := List.mem_cons.1 hp
    · exact hst
    · exact hkept (hs.values old hmem p hp)

/-! ## Declarations -/

variable {space : Nat} {name : String} {l : Option Location}

/-- A type is declared. -/
theorem entered_declareType {params : List String} {definition : TypeExpr} {u : Unit}
    (hs : Entered accepts s) (hname : accepts name) (hparams : ∀ n ∈ params, accepts n)
    (hnames : ∀ n ∈ definition.names, accepts n)
    (h : declareType space name params definition l d s = .ok u s') : Entered accepts s' := by
  obtain ⟨qualified, s₁, hqualify, h₁⟩ := check_bind_ok.1 h
  obtain ⟨hqualified, rfl⟩ := qualify_ok hqualify hs hname
  obtain ⟨t, s₂, hintern, h₂⟩ := check_bind_ok.1 h₁
  obtain ⟨hstores, hheader⟩ := stores_internType hintern hnames
  have hlast {s₃ : State} {type : Ty} {scope : Scope} (hs₃ : Entered accepts s₃)
      (hitem : EnteredType accepts s₃.types { qualified, type, scope })
      (h₃ : (do
        if ← addType space name { qualified, type, scope := some scope } l then
          modify fun s => { s with typeItems := s.typeItems.push { qualified, type, scope } }
        : CheckM Unit) d s₃ = .ok u s') : Entered accepts s' := by
    obtain ⟨free, s₄, hadd, h₄⟩ := check_bind_ok.1 h₃
    obtain ⟨rfl, rfl⟩ | ⟨rfl, _, -, rfl⟩ := addType_ok hadd
    · obtain rfl := check_modify_ok.1 h₄
      exact hs₃.pushType hitem hname space
    · obtain ⟨-, rfl⟩ := check_pure_ok.1 h₄
      exact hs₃.reports _ _
  split at h₂
  · exact hlast (hs.stores hstores) ⟨hqualified.1, by simp [scopeOf], .inl hheader⟩ h₂
  · obtain ⟨⟨vars, bound⟩, s₃, htype, h₃⟩ := check_bind_ok.1 h₂
    obtain ⟨hstores', hbound⟩ := stores_typeParams htype hparams
    obtain ⟨template, s₄, htemplate, h₄⟩ := check_bind_ok.1 h₃
    obtain ⟨hstores'', e, he, hbody⟩ := stores_newTemplate accepts htemplate
    refine hlast (((hs.stores hstores).stores hstores').stores hstores'') ⟨hqualified.1, hbound,
      .inr ⟨template, e, rfl, he, ?_⟩⟩ h₄
    rw [hbody]
    exact hheader.mono (hstores'.trans hstores'').enlarges

/-- A global is declared. -/
theorem entered_declareGlobal {type : Option TypeExpr} {init : Option Expr} {exported : Bool}
    {u : Unit} (hs : Entered accepts s) (hname : accepts name)
    (htype : ∀ n ∈ Source.resultNames type, accepts n)
    (hinit : ∀ n ∈ Source.initNames init, accepts n)
    (h : declareGlobal space name type init exported l d s = .ok u s') : Entered accepts s' := by
  obtain ⟨qualified, s₁, hqualify, h₁⟩ := check_bind_ok.1 h
  obtain ⟨hqualified, rfl⟩ := qualify_ok hqualify hs hname
  have hlast {s₂ : State} (written : Option Ty) (inferred : Option Nat) (hs₂ : Entered accepts s₂)
      (hwritten : ∀ t ∈ written, Header accepts s₂.types t)
      (h₂ : (do
        let storage ← Check.Context.newStorage name qualified
          (written.getD (.var (inferred.getD 0))) .global l
        if ← addValue space name storage l then
          let item : Check.GlobalItem := { name, qualified, space, type := written, init, exported,
                                           location := l, storage, inferred }
          modify fun s => { s with globals := s.globals.push item }
        : CheckM Unit) d s₂ = .ok u s') : Entered accepts s' := by
    obtain ⟨storage, s₃, hnew, h₃⟩ := check_bind_ok.1 h₂
    obtain ⟨hstorage, hstate⟩ := Check.newStorage_ok hnew
    have hs₃ : Entered accepts s₃ := hstate ▸ hs₂.reports s₂.reports (s₂.storages + 1)
    have hitem : EnteredGlobal accepts s₃.types { name, qualified, space, type := written, init,
                                                  exported, location := l, storage, inferred } := by
      refine ⟨by simp [hstorage], hqualified, fun t ht => ⟨?_, ?_⟩, fun hnone => ?_, hinit, rfl⟩
      · exact hstate ▸ hwritten t ht
      · simp [hstorage, show written = some t from ht]
      · simp [hstorage, show written = none from hnone]
    obtain ⟨free, s₄, hadd, h₄⟩ := check_bind_ok.1 h₃
    obtain ⟨rfl, rfl⟩ | ⟨rfl, _, -, rfl⟩ := addValue_ok hadd
    · obtain rfl := check_modify_ok.1 h₄
      exact hs₃.pushValue (forall_push hs₃.globals hitem) hs₃.functions hs₃.templates hs₃.homes
        (by simp) (.inl ⟨_, Array.mem_push_self, rfl⟩) space name
    · obtain ⟨-, rfl⟩ := check_pure_ok.1 h₄
      exact hs₃.reports _ _
  cases type with
  | none =>
    obtain ⟨written, s₂, hwritten, h₂⟩ := check_bind_ok.1 h₁
    obtain ⟨rfl, rfl⟩ := check_pure_ok.1 hwritten
    obtain ⟨inferred, s₃, hinferred, h₃⟩ := check_bind_ok.1 h₂
    obtain ⟨v, hv, rfl⟩ := (map_ok (x := onTypes (Types.newVar name l) d)).1 hinferred
    exact hlast none (some v) (hs.stores (stores_newVar hv hname)) (by simp) h₃
  | some t =>
    obtain ⟨written, s₂, hwritten, h₂⟩ := check_bind_ok.1 h₁
    obtain ⟨type, ht, rfl⟩ := (map_ok (x := onTypes (Check.internType t) d)).1 hwritten
    obtain ⟨hstores, hheader⟩ := stores_internType ht htype
    exact hlast (some type) none (hs.stores hstores) (by simpa using hheader) h₂

/-- The signature of a function is a header. -/
theorem header_signature {T : Store} {params : List Check.TypedParam} {result : Ty}
    (hparams : ∀ p ∈ params, Header accepts T p.type) (hresult : Header accepts T result)
    (l : Option Location) : Header accepts T (.function (params.map (·.type)) result l) := by
  refine ⟨Types.typesOver_iff.2 fun t ht => ?_, hresult⟩
  obtain ⟨p, hp, rfl⟩ := List.mem_map.1 ht
  exact hparams p hp

/-- A function is declared. -/
theorem entered_declareFunction {params : List Parameter} {result : Option TypeExpr}
    {body : List Stmt} {exported interrupt : Bool} {u : Unit} (hs : Entered accepts s)
    (hname : accepts name) (hparams : ∀ n ∈ Source.paramsNames params, accepts n)
    (hresult : ∀ n ∈ Source.resultNames result, accepts n)
    (hbody : ∀ n ∈ Source.stmtsNames body, accepts n)
    (h : declareFunction space name params result body exported interrupt l d s = .ok u s') :
    Entered accepts s' := by
  obtain ⟨qualified, s₁, hqualify, h₁⟩ := check_bind_ok.1 h
  obtain ⟨hqualified, rfl⟩ := qualify_ok hqualify hs hname
  obtain ⟨typed, s₂, htyped, h₂⟩ := check_bind_ok.1 h₁
  obtain ⟨hstores, hheaders⟩ := stores_internParams htyped hparams
  obtain ⟨r, s₃, hr, h₃⟩ := check_bind_ok.1 h₂
  obtain ⟨hstores', hheader⟩ := stores_internResult hr hresult
  obtain ⟨storage, s₄, hnew, h₄⟩ := check_bind_ok.1 h₃
  obtain ⟨hstorage, hstate⟩ := Check.newStorage_ok hnew
  have hs₄ : Entered accepts s₄ :=
    hstate ▸ ((hs.stores hstores).stores hstores').reports s₃.reports (s₃.storages + 1)
  have hsignature : Header accepts s₄.types (.function (typed.map (·.type)) r l) :=
    hstate ▸ header_signature (fun p hp => (hheaders p hp).mono hstores'.enlarges) hheader l
  have hitem : EnteredFunction accepts s₄.types { name, qualified, space, params := typed,
                                                  result := r, body, exported, interrupt,
                                                  location := l, storage, scope := scopeOf space } :=
    ⟨by simp [hstorage], by simp [hstorage, Check.FunctionItem.signature], hsignature, hqualified,
      rfl, hbody, rfl⟩
  obtain ⟨free, s₅, hadd, h₅⟩ := check_bind_ok.1 h₄
  obtain ⟨rfl, rfl⟩ | ⟨rfl, _, -, rfl⟩ := addValue_ok hadd
  · obtain rfl := check_modify_ok.1 h₅
    exact hs₄.pushValue hs₄.globals (forall_push hs₄.functions hitem) hs₄.templates hs₄.homes
      (by simp) (.inr (.inl ⟨_, Array.mem_push_self, rfl⟩)) space name
  · obtain ⟨-, rfl⟩ := check_pure_ok.1 h₅
    exact hs₄.reports _ _

/-- A template function is declared. -/
theorem entered_declareTemplate {typeNames : List String} {params : List Parameter}
    {result : Option TypeExpr} {body : List Stmt} {u : Unit} (hs : Entered accepts s)
    (hname : accepts name) (hnames : ∀ n ∈ typeNames, accepts n)
    (hparams : ∀ n ∈ Source.paramsNames params, accepts n)
    (hresult : ∀ n ∈ Source.resultNames result, accepts n)
    (hbody : ∀ n ∈ Source.stmtsNames body, accepts n)
    (h : declareTemplate space name typeNames params result body l d s = .ok u s') :
    Entered accepts s' := by
  obtain ⟨qualified, s₁, hqualify, h₁⟩ := check_bind_ok.1 h
  obtain ⟨n, hn, hq, -⟩ := qualify_eq hqualify
  obtain ⟨hqualified, rfl⟩ := qualify_ok hqualify hs hname
  obtain ⟨⟨vars, bound⟩, s₂, htype, h₂⟩ := check_bind_ok.1 h₁
  obtain ⟨hstores, hbound⟩ := stores_typeParams htype hnames
  obtain ⟨typed, s₃, htyped, h₃⟩ := check_bind_ok.1 h₂
  obtain ⟨hstores', hheaders⟩ := stores_internParams htyped hparams
  obtain ⟨r, s₄, hr, h₄⟩ := check_bind_ok.1 h₃
  obtain ⟨hstores'', hheader⟩ := stores_internResult hr hresult
  obtain ⟨template, s₅, htemplate, h₅⟩ := check_bind_ok.1 h₄
  obtain ⟨hnewest, e, he, hentry⟩ := stores_newTemplate accepts htemplate
  obtain ⟨storage, s₆, hnew, h₆⟩ := check_bind_ok.1 h₅
  obtain ⟨hstorage, hstate⟩ := Check.newStorage_ok hnew
  have hstores := ((hstores.trans hstores').trans hstores'').trans hnewest
  have hs₆ : Entered accepts s₆ :=
    hstate ▸ (hs.stores hstores).reports s₅.reports (s₅.storages + 1)
  have hsignature : Header accepts s₆.types (.function (typed.map (·.type)) r l) :=
    hstate ▸ (header_signature (fun p hp => (hheaders p hp).mono hstores''.enlarges) hheader l).mono
      hnewest.enlarges
  have hitem : EnteredTemplate accepts s₆.types { name, qualified, space, typeParams := typeNames,
                                                  params := typed, body, location := l, template,
                                                  signature := .function (typed.map (·.type)) r l,
                                                  scope := { scopeOf space with params := bound } } :=
    ⟨hname, hqualified, hnames, hbound, hsignature, ⟨e, hstate ▸ he, hentry⟩, hbody, rfl⟩
  have hhome : Homed s₆.spaces { name, qualified, space, typeParams := typeNames, params := typed,
                                 body, location := l, template,
                                 signature := .function (typed.map (·.type)) r l,
                                 scope := { scopeOf space with params := bound } } :=
    ⟨n, by rw [hstate, ← hn, ← hstores.spaces], hq⟩
  obtain ⟨free, s₇, hadd, h₇⟩ := check_bind_ok.1 h₆
  obtain ⟨rfl, rfl⟩ | ⟨rfl, _, -, rfl⟩ := addValue_ok hadd
  · obtain rfl := check_modify_ok.1 h₇
    exact hs₆.pushValue hs₆.globals hs₆.functions (forall_push hs₆.templates hitem)
      (forall_push hs₆.homes hhome) (by simp)
      (.inr (.inr ⟨_, Array.mem_push_self, by simp [hstorage]⟩)) space name
  · obtain ⟨-, rfl⟩ := check_pure_ok.1 h₇
    exact hs₆.reports _ _

/-- An import goes to the others, and its namespace lists it. -/
theorem declareImport_ok {u : Unit} (h : declareImport space name l d s = .ok u s') :
    s' = { s with
      imports := s.imports.push { owner := space, name, location := l }
      spaces := s.spaces.modify space fun n => { n with imports := n.imports ++ [s.imports.size] } } := by
  obtain ⟨_, s₁, hset, h₁⟩ := check_bind_ok.1 (check_get_ok.1 h)
  obtain rfl := check_set_ok.1 hset
  exact (check_modify_ok.1 h₁).symm

/-- An import is declared. -/
theorem entered_declareImport {u : Unit} (hs : Entered accepts s)
    (h : declareImport space name l d s = .ok u s') : Entered accepts s' := by
  obtain rfl := declareImport_ok h
  refine ⟨hs.store, fun n hn => ?_, fun n hn => ?_, fun n hn => ?_, fun n hn => ?_, hs.typeItems,
    hs.globals, hs.functions, hs.templates,
    fun t ht => (hs.homes t ht).modify (by intro; rfl) space, hs.bodies⟩
  all_goals
    dsimp only at hn
    obtain hn | ⟨old, hmem, rfl⟩ := Check.mem_modify hn
  · exact hs.spaces n hn
  · exact hs.spaces old hmem
  · exact hs.children n hn
  · exact hs.children old hmem
  · exact hs.types n hn
  · exact hs.types old hmem
  · exact hs.values n hn
  · exact hs.values old hmem

/-- A nested namespace is there, or it is made and the namespace around it lists it. -/
theorem childSpace_ok {child : Nat} (h : childSpace space name d s = .ok child s') :
    ∃ n, s.spaces[space]? = some n ∧
      ((n.children.lookup name = some child ∧ s' = s) ∨
        (n.children.lookup name = none ∧ child = s.spaces.size ∧
          s' = { s with
            spaces := (s.spaces.push
              { name, qualified := n.qualified ++ separator ++ name, parent := some space }).modify space
                fun n => { n with children := (name, s.spaces.size) :: n.children } })) := by
  obtain ⟨n, s₁, hspace, h₁⟩ := check_bind_ok.1 h
  obtain ⟨hn, rfl⟩ := getSpace_eq hspace
  cases hchild : n.children.lookup name with
  | some old =>
    rw [hchild] at h₁
    obtain ⟨rfl, rfl⟩ := check_pure_ok.1 h₁
    exact ⟨n, hn, .inl ⟨hchild, rfl⟩⟩
  | none =>
    rw [hchild] at h₁
    obtain ⟨_, s₂, hset, h₂⟩ := check_bind_ok.1 (check_get_ok.1 h₁)
    obtain rfl := check_set_ok.1 hset
    obtain ⟨_, s₃, hmodify, h₃⟩ := check_bind_ok.1 h₂
    obtain rfl := check_modify_ok.1 hmodify
    obtain ⟨rfl, rfl⟩ := check_pure_ok.1 h₃
    exact ⟨n, hn, .inr ⟨hchild, rfl, rfl⟩⟩

/-- The search for a nested namespace keeps the tables. -/
theorem entered_childSpace {child : Nat} (hs : Entered accepts s) (hname : accepts name)
    (h : childSpace space name d s = .ok child s') : Entered accepts s' := by
  obtain ⟨entry, hentry, ⟨-, rfl⟩ | ⟨-, -, rfl⟩⟩ := childSpace_ok h
  · exact hs
  · have hqualified : IsQualified accepts (entry.qualified ++ separator ++ name) :=
      .nested (hs.spaces entry (Array.mem_of_getElem? hentry)) hname
    let new : Space :=
      { name, qualified := entry.qualified ++ separator ++ name, parent := some space }
    have hpush {n : Space} (hn : n ∈ s.spaces.push new) : n ∈ s.spaces ∨
        IsQualified accepts n.qualified ∧ n.children = [] ∧ n.types = [] ∧ n.values = [] := by
      obtain hn | rfl := Array.mem_push.1 hn
      · exact .inl hn
      · exact .inr ⟨hqualified, rfl, rfl, rfl⟩
    refine ⟨hs.store, fun n hn => ?_, fun n hn => ?_, fun n hn => ?_, fun n hn => ?_, hs.typeItems,
      hs.globals, hs.functions, hs.templates,
      fun t ht => ((hs.homes t ht).push new).modify (by intro; rfl) space, hs.bodies⟩
    all_goals
      dsimp only at hn
      obtain hn | ⟨old, hmem, rfl⟩ := Check.mem_modify hn
    · exact (hpush hn).elim (hs.spaces n) And.left
    · exact (hpush hmem).elim (hs.spaces old) And.left
    · exact (hpush hn).elim (hs.children n) fun h => by simp [h.2.1]
    · refine List.forall_mem_cons.2 ⟨hname, ?_⟩
      exact (hpush hmem).elim (hs.children old) fun h => by simp [h.2.1]
    · exact (hpush hn).elim (hs.types n) fun h => by simp [h.2.2.1]
    · exact (hpush hmem).elim (hs.types old) fun h => by simp [h.2.2.1]
    · exact (hpush hn).elim (hs.values n) fun h => by simp [h.2.2.2]
    · exact (hpush hmem).elim (hs.values old) fun h => by simp [h.2.2.2]

mutual

/-- A declaration is entered. -/
theorem entered_declare {s s' : State} {u : Unit} (hs : Entered accepts s) (space : Nat) :
    ∀ decl : Decl, (∀ n ∈ decl.names, accepts n) → declare space decl d s = .ok u s' →
      Entered accepts s'
  | .type .., hnames, h => by
    simp only [Decl.names, List.mem_cons, List.mem_append, or_imp, forall_and, forall_eq] at hnames
    exact entered_declareType hs hnames.1 hnames.2.1 hnames.2.2 h
  | .global .., hnames, h => by
    simp only [Decl.names, List.mem_cons, List.mem_append, or_imp, forall_and, forall_eq] at hnames
    exact entered_declareGlobal hs hnames.1 hnames.2.1 hnames.2.2 h
  | .function _ [] .., hnames, h => by
    simp only [Decl.names, List.mem_cons, List.mem_append, or_imp, forall_and, forall_eq] at hnames
    exact entered_declareFunction hs hnames.1 hnames.2.1.1.2 hnames.2.1.2 hnames.2.2 h
  | .function _ (_ :: _) .., hnames, h => by
    simp only [Decl.names, List.mem_cons, List.mem_append, or_imp, forall_and, forall_eq] at hnames
    exact entered_declareTemplate hs hnames.1 (by simpa using hnames.2.1.1.1) hnames.2.1.1.2 hnames.2.1.2 hnames.2.2 h
  | .use .., _, h => entered_declareImport hs h
  | .space _ decls _, hnames, h => by
    simp only [Decl.names, List.mem_cons, or_imp, forall_and, forall_eq] at hnames
    obtain ⟨child, s₁, hchild, h₁⟩ := check_bind_ok.1 h
    exact entered_declareAll (entered_childSpace hs hnames.1 hchild) child decls hnames.2 h₁

/-- Declarations are entered. -/
theorem entered_declareAll {s s' : State} {u : Unit} (hs : Entered accepts s) (space : Nat) :
    ∀ decls : List Decl, (∀ n ∈ Source.declsNames decls, accepts n) →
      declareAll space decls d s = .ok u s' → Entered accepts s'
  | [], _, h => by
    obtain ⟨-, rfl⟩ := check_pure_ok.1 h
    exact hs
  | decl :: decls, hnames, h => by
    simp only [Source.declsNames, List.mem_append, or_imp, forall_and] at hnames
    obtain ⟨_, s₁, hfirst, hrest⟩ := check_bind_ok.1 h
    exact entered_declareAll (entered_declare hs space decl hnames.1 hfirst) space decls hnames.2 hrest

end

/-- At first there is only the outermost namespace. -/
theorem entered_emptyState {n : Nat} (hroot : accepts rootName) :
    Entered accepts (emptyState.withLimit n) where
  store := ⟨fun _ => rfl, by simp [emptyState, State.withLimit, Store.withLimit], fun _ => rfl,
    by simp [emptyState, State.withLimit, Store.withLimit],
    by simp [emptyState, State.withLimit, Store.withLimit]⟩
  spaces := by simpa [emptyState, State.withLimit] using .name hroot
  children := by simp [emptyState, State.withLimit]
  types := by simp [emptyState, State.withLimit]
  values := by simp [emptyState, State.withLimit]
  typeItems := by simp [emptyState, State.withLimit]
  globals := by simp [emptyState, State.withLimit]
  functions := by simp [emptyState, State.withLimit]
  templates := by simp [emptyState, State.withLimit]
  homes := by simp [emptyState, State.withLimit]
  bodies := rfl

/-- The declarations of a program are entered, however many steps a chain of definitions may take. -/
theorem entered_declareProgram (hroot : accepts rootName) {decls : List Decl}
    (hnames : ∀ n ∈ Source.declsNames decls, accepts n) {n : Nat} {u : Unit}
    (h : declareProgram decls d (emptyState.withLimit n) = .ok u s') : Entered accepts s' :=
  entered_declareAll (entered_emptyState hroot) root decls hnames h

end Enter

end Qll.Program
