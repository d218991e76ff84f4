import Qll.Proofs.Check.Steps

/-!
# Checking types keeps the vocabulary

Resolving the names of a type, and following it through its definitions, gives names only what the
namespaces offer. So a store that fits its vocabulary still does afterwards.
-/

namespace Qll.Check

open Qll.Computation
open Qll.Types (Ty Vocabulary Binding Scope Path IsQualified)
open Qll.Types.Vocabulary (Keeps)

variable {S : Setting} {P : Prop} {scope : Scope}

/-- A name is found in a scope. -/
def Finds (scope : Scope) (s : State) (text : String) (b : Binding) : Prop :=
  lookupType scope text Program.directory s = .ok (.ok (some b)) s

/-- Looking a type up changes nothing. -/
theorem lookupType_state {name : String} {d : Directory} {s s' : State}
    {r : Except String (Option Binding)} (h : lookupType scope name d s = .ok r s') : s' = s := by
  simp only [lookupType] at h
  match hparam : scope.params.lookup name, hspace : scope.space with
  | some t, _ | none, none =>
    simp only [hparam, hspace] at h
    exact (check_pure_ok.1 h).2.symm
  | none, some space =>
    simp only [hparam, hspace] at h
    cases h
    rfl

/-- A name stands for a parameter of its scope, for a builtin type, or for what its namespace
finds. -/
theorem Finds.cases {s : State} {name : String} {b : Binding} (h : Finds scope s name b) :
    (∃ t, (name, t) ∈ scope.params ∧ b = { qualified := name, type := t }) ∨
    (∃ kind, Types.Builtin.ofName? name = some kind ∧
      b = { qualified := name, type := .builtin kind none }) ∨
    ∃ space, scope.space = some space ∧ Program.findType s space name = .ok (some b) := by
  simp only [Finds, lookupType] at h
  match hparam : scope.params.lookup name, hspace : scope.space with
  | some t, _ =>
    simp only [hparam] at h
    obtain ⟨before, after, hparams, -⟩ := List.lookup_eq_some_iff.1 hparam
    refine .inl ⟨t, by simp [hparams], ?_⟩
    simpa using (check_pure_ok.1 h).1.symm
  | none, none =>
    simp only [hparam, hspace] at h
    obtain ⟨kind, hkind, rfl⟩ := Option.map_eq_some_iff.1 (Except.ok.inj (check_pure_ok.1 h).1)
    exact .inr (.inl ⟨kind, hkind, rfl⟩)
  | none, some space =>
    simp only [hparam, hspace] at h
    exact .inr (.inr ⟨space, rfl, (pure_ok.1 h).1⟩)

/-- What a name stands for is admitted, and the name reads as a qualified one. -/
theorem Finds.admitted {V : Vocabulary} {s : State} {name : String} {b : Binding}
    (h : Finds scope s name b) (hscope : V.Scopes scope) (hoffers : Program.Offers V s) :
    V.Binds b ∧ IsQualified V.accepts name := by
  obtain ⟨t, ht, rfl⟩ | ⟨kind, hkind, rfl⟩ | ⟨space, -, hfind⟩ := h.cases
  · obtain ⟨hname, htype⟩ := hscope (name, t) ht
    exact ⟨⟨.name hname, htype, by simp⟩, .name hname⟩
  · exact ⟨(Program.binds_builtin hkind).1, .name (Program.binds_builtin hkind).2⟩
  · exact Program.findType_some hoffers hfind

/-- What a name stands for is admitted, and the name reads as a qualified one. -/
theorem checks_lookupType (name : String) : Checks S (S.vocabulary.Scopes scope)
    (fun r => ∀ b, r = .ok (some b) → S.vocabulary.Binds b ∧ IsQualified S.vocabulary.accepts name)
    (lookupType scope name) := by
  intro s r s' hrun
  obtain rfl := lookupType_state hrun
  refine ⟨.refl s', fun hscope hs _ => ⟨hs, fun b hb => ?_⟩⟩
  subst hb
  exact Finds.admitted hrun hscope (S.offers hs)

/-- One name is resolved. -/
theorem checks_resolveName (id : Nat) (text : String) (location : Option Source.Location) :
    Checks S (S.vocabulary.Scopes scope) (fun _ => True) (resolveName scope id text location) := by
  have hfailed (code : Diagnostic.Code) (message : String) : Checks S (S.vocabulary.Scopes scope)
      S.vocabulary.Binds (do
        reportError scope location code message
        return { qualified := text, type := .error }) := .failing
  refine .get fun s => .ite (.pure fun _ => trivial) ?_
  refine Checks.pre (P := S.vocabulary.Scopes scope) ?_ And.left
  have hset (b : Binding) : Checks S (S.vocabulary.Scopes scope ∧ S.vocabulary.Binds b)
      (fun _ => True) (onTypes (Types.setBinding id b)) := .types fun h => .setBinding h.2 id
  refine .bind (checks_lookupType text) fun r => ?_
  match r with
  | .error message => exact (Checks.bind (hfailed _ _) hset).pre And.left
  | .ok none => exact (Checks.bind (hfailed _ _) hset).pre And.left
  | .ok (some b) => exact (hset b).pre fun h => ⟨h.1, (h.2 b rfl).1⟩

/-- An application that cannot have an instance is reported. -/
theorem checks_checkApplication (id head : Nat) (text : String) (given : Nat)
    (location : Option Source.Location) :
    Checks S P (fun _ => True) (checkApplication scope id head text given location) := by
  have hresult : Checks S False (fun _ => True) (onTypes (Types.setResult id .error)) :=
    .types False.elim
  refine .bind (Q := S.vocabulary.Admits) (.types fun _ => .read fun _ _ hs h => hs.target h)
    fun target => .seq (.types fun _ => .isError target) fun _ => .ite ?_ ?_
  · exact .types fun _ => .setResult Vocabulary.admits_error id
  · split
    · next template =>
      exact .seq (.types fun h => (Keeps.templateEntry h.2).drop) fun _ =>
        .ite (.fail fun _ => hresult) (.pure fun _ => trivial)
    · exact .fail fun _ => hresult

/-- The names of a type are resolved. -/
theorem checks_bindNamesWithin (n : Nat) (t : Ty) :
    Checks S (S.vocabulary.Scopes scope) (fun _ => True) (bindNamesWithin scope n t) := by
  induction n generalizing t with
  | zero => exact .throw
  | succ n ih =>
    unfold bindNamesWithin
    cases t with
    | builtin kind l => exact .pure fun _ => trivial
    | name id text l => exact checks_resolveName id text l
    | pointer e l => exact ih e
    | slice e l => exact ih e
    | array e k l => exact ih e
    | dot b m l => exact ih b
    | struct ms l => exact .forM fun m _ => ih m.type
    | function as r l => exact .seq (.forM fun a _ => ih a) fun _ => ih r
    | apply id head text as l =>
      refine .get fun s => Checks.pre (P := S.vocabulary.Scopes scope) ?_ And.left
      exact .seq (checks_resolveName head text l) fun _ => .seq (.forM fun a _ => ih a) fun _ =>
        .ite (checks_checkApplication _ _ _ _ _) (.pure fun _ => trivial)
    | var v =>
      refine .get fun s => Checks.pre (P := S.vocabulary.Scopes scope) ?_ And.left
      split
      · exact ih _
      · exact .pure fun _ => trivial
    | template id => exact .seq (.types fun _ => .templateRead id) fun e => ih e.body

/-- Binding the names in a type keeps the invariant. -/
theorem checks_bindNames (t : Ty) :
    Checks S (S.vocabulary.Scopes scope) (fun _ => True) (bindNames scope t) :=
  .seq (.types fun _ => .limit) fun n => checks_bindNamesWithin n t

/-- Members are checked one by one. -/
theorem checks_checkMembers {whole : Ty} {check : Ty → CheckM Unit} {members : List (Types.Member Ty)}
    (hcheck : ∀ m ∈ members, Checks S P (fun _ => True) (check m.type))
    (hmembers : P → ∀ m ∈ members, S.vocabulary.AdmitsMember m) (seen : List String) :
    Checks S P (fun _ => True) (checkMembers scope whole check seen members) := by
  induction members generalizing seen with
  | nil => exact .pure fun _ => trivial
  | cons m rest ih =>
    have hm := hcheck m (by simp)
    have hrest (seen : List String) := ih (fun m hm => hcheck m (by simp [hm]))
      (fun h m hm => hmembers h m (by simp [hm])) seen
    have hnext : Checks S P (fun _ => True) (do
        check m.type
        if ← onTypes (Types.isVoid m.type) then
          reportError scope m.location .voidValue ("member " ++ m.name ++ " cannot have type void")
        checkMembers scope whole check (m.name :: seen) rest) :=
      .seq hm fun _ => .seq (.types fun h => .isVoid (hmembers h m (by simp)).2) fun _ =>
        .ite (.seq Checks.noted fun _ => hrest _) (hrest _)
    exact .ite (.seq (.textOf whole) fun _ => .seq Checks.noted fun _ => hnext) hnext

/-- The use of a name is followed. -/
theorem checks_followReference {path : Path} {location : Option Source.Location}
    {name label : String} {check : Path → CheckM Unit}
    (h : ∀ next, Checks S P (fun _ => True) (check next)) :
    Checks S P (fun _ => True) (followReference scope path location name label check) := by
  unfold followReference
  split
  · exact .pure fun _ => trivial
  · exact .failing
  · exact .seq (h _) fun _ => .pure fun _ => trivial

/-- A member type without a member is reported. -/
theorem checks_checkDot {base : Ty} (hbase : P → S.vocabulary.Admits base) (member : String)
    (location : Option Source.Location) :
    Checks S P (fun _ => True) (checkDot scope base member location) := by
  refine .bind (.types fun h => .resolve (hbase h)) fun shape => ?_
  refine .seq (.types fun _ => .isError shape) fun _ => .ite (.pure fun _ => trivial) ?_
  split
  · next members l =>
    refine .seq (.types fun h => (Keeps.findMember (Vocabulary.admits_struct.1 h.2) member).drop)
      fun _ => .ite ?_ (.pure fun _ => trivial)
    exact .seq (.textOf base) fun _ => Checks.noted
  · exact .seq (.textOf base) fun _ => Checks.noted

/-- A type is followed through its definitions. -/
theorem checks_kindcheckWithin (n : Nat) {scope : Scope} (path : Path) (t : Ty) :
    Checks S (S.vocabulary.Scopes scope ∧ S.vocabulary.Admits t) (fun _ => True)
      (kindcheckWithin n scope path t) := by
  induction n generalizing scope path t with
  | zero => exact .throw
  | succ n ih =>
    unfold kindcheckWithin
    cases t with
    | builtin kind l => exact .pure fun _ => trivial
    | name id text l =>
      refine .seq ((checks_resolveName id text l).pre And.left) fun _ => .get fun s => ?_
      split
      · exact .pure fun _ => trivial
      · next b hb =>
        have hfollow (u : Ty) (hu : b.type = u) : Checks S
            ((S.vocabulary.Scopes scope ∧ S.vocabulary.Admits (.name id text l)) ∧ S.Inv s)
            (fun _ => True) (do
              let sound ← followReference scope path l b.qualified b.qualified fun next =>
                kindcheckWithin n (b.scope.getD scope) next u
              if !sound then onTypes (Types.setCyclicName id)) := by
          refine .seq (checks_followReference fun next => (ih next u).pre fun h => ?_) fun _ =>
            .ite (.types fun _ => .setCyclicName id) (.pure fun _ => trivial)
          have hbinds := (S.fits h.2).binding hb
          refine ⟨?_, hu ▸ hbinds.type⟩
          cases hscope : b.scope with
          | none => exact h.1.1
          | some inner => exact hbinds.scope inner (by simp [hscope])
        split
        · exact .pure fun _ => trivial
        · exact .pure fun _ => trivial
        · exact hfollow _ rfl
    | pointer e l => exact ih _ e
    | slice e l => exact ih _ e
    | array e k l =>
      exact .ite (ih _ e) (.ite .noted (ih _ e))
    | struct ms l =>
      exact checks_checkMembers
        (fun m hm => (ih _ m.type).pre fun h => ⟨h.1, (Vocabulary.admits_struct.1 h.2 m hm).2⟩)
        (fun h => Vocabulary.admits_struct.1 h.2) []
    | function as r l =>
      refine .seq (.forM fun a ha => (ih _ a).pre fun h => ?_) fun _ => (ih _ r).pre fun h => ?_
      · exact ⟨h.1, (Vocabulary.admits_function.1 h.2).1 a ha⟩
      · exact ⟨h.1, (Vocabulary.admits_function.1 h.2).2⟩
    | apply id head text as l =>
      refine .seq ((checks_bindNames _).pre And.left) fun _ => ?_
      refine .bind (.types fun h => .applied (Vocabulary.admits_apply.1 h.2).2) fun result => ?_
      refine .seq (.types fun _ => .isError result) fun _ => .ite (.pure fun _ => trivial) ?_
      refine .get fun s => .seq (.types fun _ => .read fun _ _ _ _ => trivial) fun name => ?_
      refine .seq (.types fun _ => .read fun _ _ _ _ => trivial) fun headText => ?_
      refine .seq ((Checks.mapM fun a _ => .textOf a).drop) fun parts => ?_
      split
      · exact .seq .noted fun _ => .types fun _ => .setCyclicApply id
      · refine .seq (checks_followReference fun next => (ih next result).pre fun h => ?_) fun _ =>
          .ite (.types fun _ => .setCyclicApply id) (.pure fun _ => trivial)
        refine ⟨?_, h.1.2⟩
        cases hinner : (s.types.binding? head).bind (·.scope) with
        | none => exact h.1.1.1
        | some inner =>
          obtain ⟨b, hb, hscope⟩ := Option.bind_eq_some_iff.1 hinner
          exact ((S.fits h.2).binding hb).scope inner (by simp [hscope])
    | dot b m l =>
      exact .seq ((ih _ b).pre fun h => ⟨h.1, h.2.1⟩) fun _ => checks_checkDot (fun h => h.2.1) m l
    | var v =>
      refine .get fun s => ?_
      split
      · next u hu => exact (ih _ u).pre fun h => ⟨h.1.1, (S.fits h.2).bound hu⟩
      · exact .pure fun _ => trivial
    | template id =>
      exact .bind (.types fun h => .templateEntry h.2) fun e =>
        (ih _ e.body).pre fun h => ⟨h.1.1, h.2.1⟩

/-- Following an admitted type keeps the invariant. -/
theorem checks_kindcheck (path : Path) (t : Ty) :
    Checks S (S.vocabulary.Scopes scope ∧ S.vocabulary.Admits t) (fun _ => True)
      (kindcheck scope path t) :=
  .seq (.types fun _ => .limit) fun n => checks_kindcheckWithin n path t

/-! ## Resolving the names of a type

Resolving the names of a type that has neither variables nor templates changes the entries of these
names and nothing else, unless it reports an error: afterwards every one of them stands for something
that was found. -/

open Qll.Types (Parts Store)
open Source (Location)

/-- A computation on types changes nothing else. -/
theorem onTypes_ok {α : Type} {x : Types.TypeM α} {d : Directory} {s s' : State} {a : α}
    (h : onTypes x d s = .ok a s') : ∃ types, x s.types = .ok a types ∧ s' = { s with types } := by
  simp only [onTypes] at h
  split at h
  · next b types hb =>
    cases h
    exact ⟨types, hb, rfl⟩
  · cases h

/-- A reading of the store changes nothing. -/
theorem onTypes_read {α : Type} {f : Store → Except Fault α} {d : Directory} {s s' : State} {a : α}
    (h : onTypes (Types.read f) d s = .ok a s') : f s.types = .ok a ∧ s' = s := by
  obtain ⟨types, hread, rfl⟩ := onTypes_ok h
  obtain ⟨ha, rfl⟩ := Types.read_ok.1 hread
  exact ⟨ha, rfl⟩

/-- The entry of a template is read. -/
theorem onTypes_entry {id : Nat} {d : Directory} {s s' : State} {e : Types.TemplateEntry}
    (h : onTypes (Types.templateEntry id) d s = .ok e s') :
    s.types.templates[id]? = some e ∧ s' = s := by
  obtain ⟨types, hentry, rfl⟩ := onTypes_ok h
  simp only [Types.templateEntry, get_bind_ok] at hentry
  cases he : s.types.templates[id]? with
  | none =>
    rw [he] at hentry
    exact absurd hentry throw_ok
  | some e' =>
    rw [he] at hentry
    obtain ⟨rfl, rfl⟩ := pure_ok.1 hentry
    exact ⟨rfl, rfl⟩

/-- A report leaves the types. -/
theorem report_types {scope : Scope} {location : Option Location} {code : Diagnostic.Code}
    {message : String} {d : Directory} {s s' : State} {u : Unit}
    (h : reportError scope location code message d s = .ok u s') :
    s'.types = s.types ∧ s'.Doomed := by
  obtain rfl := check_modify_ok.1 h
  exact ⟨rfl, State.doomed_of_error s rfl⟩

/-- An entry is given what it stands for. -/
theorem setBinding_ok {id : Nat} {b : Binding} {d : Directory} {s s' : State} {u : Unit}
    (h : onTypes (Types.setBinding id b) d s = .ok u s') : s.Grows s' ∧ s'.types = { s.types with
      names := s.types.names.modify id fun e => { e with binding := some b } } := by
  cases h
  exact ⟨.of_same rfl rfl rfl fun _ h => h, rfl⟩

/-! ## Changes of entries -/

/-- What resolving names does to a store: entries that are resolved stay so, new ones stand for
something with a property, and applications get no instance but the error type. -/
structure Resolving (G : Nat → Binding → Prop) (T T' : Store) : Prop where
  size : T'.names.size = T.names.size
  old : ∀ {id}, (T.binding? id).isSome → (T'.binding? id).isSome
  new : ∀ {id b}, T'.binding? id = some b → T.binding? id = some b ∨ G id b
  vars : T'.vars = T.vars
  templates : T'.templates = T.templates
  results : ∀ {id : Nat} {e : Types.ApplyEntry} {t}, T'.applies[id]? = some e → e.result = some t →
    t = .error ∨ ∃ e', T.applies[id]? = some e' ∧ e'.result = some t

namespace Resolving

variable {G : Nat → Binding → Prop} {T T' T'' : Store}

/-- Nothing is resolved where nothing happens. -/
theorem refl (T : Store) : Resolving G T T :=
  ⟨rfl, fun h => h, .inl, rfl, rfl, fun h ht => .inr ⟨_, h, ht⟩⟩

/-- Names are resolved in two steps. -/
theorem trans (h : Resolving G T T') (h' : Resolving G T' T'') : Resolving G T T'' := by
  refine ⟨h'.size.trans h.size, fun hid => h'.old (h.old hid),
    fun hid => (h'.new hid).elim h.new .inr, h'.vars.trans h.vars, h'.templates.trans h.templates,
    fun he ht => ?_⟩
  obtain rfl | ⟨e', he', ht'⟩ := h'.results he ht
  · exact .inl rfl
  · exact h.results he' ht'

/-- An entry is resolved. -/
theorem bind_name {id : Nat} {b : Binding} (hid : id < T.names.size) (hb : G id b) :
    Resolving G T { T with names := T.names.modify id fun e => { e with binding := some b } } ∧
      (Store.binding? { T with names := T.names.modify id fun e => { e with binding := some b } }
        id).isSome := by
  have hbinding (j : Nat) : Store.binding?
      { T with names := T.names.modify id fun e => { e with binding := some b } } j =
        if id = j then (T.names[j]?).map fun _ => b else T.binding? j := by
    simp only [Store.binding?, Array.getElem?_modify]
    split
    · cases T.names[j]? <;> rfl
    · rfl
  refine ⟨⟨by simp, fun {j} hj => ?_, fun {j b'} hj => ?_, rfl, rfl, fun h ht => .inr ⟨_, h, ht⟩⟩,
    by simp [hbinding, hid]⟩
  · rw [hbinding]
    split
    · next h => simp [← h, hid]
    · exact hj
  · rw [hbinding] at hj
    split at hj
    · next h =>
      obtain ⟨_, -, rfl⟩ := Option.map_eq_some_iff.1 hj
      exact .inr (h ▸ hb)
    · exact .inl hj

/-- An application has no instance. -/
theorem set_error (T : Store) (id : Nat) : Resolving G T
    { T with applies := T.applies.modify id fun e => { e with result := some .error } } := by
  refine ⟨rfl, fun h => h, .inl, rfl, rfl, fun {j e t} he ht => ?_⟩
  simp only [Array.getElem?_modify] at he
  split at he
  · obtain ⟨e', -, rfl⟩ := Option.map_eq_some_iff.1 he
    exact .inl (Option.some.inj ht).symm
  · exact .inr ⟨e, he, ht⟩

end Resolving

/-! ## Names of a type -/

section Resolve

variable {S : Setting} {scope : Scope} {hi : Nat} {M : Parts} {G : Nat → Binding → Prop}

/-- The names of a type are entries below `hi`, and what they stand for when found has a property.
There are neither variables nor templates. -/
structure Resolvable (S : Setting) (scope : Scope) (hi : Nat) (M : Parts)
    (G : Nat → Binding → Prop) : Prop where
  below : ∀ {id text}, M.name id text → id < hi
  found : ∀ {id text s b}, M.name id text → S.Inv s → Finds scope s text b → G id b
  var : ∀ v, ¬ M.var v
  template : ∀ id, ¬ M.template id

/-- The parts of a type, with its names resolved. -/
def resolvedParts (M : Parts) (T : Store) : Parts where
  name id text := M.name id text ∧ (T.binding? id).isSome
  member := M.member
  var := M.var
  template := M.template

/-- A computation resolves entries below `hi`, and those that are said. -/
def Resolves (S : Setting) (hi : Nat) (G : Nat → Binding → Prop) (N : Store → Prop)
    (x : CheckM Unit) : Prop :=
  Checks S True (fun _ => True) x ∧ ∀ s u s', x Program.directory s = .ok u s' →
    hi ≤ s.types.names.size → S.Inv s → S.Ahead s' → Resolving G s.types s'.types ∧ N s'.types

namespace Resolves

variable {N K : Store → Prop} {x y : CheckM Unit}

/-- Nothing needs to be resolved to give a value. -/
theorem pure {u : Unit} : Resolves S hi G (fun _ => True) (Pure.pure u) := by
  refine ⟨.pure fun _ => trivial, fun s u s' hrun _ _ _ => ?_⟩
  obtain ⟨-, rfl⟩ := check_pure_ok.1 hrun
  exact ⟨.refl _, trivial⟩

/-- Less may be said to be resolved. -/
theorem mono (hx : Resolves S hi G N x) (h : ∀ T, N T → K T) : Resolves S hi G K x :=
  ⟨hx.1, fun s u s' hrun hsize hs ahead => (hx.2 s u s' hrun hsize hs ahead).imp_right (h _)⟩

/-- The state may be looked at. -/
theorem get {g : State → CheckM Unit} (h : ∀ s, Resolves S hi G N (g s)) :
    Resolves S hi G N (MonadState.get >>= g) :=
  ⟨.get fun s => (h s).1.pre fun _ => trivial, fun s u s' hrun => (h s).2 s u s' hrun⟩

/-- What each of two steps resolves is resolved by both. -/
theorem bind (hx : Resolves S hi G N x) (hy : Resolves S hi G K y)
    (hN : ∀ {T T'}, Resolving G T T' → N T → N T') :
    Resolves S hi G (fun T => N T ∧ K T) (x >>= fun _ => y) := by
  refine ⟨hx.1.seq fun _ => hy.1, fun s u s' hrun hsize hs ahead => ?_⟩
  obtain ⟨_, s₁, hrunx, hruny⟩ := check_bind_ok.1 hrun
  obtain ⟨-, hkeeps⟩ := hx.1 s _ s₁ hrunx
  obtain ⟨hgrows, -⟩ := hy.1 s₁ _ s' hruny
  obtain ⟨hs₁, -⟩ := hkeeps trivial hs (S.back hgrows ahead)
  obtain ⟨hleft, hn⟩ := hx.2 s _ s₁ hrunx hsize hs (S.back hgrows ahead)
  obtain ⟨hright, hk⟩ := hy.2 s₁ _ s' hruny (hleft.size ▸ hsize) hs₁ ahead
  exact ⟨hleft.trans hright, hN hright hn, hk⟩

/-- What is resolved at each element of a list is resolved in the end. -/
theorem forM {α : Type} {g : α → CheckM Unit} {L : α → Store → Prop} {l : List α}
    (hg : ∀ a ∈ l, Resolves S hi G (L a) (g a))
    (hL : ∀ {a T T'}, Resolving G T T' → L a T → L a T') :
    Resolves S hi G (fun T => ∀ a ∈ l, L a T) (l.forM g) := by
  induction l with
  | nil => exact Resolves.pure.mono fun _ _ => by simp
  | cons a l ih =>
    obtain ⟨hchecks, hresolves⟩ := (hg a (by simp)).bind (ih fun b hb => hg b (by simp [hb])) hL
    exact ⟨hchecks, fun s u s' hrun hsize hs ahead => by
      simpa using hresolves s u s' hrun hsize hs ahead⟩

end Resolves

/-- Resolved entries stay resolved. -/
theorem Resolving.over {T T' : Store} (h : Resolving G T T') {t : Ty}
    (ht : t.Over (resolvedParts M T)) : t.Over (resolvedParts M T') := by
  have hname (id : Nat) (text : String) (hid : (resolvedParts M T).name id text) :
      (resolvedParts M T').name id text := ⟨hid.1, h.old hid.2⟩
  exact ht.mono hname (fun _ h => h) (fun _ h => h) fun _ h => h

/-- An entry is resolved: it was before, or its name is found now. -/
theorem resolves_resolveName (hscope : S.vocabulary.Scopes scope) {id : Nat} {text : String}
    (hid : id < hi) (hfound : ∀ {s b}, S.Inv s → Finds scope s text b → G id b)
    (location : Option Location) : Resolves S hi G (fun T => (T.binding? id).isSome)
      (resolveName scope id text location) := by
  refine ⟨(checks_resolveName id text location).pre fun _ => hscope,
    fun s u s' hrun hsize hs ahead => ?_⟩
  unfold resolveName at hrun
  rw [check_get_ok] at hrun
  split at hrun
  · next hbound =>
    obtain ⟨-, rfl⟩ := check_pure_ok.1 hrun
    exact ⟨.refl _, hbound⟩
  obtain ⟨r, s₁, hlookup, hrun⟩ := check_bind_ok.1 hrun
  obtain rfl := lookupType_state hlookup
  -- A name that is not found dooms the run, so it was found.
  have hfailed {code : Diagnostic.Code} {message : String} {b : Binding}
      (h : (reportError scope location code message >>= fun _ =>
        onTypes (Types.setBinding id b)) Program.directory s₁ = .ok u s') : False := by
    obtain ⟨_, s₂, hreport, h⟩ := check_bind_ok.1 h
    exact S.sound ahead ((setBinding_ok h).1.doomed (report_types hreport).2)
  match r with
  | .error message => exact (hfailed hrun).elim
  | .ok none => exact (hfailed hrun).elim
  | .ok (some b) =>
    rw [(setBinding_ok (d := Program.directory) hrun).2]
    exact Resolving.bind_name (Nat.lt_of_lt_of_le hid hsize) (hfound hs hlookup)

/-- An application that cannot have an instance is reported. -/
theorem resolves_checkApplication (id head : Nat) (text : String) (given : Nat)
    (location : Option Location) : Resolves S hi G (fun _ => True)
      (checkApplication scope id head text given location) := by
  refine ⟨checks_checkApplication id head text given location, fun s u s' hrun _ _ _ =>
    ⟨?_, trivial⟩⟩
  have hset {s₁ : State} (h : onTypes (Types.setResult id .error) Program.directory s₁ = .ok u s') :
      Resolving G s₁.types s'.types := by
    cases h
    exact .set_error _ id
  obtain ⟨target, s₁, hread, h₁⟩ := check_bind_ok.1 hrun
  obtain ⟨bad, s₂, herror, h₂⟩ := check_bind_ok.1 h₁
  obtain ⟨-, rfl⟩ := onTypes_read hread
  obtain ⟨-, rfl⟩ := onTypes_read herror
  split at h₂
  · exact hset h₂
  split at h₂
  · obtain ⟨entry, s₃, hentry, h₃⟩ := check_bind_ok.1 h₂
    obtain ⟨-, rfl⟩ := onTypes_entry hentry
    split at h₃
    · obtain ⟨_, s₄, hreport, h₄⟩ := check_bind_ok.1 h₃
      exact (report_types hreport).1 ▸ hset h₄
    · obtain ⟨-, rfl⟩ := check_pure_ok.1 h₃
      exact .refl _
  · obtain ⟨_, s₃, hreport, h₃⟩ := check_bind_ok.1 h₂
    exact (report_types hreport).1 ▸ hset h₃

/-- The names of a type are resolved. -/
theorem resolves_bindNamesWithin (hscope : S.vocabulary.Scopes scope)
    (hM : Resolvable S scope hi M G) (n : Nat) {t : Ty} (ht : t.Over M) :
    Resolves S hi G (fun T => t.Over (resolvedParts M T)) (bindNamesWithin scope n t) := by
  have hname {id : Nat} {text : String} {location : Option Location} (hid : M.name id text) :
      Resolves S hi G (fun T => (T.binding? id).isSome) (resolveName scope id text location) :=
    resolves_resolveName hscope (hM.below hid) (fun hs => hM.found hid hs) location
  induction n generalizing t with
  | zero => exact ⟨.throw, fun _ _ _ h => absurd h check_throw_ok⟩
  | succ n ih =>
    unfold bindNamesWithin
    cases t with
    | builtin kind l => exact .pure
    | name id text l => exact (hname ht).mono fun T h => ⟨ht, h⟩
    | pointer e l | slice e l | array e k l => exact ih (t := e) ht
    | dot e m l => exact (ih (t := e) ht.1).mono fun T h => ⟨h, ht.2⟩
    | struct ms l =>
      have hms := Types.membersOver_iff.1 ht
      refine (Resolves.forM (L := fun m T => m.type.Over (resolvedParts M T))
        (fun m hm => ih (hms m hm).2) fun h => h.over).mono fun T h => ?_
      exact Types.membersOver_iff.2 fun m hm => ⟨(hms m hm).1, h m hm⟩
    | function as r l =>
      have has := Types.typesOver_iff.1 ht.1
      refine (Resolves.bind (.forM (L := fun a T => a.Over (resolvedParts M T))
        (fun a ha => ih (has a ha)) fun h => h.over) (ih ht.2) fun h hL a ha => h.over (hL a ha)).mono
          fun T h => ?_
      exact ⟨Types.typesOver_iff.2 h.1, h.2⟩
    | apply id head text as l =>
      have has := Types.typesOver_iff.1 ht.2
      refine .get fun s₀ => ?_
      refine (Resolves.bind (hname ht.1) (.bind (.forM (L := fun a T => a.Over (resolvedParts M T))
        (fun a ha => ih (has a ha)) fun h => h.over) (K := fun _ => True) ?_
          fun h hL a ha => h.over (hL a ha)) fun h => h.old).mono fun T h => ?_
      · split
        · exact resolves_checkApplication id head text _ l
        · exact .pure
      · exact ⟨⟨ht.1, h.1⟩, Types.typesOver_iff.2 h.2.1⟩
    | var v => exact (hM.var v ht).elim
    | template id => exact (hM.template id ht).elim

/-- The names of a type are resolved. -/
theorem resolves_bindNames (hscope : S.vocabulary.Scopes scope) (hM : Resolvable S scope hi M G)
    {t : Ty} (ht : t.Over M) :
    Resolves S hi G (fun T => t.Over (resolvedParts M T)) (bindNames scope t) := by
  refine ⟨(checks_bindNames t).pre fun _ => hscope, fun s u s' hrun => ?_⟩
  obtain ⟨n, s₁, hlimit, hrun⟩ := check_bind_ok.1 hrun
  cases hlimit
  exact (resolves_bindNamesWithin hscope hM _ ht).2 s u s' hrun

end Resolve

end Qll.Check
