import Qll.Proofs.Types.Layouts
import Qll.Proofs.Types.Traversal

/-!
# Entries of the store

A type refers to entries of the store for its names and applications. Whatever is computed from types
whose entries are there gives types whose entries are there; the store only learns more, and no
variable gets a type as long as types are looked at and no values.
-/

namespace Qll.Types

open Qll.Computation
open Source (Location)

/-! ## Types and their entries -/

/-- The entries for the names and applications of a type are in the store. -/
inductive Ranged (T : Store) : Ty → Prop
  | builtin {kind l} : Ranged T (.builtin kind l)
  | name {id text l} (h : id < T.names.size) : Ranged T (.name id text l)
  | pointer {e l} (h : Ranged T e) : Ranged T (.pointer e l)
  | slice {e l} (h : Ranged T e) : Ranged T (.slice e l)
  | array {e n l} (h : Ranged T e) : Ranged T (.array e n l)
  | struct {ms l} (h : ∀ m ∈ ms, Ranged T m.type) : Ranged T (.struct ms l)
  | function {as r l} (has : ∀ a ∈ as, Ranged T a) (hr : Ranged T r) : Ranged T (.function as r l)
  | apply {id head text as l} (hid : id < T.applies.size) (hhead : head < T.names.size)
      (has : ∀ a ∈ as, Ranged T a) : Ranged T (.apply id head text as l)
  | dot {b m l} (h : Ranged T b) : Ranged T (.dot b m l)
  | var {v} : Ranged T (.var v)
  | template {id} : Ranged T (.template id)

/-- Only variables stand for the parameters of a scope. -/
def Scope.OnlyVars (scope : Scope) : Prop := ∀ p ∈ scope.params, ∃ v, p.2 = .var v

/-- A store whose types have their entries in it, whose templates are as they were written, and in
which no variable has a type. -/
structure Steady (T : Store) : Prop where
  binding : ∀ {id b}, T.binding? id = some b → Ranged T b.type ∧ ∀ scope ∈ b.scope, scope.OnlyVars
  result : ∀ {id : Nat} {e : ApplyEntry} {t}, T.applies[id]? = some e → e.result = some t → Ranged T t
  body : ∀ {id : Nat} {e : TemplateEntry}, T.templates[id]? = some e →
    Ranged T e.body ∧ e.body.Over plainParts
  instances : ∀ {id : Nat} {e : TemplateEntry} {p}, T.templates[id]? = some e → p ∈ e.instances →
    Ranged T p.2
  unbound : ∀ v, T.bound? v = none

/-- A later store: more entries are there, and what is known of the old ones stays known. -/
structure Extends (T T' : Store) : Prop where
  onward : Onward T T'
  names : T.names.size ≤ T'.names.size
  applies : T.applies.size ≤ T'.applies.size

/-- A store comes after itself. -/
theorem Extends.refl (T : Store) : Extends T T := ⟨.refl T, Nat.le_refl _, Nat.le_refl _⟩

/-- A store comes after what comes before an earlier one. -/
theorem Extends.trans {T T' T'' : Store} (h : Extends T T') (h' : Extends T' T'') : Extends T T'' :=
  ⟨h.onward.trans h'.onward, h.names.trans h'.names, h.applies.trans h'.applies⟩

/-- Entries are in every store with at least as many. -/
theorem Ranged.mono {T T' : Store} {t : Ty} (h : Ranged T t) (hnames : T.names.size ≤ T'.names.size)
    (happlies : T.applies.size ≤ T'.applies.size) : Ranged T' t := by
  induction h with
  | builtin => exact .builtin
  | name h => exact .name (h.trans_le hnames)
  | pointer _ ih => exact .pointer ih
  | slice _ ih => exact .slice ih
  | array _ ih => exact .array ih
  | struct _ ih => exact .struct ih
  | function _ _ iha ihr => exact .function iha ihr
  | apply hid hhead _ ih => exact .apply (hid.trans_le happlies) (hhead.trans_le hnames) ih
  | dot _ ih => exact .dot ih
  | var => exact .var
  | template => exact .template

/-- Entries are in every later store. -/
theorem Ranged.extends {T T' : Store} {t : Ty} (h : Ranged T t) (hT : Extends T T') : Ranged T' t :=
  h.mono hT.names hT.applies

/-! ## Changes of entries -/

section Changes

variable {T T' : Store}

/-- A store that has the entries of another one, changed or not, and entries of its own. -/
theorem Steady.change (hT : Steady T) (hnames : T.names.size ≤ T'.names.size)
    (happlies : T.applies.size ≤ T'.applies.size)
    (hbinding : ∀ {id b}, T'.binding? id = some b → T.binding? id = some b ∨
      Ranged T' b.type ∧ ∀ scope ∈ b.scope, scope.OnlyVars)
    (hresult : ∀ {id : Nat} {e : ApplyEntry} {t}, T'.applies[id]? = some e → e.result = some t →
      (∃ e', T.applies[id]? = some e' ∧ e'.result = some t) ∨ Ranged T' t)
    (htemplates : ∀ {id : Nat} {e : TemplateEntry}, T'.templates[id]? = some e →
      ∃ e', T.templates[id]? = some e' ∧ e.body = e'.body ∧
        ∀ p ∈ e.instances, p ∈ e'.instances ∨ Ranged T' p.2)
    (hvars : T'.vars = T.vars) : Steady T' where
  binding hb := by
    refine (hbinding hb).elim (fun hb => ?_) fun h => h
    exact ⟨(hT.binding hb).1.mono hnames happlies, (hT.binding hb).2⟩
  result he ht := by
    refine (hresult he ht).elim (fun ⟨e', he', ht'⟩ => ?_) fun h => h
    exact (hT.result he' ht').mono hnames happlies
  body he := by
    obtain ⟨e', he', hbody, -⟩ := htemplates he
    rw [hbody]
    exact ⟨(hT.body he').1.mono hnames happlies, (hT.body he').2⟩
  instances he hp := by
    obtain ⟨e', he', -, hinstances⟩ := htemplates he
    exact (hinstances _ hp).elim (fun hp => (hT.instances he' hp).mono hnames happlies) fun h => h
  unbound v := by
    simpa [Store.bound?, hvars] using hT.unbound v

/-- Old entries are as they were, and new ones stand at the end. -/
structure Appends (T T' : Store) : Prop where
  names : ∀ {id : Nat} {e : NameEntry}, T.names[id]? = some e → T'.names[id]? = some e
  applies : ∀ {id : Nat} {e : ApplyEntry}, T.applies[id]? = some e → T'.applies[id]? = some e
  vars : T'.vars = T.vars
  templates : ∀ id : Nat, (T'.templates[id]?).map (fun e => (e.params, e.body)) =
    (T.templates[id]?).map fun e => (e.params, e.body)

/-- A store is its own continuation. -/
theorem Appends.refl (T : Store) : Appends T T := ⟨id, id, rfl, fun _ => rfl⟩

/-- A continuation may be continued. -/
theorem Appends.trans {T'' : Store} (h : Appends T T') (h' : Appends T' T'') : Appends T T'' :=
  ⟨fun he => h'.names (h.names he), fun he => h'.applies (h.applies he), h'.vars.trans h.vars,
    fun id => (h'.templates id).trans (h.templates id)⟩

/-- An array that has all elements of another one at their places is no shorter. -/
theorem size_le_of_getElem? {α : Type} {a b : Array α}
    (h : ∀ {i : Nat} {x : α}, a[i]? = some x → b[i]? = some x) : a.size ≤ b.size := by
  by_contra hlt
  have hlast : a[b.size]? = some a[b.size] := Array.getElem?_eq_getElem (by omega)
  simpa using h hlast

/-- A continuation is a later store. -/
theorem Appends.extends (h : Appends T T') : Extends T T' where
  onward := by
    refine ⟨fun {id text u} hu => .inl ?_, fun {id u} hu => .inl ?_, h.vars, h.templates⟩
    · unfold Store.target at hu ⊢
      cases he : T.names[id]? with
      | none => simp [he] at hu
      | some e => rwa [h.names he, ← he]
    · obtain ⟨e, he, hu⟩ := Option.bind_eq_some_iff.1 hu
      exact Option.bind_eq_some_iff.2 ⟨e, h.applies he, hu⟩
  names := size_le_of_getElem? h.names
  applies := size_le_of_getElem? h.applies

/-- A new name. -/
theorem Appends.push_name (T : Store) : Appends T { T with names := T.names.push {} } where
  names {id e} he := by
    rw [Array.getElem?_push_lt (Array.getElem?_eq_some_iff.1 he).1]
    simpa using (Array.getElem?_eq_some_iff.1 he).2
  applies he := he
  vars := rfl
  templates _ := rfl

/-- A new application. -/
theorem Appends.push_apply (T : Store) : Appends T { T with applies := T.applies.push {} } where
  names he := he
  applies {id e} he := by
    rw [Array.getElem?_push_lt (Array.getElem?_eq_some_iff.1 he).1]
    simpa using (Array.getElem?_eq_some_iff.1 he).2
  vars := rfl
  templates _ := rfl

/-- A template gets an instance. -/
theorem Appends.add_instance (T : Store) (id : Nat) (instance_ : String × Ty) : Appends T
    { T with templates := T.templates.modify id fun e =>
        { e with instances := instance_ :: e.instances } } where
  names he := he
  applies he := he
  vars := rfl
  templates j := by
    simp only [Array.getElem?_modify]
    split
    · cases T.templates[j]? <;> rfl
    · rfl

/-- A new name keeps a store steady. -/
theorem Steady.push_name (hT : Steady T) : Steady { T with names := T.names.push {} } := by
  refine hT.change (by simp) (Nat.le_refl _) (fun {id b} hb => .inl ?_) (fun he ht => .inl ⟨_, he, ht⟩)
    (fun he => ⟨_, he, rfl, fun _ hp => .inl hp⟩) rfl
  obtain ⟨e, he, hb⟩ := Option.bind_eq_some_iff.1 hb
  rw [Array.getElem?_push] at he
  split at he
  · cases he
    cases hb
  · exact Option.bind_eq_some_iff.2 ⟨e, he, hb⟩

/-- A new application keeps a store steady. -/
theorem Steady.push_apply (hT : Steady T) : Steady { T with applies := T.applies.push {} } := by
  refine hT.change (Nat.le_refl _) (by simp) .inl (fun {id e t} he ht => .inl ?_)
    (fun he => ⟨_, he, rfl, fun _ hp => .inl hp⟩) rfl
  rw [Array.getElem?_push] at he
  split at he
  · cases he
    cases ht
  · exact ⟨e, he, ht⟩

/-- A new instance keeps a store steady. -/
theorem Steady.add_instance (hT : Steady T) {key : String} {t : Ty} (ht : Ranged T t) (id : Nat) :
    Steady { T with templates := T.templates.modify id fun e =>
      { e with instances := (key, t) :: e.instances } } := by
  refine hT.change (Nat.le_refl _) (Nat.le_refl _) .inl (fun he ht => .inl ⟨_, he, ht⟩)
    (fun {j e} he => ?_) rfl
  have hnew : Ranged { T with templates := T.templates.modify id fun e =>
      { e with instances := (key, t) :: e.instances } } t := ht.mono (Nat.le_refl _) (Nat.le_refl _)
  simp only [Array.getElem?_modify] at he
  split at he
  · obtain ⟨e', he', rfl⟩ := Option.map_eq_some_iff.1 he
    refine ⟨e', he', rfl, fun p hp => ?_⟩
    obtain rfl | hp := List.mem_cons.1 hp
    · exact .inr hnew
    · exact .inl hp
  · exact ⟨e, he, rfl, fun _ hp => .inl hp⟩

/-- A name without a meaning gets one. -/
theorem Steady.bind_name (hT : Steady T) {id : Nat} {b : Binding} (hnone : T.binding? id = none)
    (hb : Ranged T b.type ∧ ∀ scope ∈ b.scope, scope.OnlyVars) :
    Steady { T with names := T.names.modify id fun e => { e with binding := some b } } ∧
      Extends T { T with names := T.names.modify id fun e => { e with binding := some b } } := by
  have hsize : T.names.size ≤ (T.names.modify id fun e => { e with binding := some b }).size := by simp
  refine ⟨hT.change hsize (Nat.le_refl _) (fun {j b'} hb' => ?_) (fun he ht => .inl ⟨_, he, ht⟩)
    (fun he => ⟨_, he, rfl, fun _ hp => .inl hp⟩) rfl, ⟨?_, .inl, rfl, fun _ => rfl⟩, hsize, Nat.le_refl _⟩
  · obtain ⟨e, he, hb'⟩ := Option.bind_eq_some_iff.1 hb'
    simp only [Array.getElem?_modify] at he
    split at he
    · obtain ⟨e', -, rfl⟩ := Option.map_eq_some_iff.1 he
      obtain rfl : b = b' := by simpa using hb'
      exact .inr ⟨hb.1.mono hsize (Nat.le_refl _), hb.2⟩
    · exact .inl (Option.bind_eq_some_iff.2 ⟨e, he, hb'⟩)
  · intro j text u hu
    refine .inl ?_
    have hne : id ≠ j := by
      rintro rfl
      unfold Store.target at hu
      split at hu
      · next b' _ he => simp [Store.binding?, he] at hnone
      · cases hu
    simpa [Store.target, Array.getElem?_modify, hne] using hu

/-- A name is marked. -/
theorem Steady.close_name (hT : Steady T) (id : Nat) :
    Steady { T with names := T.names.modify id fun e => { e with cyclic := true } } ∧
      Extends T { T with names := T.names.modify id fun e => { e with cyclic := true } } := by
  have hsize : T.names.size ≤ (T.names.modify id fun e => { e with cyclic := true }).size := by simp
  refine ⟨hT.change hsize (Nat.le_refl _) (fun {j b} hb => .inl ?_) (fun he ht => .inl ⟨_, he, ht⟩)
    (fun he => ⟨_, he, rfl, fun _ hp => .inl hp⟩) rfl, ⟨?_, .inl, rfl, fun _ => rfl⟩, hsize, Nat.le_refl _⟩
  · obtain ⟨e, he, hb⟩ := Option.bind_eq_some_iff.1 hb
    simp only [Array.getElem?_modify] at he
    split at he
    · obtain ⟨e', he', rfl⟩ := Option.map_eq_some_iff.1 he
      exact Option.bind_eq_some_iff.2 ⟨e', he', hb⟩
    · exact Option.bind_eq_some_iff.2 ⟨e, he, hb⟩
  · intro j text u hu
    by_cases hj : id = j
    · subst hj
      unfold Store.target at hu
      split at hu
      · next b _ he => exact .inr (by simp [Store.target, Array.getElem?_modify, he])
      · cases hu
    · exact .inl (by simpa [Store.target, Array.getElem?_modify, hj] using hu)

/-- An application gets its instance, or turns out to have none. -/
theorem Steady.set_result (hT : Steady T) {id : Nat} {t : Ty} (ht : Ranged T t)
    (hold : T.instance? id = none ∨ t = .error) :
    Steady { T with applies := T.applies.modify id fun e => { e with result := some t } } ∧
      Extends T { T with applies := T.applies.modify id fun e => { e with result := some t } } := by
  have hsize : T.applies.size ≤ (T.applies.modify id fun e => { e with result := some t }).size := by
    simp
  refine ⟨hT.change (Nat.le_refl _) hsize .inl (fun {j e u} he hu => ?_)
    (fun he => ⟨_, he, rfl, fun _ hp => .inl hp⟩) rfl, ⟨.inl, ?_, rfl, fun _ => rfl⟩, Nat.le_refl _, hsize⟩
  · simp only [Array.getElem?_modify] at he
    split at he
    · obtain ⟨e', -, rfl⟩ := Option.map_eq_some_iff.1 he
      obtain rfl : t = u := by simpa using hu
      exact .inr (ht.mono (Nat.le_refl _) hsize)
    · exact .inl ⟨e, he, hu⟩
  · intro j u hu
    by_cases hj : id = j
    · subst hj
      obtain rfl := hold.resolve_left (by simp [hu])
      obtain ⟨⟨result, cyclic⟩, he, -⟩ := Option.bind_eq_some_iff.1 hu
      exact .inr (by simp [Store.instance?, Array.getElem?_modify, he])
    · exact .inl (by simpa [Store.instance?, Array.getElem?_modify, hj] using hu)

/-- An application is marked. -/
theorem Steady.close_apply (hT : Steady T) (id : Nat) :
    Steady { T with applies := T.applies.modify id fun e => { e with cyclic := true } } ∧
      Extends T { T with applies := T.applies.modify id fun e => { e with cyclic := true } } := by
  have hsize : T.applies.size ≤ (T.applies.modify id fun e => { e with cyclic := true }).size := by simp
  refine ⟨hT.change (Nat.le_refl _) hsize .inl (fun {j e u} he hu => .inl ?_)
    (fun he => ⟨_, he, rfl, fun _ hp => .inl hp⟩) rfl, ⟨.inl, ?_, rfl, fun _ => rfl⟩, Nat.le_refl _, hsize⟩
  · simp only [Array.getElem?_modify] at he
    split at he
    · obtain ⟨e', he', rfl⟩ := Option.map_eq_some_iff.1 he
      exact ⟨e', he', hu⟩
    · exact ⟨e, he, hu⟩
  · intro j u hu
    by_cases hj : id = j
    · subst hj
      obtain ⟨e, he, -⟩ := Option.bind_eq_some_iff.1 hu
      exact .inr (by simp [Store.instance?, Array.getElem?_modify, he])
    · exact .inl (by simpa [Store.instance?, Array.getElem?_modify, hj] using hu)

end Changes

/-! ## Computations -/

instance : Std.Refl Appends := ⟨Appends.refl⟩

instance : IsTrans Store Appends := ⟨fun _ _ _ => Appends.trans⟩

instance : Std.Refl Extends := ⟨Extends.refl⟩

instance : IsTrans Store Extends := ⟨fun _ _ _ => Extends.trans⟩

/-- A computation that ends well in a steady store ends in one, which comes after the first, and
gives what is said. -/
def Moves (rel : Store → Store → Prop) {α : Type} (T : Store) (Q : Store → α → Prop) (x : TypeM α) :
    Prop := ∀ a T', x T = .ok a T' → Steady T' ∧ rel T T' ∧ Q T' a

namespace Moves

variable {rel : Store → Store → Prop} {α β : Type} {T : Store} {Q Q' : Store → α → Prop}
  {R : Store → β → Prop} {x : TypeM α} {f : α → TypeM β}

/-- A fault does not end well. -/
theorem throw {e : Fault} : Moves rel T Q (MonadExcept.throw e : TypeM α) :=
  fun _ _ h => absurd h throw_ok

/-- What is said may be weakened. -/
theorem mono (hx : Moves rel T Q x) (h : ∀ a T', rel T T' → Q T' a → Q' T' a) : Moves rel T Q' x :=
  fun a T' hrun => (hx a T' hrun).imp_right fun ⟨hrel, ha⟩ => ⟨hrel, h a T' hrel ha⟩

/-- Either of two computations may be taken. -/
theorem ite {c : Prop} [Decidable c] {y : TypeM α} (hx : Moves rel T Q x) (hy : Moves rel T Q y) :
    Moves rel T Q (if c then x else y) := by
  split
  · exact hx
  · exact hy

/-- What follows a reading of the store is given the store. -/
theorem get {g : Store → TypeM α} (h : Moves rel T Q (g T)) : Moves rel T Q (MonadState.get >>= g) :=
  fun a T' hrun => h a T' (get_bind_ok.1 hrun)

/-- What only adds entries at the end leaves a later store. -/
theorem appends {x : TypeM α} (hx : Moves Appends T Q x) : Moves Extends T Q x :=
  fun a T' hrun => (hx a T' hrun).imp_right fun ⟨hrel, ha⟩ => ⟨hrel.extends, ha⟩

/-- A change of the store. -/
theorem update {g : Store → Store} (h : Steady (g T) ∧ rel T (g T)) :
    Moves rel T (fun T' _ => T' = g T) (modify g : TypeM PUnit) := by
  intro u T' hrun
  obtain rfl := modify_ok.1 hrun
  exact ⟨h.1, h.2, rfl⟩

variable [Std.Refl rel]

/-- A value may be given that is as it is said. -/
theorem pure (hT : Steady T) {a : α} (h : Q T a) : Moves rel T Q (Pure.pure a) := by
  intro b T' hrun
  obtain ⟨rfl, rfl⟩ := pure_ok.1 hrun
  exact ⟨hT, refl T, h⟩

/-- A reading of the store. -/
theorem read (hT : Steady T) {g : Store → Except Fault α} (h : ∀ a, g T = .ok a → Q T a) :
    Moves rel T Q (Types.read g) := by
  intro a T' hrun
  obtain ⟨hg, rfl⟩ := read_ok.1 hrun
  exact ⟨hT, refl T, h a hg⟩

/-- The number of steps may be looked at. -/
theorem limit (hT : Steady T) : Moves rel T (fun _ _ => True) Types.limit := by
  intro n T' hrun
  obtain ⟨-, rfl⟩ := limit_ok.1 hrun
  exact ⟨hT, refl T, trivial⟩

variable [IsTrans Store rel]

omit [Std.Refl rel] in
/-- A computation may come behind another one, and use what that gives. -/
theorem bind (hx : Moves rel T Q x)
    (hf : ∀ a T', Steady T' → rel T T' → Q T' a → Moves rel T' R (f a)) :
    Moves rel T R (x >>= f) := by
  intro b T'' hrun
  obtain ⟨a, T', hxs, hfs⟩ := bind_ok.1 hrun
  obtain ⟨hT', hrel, ha⟩ := hx a T' hxs
  obtain ⟨hT'', hrel', hb⟩ := hf a T' hT' hrel ha b T'' hfs
  exact ⟨hT'', IsTrans.trans _ _ _ hrel hrel', hb⟩

/-- Each value of a list is as it is said, in the store that is left. -/
theorem mapM (hT : Steady T) {g : α → TypeM β} {l : List α}
    (h : ∀ a ∈ l, ∀ T', Steady T' → rel T T' → Moves rel T' R (g a))
    (hR : ∀ {T₁ T₂ b}, rel T₁ T₂ → R T₁ b → R T₂ b) :
    Moves rel T (fun T' bs => ∀ b ∈ bs, R T' b) (l.mapM g) := by
  induction l generalizing T with
  | nil => exact .pure hT (by simp)
  | cons a l ih =>
    rw [List.mapM_cons]
    refine .bind (h a (by simp) T hT (refl T)) fun b T₁ hT₁ hrel₁ hb => ?_
    refine .bind (ih hT₁ fun c hc T' hT' hrel => h c (by simp [hc]) T' hT' (IsTrans.trans _ _ _ hrel₁ hrel))
      fun bs T₂ hT₂ hrel₂ hbs => ?_
    exact .pure hT₂ (by simpa using ⟨hR hrel₂ hb, hbs⟩)

/-- Going through a list leaves a later store if each step does. -/
theorem foldlM (hT : Steady T) {g : β → α → TypeM β} {l : List α}
    (h : ∀ b, ∀ a ∈ l, ∀ T', Steady T' → rel T T' → Moves rel T' (fun _ _ => True) (g b a)) (b : β) :
    Moves rel T (fun _ _ => True) (l.foldlM g b) := by
  induction l generalizing T b with
  | nil => exact .pure hT trivial
  | cons a l ih =>
    rw [List.foldlM_cons]
    refine .bind (h b a (by simp) T hT (refl T)) fun c T₁ hT₁ hrel₁ _ => ?_
    exact ih hT₁ (fun b a ha T' hT' hrel => h b a (by simp [ha]) T' hT' (IsTrans.trans _ _ _ hrel₁ hrel)) c

end Moves

/-! ## Templates -/

section Templates

variable {T : Store}

/-- A new name has its entry in the store. -/
theorem moves_newName (hT : Steady T) (text : String) (l : Option Location) :
    Moves Appends T (fun T' t => ∃ id, t = .name id text l ∧ id < T'.names.size) (newName text l) := by
  intro t T' hrun
  simp only [newName, bind_ok, get_ok, set_ok, pure_ok] at hrun
  obtain ⟨_, _, ⟨rfl, rfl⟩, _, _, rfl, rfl, rfl⟩ := hrun
  exact ⟨hT.push_name, .push_name _, _, rfl, by simp⟩

/-- A new application has its entries in the store. -/
theorem moves_newApply (hT : Steady T) (text : String) (as : List Ty) (l : Option Location) :
    Moves Appends T (fun T' t => ∃ id head, t = .apply id head text as l ∧ id < T'.applies.size ∧
      head < T'.names.size) (newApply text as l) := by
  intro t T' hrun
  simp only [newApply, bind_ok, get_ok, set_ok, pure_ok] at hrun
  obtain ⟨_, _, ⟨rfl, rfl⟩, _, _, rfl, rfl, rfl⟩ := hrun
  exact ⟨hT.push_name.push_apply, (Appends.push_name _).trans (.push_apply _), _, _, rfl, by simp, by simp⟩

/-- Replacing variables in a type. -/
theorem moves_substituteWithin {σ : Substitution} (n : Nat) {t : Ty} (hT : Steady T)
    (hσ : ∀ p ∈ σ, Ranged T p.2) (ht : Ranged T t) :
    Moves Appends T Ranged (substituteWithin σ n t) := by
  induction n generalizing t T with
  | zero => exact .throw
  | succ n ih =>
    have hfind {v : Nat} {u : Ty} (h : σ.find? v = some u) : Ranged T u := by
      obtain ⟨before, after, rfl, -⟩ := List.lookup_eq_some_iff.1 h
      exact hσ (v, u) (by simp)
    -- Parts are replaced in later stores, to which everything is carried over.
    have hpart {T' : Store} {u : Ty} (hT' : Steady T') (hrel : Appends T T') (hu : Ranged T u) :
        Moves Appends T' Ranged (substituteWithin σ n u) :=
      ih hT' (fun p hp => (hσ p hp).extends hrel.extends) (hu.extends hrel.extends)
    have hmono {T₁ T₂ : Store} {u : Ty} (hrel : Appends T₁ T₂) (hu : Ranged T₁ u) : Ranged T₂ u :=
      hu.extends hrel.extends
    unfold substituteWithin
    cases ht with
    | builtin => exact .pure hT .builtin
    | template => exact .pure hT .template
    | @name id text l h =>
      refine .get ?_
      split
      · refine (moves_newName hT text l).mono fun u T' _ hu => ?_
        obtain ⟨id', rfl, hid'⟩ := hu
        exact .name hid'
      · next v _ _ =>
        refine .pure hT ?_
        cases hv : σ.find? v with
        | none => exact .name h
        | some u => exact hfind hv
      · exact .pure hT (.name h)
    | pointer h => exact .bind (hpart hT (.refl T) h) fun u T' hT' _ hu => .pure hT' (.pointer hu)
    | slice h => exact .bind (hpart hT (.refl T) h) fun u T' hT' _ hu => .pure hT' (.slice hu)
    | array h => exact .bind (hpart hT (.refl T) h) fun u T' hT' _ hu => .pure hT' (.array hu)
    | @struct ms l h =>
      have hmember (m : Member Ty) (hm : m ∈ ms) (T' : Store) (hT' : Steady T') (hrel : Appends T T') :
          Moves Appends T' (fun T'' (m : Member Ty) => Ranged T'' m.type)
            (substituteWithin σ n m.type >>= fun u => Pure.pure { m with type := u }) :=
        .bind (hpart hT' hrel (h m hm)) fun u T'' hT'' _ hu => .pure hT'' hu
      exact .bind (.mapM hT hmember fun hrel hu => hmono hrel hu) fun ms' T' hT' _ hms =>
        .pure hT' (.struct hms)
    | @function as r l has hr =>
      refine .bind (.mapM hT (fun a ha T' hT' hrel => hpart hT' hrel (has a ha)) hmono)
        fun as' T₁ hT₁ hrel₁ has' => ?_
      refine .bind (hpart hT₁ hrel₁ hr) fun r' T₂ hT₂ hrel₂ hr' => ?_
      exact .pure hT₂ (.function (fun a ha => hmono hrel₂ (has' a ha)) hr')
    | @apply id head text as l hid hhead has =>
      refine .bind (.mapM hT (fun a ha T' hT' hrel => hpart hT' hrel (has a ha)) hmono)
        fun as' T₁ hT₁ hrel₁ has' => ?_
      refine .bind (moves_newApply hT₁ text as' l) fun u T₂ hT₂ hrel₂ hu => ?_
      obtain ⟨id', fresh, rfl, hid', hfresh⟩ := hu
      refine .get (.pure hT₂ (.apply hid' ?_ fun a ha => hmono hrel₂ (has' a ha)))
      split
      · exact hfresh
      · exact hhead.trans_le (hrel₁.trans hrel₂).extends.names
    | dot h => exact .bind (hpart hT (.refl T) h) fun u T' hT' _ hu => .pure hT' (.dot hu)
    | @var v =>
      refine .get ?_
      split
      · next u hu => exact .pure hT (hfind hu)
      · next u _ hu => simp [hT.unbound] at hu
      · exact .pure hT .var

/-- The entry of a template. -/
theorem moves_templateEntry {rel : Store → Store → Prop} [Std.Refl rel] (hT : Steady T) (id : Nat) :
    Moves rel T (fun T' e => T' = T ∧ T.templates[id]? = some e) (templateEntry id) := by
  refine .get ?_
  split
  · next e he => exact .pure hT ⟨rfl, he⟩
  · exact .throw

/-- An instance of a template. -/
theorem moves_instantiate (hT : Steady T) (id : Nat) {as : List Ty} (has : ∀ a ∈ as, Ranged T a) :
    Moves Appends T (fun T' r => Ranged T' r.1) (instantiate id as) := by
  refine .bind (.read (Q := fun T' _ => T' = T) hT fun _ _ => rfl) fun key T₁ _ _ heq => ?_
  subst heq
  refine .bind (moves_templateEntry hT id) fun e T₂ _ _ he => ?_
  obtain ⟨rfl, he⟩ := he
  split
  · next t ht =>
    obtain ⟨before, after, hinstances, -⟩ := List.lookup_eq_some_iff.1 ht
    exact .pure hT (hT.instances (p := (key, t)) he (by simp [hinstances]))
  · refine .ite (.bind (.read (Q := fun _ _ => True) hT fun _ _ => trivial) fun _ _ _ _ _ => .throw) ?_
    have hσ : ∀ p ∈ Substitution.ofLists e.params as, Ranged T₂ p.2 := fun p hp =>
      has p.2 (List.of_mem_zip (List.mem_reverse.1 hp)).2
    refine .bind (.bind (.limit hT) fun n T₃ hT₃ hrel₃ _ => moves_substituteWithin n hT₃
      (fun p hp => (hσ p hp).extends hrel₃.extends) ((hT.body he).1.extends hrel₃.extends))
        fun t T₄ hT₄ _ ht => ?_
    refine .bind (.update ⟨hT₄.add_instance ht id, .add_instance T₄ id (key, t)⟩)
      fun _ T₅ hT₅ hrel₅ _ => ?_
    exact .pure hT₅ (ht.extends hrel₅.extends)

/-- An application that has no instance yet gets one. -/
theorem moves_setResult (hT : Steady T) {id : Nat} {t : Ty} (ht : Ranged T t)
    (hentry : T.applies[id]? = some {}) : Moves Extends T (fun T' u => Ranged T' u ∧
      T'.instance? id = some u) (do setResult id t; return t) := by
  have hnone : T.instance? id = none := by simp [Store.instance?, hentry]
  refine .bind (.update (hT.set_result ht (.inl hnone))) fun _ T' hT' hrel heq => ?_
  refine .pure hT' ⟨ht.extends hrel, ?_⟩
  subst heq
  simp [Store.instance?, Array.getElem?_modify, hentry]

/-- The instance of an application is known afterwards. -/
theorem moves_applied (hT : Steady T) {id : Nat} (hid : id < T.applies.size) (head : Nat)
    (text : String) {as : List Ty} (has : ∀ a ∈ as, Ranged T a) :
    Moves Extends T (fun T' u => Ranged T' u ∧ T'.instance? id = some u) (applied id head text as) := by
  refine .get ?_
  split
  · next _ he => exact .pure hT ⟨.builtin, by simp [Store.instance?, he]⟩
  · next t cyclic hcyclic he =>
    cases cyclic with
    | true => exact (hcyclic rfl).elim
    | false => exact .pure hT ⟨hT.result he rfl, by simp [Store.instance?, he]⟩
  · next hcyclic hresult =>
    have hentry : T.applies[id]? = some {} := by
      obtain ⟨⟨result, cyclic⟩, he⟩ : ∃ e, T.applies[id]? = some e :=
        ⟨_, Array.getElem?_eq_getElem hid⟩
      cases cyclic with
      | true => exact (hcyclic _ he).elim
      | false =>
        cases result with
        | none => exact he
        | some t => exact (hresult _ _ he).elim
    refine .bind (.read (Q := fun T' _ => T' = T) hT fun _ _ => rfl) fun target T₁ _ _ heq => ?_
    subst heq
    split
    · next template =>
      refine .bind (moves_templateEntry hT template) fun e T₂ _ _ he => ?_
      obtain ⟨rfl, -⟩ := he
      refine .ite (moves_setResult hT .builtin hentry) ?_
      refine .bind ((moves_instantiate hT template has).mono fun r T' hrel hr =>
        (⟨hr, hrel.applies hentry⟩ : Ranged T' r.1 ∧ T'.applies[id]? = some {})).appends
          fun r T₃ hT₃ _ hr => ?_
      exact moves_setResult hT₃ hr.1 hr.2
    · exact moves_setResult hT .builtin hentry

end Templates

/-! ## Shapes and sizes -/

section Follow

variable {T : Store}

/-- What a name stands for. -/
theorem Steady.target (hT : Steady T) {id : Nat} {text : String} {t : Ty}
    (h : T.target id text = .ok t) : Ranged T t := by
  unfold Store.target at h
  split at h
  · next b cyclic he =>
    obtain rfl : (if cyclic then Ty.error else b.type) = t := by simpa using h
    split
    · exact .builtin
    · have hb : T.binding? id = some b := by simp [Store.binding?, he]
      exact (hT.binding hb).1
  · cases h

/-- Following a type: its shape, the type of a member, a member and its place, and its size. -/
theorem moves_follow (n : Nat) :
    (∀ {T t}, Steady T → Ranged T t → Moves Extends T Ranged (resolveWithin n t)) ∧
    (∀ {T b name}, Steady T → Ranged T b → Moves Extends T Ranged (memberTypeWithin n b name)) ∧
    (∀ {T ms name offset}, Steady T → (∀ m ∈ ms, Ranged T m.type) →
      Moves Extends T (fun T' r => ∀ m ∈ r, Ranged T' m.1.type) (findMemberWithin n ms name offset)) ∧
    (∀ {T t}, Steady T → Ranged T t → Moves Extends T (fun _ _ => True) (sizeWithin n t)) := by
  induction n with
  | zero => exact ⟨fun _ _ => .throw, fun _ _ => .throw, fun _ _ => .throw, fun _ _ => .throw⟩
  | succ n ih =>
    obtain ⟨hresolve, hmember, hfind, hsize⟩ := ih
    refine ⟨fun {T t} hT ht => ?_, fun {T b name} hT hb => ?_, fun {T ms name offset} hT hms => ?_,
      fun {T t} hT ht => ?_⟩
    · unfold resolveWithin
      cases ht with
      | name h => exact .bind (.read hT fun u hu => hT.target hu) fun u T' hT' _ hu => hresolve hT' hu
      | @apply id head text as l hid _ has =>
        exact .bind (moves_applied hT hid head text has) fun u T' hT' _ hu => hresolve hT' hu.1
      | dot h => exact .bind (hmember hT h) fun u T' hT' _ hu => hresolve hT' hu
      | @var v =>
        refine .get ?_
        rw [hT.unbound]
        exact .pure hT .var
      | builtin => exact .pure hT .builtin
      | pointer h => exact .pure hT (.pointer h)
      | slice h => exact .pure hT (.slice h)
      | array h => exact .pure hT (.array h)
      | struct h => exact .pure hT (.struct h)
      | function has hr => exact .pure hT (.function has hr)
      | template => exact .pure hT .template
    · unfold memberTypeWithin
      refine .bind (hresolve hT hb) fun u T₁ hT₁ _ hu => ?_
      cases hu with
      | struct hms =>
        refine .bind (hfind hT₁ hms) fun r T₂ hT₂ _ hr => ?_
        cases r with
        | none => exact .pure hT₂ .builtin
        | some r => exact .pure hT₂ (hr r rfl)
      | _ => exact .pure hT₁ .builtin
    · unfold findMemberWithin
      cases ms with
      | nil => exact .pure hT (by simp)
      | cons m rest =>
        obtain ⟨hm, hrest⟩ := List.forall_mem_cons.1 hms
        refine .ite (.pure hT (by simpa using hm)) (.bind (hsize hT hm) fun k T' hT' hrel _ => ?_)
        exact hfind hT' fun m hm => (hrest m hm).extends hrel
    · unfold sizeWithin
      cases ht with
      | name h => exact .bind (.read hT fun u hu => hT.target hu) fun u T' hT' _ hu => hsize hT' hu
      | @apply id head text as l hid _ has =>
        exact .bind (moves_applied hT hid head text has) fun u T' hT' _ hu => hsize hT' hu.1
      | dot h => exact .bind (hmember hT h) fun u T' hT' _ hu => hsize hT' hu
      | array h =>
        exact .ite (.pure hT trivial) (.bind (hsize hT h) fun _ T' hT' _ _ => .pure hT' trivial)
      | struct h =>
        refine .foldlM hT (fun _ m hm T' hT' hrel => ?_) 0
        exact .bind (hsize hT' ((h m hm).extends hrel)) fun _ T'' hT'' _ _ => .pure hT'' trivial
      | @var v =>
        refine .get ?_
        rw [hT.unbound]
        exact .get .throw
      | template => exact .bind (.read (Q := fun _ _ => True) hT fun _ _ => trivial) fun _ _ _ _ _ => .throw
      | _ => exact .pure hT trivial

/-- The shape of a type. -/
theorem moves_resolve (hT : Steady T) {t : Ty} (ht : Ranged T t) :
    Moves Extends T Ranged (resolve t) :=
  .bind (.limit hT) fun n _ hT' hrel _ => (moves_follow n).1 hT' (ht.extends hrel)

/-- A member of a struct. -/
theorem moves_findMember (hT : Steady T) {ms : List (Member Ty)} (hms : ∀ m ∈ ms, Ranged T m.type)
    (name : String) : Moves Extends T (fun _ _ => True) (findMember ms name) :=
  .bind (.limit hT) fun n _ hT' hrel _ =>
    ((moves_follow n).2.2.1 hT' fun m hm => (hms m hm).extends hrel).mono fun _ _ _ _ => trivial

/-- Asking whether a type is void leaves a later store. -/
theorem moves_isVoid (hT : Steady T) {t : Ty} (ht : Ranged T t) :
    Moves Extends T (fun _ _ => True) (isVoid t) := by
  refine .bind (moves_resolve hT ht) fun u T' hT' _ _ => ?_
  split <;> exact .pure hT' trivial

end Follow

/-! ## Layouts -/

section Errors

variable {T : Store} {inside : Int → Prop} {bare : Prop}

/-- Where no variable has a type, only names of variables stand for something else than themselves. -/
theorem Steady.normalize (hT : Steady T) {n : Nat} {t u : Ty} (h : T.normalizeWithin n t = .ok u) :
    u = t ∨ ∃ v, u = .var v := by
  have hvar (n v : Nat) (u : Ty) (h : T.normalizeWithin n (.var v) = .ok u) : u = .var v := by
    cases n with
    | zero => cases h
    | succ n =>
      simp only [Store.normalizeWithin, hT.unbound] at h
      cases h
      rfl
  cases n with
  | zero => cases h
  | succ n =>
    unfold Store.normalizeWithin at h
    split at h
    · next v => simp only [hT.unbound] at h; cases h; exact .inl rfl
    · split at h
      · next v _ _ => exact .inr ⟨v, hvar n v u h⟩
      · cases h
        exact .inl rfl
    · cases h
      exact .inl rfl

/-- What stands for the error type has a finite layout. -/
theorem Steady.layout_of_isError (hT : Steady T) {n : Nat} {t : Ty}
    (h : T.isErrorWithin n t = .ok true) : Layout T inside bare t := by
  induction n generalizing t with
  | zero => cases h
  | succ n ih =>
    unfold Store.isErrorWithin at h
    obtain ⟨u, hu, htrue⟩ := except_bind_ok.1 h
    obtain rfl | ⟨v, rfl⟩ := hT.normalize hu
    · cases u with
      | builtin => exact .builtin
      | name id text l =>
        dsimp only at htrue
        split at htrue
        · cases htrue
        · obtain ⟨w, hw, htrue⟩ := except_bind_ok.1 htrue
          exact .name hw (ih htrue)
      | apply id head text as l =>
        dsimp only at htrue
        split at htrue
        · next _ he => exact .apply (u := .error) (by simp [Store.instance?, he]) .builtin
        · next w cyclic hcyclic he =>
          cases cyclic with
          | true => exact (hcyclic rfl).elim
          | false => exact .apply (by simp [Store.instance?, he]) (ih htrue)
        · cases htrue
      | _ => cases htrue
    · cases htrue

/-- The text of a template shows its parameters and its body. -/
theorem render_template {id : Nat} {e : TemplateEntry} (he : T.templates[id]? = some e) (n : Nat) :
    T.renderWithin false (n + 1) (.template id) = (do
      let parts ← e.params.mapM fun v => T.renderWithin false n (.var v)
      return Store.bracket parts ++ (← T.renderWithin false n e.body)) := by
  simp only [Store.renderWithin, he]

/-- An unbound variable is rendered as its name. -/
theorem render_var {v : Nat} (h : T.bound? v = none) (n : Nat) :
    T.renderWithin false (n + 1) (.var v) = .ok (T.varName v) := by
  simp only [Store.renderWithin, h]
  rfl

/-- The text of a template is known. -/
theorem Steady.layout_template (hT : Steady T) (hbare : bare) {id : Nat} {e : TemplateEntry}
    (he : T.templates[id]? = some e) : Layout T inside bare (.template id) := by
  obtain ⟨text, K, hK⟩ := reads_text plainParts_closed e.body (hT.body he).2
  suffices h : Settles (fun _ => Types.read (·.text (.template id))) T
      (.ok (Store.bracket (e.params.map T.varName) ++ text)) from .template hbare h
  refine ⟨K + 2, fun n m _ hm => read_ok.2 ⟨?_, rfl⟩⟩
  obtain ⟨k, rfl⟩ := Nat.exists_eq_add_of_le' hm
  have hvar (v : Nat) : (T.withLimit (k + (K + 2))).renderWithin false (k + (K + 1)) (.var v) =
      .ok (T.varName v) :=
    render_var (T := T.withLimit (k + (K + 2))) (hT.unbound v) (k + K)
  have hparams : (e.params.mapM fun v => (T.withLimit (k + (K + 2))).renderWithin false (k + (K + 1))
      (.var v)) = .ok (e.params.map T.varName) := by
    simp only [hvar]
    exact List.mapM_pure
  have hbody : (T.withLimit (k + (K + 2))).renderWithin false (k + (K + 1)) e.body = .ok text :=
    hK (k + (K + 1)) _ (by omega)
  refine (render_template (T := T.withLimit (k + (K + 2))) he (k + (K + 1))).trans ?_
  rw [hparams, hbody]
  rfl

end Errors

end Qll.Types
