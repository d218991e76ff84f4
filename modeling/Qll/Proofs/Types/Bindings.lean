import Mathlib.Data.Fintype.EquivFin
import Qll.Proofs.Types.Layouts
import Qll.Types.Unify

/-!
# Bindings of variables

A comparison of types binds the unbound variables that it meets. No variable may come to stand for a
type that holds it, since such a type has no text. Comparing with a type in which no unbound variable
is left never binds a variable so: what is bound then holds no variable that is unbound. Comparing
two types with unbound variables can, for nothing looks for the variable in the type that it gets.
-/

namespace Qll.Types

open Qll.Computation
open Source (Location)

/-! ## What types hold -/

/-- A type holds another one as a part or as a type argument, or shows it in its text. The names of
declarations are shown themselves. -/
inductive Carries (s : Store) : Ty → Ty → Prop
  | pointer {e l} : Carries s (.pointer e l) e
  | slice {e l} : Carries s (.slice e l) e
  | array {e n l} : Carries s (.array e n l) e
  | member {ms l m} (h : m ∈ ms) : Carries s (.struct ms l) m.type
  | argument {as r l a} (h : a ∈ as) : Carries s (.function as r l) a
  | result {as r l} : Carries s (.function as r l) r
  | typeArgument {id head text as l a} (h : a ∈ as) : Carries s (.apply id head text as l) a
  /-- What is applied is a template parameter. -/
  | head {id head text as l b v} (h : s.binding? head = some b) (hv : b.type = .var v) :
      Carries s (.apply id head text as l) (.var v)
  | base {b m l} : Carries s (.dot b m l) b
  /-- The name is that of a template parameter. -/
  | parameter {id text l b v} (h : s.binding? id = some b) (hv : b.type = .var v) :
      Carries s (.name id text l) (.var v)
  | bound {v t} (h : s.bound? v = some t) : Carries s (.var v) t

/-- Types are reached in a family that has the components of its members. -/
theorem reaches_closed {s : Store} {D : Ty → Prop} (hD : ∀ {t u}, D t → Carries s t u → D u) {t u : Ty}
    (ht : D t) (h : Relation.ReflTransGen (Carries s) t u) : D u := by
  induction h with
  | refl => exact ht
  | tail _ hstep ih => exact hD ih hstep

/-- No variable stands for a type that holds it. -/
def Store.Acyclic (s : Store) : Prop := ∀ v, ¬ Relation.TransGen (Carries s) (.var v) (.var v)

/-- A variable gets a type. -/
def Store.bind (s : Store) (v : Nat) (t : Ty) : Store :=
  { s with vars := s.vars.modify v fun e => { e with bound := some t } }

section Bind

variable {s : Store} {v : Nat} {t x y : Ty}

/-- What a variable stands for, once one got a type. -/
theorem bound?_bind {w : Nat} {u : Ty} (h : (s.bind v t).bound? w = some u) :
    s.bound? w = some u ∨ w = v ∧ u = t := by
  simp only [Store.bound?, Store.bind, Array.getElem?_modify] at h ⊢
  split at h
  · subst v
    obtain ⟨e, he, hu⟩ := Option.bind_eq_some_iff.1 h
    obtain ⟨e', -, rfl⟩ := Option.map_eq_some_iff.1 he
    exact .inr ⟨rfl, by simpa using hu.symm⟩
  · exact .inl h

/-- Only the variable that is bound holds more than before. -/
theorem carries_bind (h : Carries (s.bind v t) x y) : Carries s x y ∨ x = .var v ∧ y = t := by
  cases h with
  | pointer => exact .inl .pointer
  | slice => exact .inl .slice
  | array => exact .inl .array
  | member h => exact .inl (.member h)
  | argument h => exact .inl (.argument h)
  | result => exact .inl .result
  | typeArgument h => exact .inl (.typeArgument h)
  | head h hv => exact .inl (.head h hv)
  | base => exact .inl .base
  | parameter h hv => exact .inl (.parameter h hv)
  | bound h =>
    obtain h | ⟨rfl, rfl⟩ := bound?_bind h
    · exact .inl (.bound h)
    · exact .inr ⟨rfl, rfl⟩

/-- What is reached from a type is reached as before, or by way of the variable and its new type. -/
theorem passes_bind (hreach : ¬ Relation.ReflTransGen (Carries s) t (.var v))
    (h : Relation.TransGen (Carries (s.bind v t)) x y) :
    Relation.TransGen (Carries s) x y ∨
      Relation.ReflTransGen (Carries s) x (.var v) ∧ Relation.ReflTransGen (Carries s) t y := by
  induction h with
  | single hstep =>
    obtain hstep | ⟨rfl, rfl⟩ := carries_bind hstep
    · exact .inl (.single hstep)
    · exact .inr ⟨.refl, .refl⟩
  | tail _ hstep ih =>
    obtain hstep | ⟨rfl, rfl⟩ := carries_bind hstep
    · exact ih.imp (·.tail hstep) fun ⟨hx, ht⟩ => ⟨hx, ht.tail hstep⟩
    · obtain hx | ⟨-, ht⟩ := ih
      · exact .inr ⟨hx.to_reflTransGen, .refl⟩
      · exact absurd ht hreach

/-- Binding a variable to a type that does not hold it makes no variable stand for a type that holds
it. -/
theorem Store.Acyclic.bind (hs : s.Acyclic)
    (hreach : ¬ Relation.ReflTransGen (Carries s) t (.var v)) : (s.bind v t).Acyclic := by
  intro w hw
  obtain hw | ⟨hwv, htw⟩ := passes_bind hreach hw
  · exact hs w hw
  · exact hreach (htw.trans hwv)

end Bind

/-! ## Types without unbound variables -/

/-- What an application was given as its instance. -/
def Store.result? (s : Store) (id : Nat) : Option Ty := (s.applies[id]?).bind (·.result)

/-- A family of types in which names are resolved, applications have their instance and every variable
stands for a type. -/
structure Known (s : Store) (D : Ty → Prop) : Prop where
  carries : ∀ {t u}, D t → Carries s t u → D u
  error : D .error
  name : ∀ {id text l}, D (.name id text l) → ∃ b, s.binding? id = some b ∧ D b.type
  apply : ∀ {id head text as l}, D (.apply id head text as l) → ∃ t, s.result? id = some t ∧ D t
  var : ∀ {v}, D (.var v) → ∃ t, s.bound? v = some t

/-- No unbound variable is left in a type, nor in what it stands for. -/
def Determined (s : Store) (t : Ty) : Prop := ∃ D, Known s D ∧ D t

/-- A store in which templates may have more instances and more applications have theirs. Nothing is
learnt about names and variables. -/
structure Learns (s s' : Store) : Prop where
  binding? : ∀ id, s'.binding? id = s.binding? id
  bound? : ∀ v, s'.bound? v = s.bound? v
  result? : ∀ {id t}, s.result? id = some t → s'.result? id = some t

/-- A store in which templates may have more instances. -/
structure Enters (s s' : Store) : Prop extends Learns s s' where
  unknown : ∀ {id}, s.result? id = none → s'.result? id = none

namespace Learns

variable {s s' s'' : Store} {D : Ty → Prop}

/-- Nothing is learnt where nothing happens. -/
theorem refl (s : Store) : Learns s s := ⟨fun _ => rfl, fun _ => rfl, fun h => h⟩

/-- What is learnt in two steps is learnt in both. -/
theorem trans (h : Learns s s') (h' : Learns s' s'') : Learns s s'' :=
  ⟨fun id => (h'.binding? id).trans (h.binding? id), fun v => (h'.bound? v).trans (h.bound? v),
    fun ht => h'.result? (h.result? ht)⟩

/-- No type holds more than before. -/
theorem carries (h : Learns s s') {t u : Ty} (htu : Carries s' t u) : Carries s t u := by
  cases htu with
  | pointer => exact .pointer
  | slice => exact .slice
  | array => exact .array
  | member h => exact .member h
  | argument h => exact .argument h
  | result => exact .result
  | typeArgument h => exact .typeArgument h
  | head hb hv => exact .head ((h.binding? _).symm.trans hb) hv
  | base => exact .base
  | parameter hb hv => exact .parameter ((h.binding? _).symm.trans hb) hv
  | bound ht => exact .bound ((h.bound? _).symm.trans ht)

/-- No cycle comes of what is learnt. -/
theorem acyclic (h : Learns s s') (hs : s.Acyclic) : s'.Acyclic :=
  fun v hv => hs v (Relation.TransGen.mono (fun _ _ => h.carries) _ _ hv)

/-- Known types stay known. -/
theorem known (h : Learns s s') (hD : Known s D) : Known s' D where
  carries ht htu := hD.carries ht (h.carries htu)
  error := hD.error
  name ht := by
    obtain ⟨b, hb, hDb⟩ := hD.name ht
    exact ⟨b, (h.binding? _).trans hb, hDb⟩
  apply ht := by
    obtain ⟨u, hu, hDu⟩ := hD.apply ht
    exact ⟨u, h.result? hu, hDu⟩
  var ht := by
    obtain ⟨u, hu⟩ := hD.var ht
    exact ⟨u, (h.bound? _).trans hu⟩

end Learns

/-! ## What holds of the store all the time -/

section Upholds

variable {α β : Type} {I J : Store → Prop} {x : TypeM α} {f : α → TypeM β} {Q Q' : α → Prop}
  {R : β → Prop} {s : Store}

/-- A computation leaves a store of some kind, also where it fails, and what it gives has a property. -/
def EndsIn (I : Store → Prop) (Q : α → Prop) : EStateM.Result Fault Store α → Prop
  | .ok a s => I s ∧ Q a
  | .error _ s => I s

/-- A computation that starts in a store of some kind leaves one. -/
def Upholds (I : Store → Prop) (x : TypeM α) (Q : α → Prop) : Prop := ∀ s, I s → EndsIn I Q (x s)

/-- Less may be said of the end. -/
theorem EndsIn.mono {r : EStateM.Result Fault Store α} (h : EndsIn I Q r) (hI : ∀ s, I s → J s)
    (hQ : ∀ a, Q a → Q' a) : EndsIn J Q' r := by
  cases r with
  | ok a s => exact ⟨hI s h.1, hQ a h.2⟩
  | error e s => exact hI s h

/-- A computation behind another one starts where that ends. -/
theorem EndsIn.bind (hx : EndsIn J Q (x s)) (hJ : ∀ s, J s → I s)
    (hf : ∀ a s, J s → Q a → EndsIn I R (f a s)) : EndsIn I R ((x >>= f) s) := by
  change EndsIn I R (EStateM.bind x f s)
  unfold EStateM.bind
  cases hrun : x s with
  | ok a s' =>
    rw [hrun] at hx
    exact hf a s' hx.1 hx.2
  | error e s' =>
    rw [hrun] at hx
    exact hJ s' hx

namespace Upholds

/-- A value may be given that is as it is said. -/
theorem pure {a : α} (h : Q a) : Upholds I (Pure.pure a) Q := fun _ hs => ⟨hs, h⟩

/-- Of a fault nothing is said. -/
theorem throw {e : Fault} : Upholds I (MonadExcept.throw e : TypeM α) Q := fun _ hs => hs

/-- Less may be said of what is given. -/
theorem mono (hx : Upholds I x Q) (h : ∀ a, Q a → Q' a) : Upholds I x Q' :=
  fun s hs => (hx s hs).mono (fun _ h => h) h

/-- Computations that uphold something do so one behind the other. -/
theorem bind (hx : Upholds I x Q) (hf : ∀ a, Q a → Upholds I (f a) R) : Upholds I (x >>= f) R :=
  fun s hs => (hx s hs).bind (fun _ h => h) fun a s' hs' ha => hf a ha s' hs'

/-- A sequence of which only the second part gives what is asked for. -/
theorem seq (hx : Upholds I x fun _ => True) (hf : ∀ a, Upholds I (f a) R) : Upholds I (x >>= f) R :=
  hx.bind fun a _ => hf a

/-- Either of two computations may be taken. -/
theorem ite {c : Prop} [Decidable c] {y : TypeM α} (hx : Upholds I x Q) (hy : Upholds I y Q) :
    Upholds I (if c then x else y) Q := by
  split
  · exact hx
  · exact hy

/-- What follows a reading of the store is given the store. -/
theorem get {g : Store → TypeM α} (h : ∀ s, I s → Upholds I (g s) Q) :
    Upholds I (MonadState.get >>= g) Q := fun s hs => h s hs s hs

/-- What follows a reading of the store, in the store that was read. -/
theorem getAt {g : Store → TypeM α} (h : ∀ s, I s → EndsIn I Q (g s s)) :
    Upholds I (MonadState.get >>= g) Q := fun s hs => h s hs

/-- A change of the store. -/
theorem update {g : Store → Store} (h : ∀ s, I s → I (g s)) :
    Upholds I (modify g : TypeM PUnit) fun _ => True := fun s hs => ⟨h s hs, trivial⟩

/-- A reading of the store. -/
theorem read {g : Store → Except Fault α} (h : ∀ s a, I s → g s = .ok a → Q a) :
    Upholds I (Types.read g) Q := by
  intro s hs
  cases hg : g s with
  | ok a =>
    rw [read_ok.2 ⟨hg, rfl⟩]
    exact ⟨hs, h s a hs hg⟩
  | error e =>
    rw [read_error hg]
    exact hs

/-- The number of steps may be looked at. -/
theorem limit : Upholds I Types.limit fun _ => True := fun _ hs => ⟨hs, trivial⟩

/-- What is given is known from elsewhere. -/
theorem gives (hx : Upholds I x Q) (h : ∀ s a s', I s → x s = .ok a s' → Q' a) :
    Upholds I x Q' := by
  intro s hs
  have hstep := hx s hs
  cases hrun : x s with
  | ok a s' =>
    rw [hrun] at hstep
    exact ⟨hstep.1, h s a s' hs hrun⟩
  | error e s' =>
    rw [hrun] at hstep
    exact hstep

/-- Computing a list upholds what each step upholds. -/
theorem mapM {g : α → TypeM β} {l : List α} (h : ∀ a ∈ l, Upholds I (g a) fun _ => True) :
    Upholds I (l.mapM g) fun _ => True := by
  induction l with
  | nil => exact .pure trivial
  | cons a l ih =>
    rw [List.mapM_cons]
    exact .seq (h a (by simp)) fun _ => .seq (ih fun b hb => h b (by simp [hb])) fun _ => .pure trivial

/-- Going through a list upholds what each step upholds. -/
theorem foldlM {g : β → α → TypeM β} {l : List α}
    (h : ∀ b, ∀ a ∈ l, Upholds I (g b a) fun _ => True) (b : β) :
    Upholds I (l.foldlM g b) fun _ => True := by
  induction l generalizing b with
  | nil => exact .pure trivial
  | cons a l ih =>
    rw [List.foldlM_cons]
    exact .seq (h b a (by simp)) fun c => ih (fun b a ha => h b a (by simp [ha])) c

end Upholds

/-- A variable gets a type, unless it has one. -/
theorem upholds_bindVar {v : Nat} {t : Ty} (h : ∀ s, I s → s.bound? v = none → I (s.bind v t)) :
    Upholds I (bindVar v t) fun _ => True := by
  unfold bindVar
  refine .ite (.pure trivial) (.getAt fun s hs => ?_)
  cases hv : s.bound? v with
  | some u =>
    have hfails : Upholds I (do
        let first ← read (·.text u)
        let second ← read (·.text t)
        throw (.variableBoundTwice ((← get).varName v) first second) : TypeM Unit) fun _ => True :=
      .seq (.read fun _ _ _ _ => trivial) fun _ => .seq (.read fun _ _ _ _ => trivial) fun _ =>
        .get fun _ _ => .throw
    exact hfails s hs
  | none => exact ⟨h s hs hv, trivial⟩

end Upholds

/-! ## Templates -/

section Templates

variable {I : Store → Prop}

/-- A new entry for a name changes nothing else. -/
theorem enters_push_name (s : Store) : Enters s { s with names := s.names.push {} } where
  binding? id := by
    simp only [Store.binding?, Array.getElem?_push]
    split
    · subst id
      simp
    · rfl
  bound? _ := rfl
  result? := id
  unknown := id

/-- A new entry for an application changes nothing else. -/
theorem enters_push_apply (s : Store) :
    Enters s { s with names := s.names.push {}, applies := s.applies.push {} } where
  binding? := (enters_push_name s).binding?
  bound? _ := rfl
  result? {id t} ht := by
    simp only [Store.result?, Array.getElem?_push] at ht ⊢
    split
    · subst id
      simp at ht
    · exact ht
  unknown {id} ht := by
    simp only [Store.result?, Array.getElem?_push] at ht ⊢
    split
    · rfl
    · exact ht

/-- A new instance of a template changes nothing else. -/
theorem enters_add_instance (s : Store) (id : Nat) (instance_ : String × Ty) : Enters s
    { s with templates := s.templates.modify id fun e =>
        { e with instances := instance_ :: e.instances } } where
  binding? _ := rfl
  bound? _ := rfl
  result? h := h
  unknown h := h

variable (hI : ∀ s s', Enters s s' → I s → I s')

include hI

/-- A new name upholds what new entries do not touch. -/
theorem upholds_newName (text : String) (l : Option Location) :
    Upholds I (newName text l) fun _ => True :=
  fun s hs => ⟨hI s _ (enters_push_name s) hs, trivial⟩

/-- A new application upholds what new entries do not touch. -/
theorem upholds_newApply (text : String) (as : List Ty) (l : Option Location) :
    Upholds I (newApply text as l) fun _ => True :=
  fun s hs => ⟨hI s _ (enters_push_apply s) hs, trivial⟩

/-- Replacing variables only enters names and applications. -/
theorem upholds_substituteWithin (σ : Substitution) (n : Nat) (t : Ty) :
    Upholds I (substituteWithin σ n t) fun _ => True := by
  induction n generalizing t with
  | zero => exact .throw
  | succ n ih =>
    unfold substituteWithin
    cases t with
    | builtin => exact .pure trivial
    | template => exact .pure trivial
    | name id text l =>
      refine .get fun s hs => ?_
      split
      · exact upholds_newName hI text l
      · exact .pure trivial
      · exact .pure trivial
    | pointer e l => exact .seq (ih e) fun _ => .pure trivial
    | slice e l => exact .seq (ih e) fun _ => .pure trivial
    | array e k l => exact .seq (ih e) fun _ => .pure trivial
    | struct ms l => exact .seq (.mapM fun m _ => .seq (ih m.type) fun _ => .pure trivial) fun _ => .pure trivial
    | function as r l => exact .seq (.mapM fun a _ => ih a) fun _ => .seq (ih r) fun _ => .pure trivial
    | apply id head text as l =>
      refine .seq (.mapM fun a _ => ih a) fun as' => .seq (upholds_newApply hI text as' l) fun u => ?_
      split
      · exact .get fun _ _ => .pure trivial
      · exact .pure trivial
    | dot b m l => exact .seq (ih b) fun _ => .pure trivial
    | var v =>
      refine .get fun s hs => ?_
      split
      · exact .pure trivial
      · exact ih _
      · exact .pure trivial

omit hI in
/-- The entry of a template. -/
theorem upholds_templateEntry (id : Nat) : Upholds I (templateEntry id) fun _ => True := by
  refine .get fun s hs => ?_
  split
  · exact .pure trivial
  · exact .throw

/-- Making an instance upholds what new entries and instances do not touch. -/
theorem upholds_instantiate (id : Nat) (as : List Ty) :
    Upholds I (instantiate id as) fun _ => True := by
  refine .seq (.read fun _ _ _ _ => trivial) fun key => ?_
  refine .seq (upholds_templateEntry id) fun entry => ?_
  split
  · exact .pure trivial
  · refine .ite (.seq (.read fun _ _ _ _ => trivial) fun _ => .throw) (.seq (.seq .limit fun n =>
      upholds_substituteWithin hI _ n _) fun t => ?_)
    exact .seq (.update fun s hs => hI s _ (enters_add_instance s id (key, t)) hs) fun _ => .pure trivial

end Templates

/-! ## Shapes -/

section Follow

variable {I : Store → Prop} (hI : ∀ s s', Learns s s' → I s → I s')

/-- An application without an instance gets one. -/
theorem learns_setResult {s : Store} {id : Nat} (h : s.result? id = none) (t : Ty) : Learns s
    { s with applies := s.applies.modify id fun e => { e with result := some t } } where
  binding? _ := rfl
  bound? _ := rfl
  result? {j u} hu := by
    have hne : id ≠ j := by
      rintro rfl
      simp [h] at hu
    simpa [Store.result?, Array.getElem?_modify, hne] using hu

include hI

/-- An application gets its instance, unless it has it. -/
theorem upholds_applied (id head : Nat) (text : String) (as : List Ty) :
    Upholds I (applied id head text as) fun _ => True := by
  -- until its instance is set, the application stays without one
  let J (s : Store) : Prop := I s ∧ s.result? id = none
  have hJ : ∀ s s', Enters s s' → J s → J s' :=
    fun s s' h hs => ⟨hI s s' h.toLearns hs.1, h.unknown hs.2⟩
  have hset (t : Ty) (s : Store) (hs : J s) :
      EndsIn I (fun _ => True) ((do setResult id t; return t : TypeM Ty) s) :=
    ⟨hI s _ (learns_setResult hs.2 t) hs.1, trivial⟩
  have hread (s : Store) (hs : J s) : EndsIn J (fun _ => True) (Types.read (·.target head text) s) :=
    Upholds.read (fun _ _ _ _ => trivial) s hs
  have hentry (template : Nat) (s : Store) (hs : J s) : EndsIn J (fun _ => True) (templateEntry template s) :=
    upholds_templateEntry template s hs
  intro s hs
  have hget {g : Store → TypeM Ty} : (MonadState.get >>= g) s = g s s := rfl
  rw [applied, hget]
  rcases he : s.applies[id]? with _ | ⟨_ | t, _ | _⟩
  case some.none.true | some.some.true | some.some.false => exact ⟨hs, trivial⟩
  all_goals
    have hs' : J s := ⟨hs, by simp [Store.result?, he]⟩
    refine (hread s hs').bind (fun _ h => h.1) fun target s₁ hs₁ _ => ?_
    cases target with
    | template template =>
      refine (hentry template s₁ hs₁).bind (fun _ h => h.1) fun entry s₂ hs₂ _ => ?_
      by_cases hlength : entry.params.length ≠ as.length
      · rw [if_pos hlength]
        exact hset .error s₂ hs₂
      · rw [if_neg hlength]
        exact (upholds_instantiate hJ template as s₂ hs₂).bind (fun _ h => h.1) fun r s₃ hs₃ _ =>
          hset r.1 s₃ hs₃
    | _ => exact hset .error s₁ hs₁

/-- Following types only gives instances to applications. -/
theorem upholds_follow (n : Nat) :
    (∀ t, Upholds I (resolveWithin n t) fun _ => True) ∧
    (∀ b m, Upholds I (memberTypeWithin n b m) fun _ => True) ∧
    (∀ ms name offset, Upholds I (findMemberWithin n ms name offset) fun _ => True) ∧
    (∀ t, Upholds I (sizeWithin n t) fun _ => True) := by
  induction n with
  | zero => exact ⟨fun _ => .throw, fun _ _ => .throw, fun _ _ _ => .throw, fun _ => .throw⟩
  | succ n ih =>
    obtain ⟨hresolve, hmember, hfind, hsize⟩ := ih
    refine ⟨fun t => ?_, fun b m => ?_, fun ms name offset => ?_, fun t => ?_⟩
    · unfold resolveWithin
      cases t with
      | name id text l => exact .seq (.read fun _ _ _ _ => trivial) hresolve
      | apply id head text as l => exact .seq (upholds_applied hI id head text as) hresolve
      | dot b m l => exact .seq (hmember b m) hresolve
      | var v =>
        refine .get fun s _ => ?_
        cases s.bound? v with
        | none => exact .pure trivial
        | some u => exact hresolve u
      | _ => exact .pure trivial
    · unfold memberTypeWithin
      refine .seq (hresolve b) fun u => ?_
      cases u with
      | struct ms l =>
        refine .seq (hfind ms m 0) fun r => ?_
        cases r <;> exact .pure trivial
      | _ => exact .pure trivial
    · unfold findMemberWithin
      cases ms with
      | nil => exact .pure trivial
      | cons m rest => exact .ite (.pure trivial) (.seq (hsize m.type) fun k => hfind rest name _)
    · unfold sizeWithin
      cases t with
      | name id text l => exact .seq (.read fun _ _ _ _ => trivial) hsize
      | apply id head text as l => exact .seq (upholds_applied hI id head text as) hsize
      | dot b m l => exact .seq (hmember b m) hsize
      | array e k l => exact .ite (.pure trivial) (.seq (hsize e) fun _ => .pure trivial)
      | struct ms l => exact .foldlM (fun _ m _ => .seq (hsize m.type) fun _ => .pure trivial) 0
      | var v =>
        refine .get fun s _ => ?_
        cases s.bound? v with
        | none => exact .get fun _ _ => .throw
        | some u => exact hsize u
      | template id => exact .seq (.read fun _ _ _ _ => trivial) fun _ => .throw
      | _ => exact .pure trivial

end Follow

/-- A known instance is given, or the error type. -/
theorem applied_of_result {s s' : Store} {id head : Nat} {text : String} {as : List Ty} {t u : Ty}
    (ht : s.result? id = some t) (h : applied id head text as s = .ok u s') : u = .error ∨ u = t := by
  obtain ⟨⟨_, cyclic⟩, he, rfl⟩ := Option.bind_eq_some_iff.1 ht
  unfold applied at h
  rw [get_bind_ok] at h
  cases cyclic with
  | true =>
    simp only [he] at h
    exact .inl (pure_ok.1 h).1.symm
  | false =>
    simp only [he] at h
    exact .inr (pure_ok.1 h).1.symm

/-! ## Comparisons -/

/-- A store without cycles, in which a family of types is known. -/
def Orderly (D : Ty → Prop) (s : Store) : Prop := Known s D ∧ s.Acyclic

section Compare

variable {D : Ty → Prop}

/-- A store stays orderly while more is learnt. -/
theorem Orderly.learns (s s' : Store) (h : Learns s s') (hs : Orderly D s) : Orderly D s' :=
  ⟨h.known hs.1, h.acyclic hs.2⟩

/-- Following variables stays among known types, and ends at no variable. -/
theorem Known.normalize {s : Store} (hD : Known s D) {n : Nat} {t u : Ty} (ht : D t)
    (h : s.normalizeWithin n t = .ok u) : D u ∧ ∀ v, u ≠ .var v := by
  induction n generalizing t with
  | zero => cases h
  | succ n ih =>
    unfold Store.normalizeWithin at h
    split at h
    · obtain ⟨w, hw⟩ := hD.var ht
      rw [hw] at h
      exact ih (hD.carries ht (.bound hw)) h
    · split at h
      · next b hb => exact ih (hD.carries ht (.parameter hb rfl)) h
      · cases h
        exact ⟨ht, fun v h => by cases h⟩
    · next hvar _ =>
      cases h
      exact ⟨ht, fun v hv => hvar v hv⟩

/-- What a known name stands for is known. -/
theorem Known.target {s : Store} (hD : Known s D) {id : Nat} {text : String} {l : Option Location}
    {u : Ty} (ht : D (.name id text l)) (h : s.target id text = .ok u) : D u := by
  obtain ⟨b, hb, hDb⟩ := hD.name ht
  unfold Store.target at h
  split at h
  · next b' cyclic he =>
    obtain rfl : b' = b := by simpa [Store.binding?, he] using hb
    cases h
    split
    · exact hD.error
    · exact hDb
  · cases h

/-- Following variables leaves a known type, and no variable. -/
theorem upholds_normalize (t : Ty) : Upholds (Orderly D) (read (·.normalize t))
    fun u => D t → D u ∧ ∀ v, u ≠ .var v :=
  .read fun _ _ hs hu ht => hs.1.normalize ht hu

/-- What a known name stands for is known. -/
theorem upholds_target (id : Nat) (text : String) (l : Option Location) :
    Upholds (Orderly D) (read (·.target id text)) fun u => D (.name id text l) → D u :=
  .read fun _ _ hs hu ht => hs.1.target ht hu

/-- What a known application stands for is known. -/
theorem upholds_known (id head : Nat) (text : String) (as : List Ty) (l : Option Location) :
    Upholds (Orderly D) (applied id head text as) fun u => D (.apply id head text as l) → D u := by
  refine (upholds_applied Orderly.learns id head text as).gives fun s u s' hs hu ht => ?_
  obtain ⟨w, hw, hDw⟩ := hs.1.apply ht
  obtain rfl | rfl := applied_of_result hw hu
  · exact hs.1.error
  · exact hDw

/-- Following known types stays among them. -/
theorem upholds_resolveWithin (n : Nat) :
    (∀ t, Upholds (Orderly D) (resolveWithin n t) fun u => D t → D u) ∧
    (∀ b m, Upholds (Orderly D) (memberTypeWithin n b m) fun u => D b → D u) := by
  induction n with
  | zero => exact ⟨fun _ => .throw, fun _ _ => .throw⟩
  | succ n ih =>
    obtain ⟨hresolve, hmember⟩ := ih
    refine ⟨fun t => ?_, fun b m => ?_⟩
    · unfold resolveWithin
      cases t with
      | name id text l =>
        exact .bind (upholds_target id text l) fun u hu => (hresolve u).mono fun w hw ht => hw (hu ht)
      | apply id head text as l =>
        exact .bind (upholds_known id head text as l) fun u hu =>
          (hresolve u).mono fun w hw ht => hw (hu ht)
      | dot b m l =>
        refine .bind (hmember b m) fun u hu => fun s hs => ?_
        exact ((hresolve u).mono fun w hw ht => hw (hu (hs.1.carries ht .base))) s hs
      | var v =>
        refine .get fun s hs => ?_
        cases hv : s.bound? v with
        | none => exact .pure id
        | some u => exact (hresolve u).mono fun w hw ht => hw (hs.1.carries ht (.bound hv))
      | _ => exact .pure id
    · unfold memberTypeWithin
      refine .bind (hresolve b) fun u hu => ?_
      cases u with
      | struct ms l =>
        refine .bind (Q := fun r => D b → ∀ x ∈ r, D x.1.type) ?_ fun r hr => ?_
        · refine ((upholds_follow Orderly.learns n).2.2.1 ms m 0).gives fun s r s' hs hrun hb x hx => ?_
          cases hx
          exact hs.1.carries (hu hb) (.member (mem_of_findMember hrun))
        · cases r with
          | none => exact fun s hs => ⟨hs, fun _ => hs.1.error⟩
          | some r => exact .pure fun hb => hr hb r rfl
      | _ => exact fun s hs => ⟨hs, fun _ => hs.1.error⟩

/-- Stripping names, applications and member types stays among known types. -/
theorem upholds_dealiasWithin (n : Nat) (t : Ty) :
    Upholds (Orderly D) (dealiasWithin n t) fun u => D t → D u := by
  induction n generalizing t with
  | zero => exact .throw
  | succ n ih =>
    unfold dealiasWithin
    refine .bind (upholds_normalize t) fun w hw => ?_
    cases w with
    | name id text l =>
      exact .bind (upholds_target id text l) fun u hu => (ih u).mono fun _ h ht => h (hu (hw ht).1)
    | apply id head text as l =>
      exact .bind (upholds_known id head text as l) fun u hu =>
        (ih u).mono fun _ h ht => h (hu (hw ht).1)
    | dot b m l =>
      refine .seq .limit fun k => .bind ((upholds_resolveWithin k).2 b m) fun u hu => fun s hs => ?_
      exact ((ih u).mono fun _ h ht => h (hu (hs.1.carries (hw ht).1 .base))) s hs
    | _ => exact .pure fun ht => (hw ht).1

/-- What is behind a known name is known. -/
theorem upholds_dealias (t : Ty) : Upholds (Orderly D) (dealias t) fun u => D t → D u :=
  .seq .limit fun n => upholds_dealiasWithin n t

/-- What is behind a known member type is known. -/
theorem upholds_stripDot (t : Ty) : Upholds (Orderly D) (stripDot t) fun u => D t → D u := by
  unfold stripDot
  split
  · exact upholds_dealias _
  · exact .pure id

/-- The element of what is laid out like a slice descriptor is known when the members are. -/
theorem upholds_sliceShape (ms : List (Member Ty)) : Upholds (Orderly D) (sliceShape? ms)
    fun r => (∀ m ∈ ms, D m.type) → ∀ e ∈ r, D e := by
  unfold sliceShape?
  split
  · next address length capacity =>
    refine .ite (.pure (by simp)) (.bind (upholds_dealias address.type) fun u hu => ?_)
    split
    · next e l =>
      refine .seq ((upholds_dealias length.type).mono fun _ _ => trivial) fun u => ?_
      split
      · refine .seq ((upholds_dealias capacity.type).mono fun _ _ => trivial) fun u => ?_
        split
        · refine fun s hs => ⟨hs, fun hms e' he' => ?_⟩
          cases he'
          exact hs.1.carries (hu (hms address (by simp))) .pointer
        · exact .pure (by simp)
      · exact .pure (by simp)
    · exact .pure (by simp)
  · exact .pure (by simp)

/-- Of the elements that are compared the one of a known type is known. -/
theorem upholds_decayElements (a b : Ty) : Upholds (Orderly D) (decayElements? a b)
    fun r => ∀ p ∈ r, (D a → D p.1) ∧ (D b → D p.2) := by
  unfold decayElements?
  split
  · next e l w l' =>
    refine .bind (upholds_dealias e) fun u hu => ?_
    split
    · next element n l'' =>
      intro s hs
      refine ⟨hs, fun p hp => ?_⟩
      split at hp
      · cases hp
      · cases hp
        exact ⟨fun ha => hs.1.carries (hu (hs.1.carries ha .pointer)) .array,
          fun hb => hs.1.carries hb .slice⟩
    · exact .pure (by simp)
  · next element n l w l' =>
    intro s hs
    refine ⟨hs, fun p hp => ?_⟩
    split at hp
    · cases hp
    · cases hp
      exact ⟨fun ha => hs.1.carries ha .array, fun hb => hs.1.carries hb .slice⟩
  · next ms l w l' =>
    refine .bind (upholds_sliceShape ms) fun r hr => fun s hs => ⟨hs, fun p hp => ?_⟩
    obtain ⟨e, he, rfl⟩ := Option.map_eq_some_iff.1 hp
    exact ⟨fun ha => hr (fun m hm => hs.1.carries ha (.member hm)) e he,
      fun hb => hs.1.carries hb .slice⟩
  · next e l ms l' =>
    refine .bind (upholds_sliceShape ms) fun r hr => fun s hs => ⟨hs, fun p hp => ?_⟩
    obtain ⟨w, hw, rfl⟩ := Option.map_eq_some_iff.1 hp
    exact ⟨fun ha => hs.1.carries ha .slice,
      fun hb => hr (fun m hm => hs.1.carries hb (.member hm)) w hw⟩
  · exact .pure (by simp)

/-- What is known stays known when an unbound variable gets a type. -/
theorem Known.bind {s : Store} (hD : Known s D) {v : Nat} (hv : s.bound? v = none) (t : Ty) :
    Known (s.bind v t) D where
  carries {x y} hx hxy := by
    obtain hxy | ⟨rfl, -⟩ := carries_bind hxy
    · exact hD.carries hx hxy
    · obtain ⟨u, hu⟩ := hD.var hx
      simp [hu] at hv
  error := hD.error
  name := hD.name
  apply := hD.apply
  var {w} hw := by
    obtain ⟨u, hu⟩ := hD.var hw
    have hne : v ≠ w := by
      rintro rfl
      simp [hu] at hv
    exact ⟨u, by simpa [Store.bound?, Store.bind, Array.getElem?_modify, hne] using hu⟩

/-- An unbound variable may get a known type: no unbound variable is held by one. -/
theorem upholds_bindVar_known (v : Nat) {t : Ty} (ht : D t) :
    Upholds (Orderly D) (bindVar v t) fun _ => True := by
  refine upholds_bindVar fun s hs hv => ⟨hs.1.bind hv t, hs.2.bind fun hreach => ?_⟩
  obtain ⟨u, hu⟩ := hs.1.var (reaches_closed hs.1.carries ht hreach)
  simp [hu] at hv

/-- A comparison keeps such a store, whatever pairs it assumes. -/
def Compares (D : Ty → Prop) (x : UnifyM Bool) : Prop :=
  ∀ L, Upholds (Orderly D) (x.run L) fun _ => True

namespace Compares

variable {α : Type} {x : UnifyM Bool} {f : α → UnifyM Bool} {Q : α → Prop}

/-- An answer may be given. -/
theorem pure (r : Bool) : Compares D (Pure.pure r) := fun _ => .pure trivial

/-- Comparisons may be made one behind the other. -/
theorem bind {f : Bool → UnifyM Bool} (hx : Compares D x) (hf : ∀ r, Compares D (f r)) :
    Compares D (x >>= f) := fun L => .seq (hx L) fun p => hf p.1 p.2

/-- What follows a computation that knows no pairs. -/
theorem lift {y : TypeM α} (hy : Upholds (Orderly D) y Q) (hf : ∀ a, Q a → Compares D (f a)) :
    Compares D ((liftM y : UnifyM α) >>= f) := by
  intro L
  change Upholds _ ((y >>= fun a => Pure.pure (a, L)) >>= fun p => f p.1 p.2) _
  exact .bind (Q := fun p => Q p.1) (.bind hy fun a ha => .pure ha) fun p hp => hf p.1 hp p.2

/-- Either of two comparisons may be made. -/
theorem ite {c : Prop} [Decidable c] {y : UnifyM Bool} (hx : Compares D x) (hy : Compares D y) :
    Compares D (if c then x else y) := by
  split
  · exact hx
  · exact hy

/-- What follows a look at the pairs. -/
theorem assumed {f : List (String × String) → UnifyM Bool} (hf : ∀ L, Compares D (f L)) :
    Compares D (MonadState.get >>= f) := fun L => hf L L

/-- What follows once pairs are added. -/
theorem note (g : List (String × String) → List (String × String)) {f : PUnit → UnifyM Bool}
    (hf : Compares D (f ⟨⟩)) : Compares D (modify g >>= f) := fun L => hf (g L)

variable {agree : Ty → Ty → UnifyM Bool} (hagree : ∀ {a b}, D a ∨ D b → Compares D (agree a b))

include hagree

/-- Lists of types may be compared if the types on one side are known. -/
theorem allAgree {as bs : List Ty} (h : (∀ a ∈ as, D a) ∨ ∀ b ∈ bs, D b) :
    Compares D (allAgree agree as bs) := by
  induction as generalizing bs with
  | nil => cases bs <;> exact .pure _
  | cons a as ih =>
    cases bs with
    | nil => exact .pure _
    | cons b bs =>
      refine .bind (hagree (h.imp (· a (by simp)) (· b (by simp)))) fun r => .ite (ih ?_) (.pure _)
      exact h.imp (fun h a ha => h a (by simp [ha])) fun h b hb => h b (by simp [hb])

/-- Members may be compared if the types on one side are known. -/
theorem membersAgree {as bs : List (Member Ty)} (h : (∀ a ∈ as, D a.type) ∨ ∀ b ∈ bs, D b.type) :
    Compares D (membersAgree agree as bs) := by
  induction as generalizing bs with
  | nil => cases bs <;> exact .pure _
  | cons a as ih =>
    cases bs with
    | nil => exact .pure _
    | cons b bs =>
      refine .ite (.pure _) (.bind (hagree (h.imp (· a (by simp)) (· b (by simp))))
        fun r => .ite (ih ?_) (.pure _))
      exact h.imp (fun h a ha => h a (by simp [ha])) fun h b hb => h b (by simp [hb])

/-- Of two parts that are compared the one of a known type is known. -/
theorem partsAgree {a b : Ty} (h : D a ∨ D b) : Compares D (partsAgree agree a b) := by
  intro L s hs
  suffices hparts : Compares D (Types.partsAgree agree a b) from hparts L s hs
  have hpart {u v : Ty} (hu : Carries s a u) (hv : Carries s b v) : D u ∨ D v :=
    h.imp (hs.1.carries · hu) (hs.1.carries · hv)
  have hread {f : Store → Except Fault String} : Upholds (Orderly D) (Types.read f) fun _ => True :=
    .read fun _ _ _ _ => trivial
  unfold Types.partsAgree
  split
  · exact .pure _
  · exact .lift hread fun _ _ => .lift hread fun _ _ => .pure _
  · exact hagree (hpart .pointer .pointer)
  · exact hagree (hpart .slice .slice)
  · exact .ite (.pure _) (hagree (hpart .array .array))
  · refine .ite (.pure _) (membersAgree hagree ?_)
    exact h.imp (fun h m hm => hs.1.carries h (.member hm)) fun h m hm => hs.1.carries h (.member hm)
  · refine .ite (.pure _) (.bind (allAgree hagree ?_) fun r =>
      .ite (hagree (hpart .result .result)) (.pure _))
    exact h.symm.imp (fun h x hx => hs.1.carries h (.argument hx)) fun h x hx =>
      hs.1.carries h (.argument hx)
  · refine .lift hread fun _ _ => .lift hread fun _ _ => .ite (.pure _) (.ite (.pure _)
      (allAgree hagree ?_))
    exact h.imp (fun h x hx => hs.1.carries h (.typeArgument hx)) fun h x hx =>
      hs.1.carries h (.typeArgument hx)
  · exact .pure _
  · exact .pure _

end Compares

/-- Comparing with a known type keeps the store without cycles: whatever is bound is bound to a known
type. -/
theorem compares_unifyWithin (mode : Agreement) (n : Nat) {a b : Ty} (h : D a ∨ D b) :
    Compares D (unifyWithin mode n a b) := by
  induction n generalizing a b with
  | zero => exact fun L => .throw
  | succ n ih =>
    unfold unifyWithin
    refine .lift (upholds_normalize a) fun a₁ ha => .lift (upholds_normalize b) fun b₁ hb => ?_
    have h₁ := h.imp ha hb
    have hread {α : Type} {f : Store → Except Fault α} : Upholds (Orderly D) (read f) fun _ => True :=
      .read fun _ _ _ _ => trivial
    refine .ite (.pure _) (.lift hread fun _ _ => .ite (.pure _) (.lift hread fun _ _ =>
      .ite (.pure _) ?_))
    split
    · next v =>
      exact .lift (upholds_bindVar_known v (h₁.resolve_left fun h => h.2 v rfl).1) fun _ _ => .pure _
    · next v _ =>
      exact .lift (upholds_bindVar_known v (h₁.resolve_right fun h => h.2 v rfl).1) fun _ _ => .pure _
    · refine .lift (upholds_stripDot a₁) fun a₂ ha₂ => .lift (upholds_stripDot b₁) fun b₂ hb₂ => ?_
      have h₂ : D a₂ ∨ D b₂ := h₁.imp (fun h => ha₂ h.1) fun h => hb₂ h.1
      refine .ite (.partsAgree ih h₂) (.ite ?_ ?_)
      · refine .lift hread fun _ _ => .lift hread fun _ _ => .ite (.pure _) (.assumed fun L =>
          .ite (.pure _) (.note _ (.lift (upholds_dealias a₂) fun a₃ ha₃ =>
            .lift (upholds_dealias b₂) fun b₃ hb₃ => ?_)))
        exact .lift hread fun _ _ => .ite (.pure _) (.lift hread fun _ _ => .ite (.pure _)
          (ih (h₂.imp ha₃ hb₃)))
      · refine .lift (upholds_decayElements a₂ b₂) fun r hr => ?_
        cases r with
        | none => exact .partsAgree ih h₂
        | some p => exact ih (h₂.imp (hr p rfl).1 (hr p rfl).2)

end Compare

/-! ## Texts -/

section Texts

variable {s : Store}

/-- What a type holds is smaller than the type, unless it has to do with a variable. -/
theorem Carries.sizeOf_lt {t u : Ty} (h : Carries s t u) :
    sizeOf u < sizeOf t ∨ (∃ v, u = .var v) ∨ ∃ v, t = .var v := by
  cases h with
  | head | parameter => exact .inr (.inl ⟨_, rfl⟩)
  | bound => exact .inr (.inr ⟨_, rfl⟩)
  | @member ms l m hm =>
    have hlt := List.sizeOf_lt_of_mem hm
    have hmember : sizeOf m.type < sizeOf m := by cases m; simp; omega
    exact .inl (by simp; omega)
  | argument ha | typeArgument ha =>
    have hlt := List.sizeOf_lt_of_mem ha
    exact .inl (by simp; omega)
  | _ => exact .inl (by simp; omega)

/-- What a type holds, holds, and so on comes to an end when it does for the variables in it. -/
theorem acc_of_variables {t : Ty}
    (h : ∀ v, Relation.ReflTransGen (Carries s) t (.var v) → Acc (fun u t => Carries s t u) (.var v)) :
    Acc (fun u t => Carries s t u) t := by
  induction hk : sizeOf t using Nat.strongRecOn generalizing t with
  | _ k ih =>
    refine ⟨_, fun u hu => ?_⟩
    obtain hlt | ⟨v, rfl⟩ | ⟨v, rfl⟩ := hu.sizeOf_lt
    · exact ih _ (hk ▸ hlt) (fun v hv => h v (.head hu hv)) rfl
    · exact h v (.single hu)
    · exact (h v .refl).inv hu

/-- Without cycles, what a variable holds, holds, and so on comes to an end. -/
theorem Store.Acyclic.acc_var (hs : s.Acyclic) (v : Nat) : Acc (fun u t => Carries s t u) (.var v) := by
  let after (w v : Fin s.vars.size) : Prop := Relation.TransGen (Carries s) (.var v) (.var w)
  have : IsTrans _ after := ⟨fun _ _ _ h h' => h'.trans h⟩
  have : Std.Irrefl after := ⟨fun v hv => hs v hv⟩
  have hwf : WellFounded after := Finite.wellFounded_of_trans_of_irrefl after
  have hunbound (v : Nat) (hv : ¬ v < s.vars.size) : Acc (fun u t => Carries s t u) (.var v) := by
    refine ⟨_, fun u hu => ?_⟩
    cases hu with
    | bound hu => simp [Store.bound?, hv] at hu
  by_cases hv : v < s.vars.size
  · suffices h : ∀ v : Fin s.vars.size, Acc (fun u t => Carries s t u) (.var v) from h ⟨v, hv⟩
    intro v
    induction v using hwf.induction with
    | _ v ih =>
      refine ⟨_, fun u hu => acc_of_variables fun w hw => ?_⟩
      by_cases hw' : w < s.vars.size
      · exact ih ⟨w, hw'⟩ (.head' hu hw)
      · exact hunbound w hw'
  · exact hunbound v hv

/-- Items each of which is good from some number of steps on are good together. -/
theorem exists_forall_ge {α : Type} {P : Nat → α → Prop} {l : List α}
    (h : ∀ a ∈ l, ∃ N, ∀ n ≥ N, P n a) : ∃ N, ∀ n ≥ N, ∀ a ∈ l, P n a := by
  induction l with
  | nil => exact ⟨0, by simp⟩
  | cons a l ih =>
    obtain ⟨N, hN⟩ := h a (by simp)
    obtain ⟨M, hM⟩ := ih fun b hb => h b (by simp [hb])
    refine ⟨max N M, fun n hn => List.forall_mem_cons.2 ⟨hN n (by omega), hM n (by omega)⟩⟩

/-- From some number of steps on, a text is not given up because the steps were too few. -/
def Shown (s : Store) (mangled : Bool) (n : Nat) (t : Ty) : Prop :=
  Errs (· ≠ .endless) (s.renderWithin mangled n t)

/-- The text of a name is that of the variable that it stands for, if it stands for one. -/
theorem shown_nameText {mangled : Bool} {n id : Nat} {text : String}
    (h : ∀ b v, s.binding? id = some b → b.type = .var v → Shown s mangled n (.var v)) :
    Errs (· ≠ .endless) (s.nameText mangled (s.renderWithin mangled n) id text) := by
  unfold Store.nameText
  split
  · split
    · exact .ok _
    · next v _ hb => exact h _ v hb rfl
    · exact .ok _
  · exact .ok _

/-- One more step shows a type when what it holds is shown. -/
theorem shown_succ {mangled : Bool} {n : Nat} {t : Ty} (ht : ∀ id, t ≠ .template id)
    (h : ∀ u, Carries s t u → Shown s mangled n u) : Shown s mangled (n + 1) t := by
  unfold Shown Store.renderWithin
  cases t with
  | builtin => exact .ok _
  | name id text l => exact shown_nameText fun b v hb hv => h _ (.parameter hb hv)
  | pointer e l => exact .bind (h e .pointer) fun _ => .ok _
  | slice e l => exact .bind (h e .slice) fun _ => .ok _
  | array e k l => exact .bind (h e .array) fun _ => .ok _
  | struct ms l =>
    exact .bind (.mapM ms fun m hm => .bind (h _ (.member hm)) fun _ => .ok _) fun _ => .ok _
  | function as r l =>
    exact .bind (.mapM as fun a ha => h a (.argument ha)) fun _ => .bind (h r .result) fun _ => .ok _
  | apply id head text as l =>
    exact .bind (shown_nameText fun b v hb hv => h _ (.head hb hv)) fun _ =>
      .bind (.mapM as fun a ha => h a (.typeArgument ha)) fun _ => .ok _
  | dot b m l => exact .bind (h b .base) fun _ => .ok _
  | var v =>
    dsimp only
    split
    · next u hu => exact h u (.bound hu)
    · split <;> exact .ok _
  | template id => exact absurd rfl (ht id)

/-- What a type holds directly is among finitely many types. -/
theorem exists_carried (s : Store) (t : Ty) : ∃ l : List Ty, ∀ u, Carries s t u → u ∈ l := by
  let named (id : Nat) : List Ty := ((s.binding? id).map (·.type)).toList
  have hnamed {id : Nat} {b : Binding} (hb : s.binding? id = some b) : b.type ∈ named id := by
    simp [named, hb]
  cases t with
  | name id text l =>
    refine ⟨named id, fun u hu => ?_⟩
    cases hu with
    | parameter hb hv => exact hv ▸ hnamed hb
  | struct ms l =>
    refine ⟨ms.map (·.type), fun u hu => ?_⟩
    cases hu with
    | member hm => exact List.mem_map_of_mem hm
  | function as r l =>
    refine ⟨r :: as, fun u hu => ?_⟩
    cases hu with
    | argument ha => exact List.mem_cons_of_mem _ ha
    | result => exact List.mem_cons_self
  | apply id head text as l =>
    refine ⟨named head ++ as, fun u hu => ?_⟩
    cases hu with
    | typeArgument ha => exact List.mem_append_right _ ha
    | head hb hv => exact List.mem_append_left _ (hv ▸ hnamed hb)
  | var v =>
    refine ⟨(s.bound? v).toList, fun u hu => ?_⟩
    cases hu with
    | bound hu => simp [hu]
  | pointer e l | slice e l | array e k l | dot e m l =>
    refine ⟨[e], fun u hu => ?_⟩
    cases hu
    exact List.mem_cons_self
  | builtin | template => exact ⟨[], fun u hu => by cases hu⟩

/-- Without cycles a type has its texts, if no template is shown in them. -/
theorem Store.Acyclic.text (hs : s.Acyclic) {t : Ty}
    (ht : ∀ id, ¬ Relation.ReflTransGen (Carries s) t (.template id)) (mangled : Bool) :
    ∃ N, ∀ n ≥ N, Shown s mangled n t := by
  have hacc : Acc (fun u t => Carries s t u) t := acc_of_variables fun v _ => hs.acc_var v
  induction hacc with
  | intro t _ ih =>
    obtain ⟨l, hl⟩ := exists_carried s t
    obtain ⟨N, hN⟩ := exists_forall_ge (P := fun n u => Carries s t u → Shown s mangled n u) (l := l)
      fun u _ => by
        by_cases hu : Carries s t u
        · obtain ⟨N, hN⟩ := ih u hu fun id hid => ht id (.head hu hid)
          exact ⟨N, fun n hn _ => hN n hn⟩
        · exact ⟨0, fun _ _ h => absurd h hu⟩
    refine ⟨N + 1, fun n hn => ?_⟩
    obtain ⟨n, rfl⟩ := Nat.exists_eq_add_of_le' (Nat.one_le_of_lt hn)
    exact shown_succ (fun id h => ht id (h ▸ .refl)) fun u hu => hN n (by omega) u (hl u hu) hu

end Texts

/-! ## Whatever is compared -/

/-- The store that a computation leaves, also where it fails. -/
def finalStore {α : Type} : EStateM.Result Fault Store α → Store
  | .ok _ s => s
  | .error _ s => s

/-- What is said of the end is said of the store that is left. -/
theorem EndsIn.finalStore {α : Type} {I : Store → Prop} {Q : α → Prop}
    {r : EStateM.Result Fault Store α} (h : EndsIn I Q r) : I (finalStore r) := by
  cases r with
  | ok a s => exact h.1
  | error e s => exact h

/-- Comparing two types of which one has no unbound variable left leaves no variable that stands for a
type that holds it, whatever the comparison ends with; so every type still has its texts. -/
theorem comparisons_stay_acyclic {s : Store} {a b : Ty} (hs : s.Acyclic)
    (h : Determined s a ∨ Determined s b) :
    ∀ s' ∈ [finalStore (isConvertible a b s), finalStore (isEqual a b s)], s'.Acyclic ∧
      ∀ t, (∀ id, ¬ Relation.ReflTransGen (Carries s') t (.template id)) →
        ∀ mangled, ∃ N, ∀ n ≥ N, Shown s' mangled n t := by
  obtain ⟨D, hD, hab⟩ : ∃ D, Known s D ∧ (D a ∨ D b) := by
    obtain ⟨D, hD, ha⟩ | ⟨D, hD, hb⟩ := h
    · exact ⟨D, hD, .inl ha⟩
    · exact ⟨D, hD, .inr hb⟩
  have hrun (mode : Agreement) : Upholds (Orderly D)
      (do return (← (unifyWithin mode (← limit) a b).run []).1) fun _ => True :=
    .seq .limit fun n => .seq (compares_unifyWithin mode n hab []) fun _ => .pure trivial
  have hfinal (mode : Agreement) := (hrun mode s ⟨hD, hs⟩).finalStore.2
  simp only [List.forall_mem_cons, List.not_mem_nil, false_imp_iff, implies_true, and_true]
  exact ⟨⟨hfinal .conversion, fun t ht => (hfinal .conversion).text ht⟩,
    hfinal .nominal, fun t ht => (hfinal .nominal).text ht⟩

/-- A store with one variable, which is unbound. -/
def oneVariable : Store := { vars := #[{ name := "T", location := none }] }

/-- A store whose only variable is unbound has no cycle. -/
theorem acyclic_oneVariable : oneVariable.Acyclic := by
  intro v hv
  obtain ⟨u, hu, -⟩ := Relation.TransGen.head'_iff.1 hv
  cases hu with
  | bound hu =>
    cases v with
    | zero => cases hu
    | succ v => cases hu

/-- There is no variable in a pointer to bytes. -/
theorem determined_pointer_byte : Determined oneVariable (.pointer .byte none) := by
  refine ⟨fun t => t = .pointer .byte none ∨ t = .byte ∨ t = .error, ⟨?_, ?_, ?_, ?_, ?_⟩, .inl rfl⟩
  · rintro t u (rfl | rfl | rfl) (_ | _)
    exact .inr (.inl rfl)
  · exact .inr (.inr rfl)
  · rintro id text l (h | h | h) <;> cases h
  · rintro id head text as l (h | h | h) <;> cases h
  · rintro v (h | h | h) <;> cases h

/-- The variable gets the type that it is compared with. -/
theorem comparisons_stay_acyclic_oneVariable :
    isConvertible (.pointer .byte none) (.var 0) oneVariable =
        .ok true (oneVariable.bind 0 (.pointer .byte none)) ∧
      (oneVariable.bind 0 (.pointer .byte none)).Acyclic :=
  ⟨rfl, (comparisons_stay_acyclic acyclic_oneVariable (b := .var 0)
    (.inl determined_pointer_byte) _ List.mem_cons_self).1⟩

/-- A variable that stands for the pointers to itself. -/
def selfPointer : Store := oneVariable.bind 0 (.pointer (.var 0) none)

/-- The text of a variable that stands for the pointers to itself never ends. -/
theorem selfPointer_text (mangled : Bool) (n : Nat) :
    selfPointer.renderWithin mangled n (.var 0) = .error .endless := by
  induction n using Nat.twoStepInduction with
  | zero => rfl
  | one => rfl
  | more n ih _ =>
    change (selfPointer.renderWithin mangled n (.var 0) >>= _) = _
    rw [ih]
    rfl

/-- An unbound variable compared with the pointers to itself comes to stand for them, and then no text
of it ever comes to an end. -/
theorem variable_stands_for_its_pointer : oneVariable.Acyclic ∧
    isConvertible (.pointer (.var 0) none) (.var 0) oneVariable = .ok true selfPointer ∧
    isEqual (.pointer (.var 0) none) (.var 0) oneVariable = .ok true selfPointer ∧
    ¬ selfPointer.Acyclic ∧
    ∀ mangled n, selfPointer.renderWithin mangled n (.var 0) = .error .endless := by
  refine ⟨acyclic_oneVariable, rfl, rfl, fun h => h 0 ?_, selfPointer_text⟩
  exact .head (.bound rfl) (.single .pointer)

end Qll.Types
