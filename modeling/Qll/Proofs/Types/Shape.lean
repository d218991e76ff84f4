import Mathlib.Logic.Relation
import Qll.Proofs.Computation
import Qll.Types.Layout

/-!
# Shapes of settled types

A family of types is settled in a store when it is closed under what its types mention, no variable
in it is unbound, every name and application in it is resolved, and every type in it has a finite
size. Following a settled type leaves the store as it is, so its shape and its size are facts about
one store.
-/

namespace Qll.Types

open Qll.Computation

/-- What a type is made of, or stands for, in a store. -/
inductive Mentions (s : Store) : Ty → Ty → Prop
  | pointer {e l} : Mentions s (.pointer e l) e
  | slice {e l} : Mentions s (.slice e l) e
  | array {e n l} : Mentions s (.array e n l) e
  | member {ms l m} (h : m ∈ ms) : Mentions s (.struct ms l) m.type
  | argument {as r l a} (h : a ∈ as) : Mentions s (.function as r l) a
  | result {as r l} : Mentions s (.function as r l) r
  | base {b m l} : Mentions s (.dot b m l) b
  | name {id text l b} (h : s.binding? id = some b) : Mentions s (.name id text l) b.type
  | instance {id head text as l e t} (h : s.applies[id]? = some e) (ht : e.result = some t) :
      Mentions s (.apply id head text as l) t
  | bound {v t} (h : s.bound? v = some t) : Mentions s (.var v) t

/-- The shape of a type, for some number of steps. -/
def Shape (s : Store) (t u : Ty) : Prop := ∃ n, resolveWithin n t s = .ok u s

/-- The size of a type, for some number of steps. -/
def HasSize (s : Store) (t : Ty) (k : Int) : Prop := ∃ n, sizeWithin n t s = .ok k s

/-- A family of closed types without errors that were checked to have a finite size. -/
structure Settled (s : Store) (D : Ty → Prop) : Prop where
  mentions : ∀ {t u}, D t → Mentions s t u → D u
  /-- Names are resolved, and close no type of infinite size. -/
  name : ∀ {id text l}, D (.name id text l) →
    ∃ b, s.names[id]? = some { binding := some b, cyclic := false }
  /-- Applications have their instance. -/
  apply : ∀ {id head text as l}, D (.apply id head text as l) →
    ∃ t, s.applies[id]? = some { result := some t, cyclic := false }
  var : ∀ {v}, D (.var v) → ∃ t, s.bound? v = some t
  template : ∀ {id}, ¬ D (.template id)
  error : ∀ {l}, ¬ D (.builtin .error l)
  /-- Member types have a member. -/
  dot : ∀ {b m l}, D (.dot b m l) → ∃ ms l', Shape s b (.struct ms l') ∧ ∃ x ∈ ms, x.name = m
  finite : ∀ {t}, D t → ∃ k s', size t s = .ok k s'

/-- Whether a type has a form of its own. -/
def Ty.IsShape : Ty → Prop
  | .builtin .. | .pointer .. | .slice .. | .array .. | .struct .. | .function .. => True
  | _ => False

/-- A reading of the store ends well when it gives a value. -/
@[simp] theorem read_ok {α : Type} {f : Store → Except Fault α} {a : α} {s s' : Store} :
    read f s = .ok a s' ↔ f s = .ok a ∧ s = s' := by
  simp only [read, bind_ok, get_ok]
  constructor
  · rintro ⟨_, _, ⟨rfl, rfl⟩, h⟩
    cases hf : f s with
    | ok b =>
      rw [hf] at h
      simpa only [Except.ok.injEq] using pure_ok.1 h
    | error e =>
      rw [hf] at h
      exact absurd h throw_ok
  · rintro ⟨h, rfl⟩
    exact ⟨s, s, ⟨rfl, rfl⟩, by simp [h]⟩

/-- A reading of the store that gives no value leaves the store. -/
theorem read_error {α : Type} {f : Store → Except Fault α} {e : Fault} {s : Store} (h : f s = .error e) :
    read f s = .error e s := by
  cases hrun : read f s with
  | ok a s' =>
    obtain ⟨ha, -⟩ := read_ok.1 hrun
    rw [h] at ha
    cases ha
  | error e' s' =>
    unfold read at hrun
    obtain hget | ⟨_, _, hget, hthrow⟩ := bind_error.1 hrun
    · cases hget
    · obtain ⟨rfl, rfl⟩ := get_ok.1 hget
      rw [h] at hthrow
      obtain ⟨rfl, rfl⟩ := throw_error.1 hthrow
      rfl

/-- The number of steps allowed is part of the store. -/
@[simp] theorem limit_ok {n : Nat} {s s' : Store} :
    limit s = .ok n s' ↔ s.limit = n ∧ s = s' := by
  simp only [limit, bind_ok, get_ok, pure_ok]
  constructor
  · rintro ⟨_, _, ⟨rfl, rfl⟩, h⟩
    exact h
  · intro h
    exact ⟨s, s, ⟨rfl, rfl⟩, h⟩

/-- More steps give the same shapes, members and sizes. -/
theorem within_extends (n : Nat) :
    (∀ t, Extends (resolveWithin n t) (resolveWithin (n + 1) t)) ∧
    (∀ b m, Extends (memberTypeWithin n b m) (memberTypeWithin (n + 1) b m)) ∧
    (∀ ms name offset,
      Extends (findMemberWithin n ms name offset) (findMemberWithin (n + 1) ms name offset)) ∧
    (∀ t, Extends (sizeWithin n t) (sizeWithin (n + 1) t)) := by
  induction n with
  | zero => exact ⟨fun _ => .throw, fun _ _ => .throw, fun _ _ _ => .throw, fun _ => .throw⟩
  | succ n ih =>
    obtain ⟨hresolve, hmember, hfind, hsize⟩ := ih
    refine ⟨fun t => ?_, fun b m => ?_, fun ms name offset => ?_, fun t => ?_⟩
    · unfold resolveWithin
      cases t
      case name => exact .bind (.refl _) fun u => hresolve u
      case apply => exact .bind (.refl _) fun u => hresolve u
      case dot => exact .bind (hmember _ _) fun u => hresolve u
      case var v =>
        refine .bind (.refl _) fun st => ?_
        cases st.bound? v with
        | none => exact .refl _
        | some u => exact hresolve u
      all_goals exact .refl _
    · unfold memberTypeWithin
      refine .bind (hresolve b) fun u => ?_
      cases u
      case struct ms l => exact .bind (hfind _ _ _) fun r => .refl _
      all_goals exact .refl _
    · unfold findMemberWithin
      cases ms with
      | nil => exact .refl _
      | cons x rest =>
        dsimp only
        split
        · exact .refl _
        · exact .bind (hsize _) fun k => hfind _ _ _
    · unfold sizeWithin
      cases t
      case name => exact .bind (.refl _) fun u => hsize u
      case apply => exact .bind (.refl _) fun u => hsize u
      case dot => exact .bind (hmember _ _) fun u => hsize u
      case var v =>
        refine .bind (.refl _) fun st => ?_
        cases st.bound? v with
        | none => exact .refl _
        | some u => exact hsize u
      case array e length l =>
        dsimp only
        split
        · exact .refl _
        · exact .bind (hsize e) fun k => .refl _
      case struct ms l =>
        exact Extends.foldlM (fun total m => .bind (hsize _) fun k => .refl _) ms 0
      all_goals exact .refl _

/-- A given shape is given with more steps. -/
theorem resolveWithin_mono {n m : Nat} (h : n ≤ m) {t u : Ty} {s s' : Store}
    (ht : resolveWithin n t s = .ok u s') : resolveWithin m t s = .ok u s' := by
  induction h with
  | refl => exact ht
  | step _ ih => exact (within_extends _).1 t s u s' ih

/-- A given member type is given with more steps. -/
theorem memberTypeWithin_mono {n m : Nat} (h : n ≤ m) {b u : Ty} {name : String} {s s' : Store}
    (hb : memberTypeWithin n b name s = .ok u s') : memberTypeWithin m b name s = .ok u s' := by
  induction h with
  | refl => exact hb
  | step _ ih => exact (within_extends _).2.1 b name s u s' ih

/-- A given size is given with more steps. -/
theorem sizeWithin_mono {n m : Nat} (h : n ≤ m) {t : Ty} {k : Int} {s s' : Store}
    (ht : sizeWithin n t s = .ok k s') : sizeWithin m t s = .ok k s' := by
  induction h with
  | refl => exact ht
  | step _ ih => exact (within_extends _).2.2.2 t s k s' ih

/-- More steps find the same member. -/
theorem findMemberWithin_mono {n m : Nat} (h : n ≤ m) {ms : List (Member Ty)} {name : String}
    {offset : Int} {r : Option (Member Ty × Int)} {s s' : Store}
    (hr : findMemberWithin n ms name offset s = .ok r s') :
    findMemberWithin m ms name offset s = .ok r s' := by
  induction h with
  | refl => exact hr
  | step _ ih => exact (within_extends _).2.2.1 ms name offset s r s' ih

/-- A type has one shape. -/
theorem Shape.unique {s : Store} {t u u' : Ty} (h : Shape s t u) (h' : Shape s t u') : u = u' := by
  obtain ⟨n, hn⟩ := h
  obtain ⟨m, hm⟩ := h'
  have hn' := resolveWithin_mono (Nat.le_max_left n m) hn
  rw [resolveWithin_mono (Nat.le_max_right n m) hm] at hn'
  injection hn' with hu
  exact hu.symm

/-- A type has one size. -/
theorem HasSize.unique {s : Store} {t : Ty} {k k' : Int} (h : HasSize s t k)
    (h' : HasSize s t k') : k = k' := by
  obtain ⟨n, hn⟩ := h
  obtain ⟨m, hm⟩ := h'
  have hn' := sizeWithin_mono (Nat.le_max_left n m) hn
  rw [sizeWithin_mono (Nat.le_max_right n m) hm] at hn'
  injection hn' with hk
  exact hk.symm

/-- A searched member is one of the members; a name that is there is found. -/
theorem findMember_none {s s' : Store} {name : String} {n : Nat} :
    ∀ {ms : List (Member Ty)} {offset : Int},
      findMemberWithin n ms name offset s = .ok none s' → ∀ m ∈ ms, m.name ≠ name := by
  induction n generalizing s with
  | zero => exact fun h => absurd h throw_ok
  | succ n ih =>
    intro ms offset h
    unfold findMemberWithin at h
    cases ms with
    | nil => simp
    | cons x rest =>
      dsimp only at h
      split at h
      · simp only [pure_ok] at h
        exact absurd h.1 (by simp)
      · obtain ⟨k, u, -, hrest⟩ := bind_ok.1 h
        exact List.forall_mem_cons.2 ⟨‹_›, ih hrest⟩

/-- The type that a name, an application, a variable or a member type stands for. -/
inductive Stands (s : Store) : Ty → Ty → Prop
  | name {id text l u} (h : s.target id text = .ok u) : Stands s (.name id text l) u
  | apply {id head text as l u} (h : applied id head text as s = .ok u s) :
      Stands s (.apply id head text as l) u
  | var {v u} (h : s.bound? v = some u) : Stands s (.var v) u
  | dot {b m l n u} (h : memberTypeWithin n b m s = .ok u s) : Stands s (.dot b m l) u

/-- The types that a type stands for, in some number of steps. -/
abbrev Leads (s : Store) : Ty → Ty → Prop := Relation.ReflTransGen (Stands s)

/-- A type has the shape of what it stands for. -/
theorem Stands.shape_iff {s : Store} {t t' u : Ty} (h : Stands s t t') :
    Shape s t u ↔ Shape s t' u := by
  constructor
  · rintro ⟨_ | n, hn⟩
    · exact absurd hn throw_ok
    · unfold resolveWithin at hn
      refine ⟨n, ?_⟩
      cases h with
      | name h =>
        obtain ⟨_, _, h', hrest⟩ := bind_ok.1 hn
        obtain ⟨htarget, rfl⟩ := read_ok.1 h'
        cases h.symm.trans htarget
        exact hrest
      | apply h =>
        obtain ⟨_, _, h', hrest⟩ := bind_ok.1 hn
        cases h.symm.trans h'
        exact hrest
      | var h =>
        simp only [bind_ok, get_ok] at hn
        obtain ⟨_, _, ⟨rfl, rfl⟩, hrest⟩ := hn
        rw [h] at hrest
        exact hrest
      | @dot b m _ n' _ h =>
        obtain ⟨_, _, h', hrest⟩ := bind_ok.1 hn
        cases (memberTypeWithin_mono (Nat.le_max_left n' n) h).symm.trans
          (memberTypeWithin_mono (Nat.le_max_right n' n) h')
        exact hrest
  · rintro ⟨n, hn⟩
    cases h with
    | name h => exact ⟨n + 1, bind_ok.2 ⟨_, _, read_ok.2 ⟨h, rfl⟩, hn⟩⟩
    | apply h => exact ⟨n + 1, bind_ok.2 ⟨_, _, h, hn⟩⟩
    | var h =>
      refine ⟨n + 1, bind_ok.2 ⟨s, s, get_ok.2 ⟨rfl, rfl⟩, ?_⟩⟩
      rw [h]
      exact hn
    | @dot _ _ _ n' _ h =>
      exact ⟨max n' n + 1, bind_ok.2 ⟨_, _, memberTypeWithin_mono (Nat.le_max_left n' n) h,
        resolveWithin_mono (Nat.le_max_right n' n) hn⟩⟩

/-- A type has the shape of what it leads to. -/
theorem shape_iff_of_leads {s : Store} {t t' u : Ty} (h : Leads s t t') :
    Shape s t u ↔ Shape s t' u := by
  induction h with
  | refl => rfl
  | tail _ h ih => exact ih.trans h.shape_iff

/-- Whether a shape is one word. -/
def Ty.isWord : Ty → Bool
  | .builtin .. | .pointer .. | .function .. => true
  | .array _ length _ => length == unsized
  | _ => false

/-- A type whose shape is one word has the size of one word. -/
theorem sizeWithin_of_isWord {n : Nat} : ∀ {t u : Ty} {s s' : Store},
    resolveWithin n t s = .ok u s' → u.isWord = true →
      ∀ {m : Nat} {k : Int} {s'' : Store}, sizeWithin m t s = .ok k s'' → k = 1 := by
  induction n with
  | zero => exact fun h => absurd h throw_ok
  | succ n ih =>
    intro t u s s' hresolve hword m k s'' hsize
    cases m with
    | zero => exact absurd hsize throw_ok
    | succ m =>
      unfold resolveWithin at hresolve
      unfold sizeWithin at hsize
      cases t with
      | name id text l =>
        obtain ⟨v, _, hv, hresolve⟩ := bind_ok.1 hresolve
        obtain ⟨v', _, hv', hsize⟩ := bind_ok.1 hsize
        cases hv.symm.trans hv'
        exact ih hresolve hword hsize
      | apply id head text as l =>
        obtain ⟨v, _, hv, hresolve⟩ := bind_ok.1 hresolve
        obtain ⟨v', _, hv', hsize⟩ := bind_ok.1 hsize
        cases hv.symm.trans hv'
        exact ih hresolve hword hsize
      | dot b name l =>
        obtain ⟨v, _, hv, hresolve⟩ := bind_ok.1 hresolve
        obtain ⟨v', _, hv', hsize⟩ := bind_ok.1 hsize
        cases (memberTypeWithin_mono (Nat.le_max_left n m) hv).symm.trans
          (memberTypeWithin_mono (Nat.le_max_right n m) hv')
        exact ih hresolve hword hsize
      | var v =>
        simp only [get_bind_run] at hresolve hsize
        cases hv : s.bound? v with
        | none =>
          rw [hv] at hresolve
          obtain ⟨rfl, -⟩ := pure_ok.1 hresolve
          cases hword
        | some w =>
          rw [hv] at hresolve hsize
          exact ih hresolve hword hsize
      | array e length l =>
        obtain ⟨rfl, -⟩ := pure_ok.1 hresolve
        dsimp only at hsize
        rw [if_pos (by simpa [Ty.isWord] using hword)] at hsize
        exact (pure_ok.1 hsize).1.symm
      | builtin kind l => exact (pure_ok.1 hsize).1.symm
      | pointer e l => exact (pure_ok.1 hsize).1.symm
      | function as result l => exact (pure_ok.1 hsize).1.symm
      | slice e l | struct ms l | template id =>
        obtain ⟨rfl, -⟩ := pure_ok.1 hresolve
        cases hword

/-- A type whose values fit a register has the size of one word. -/
theorem size_of_isIntegral {t : Ty} {k : Int} {s s' : Store} (h : isIntegral t s = .ok true s')
    (hsize : HasSize s t k) : k = 1 := by
  obtain ⟨u, s₁, hu, h⟩ := bind_ok.1 h
  obtain ⟨n, _, hn, hu⟩ := bind_ok.1 hu
  obtain ⟨rfl, rfl⟩ := limit_ok.1 hn
  obtain ⟨m, hm⟩ := hsize
  refine sizeWithin_of_isWord hu ?_ hm
  cases u <;> first | rfl | exact (pure_ok.1 h).1

/-- A shape is its own shape. -/
theorem Ty.IsShape.self {s : Store} {t : Ty} (h : t.IsShape) : Shape s t t := by
  refine ⟨1, ?_⟩
  cases t <;> first | exact absurd h id | rfl

section Settled

variable {s : Store} {D : Ty → Prop} (hD : Settled s D)

include hD

/-- A settled name stands for its definition. -/
theorem Settled.target {id : Nat} {text : String} {l : Option Source.Location}
    (h : D (.name id text l)) {u : Ty} (hu : s.target id text = .ok u) :
    D u ∧ Mentions s (.name id text l) u := by
  obtain ⟨b, hb⟩ := hD.name h
  have hbinding : s.binding? id = some b := by simp [Store.binding?, hb]
  have hmentions : Mentions s (.name id text l) b.type := .name hbinding
  have htype : b.type = u := by simpa [Store.target, hb] using hu
  exact htype ▸ ⟨hD.mentions h hmentions, hmentions⟩

/-- A settled application stands for its instance, and asking for it leaves the store. -/
theorem Settled.applied {id head : Nat} {text : String} {as : List Ty}
    {l : Option Source.Location} (h : D (.apply id head text as l)) {u : Ty} {s' : Store} :
    applied id head text as s = .ok u s' →
      s' = s ∧ D u ∧ Mentions s (.apply id head text as l) u := by
  obtain ⟨t, ht⟩ := hD.apply h
  have hmentions : Mentions s (.apply id head text as l) t := .instance ht rfl
  simp only [Types.applied, bind_ok, get_ok]
  rintro ⟨_, _, ⟨rfl, rfl⟩, h'⟩
  rw [ht] at h'
  simp only [pure_ok] at h'
  exact h'.1 ▸ ⟨h'.2.symm, hD.mentions h hmentions, hmentions⟩

/-- Following settled types leaves the store and stays among them. -/
theorem Settled.follow (n : Nat) :
    (∀ {t u s'}, D t → resolveWithin n t s = .ok u s' → s' = s ∧ D u ∧ u.IsShape) ∧
    (∀ {b m l u s'}, D (.dot b m l) → memberTypeWithin n b m s = .ok u s' → s' = s ∧ D u) ∧
    (∀ {ms name offset r s'}, (∀ m ∈ ms, D m.type) →
      findMemberWithin n ms name offset s = .ok r s' → s' = s ∧ ∀ x ∈ r, x.1 ∈ ms) ∧
    (∀ {t k s'}, D t → sizeWithin n t s = .ok k s' → s' = s) := by
  induction n with
  | zero =>
    exact ⟨fun _ h => absurd h throw_ok, fun _ h => absurd h throw_ok,
      fun _ h => absurd h throw_ok, fun _ h => absurd h throw_ok⟩
  | succ n ih =>
    obtain ⟨hresolve, hmember, hfind, hsize⟩ := ih
    refine ⟨fun {t u s'} ht h => ?_, fun {b m l u s'} hb h => ?_,
      fun {ms name offset r s'} hms h => ?_, fun {t k s'} ht h => ?_⟩
    · unfold resolveWithin at h
      cases t
      case name id text l =>
        obtain ⟨u', s₁, hu', hrest⟩ := bind_ok.1 h
        obtain ⟨htarget, rfl⟩ := read_ok.1 hu'
        exact hresolve (hD.target ht htarget).1 hrest
      case apply id head text as l =>
        obtain ⟨u', s₁, hu', hrest⟩ := bind_ok.1 h
        obtain ⟨rfl, hu', -⟩ := hD.applied ht hu'
        exact hresolve hu' hrest
      case dot b m l =>
        obtain ⟨u', s₁, hu', hrest⟩ := bind_ok.1 h
        obtain ⟨rfl, hDu'⟩ := hmember ht hu'
        exact hresolve hDu' hrest
      case var v =>
        obtain ⟨u', hu'⟩ := hD.var ht
        simp only [bind_ok, get_ok] at h
        obtain ⟨_, _, ⟨rfl, rfl⟩, hrest⟩ := h
        rw [hu'] at hrest
        exact hresolve (hD.mentions ht (.bound hu')) hrest
      case template id => exact absurd ht hD.template
      all_goals
        obtain ⟨rfl, rfl⟩ := pure_ok.1 h
        exact ⟨rfl, ht, trivial⟩
    · obtain ⟨ms, l', hshape, x, hx, hxm⟩ := hD.dot hb
      unfold memberTypeWithin at h
      obtain ⟨u', s₁, hu', hrest⟩ := bind_ok.1 h
      obtain ⟨rfl, hDu', -⟩ := hresolve (hD.mentions hb .base) hu'
      obtain rfl := hshape.unique ⟨n, hu'⟩
      obtain ⟨r, s₂, hr, hrest⟩ := bind_ok.1 hrest
      have hms : ∀ m ∈ ms, D m.type := fun m hm => hD.mentions hDu' (.member hm)
      obtain ⟨rfl, hmem⟩ := hfind hms hr
      cases r with
      | none => exact absurd hxm (findMember_none hr x hx)
      | some r =>
        obtain ⟨rfl, rfl⟩ := pure_ok.1 hrest
        exact ⟨rfl, hms _ (hmem r rfl)⟩
    · unfold findMemberWithin at h
      cases ms with
      | nil =>
        obtain ⟨rfl, rfl⟩ := pure_ok.1 h
        exact ⟨rfl, by simp⟩
      | cons x rest =>
        dsimp only at h
        split at h
        · obtain ⟨rfl, rfl⟩ := pure_ok.1 h
          exact ⟨rfl, by simp⟩
        · obtain ⟨k, s₁, hk, hrest⟩ := bind_ok.1 h
          obtain rfl := hsize (hms x (by simp)) hk
          obtain ⟨rfl, hr⟩ := hfind (fun m hm => hms m (by simp [hm])) hrest
          exact ⟨rfl, fun y hy => List.mem_cons_of_mem _ (hr y hy)⟩
    · unfold sizeWithin at h
      cases t
      case name id text l =>
        obtain ⟨u', s₁, hu', hrest⟩ := bind_ok.1 h
        obtain ⟨htarget, rfl⟩ := read_ok.1 hu'
        exact hsize (hD.target ht htarget).1 hrest
      case apply id head text as l =>
        obtain ⟨u', s₁, hu', hrest⟩ := bind_ok.1 h
        obtain ⟨rfl, hu', -⟩ := hD.applied ht hu'
        exact hsize hu' hrest
      case dot b m l =>
        obtain ⟨u', s₁, hu', hrest⟩ := bind_ok.1 h
        obtain ⟨rfl, hDu'⟩ := hmember ht hu'
        exact hsize hDu' hrest
      case var v =>
        obtain ⟨u', hu'⟩ := hD.var ht
        simp only [bind_ok, get_ok] at h
        obtain ⟨_, _, ⟨rfl, rfl⟩, hrest⟩ := h
        rw [hu'] at hrest
        exact hsize (hD.mentions ht (.bound hu')) hrest
      case template id => exact absurd ht hD.template
      case array e length l =>
        dsimp only at h
        split at h
        · exact (pure_ok.1 h).2.symm
        · obtain ⟨k', s₁, hk', hrest⟩ := bind_ok.1 h
          obtain rfl := hsize (hD.mentions ht .array) hk'
          exact (pure_ok.1 hrest).2.symm
      case struct ms l =>
        exact foldlM_state (fun _ m hm _ _ hk => by
          obtain ⟨k', s₁, hk', hrest⟩ := bind_ok.1 hk
          obtain rfl := hsize (hD.mentions ht (.member hm)) hk'
          exact (pure_ok.1 hrest).2.symm) h
      all_goals exact (pure_ok.1 h).2.symm

/-- What a settled type stands for is settled. -/
theorem Settled.stands {t u : Ty} (ht : D t) (h : Stands s t u) : D u := by
  cases h with
  | name h => exact (hD.target ht h).1
  | apply h => exact (hD.applied ht h).2.1
  | var h => exact hD.mentions ht (.bound h)
  | @dot _ _ _ n _ h => exact ((hD.follow n).2.1 ht h).2

/-- What a settled type leads to is settled. -/
theorem Settled.leads {t u : Ty} (ht : D t) (h : Leads s t u) : D u := by
  induction h with
  | refl => exact ht
  | tail _ h ih => exact hD.stands ih h

/-- A settled type is a shape or stands for a type. -/
theorem Settled.isShape_or {t : Ty} (ht : D t) :
    t.IsShape ∨ t.isNamed ∨ (∃ v, t = .var v) ∨ ∃ b m l, t = .dot b m l := by
  cases t
  case template id => exact absurd ht hD.template
  case name id text l => exact .inr (.inl rfl)
  case apply id head text as l => exact .inr (.inl rfl)
  case var v => exact .inr (.inr (.inl ⟨v, rfl⟩))
  case dot b m l => exact .inr (.inr (.inr ⟨b, m, l, rfl⟩))
  all_goals exact .inl trivial

/-- A size is found at the shape, so the shape is found in as many steps. -/
theorem Settled.shape_of_size {n : Nat} {t : Ty} {k : Int} (ht : D t)
    (h : sizeWithin n t s = .ok k s) :
    ∃ u, resolveWithin n t s = .ok u s ∧ sizeWithin n u s = .ok k s := by
  induction n generalizing t with
  | zero => exact absurd h throw_ok
  | succ n ih =>
    have hmono {u : Ty} (hu : sizeWithin n u s = .ok k s) : sizeWithin (n + 1) u s = .ok k s :=
      sizeWithin_mono (Nat.le_succ n) hu
    have hsize := h
    unfold sizeWithin at h
    unfold resolveWithin
    cases t
    case name id text l =>
      obtain ⟨u', s₁, hu', hrest⟩ := bind_ok.1 h
      obtain ⟨htarget, rfl⟩ := read_ok.1 hu'
      obtain ⟨u, hu, hk⟩ := ih (hD.target ht htarget).1 hrest
      exact ⟨u, bind_ok.2 ⟨_, _, hu', hu⟩, hmono hk⟩
    case apply id head text as l =>
      obtain ⟨u', s₁, hu', hrest⟩ := bind_ok.1 h
      obtain ⟨rfl, hDu', -⟩ := hD.applied ht hu'
      obtain ⟨u, hu, hk⟩ := ih hDu' hrest
      exact ⟨u, bind_ok.2 ⟨_, _, hu', hu⟩, hmono hk⟩
    case dot b m l =>
      obtain ⟨u', s₁, hu', hrest⟩ := bind_ok.1 h
      obtain ⟨rfl, hDu'⟩ := (hD.follow n).2.1 ht hu'
      obtain ⟨u, hu, hk⟩ := ih hDu' hrest
      exact ⟨u, bind_ok.2 ⟨_, _, hu', hu⟩, hmono hk⟩
    case var v =>
      obtain ⟨u', hu'⟩ := hD.var ht
      simp only [bind_ok, get_ok] at h ⊢
      obtain ⟨_, _, ⟨rfl, rfl⟩, hrest⟩ := h
      rw [hu'] at hrest
      obtain ⟨u, hu, hk⟩ := ih (hD.mentions ht (.bound hu')) hrest
      exact ⟨u, ⟨s, s, ⟨rfl, rfl⟩, by rw [hu']; exact hu⟩, hmono hk⟩
    case template id => exact absurd ht hD.template
    all_goals exact ⟨_, rfl, hsize⟩

/-- A settled type has a size, and finding it leaves the store. -/
theorem Settled.size_ok {t : Ty} (ht : D t) : ∃ k, size t s = .ok k s := by
  obtain ⟨k, s', h⟩ := hD.finite ht
  have hs : s' = s := by
    simp only [size, bind_ok, limit_ok] at h
    obtain ⟨n, _, ⟨-, rfl⟩, hn⟩ := h
    exact (hD.follow n).2.2.2 ht hn
  exact ⟨k, hs ▸ h⟩

/-- A settled type has a shape, which is settled. -/
theorem Settled.resolve_ok {t : Ty} (ht : D t) :
    ∃ u, resolve t s = .ok u s ∧ Shape s t u ∧ D u ∧ u.IsShape := by
  obtain ⟨k, h⟩ := hD.size_ok ht
  simp only [size, bind_ok, limit_ok] at h
  obtain ⟨n, _, ⟨rfl, rfl⟩, hn⟩ := h
  obtain ⟨u, hu, -⟩ := hD.shape_of_size ht hn
  obtain ⟨-, hDu, hshape⟩ := (hD.follow _).1 ht hu
  exact ⟨u, bind_ok.2 ⟨_, _, limit_ok.2 ⟨rfl, rfl⟩, hu⟩, ⟨_, hu⟩, hDu, hshape⟩

/-- The shape of a settled type is settled. -/
theorem Settled.shape {t u : Ty} (ht : D t) (h : Shape s t u) : D u ∧ u.IsShape := by
  obtain ⟨n, hn⟩ := h
  exact ((hD.follow n).1 ht hn).2

/-- The size that a settled type has is found. -/
theorem Settled.size_iff {t : Ty} {k : Int} (ht : D t) : HasSize s t k ↔ size t s = .ok k s := by
  obtain ⟨k', h⟩ := hD.size_ok ht
  have hk' : HasSize s t k' := by
    simp only [size, bind_ok, limit_ok] at h
    obtain ⟨n, _, ⟨-, rfl⟩, hn⟩ := h
    exact ⟨n, hn⟩
  constructor
  · rintro hk
    rw [hk.unique hk', h]
  · intro hk
    cases h.symm.trans hk
    exact hk'

/-- A settled type has the size of its shape. -/
theorem Settled.hasSize_iff {t u : Ty} {k : Int} (ht : D t) (h : Shape s t u) :
    HasSize s t k ↔ HasSize s u k := by
  obtain ⟨k', hsize⟩ := hD.size_ok ht
  obtain ⟨n, hn⟩ := (hD.size_iff ht).2 hsize
  obtain ⟨u', hu', hk'⟩ := hD.shape_of_size ht hn
  obtain rfl := h.unique ⟨n, hu'⟩
  constructor
  · intro hk
    exact hk.unique ⟨n, hn⟩ ▸ ⟨n, hk'⟩
  · intro hk
    exact hk.unique ⟨n, hk'⟩ ▸ ⟨n, hn⟩

/-- Normalizing follows variables to a type that is none. -/
theorem Settled.normalize {n : Nat} {t u : Ty} (ht : D t) (h : s.normalizeWithin n t = .ok u) :
    Leads s t u ∧ ∀ v, u ≠ .var v := by
  induction n generalizing t with
  | zero => exact absurd h (by simp [Store.normalizeWithin])
  | succ n ih =>
    unfold Store.normalizeWithin at h
    cases t
    case var v =>
      obtain ⟨u', hu'⟩ := hD.var ht
      simp only [hu'] at h
      obtain ⟨hleads, hne⟩ := ih (hD.mentions ht (.bound hu')) h
      exact ⟨.head (.var hu') hleads, hne⟩
    case name id text l =>
      obtain ⟨b, hb⟩ := hD.name ht
      have hbinding : s.binding? id = some b := by simp [Store.binding?, hb]
      have htarget : s.target id text = .ok b.type := by simp [Store.target, hb]
      have hDb := (hD.target ht htarget).1
      simp only [hbinding] at h
      split at h
      · rename_i v heq
        cases heq
        obtain ⟨hleads, hne⟩ := ih hDb h
        exact ⟨.head (.name htarget) hleads, hne⟩
      · cases h
        exact ⟨.refl, by simp⟩
    all_goals
      cases h
      exact ⟨.refl, by simp⟩

/-- Stripping names, applications and member types gives the shape. -/
theorem Settled.dealiasWithin {n : Nat} {t u : Ty} {s' : Store} (ht : D t)
    (h : dealiasWithin n t s = .ok u s') : s' = s ∧ Leads s t u ∧ u.IsShape := by
  induction n generalizing t with
  | zero => exact absurd h throw_ok
  | succ n ih =>
    unfold Types.dealiasWithin at h
    obtain ⟨t', s₁, hread, hrest⟩ := bind_ok.1 h
    obtain ⟨hnormal, rfl⟩ := read_ok.1 hread
    obtain ⟨hleads, hvar⟩ := hD.normalize ht hnormal
    have ht' := hD.leads ht hleads
    cases t'
    case name id text l =>
      obtain ⟨u', s₁, hu', hrest⟩ := bind_ok.1 hrest
      obtain ⟨htarget, rfl⟩ := read_ok.1 hu'
      obtain ⟨rfl, hleads', hshape⟩ := ih (hD.target ht' htarget).1 hrest
      exact ⟨rfl, hleads.trans (.head (.name htarget) hleads'), hshape⟩
    case apply id head text as l =>
      obtain ⟨u', s₁, hu', hdealias⟩ := bind_ok.1 hrest
      obtain ⟨rfl, hDu', -⟩ := hD.applied ht' hu'
      obtain ⟨rfl, hleads', hshape⟩ := ih hDu' hdealias
      exact ⟨rfl, hleads.trans (.head (.apply hu') hleads'), hshape⟩
    case dot b m l =>
      obtain ⟨k, s₁, hk, hrest⟩ := bind_ok.1 hrest
      obtain ⟨-, rfl⟩ := limit_ok.1 hk
      obtain ⟨u', s₁, hu', hdealias⟩ := bind_ok.1 hrest
      obtain ⟨rfl, hDu'⟩ := (hD.follow k).2.1 ht' hu'
      obtain ⟨rfl, hleads', hshape⟩ := ih hDu' hdealias
      exact ⟨rfl, hleads.trans (.head (.dot hu') hleads'), hshape⟩
    case var v => exact absurd rfl (hvar v)
    case template id => exact absurd ht' hD.template
    all_goals
      obtain ⟨rfl, rfl⟩ := pure_ok.1 hrest
      exact ⟨rfl, hleads, trivial⟩

/-- Stripping names, applications and member types gives the shape. -/
theorem Settled.dealias {t u : Ty} {s' : Store} (ht : D t) (h : dealias t s = .ok u s') :
    s' = s ∧ Leads s t u ∧ u.IsShape := by
  simp only [Types.dealias, bind_ok, limit_ok] at h
  obtain ⟨n, _, ⟨-, rfl⟩, hn⟩ := h
  exact hD.dealiasWithin ht hn

/-- A settled type is not the error type. -/
theorem Settled.isErrorWithin {n : Nat} {t : Ty} (ht : D t) :
    s.isErrorWithin n t ≠ .ok true := by
  intro h
  induction n generalizing t with
  | zero => exact absurd h (by simp [Store.isErrorWithin])
  | succ n ih =>
    unfold Store.isErrorWithin at h
    obtain ⟨t', hnormal, hrest⟩ := except_bind_ok.1 h
    have ht' := hD.leads ht (hD.normalize ht hnormal).1
    cases t'
    case builtin kind l =>
      have hkind : kind = .error := by simpa using except_pure_ok.1 hrest
      exact hD.error (hkind ▸ ht')
    case name id text l =>
      obtain ⟨b, hb⟩ := hD.name ht'
      have hbinding : s.binding? id = some b := by simp [Store.binding?, hb]
      simp only [hbinding, Option.isNone_some, Bool.false_eq_true, if_false] at hrest
      obtain ⟨u, htarget, hrest⟩ := except_bind_ok.1 hrest
      exact ih (hD.target ht' htarget).1 hrest
    case apply id head text as l =>
      obtain ⟨u, hu⟩ := hD.apply ht'
      simp only [hu] at hrest
      exact ih (hD.mentions ht' (.instance hu rfl)) hrest
    all_goals exact absurd (except_pure_ok.1 hrest) (by simp)

end Settled

end Qll.Types
