import Qll.Proofs.Types.Shape

/-!
# Finite layouts

A type has a finite layout when following names, instances, variables, member types, elements and
members comes to an end. Shape, size and members of such a type are found in finitely many steps:
from some number of steps on the result stays the same, and it is not that the steps were too few.
A layout stays finite when the store learns more, since what a name stands for either stays or
becomes the error type.
-/

namespace Qll.Types

open Qll.Computation
open Source (Location)

/-! ## Results that do not depend on the number of steps -/

/-- Names stand for the same whatever the limit. -/
@[simp] theorem Store.withLimit_binding? (T : Store) (n id : Nat) :
    (T.withLimit n).binding? id = T.binding? id := rfl

/-- Variables stand for the same whatever the limit. -/
@[simp] theorem Store.withLimit_bound? (T : Store) (n v : Nat) :
    (T.withLimit n).bound? v = T.bound? v := rfl

/-- A name leads to the same type whatever the limit. -/
@[simp] theorem Store.withLimit_target (T : Store) (n id : Nat) (text : String) :
    (T.withLimit n).target id text = T.target id text := rfl

section Finishing

variable {α β : Type} {x : Nat → TypeM α} {f : Nat → α → TypeM β} {T : Store} {r : Except Fault α}
  {E : Fault → Prop}

/-- A result that leaves the store as it is. -/
def unchanged (r : Except Fault α) (T : Store) : EStateM.Result Fault Store α :=
  match r with
  | .ok a => .ok a T
  | .error e => .error e T

/-- Once enough steps are allowed the result is always the same, and the store stays. -/
def Settles (x : Nat → TypeM α) (T : Store) (r : Except Fault α) : Prop :=
  ∃ N, ∀ n m, N ≤ n → N ≤ m → x n (T.withLimit m) = unchanged r (T.withLimit m)

/-- Once enough steps are allowed the result is always the same, a value or one of some faults. -/
def Finishes (E : Fault → Prop) (x : Nat → TypeM α) (T : Store) : Prop :=
  ∃ r, (∀ e, r = .error e → E e) ∧ Settles x T r

/-- What does not depend on the steps is settled from the start. -/
theorem Settles.const {x : TypeM α} (h : ∀ m, x (T.withLimit m) = unchanged r (T.withLimit m)) :
    Settles (fun _ => x) T r := ⟨0, fun _ m _ _ => h m⟩

/-- A step more may be asked for. -/
theorem Settles.succ (h : Settles (fun n => x (n + 1)) T r) : Settles x T r := by
  obtain ⟨N, hN⟩ := h
  refine ⟨N + 1, fun n m hn hm => ?_⟩
  cases n with
  | zero => omega
  | succ n => exact hN n m (by omega) (by omega)

/-- A settled computation may come behind another one. -/
theorem Settles.bind {a : α} {r : Except Fault β} (hx : Settles x T (.ok a))
    (hf : Settles (fun n => f n a) T r) : Settles (fun n => x n >>= f n) T r := by
  obtain ⟨N, hN⟩ := hx
  obtain ⟨M, hM⟩ := hf
  refine ⟨max N M, fun n m hn hm => ?_⟩
  change EStateM.bind (x n) (f n) _ = _
  rw [EStateM.bind, hN n m (by omega) (by omega)]
  exact hM n m (by omega) (by omega)

/-- A fault is settled, whatever would come behind it. -/
theorem Settles.bind_error {e : Fault} (hx : Settles x T (.error e)) :
    Settles (fun n => x n >>= f n) T (.error e) := by
  obtain ⟨N, hN⟩ := hx
  refine ⟨N, fun n m hn hm => ?_⟩
  change EStateM.bind (x n) (f n) _ = _
  rw [EStateM.bind, hN n m hn hm]
  rfl

/-- A computation that asks how many steps it may take. -/
theorem Settles.limited (h : Settles x T r) : Settles (fun _ => do x (← limit)) T r := by
  obtain ⟨N, hN⟩ := h
  exact ⟨N, fun _ m _ hm => hN m m hm hm⟩

/-- A computation settles on one result. -/
theorem Settles.unique {r' : Except Fault α} (h : Settles x T r) (h' : Settles x T r') : r = r' := by
  obtain ⟨N, hN⟩ := h
  obtain ⟨M, hM⟩ := h'
  have heq := (hN (max N M) (max N M) (by omega) (by omega)).symm.trans
    (hM (max N M) (max N M) (by omega) (by omega))
  cases r <;> cases r' <;> simp_all [unchanged]

/-- Giving a value finishes. -/
theorem Finishes.pure (a : α) : Finishes E (fun _ => (Pure.pure a : TypeM α)) T :=
  ⟨.ok a, by simp, .const fun _ => rfl⟩

/-- One of the faults in question may be raised. -/
theorem Finishes.throw {e : Fault} (he : E e) :
    Finishes E (fun _ => (MonadExcept.throw e : TypeM α)) T :=
  ⟨.error e, fun e' h => by cases h; exact he, .const fun _ => rfl⟩

/-- A step more may be asked for. -/
theorem Finishes.succ (h : Finishes E (fun n => x (n + 1)) T) : Finishes E x T := by
  obtain ⟨r, hr, hsettles⟩ := h
  exact ⟨r, hr, hsettles.succ⟩

/-- A computation that finishes may come behind another one. -/
theorem Finishes.bind (hx : Finishes E x T)
    (hf : ∀ a, Settles x T (.ok a) → Finishes E (fun n => f n a) T) :
    Finishes E (fun n => x n >>= f n) T := by
  obtain ⟨r, hr, hx⟩ := hx
  cases r with
  | ok a =>
    obtain ⟨r, hr, hf⟩ := hf a hx
    exact ⟨r, hr, hx.bind hf⟩
  | error e => exact ⟨.error e, fun e' h => hr e' (by simpa using h), hx.bind_error⟩

/-- A computation that finishes does so with as many steps as are allowed. -/
theorem Finishes.limited (h : Finishes E x T) : Finishes E (fun _ => do x (← limit)) T := by
  obtain ⟨r, hr, hsettles⟩ := h
  exact ⟨r, hr, hsettles.limited⟩

/-- A first step that takes no counted steps. -/
theorem Finishes.after {y : TypeM α} {a : α} (hy : ∀ m, y (T.withLimit m) = .ok a (T.withLimit m))
    (hf : Finishes E (fun n => f n a) T) : Finishes E (fun n => y >>= f n) T := by
  obtain ⟨r, hr, hf⟩ := hf
  exact ⟨r, hr, Settles.bind (.const hy) hf⟩

/-- Going through a list finishes if each step does. -/
theorem Finishes.foldlM {γ : Type} {g : Nat → β → γ → TypeM β} {l : List γ}
    (h : ∀ b, ∀ c ∈ l, Finishes E (fun n => g n b c) T) (b : β) :
    Finishes E (fun n => l.foldlM (g n) b) T := by
  induction l generalizing b with
  | nil => exact .pure b
  | cons c l ih =>
    simp only [List.foldlM_cons]
    exact .bind (h b c (by simp)) fun b' _ => ih (fun b c hc => h b c (by simp [hc])) b'

end Finishing

/-! ## Layouts -/

/-- What an application stands for, once it is known. -/
def Store.instance? (T : Store) (id : Nat) : Option Ty :=
  (T.applies[id]?).bind fun e => if e.cyclic then some .error else e.result

/-- A known instance is given, and the store stays. -/
theorem applied_of_instance {T : Store} {id : Nat} {u : Ty} (h : T.instance? id = some u)
    (head : Nat) (text : String) (as : List Ty) : applied id head text as T = .ok u T := by
  obtain ⟨⟨result, cyclic⟩, he, hu⟩ := Option.bind_eq_some_iff.1 h
  refine bind_ok.2 ⟨T, T, rfl, ?_⟩
  rw [he]
  cases cyclic with
  | true =>
    cases hu
    rfl
  | false =>
    obtain rfl : result = some u := hu
    rfl

/-- The shape that a type settles on. -/
def Resolves (T : Store) (t u : Ty) : Prop := Settles (fun n => resolveWithin n t) T (.ok u)

/-- Following a type comes to an end. The elements of an array count if its length is one that
`inside` says; what has no size may end it if `bare` says so, a variable without a type and a
template whose text is known. -/
inductive Layout (T : Store) (inside : Int → Prop) (bare : Prop) : Ty → Prop
  | builtin {kind l} : Layout T inside bare (.builtin kind l)
  | pointer {e l} : Layout T inside bare (.pointer e l)
  | slice {e l} : Layout T inside bare (.slice e l)
  | function {as r l} : Layout T inside bare (.function as r l)
  | template {id text} (hbare : bare)
      (h : Settles (fun _ => read (·.text (.template id))) T (.ok text)) :
      Layout T inside bare (.template id)
  | unbound {v} (hbare : bare) (h : T.bound? v = none) : Layout T inside bare (.var v)
  | array {e n l} (h : inside n → Layout T inside bare e) : Layout T inside bare (.array e n l)
  | struct {ms l} (h : ∀ m ∈ ms, Layout T inside bare m.type) : Layout T inside bare (.struct ms l)
  | name {id text l u} (h : T.target id text = .ok u) (hu : Layout T inside bare u) :
      Layout T inside bare (.name id text l)
  | apply {id head text as l u} (h : T.instance? id = some u) (hu : Layout T inside bare u) :
      Layout T inside bare (.apply id head text as l)
  | var {v u} (h : T.bound? v = some u) (hu : Layout T inside bare u) : Layout T inside bare (.var v)
  | dot {b m l} (hb : Layout T inside bare b)
      (hmembers : ∀ ms l', Resolves T b (.struct ms l') → ∀ x ∈ ms, Layout T inside bare x.type) :
      Layout T inside bare (.dot b m l)

/-- A searched member is one of the members. -/
theorem mem_of_findMember {n : Nat} {ms : List (Member Ty)} {name : String} {offset : Int}
    {r : Member Ty × Int} {s s' : Store}
    (h : findMemberWithin n ms name offset s = .ok (some r) s') : r.1 ∈ ms := by
  induction n generalizing ms offset s with
  | zero => exact absurd h throw_ok
  | succ n ih =>
    unfold findMemberWithin at h
    cases ms with
    | nil =>
      obtain ⟨h, -⟩ := pure_ok.1 h
      cases h
    | cons m rest =>
      dsimp only at h
      split at h
      · obtain ⟨h, -⟩ := pure_ok.1 h
        cases h
        exact List.mem_cons_self
      · obtain ⟨k, s₁, -, hrest⟩ := bind_ok.1 h
        exact List.mem_cons_of_mem _ (ih hrest)

namespace Layout

variable {T T' : Store} {inside : Int → Prop} {bare : Prop} {t : Ty} {E : Fault → Prop}

/-- Members are found when their sizes are. -/
theorem findMember_finishes {ms : List (Member Ty)}
    (h : ∀ m ∈ ms, Finishes E (fun n => sizeWithin n m.type) T) (name : String) (offset : Int) :
    Finishes E (fun n => findMemberWithin n ms name offset) T := by
  induction ms generalizing offset with
  | nil => exact .succ (.pure none)
  | cons m rest ih =>
    refine .succ ?_
    by_cases hname : m.name = name
    · simp only [findMemberWithin, if_pos hname]
      exact .pure _
    · simp only [findMemberWithin, if_neg hname]
      exact .bind (h m (by simp)) fun k _ => ih (fun m hm => h m (by simp [hm])) _

/-- The type of a member is found, and it is the error type or the type of a member. -/
theorem memberType_settles {b : Ty} (name : String)
    (hb : Finishes E (fun n => resolveWithin n b) T)
    (hmembers : ∀ ms l, Resolves T b (.struct ms l) → ∀ m ∈ ms,
      Finishes E (fun n => sizeWithin n m.type) T) :
    ∃ r, (∀ e, r = .error e → E e) ∧ Settles (fun n => memberTypeWithin n b name) T r ∧
      ∀ u, r = .ok u → u = .error ∨ ∃ ms l, Resolves T b (.struct ms l) ∧ ∃ m ∈ ms, u = m.type := by
  obtain ⟨r, hr, hb⟩ := hb
  cases r with
  | error e =>
    exact ⟨.error e, fun e' h => hr e' (by simpa using h), .succ hb.bind_error, by simp⟩
  | ok w =>
    cases w with
    | struct ms l =>
      obtain ⟨r, hr, hfind⟩ := findMember_finishes (hmembers ms l hb) name 0
      cases r with
      | error e =>
        exact ⟨.error e, fun e' h => hr e' (by simpa using h), .succ (hb.bind hfind.bind_error),
          by simp⟩
      | ok found =>
        cases found with
        | none =>
          exact ⟨.ok .error, by simp, .succ (hb.bind (hfind.bind (.const fun _ => rfl))),
            by simp +contextual⟩
        | some found =>
          refine ⟨.ok found.1.type, by simp, .succ (hb.bind (hfind.bind (.const fun _ => rfl))), ?_⟩
          intro u hu
          obtain ⟨N, hN⟩ := hfind
          cases hu
          exact .inr ⟨ms, l, hb, found.1, mem_of_findMember (hN N N (Nat.le_refl N) (Nat.le_refl N)),
            rfl⟩
    | _ =>
      exact ⟨.ok .error, by simp, .succ (hb.bind (.const fun _ => rfl)), by simp +contextual⟩

/-- What follows the type of a member. -/
theorem finishes_memberType {α : Type} {b : Ty} {name : String} {f : Nat → Ty → TypeM α}
    (hb : Finishes E (fun n => resolveWithin n b) T)
    (hmembers : ∀ ms l, Resolves T b (.struct ms l) → ∀ m ∈ ms,
      Finishes E (fun n => sizeWithin n m.type) T)
    (herror : Finishes E (fun n => f n .error) T)
    (hf : ∀ ms l, Resolves T b (.struct ms l) → ∀ m ∈ ms, Finishes E (fun n => f n m.type) T) :
    Finishes E (fun n => memberTypeWithin n b name >>= f n) T := by
  obtain ⟨r, hr, hmember, hcases⟩ := memberType_settles name hb hmembers
  refine .bind ⟨r, hr, hmember⟩ fun u hu => ?_
  obtain rfl | ⟨ms, l, hshape, m, hm, rfl⟩ := hcases u (hmember.unique hu)
  · exact herror
  · exact hf ms l hshape m hm

/-- The shape of a variable is that of the type it stands for. -/
theorem settles_resolve_var {v : Nat} {r : Except Fault Ty} (h : Settles (fun n => match T.bound? v with
    | some u => resolveWithin n u
    | none => pure (.var v)) T r) : Settles (fun n => resolveWithin n (.var v)) T r := by
  obtain ⟨N, hN⟩ := h
  exact .succ ⟨N, fun n m hn hm => hN n m hn hm⟩

/-- The size of a variable is that of the type it stands for. -/
theorem settles_size_var {v : Nat} {r : Except Fault Int} (h : Settles (fun n => match T.bound? v with
    | some u => sizeWithin n u
    | none => do throw (.variableSize ((← get).varName v))) T r) :
    Settles (fun n => sizeWithin n (.var v)) T r := by
  obtain ⟨N, hN⟩ := h
  refine .succ ⟨N, fun n m hn hm => ?_⟩
  unfold sizeWithin
  exact hN n m hn hm

/-- Shape and size of a type with a finite layout are found in finitely many steps. -/
theorem finishes (h : Layout T (· ≠ unsized) bare t) (hE : bare → ∀ e, e ≠ .endless → E e) :
    Finishes E (fun n => resolveWithin n t) T ∧ Finishes E (fun n => sizeWithin n t) T := by
  induction h with
  | builtin => exact ⟨.succ (.pure _), .succ (.pure _)⟩
  | pointer => exact ⟨.succ (.pure _), .succ (.pure _)⟩
  | slice => exact ⟨.succ (.pure _), .succ (.pure _)⟩
  | function => exact ⟨.succ (.pure _), .succ (.pure _)⟩
  | template hbare h =>
    refine ⟨.succ (.pure _), .succ (.bind ⟨_, by simp, h⟩ fun text _ => .throw ?_)⟩
    exact hE hbare _ (by simp)
  | @unbound v hbare h =>
    have hshape : Settles (fun n => resolveWithin n (.var v)) T (.ok (.var v)) :=
      settles_resolve_var (by rw [h]; exact .const fun _ => rfl)
    have hsize : Settles (fun n => sizeWithin n (.var v)) T (.error (.variableSize (T.varName v))) :=
      settles_size_var (by rw [h]; exact .const fun _ => rfl)
    refine ⟨⟨_, by simp, hshape⟩, _, ?_, hsize⟩
    rintro e ⟨⟩
    exact hE hbare _ (by simp)
  | @array e n l _ ih =>
    refine ⟨.succ (.pure _), .succ ?_⟩
    by_cases hn : n = unsized
    · simp only [sizeWithin, if_pos hn]
      exact .pure _
    · simp only [sizeWithin, if_neg hn]
      exact .bind (ih hn).2 fun k _ => .pure _
  | struct _ ih =>
    refine ⟨.succ (.pure _), .succ (.foldlM (fun total m hm => ?_) 0)⟩
    exact .bind (ih m hm).2 fun k _ => .pure _
  | name h _ ih =>
    exact ⟨.succ (.after (fun _ => read_ok.2 ⟨h, rfl⟩) ih.1),
      .succ (.after (fun _ => read_ok.2 ⟨h, rfl⟩) ih.2)⟩
  | apply h _ ih =>
    have hgiven (m : Nat) := applied_of_instance (T := T.withLimit m) h
    exact ⟨.succ (.after (fun m => hgiven m _ _ _) ih.1),
      .succ (.after (fun m => hgiven m _ _ _) ih.2)⟩
  | @var v u h _ ih =>
    obtain ⟨⟨r, hr, hshape⟩, r', hr', hsize⟩ := ih
    exact ⟨⟨r, hr, settles_resolve_var (by rwa [h])⟩, r', hr', settles_size_var (by rwa [h])⟩
  | dot _ _ ihb ihmembers =>
    have hsizes := fun ms l hs m hm => (ihmembers ms l hs m hm).2
    exact ⟨.succ (finishes_memberType ihb.1 hsizes (.succ (.pure _)) fun ms l hs m hm =>
        (ihmembers ms l hs m hm).1),
      .succ (finishes_memberType ihb.1 hsizes (.succ (.pure _)) hsizes)⟩

/-- A type has the shape of what it stands for. -/
theorem resolves_of_stands {u w : Ty} (h : Resolves T t w) (hu : Layout T (· ≠ unsized) bare u)
    (hstep : ∀ r, Settles (fun n => resolveWithin n u) T r →
      Settles (fun n => resolveWithin n t) T r) : Resolves T u w := by
  obtain ⟨r, -, hr⟩ := (hu.finishes (E := (· ≠ .endless)) fun _ _ h => h).1
  obtain rfl := (hstep r hr).unique h
  exact hr

/-- The members of the struct that a type stands for have finite layouts too. -/
theorem members {ms : List (Member Ty)} {l : Option Location} (h : Layout T (· ≠ unsized) bare t)
    (hms : Resolves T t (.struct ms l)) : ∀ m ∈ ms, Layout T (· ≠ unsized) bare m.type := by
  have hself {t : Ty} (ht : ∀ n, resolveWithin (n + 1) t = pure t)
      (h : Resolves T t (.struct ms l)) : t = .struct ms l := by
    have hpure : Settles (fun n => resolveWithin n t) T (.ok t) := by
      refine .succ ?_
      simp only [ht]
      exact .const fun _ => rfl
    exact Except.ok.inj (hpure.unique h)
  induction h with
  | builtin => cases hself (fun _ => rfl) hms
  | pointer => cases hself (fun _ => rfl) hms
  | slice => cases hself (fun _ => rfl) hms
  | function => cases hself (fun _ => rfl) hms
  | template => cases hself (fun _ => rfl) hms
  | array => cases hself (fun _ => rfl) hms
  | struct h =>
    cases hself (fun _ => rfl) hms
    exact h
  | name h hu ih =>
    refine ih (resolves_of_stands hms hu fun r hr => ?_)
    exact .succ (.bind (.const fun _ => read_ok.2 ⟨h, rfl⟩) hr)
  | apply h hu ih =>
    have hgiven (m : Nat) := applied_of_instance (T := T.withLimit m) h
    refine ih (resolves_of_stands hms hu fun r hr => ?_)
    exact .succ (.bind (.const fun m => hgiven m _ _ _) hr)
  | @unbound v _ h =>
    have hshape : Settles (fun n => resolveWithin n (.var v)) T (.ok (.var v)) :=
      settles_resolve_var (by rw [h]; exact .const fun _ => rfl)
    cases hshape.unique hms
  | var h hu ih =>
    exact ih (resolves_of_stands hms hu fun r hr => settles_resolve_var (by rwa [h]))
  | @dot b name l' hb hmembers _ ih =>
    have hsizes := fun ms l hs (m : Member Ty) hm =>
      ((hmembers ms l hs m hm).finishes (E := (· ≠ .endless)) fun _ _ h => h).2
    obtain ⟨r, -, hr, hcases⟩ :=
      memberType_settles name (hb.finishes (E := (· ≠ .endless)) fun _ _ h => h).1 hsizes
    cases r with
    | error e =>
      have herror : Settles (fun n => resolveWithin n (.dot b name l')) T (.error e) :=
        .succ hr.bind_error
      cases herror.unique hms
    | ok u =>
      have hstep (r : Except Fault Ty) (hu : Settles (fun n => resolveWithin n u) T r) :
          Settles (fun n => resolveWithin n (.dot b name l')) T r := .succ (hr.bind hu)
      obtain rfl | ⟨ms', l'', hshape, m, hm, rfl⟩ := hcases u rfl
      · cases (hstep (.ok .error) (.succ (.const fun _ => rfl))).unique hms
      · exact ih ms' l'' hshape m hm (resolves_of_stands hms (hmembers ms' l'' hshape m hm) hstep)

/-- A member type has a finite layout when the type it belongs to has. -/
theorem memberType {b : Ty} (h : Layout T (· ≠ unsized) bare b) (m : String) (l : Option Location) :
    Layout T (· ≠ unsized) bare (.dot b m l) := .dot h fun _ _ hs => h.members hs

end Layout

/-! ## Containment -/

/-- A type holds another one by value, or stands for it, or takes a member of it. -/
inductive Contains (T : Store) : Ty → Ty → Prop
  | element {e n l} (h : n ≠ unsized) : Contains T (.array e n l) e
  | member {ms l m} (h : m ∈ ms) : Contains T (.struct ms l) m.type
  | definition {id text l u} (h : T.target id text = .ok u) : Contains T (.name id text l) u
  | instance_ {id head text as l u} (h : T.instance? id = some u) :
      Contains T (.apply id head text as l) u
  | bound {v u} (h : T.bound? v = some u) : Contains T (.var v) u
  | base {b m l} : Contains T (.dot b m l) b
  | projection {b m l ms l' x} (h : Resolves T b (.struct ms l')) (hx : x ∈ ms) :
      Contains T (.dot b m l) x.type

/-- What a type with a finite layout contains is reached in finitely many steps. -/
theorem Layout.acc {T : Store} {bare : Prop} {t : Ty} (h : Layout T (· ≠ unsized) bare t) :
    Acc (fun u t => Contains T t u) t := by
  induction h with
  | array _ ih =>
    refine ⟨_, fun u hu => ?_⟩
    cases hu with
    | element hn => exact ih hn
  | struct _ ih =>
    refine ⟨_, fun u hu => ?_⟩
    cases hu with
    | member hm => exact ih _ hm
  | name h _ ih =>
    refine ⟨_, fun u hu => ?_⟩
    cases hu with
    | definition hu =>
      cases h.symm.trans hu
      exact ih
  | apply h _ ih =>
    refine ⟨_, fun u hu => ?_⟩
    cases hu with
    | instance_ hu =>
      cases h.symm.trans hu
      exact ih
  | var h _ ih =>
    refine ⟨_, fun u hu => ?_⟩
    cases hu with
    | bound hu =>
      cases h.symm.trans hu
      exact ih
  | unbound _ h =>
    refine ⟨_, fun u hu => ?_⟩
    cases hu with
    | bound hu => cases h.symm.trans hu
  | dot _ _ ihb ihmembers =>
    refine ⟨_, fun u hu => ?_⟩
    cases hu with
    | base => exact ihb
    | projection hs hx => exact ihmembers _ _ hs _ hx
  | _ => exact ⟨_, fun u hu => by cases hu⟩

/-- A type with a finite layout does not contain itself. -/
theorem Layout.not_contains {T : Store} {bare : Prop} {t : Ty} (h : Layout T (· ≠ unsized) bare t) :
    ¬ Relation.TransGen (Contains T) t t := by
  intro hself
  have hacc : Acc (Relation.TransGen fun u t => Contains T t u) t := h.acc.transGen
  induction hacc with
  | intro t _ ih => exact ih t (Relation.transGen_swap.2 hself) h hself

/-! ## More is learnt -/

/-- What is known of the entries of a store stays known, except that a name or an application may
turn out to stand for the error type. No variable gets a type. -/
structure Onward (T T' : Store) : Prop where
  target : ∀ {id text u}, T.target id text = .ok u →
    T'.target id text = .ok u ∨ T'.target id text = .ok .error
  instance? : ∀ {id u}, T.instance? id = some u →
    T'.instance? id = some u ∨ T'.instance? id = some .error
  vars : T'.vars = T.vars
  templates : ∀ id : Nat, (T'.templates[id]?).map (fun e => (e.params, e.body)) =
    (T.templates[id]?).map fun e => (e.params, e.body)

namespace Onward

variable {T T' T'' : Store}

/-- Nothing is learnt where nothing happens. -/
theorem refl (T : Store) : Onward T T := ⟨.inl, .inl, rfl, fun _ => rfl⟩

/-- What is learnt in two steps is learnt in both. -/
theorem trans (h : Onward T T') (h' : Onward T' T'') : Onward T T'' where
  target ht := (h.target ht).elim h'.target fun he => .inr ((h'.target he).elim id id)
  instance? ht := (h.instance? ht).elim h'.instance? fun he => .inr ((h'.instance? he).elim id id)
  vars := h'.vars.trans h.vars
  templates id := (h'.templates id).trans (h.templates id)

/-- Variables stand for the same as before. -/
theorem bound (h : Onward T T') (v : Nat) : T'.bound? v = T.bound? v := by
  simp [Store.bound?, h.vars]

/-- Plain texts do not change. -/
theorem renderWithin (h : Onward T T') (n : Nat) (t : Ty) :
    T'.renderWithin false n t = T.renderWithin false n t := by
  induction n generalizing t with
  | zero => rfl
  | succ n ih =>
    have hinner : T'.renderWithin false n = T.renderWithin false n := funext ih
    cases t with
    | var v =>
      have hname : T'.varName v = T.varName v := by simp [Store.varName, h.vars]
      simp only [Store.renderWithin, h.bound, hinner, hname]
    | template id =>
      have hentry := h.templates id
      simp only [Store.renderWithin, hinner]
      cases he : T.templates[id]? with
      | none =>
        rw [he, Option.map_none, Option.map_eq_none_iff] at hentry
        rw [hentry]
      | some e =>
        rw [he, Option.map_some, Option.map_eq_some_iff] at hentry
        obtain ⟨e', he', heq⟩ := hentry
        obtain ⟨hparams, hbody⟩ := Prod.mk.inj heq
        rw [he']
        simp only [hparams, hbody]
    | _ => simp only [Store.renderWithin, Store.nameText, hinner, Bool.false_eq_true, ↓reduceIte]

/-- The text of a template does not change. -/
theorem text (h : Onward T T') {id : Nat} {x : String}
    (hx : Settles (fun _ => read (·.text (.template id))) T (.ok x)) :
    Settles (fun _ => read (·.text (.template id))) T' (.ok x) := by
  obtain ⟨N, hN⟩ := hx
  refine ⟨N, fun n m hn hm => read_ok.2 ⟨?_, rfl⟩⟩
  have honward : Onward (T.withLimit m) (T'.withLimit m) := ⟨h.target, h.instance?, h.vars, h.templates⟩
  exact (honward.renderWithin m _).trans (read_ok.1 (hN n m hn hm)).1

end Onward

/-- A finite layout stays finite. -/
theorem Layout.onward {T T' : Store} {bare : Prop} {t : Ty} (h : Layout T (· ≠ unsized) bare t)
    (hT : Onward T T') : Layout T' (· ≠ unsized) bare t := by
  induction h with
  | builtin => exact .builtin
  | pointer => exact .pointer
  | slice => exact .slice
  | function => exact .function
  | template hbare h => exact .template hbare (hT.text h)
  | unbound hbare h => exact .unbound hbare ((hT.bound _).trans h)
  | array _ ih => exact .array ih
  | struct _ ih => exact .struct ih
  | name h _ ih => exact (hT.target h).elim (.name · ih) (.name · .builtin)
  | apply h _ ih => exact (hT.instance? h).elim (.apply · ih) (.apply · .builtin)
  | var h _ ih => exact .var ((hT.bound _).trans h) ih
  | dot _ _ ih => exact ih.memberType _ _

end Qll.Types
