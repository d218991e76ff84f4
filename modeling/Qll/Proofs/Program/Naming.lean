import Qll.Proofs.Check.Accepted
import Qll.Proofs.Program.Headers
import Qll.Proofs.Program.Recursion
import Qll.Proofs.Types.Reading

/-!
# What names stand for

However a program goes on once its declarations are entered, its names stand for what the tables and the
builtin types offer. Checking a type keeps what was resolved before, and resolves the names of the type.
-/

namespace Qll.Types

open Source (Location)

/-- A name stands for a template. -/
def Store.Templated (s : Store) (head : Nat) : Prop :=
  ∃ b template, s.binding? head = some b ∧ b.type = .template template

/-- A type in which names are resolved; what is applied is a template, or the application stands for the
error type. There are no templates in it otherwise. -/
inductive Named (s : Store) : Ty → Prop
  | builtin {kind l} : Named s (.builtin kind l)
  | name {id text l} (h : (s.binding? id).isSome) : Named s (.name id text l)
  | pointer {e l} (h : Named s e) : Named s (.pointer e l)
  | slice {e l} (h : Named s e) : Named s (.slice e l)
  | array {e n l} (h : Named s e) : Named s (.array e n l)
  | struct {ms l} (h : ∀ m ∈ ms, Named s m.type) : Named s (.struct ms l)
  | function {as r l} (has : ∀ a ∈ as, Named s a) (hr : Named s r) : Named s (.function as r l)
  | apply {id head text as l} (hhead : (s.binding? head).isSome)
      (h : s.Templated head ∨ s.result? id = some .error) (has : ∀ a ∈ as, Named s a) :
      Named s (.apply id head text as l)
  | dot {b m l} (h : Named s b) : Named s (.dot b m l)
  | var {v} : Named s (.var v)

/-- Names keep what they stand for, and errors stay. -/
structure Remembers (s s' : Store) : Prop where
  binding : ∀ {id b}, s.binding? id = some b → s'.binding? id = some b
  error : ∀ {id}, s.result? id = some .error → s'.result? id = some .error

/-- A store remembers what it knows itself. -/
theorem Remembers.refl (s : Store) : Remembers s s := ⟨fun h => h, fun h => h⟩

/-- What is remembered over two stretches is remembered over both. -/
theorem Remembers.trans {s s₁ s' : Store} (h : Remembers s s₁) (h' : Remembers s₁ s') : Remembers s s' :=
  ⟨fun hb => h'.binding (h.binding hb), fun he => h'.error (h.error he)⟩

/-- A name that stands for something goes on standing for something. -/
theorem Remembers.isSome {s s' : Store} (h : Remembers s s') {id : Nat} (hid : (s.binding? id).isSome) :
    (s'.binding? id).isSome := by
  obtain ⟨b, hb⟩ := Option.isSome_iff_exists.1 hid
  exact Option.isSome_iff_exists.2 ⟨b, h.binding hb⟩

/-- A name for a template goes on standing for it, unless its application became an error. -/
theorem Remembers.templated {s s' : Store} (h : Remembers s s') {id head : Nat}
    (hhead : s.Templated head ∨ s.result? id = some .error) :
    s'.Templated head ∨ s'.result? id = some .error :=
  hhead.imp (fun ⟨b, template, hb, htemplate⟩ => ⟨b, template, h.binding hb, htemplate⟩) h.error

/-- Resolved names stay resolved in a store that remembers them. -/
theorem Named.mono {s s' : Store} (h : Remembers s s') {t : Ty} (ht : Named s t) : Named s' t := by
  induction ht with
  | builtin => exact .builtin
  | name hid => exact .name (h.isSome hid)
  | pointer _ ih => exact .pointer ih
  | slice _ ih => exact .slice ih
  | array _ ih => exact .array ih
  | struct _ ih => exact .struct ih
  | function _ _ iha ihr => exact .function iha ihr
  | apply hhead happly _ iha => exact .apply (h.isSome hhead) (h.templated happly) iha
  | dot _ ih => exact .dot ih
  | var => exact .var

mutual

/-- A type as it is written: its new names and applications have entries of their own, those for names
from one number up to another one, in order, while the other names and applications are resolved in the
store already. There are `k` entries for applications. -/
inductive Written (T : Store) (k : Nat) : Nat → Ty → Nat → Prop
  | builtin {lo kind l} : Written T k lo (.builtin kind l) lo
  | name {lo text l} : Written T k lo (.name lo text l) (lo + 1)
  | known {lo id text l} (h : (T.binding? id).isSome) : Written T k lo (.name id text l) lo
  | pointer {lo e hi l} (h : Written T k lo e hi) : Written T k lo (.pointer e l) hi
  | slice {lo e hi l} (h : Written T k lo e hi) : Written T k lo (.slice e l) hi
  | array {lo e hi n l} (h : Written T k lo e hi) : Written T k lo (.array e n l) hi
  | struct {lo ms hi l} (h : WrittenAll T k lo (ms.map (·.type)) hi) : Written T k lo (.struct ms l) hi
  | function {lo as mid r hi l} (has : WrittenAll T k lo as mid) (hr : Written T k mid r hi) :
      Written T k lo (.function as r l) hi
  | apply {lo id mid text as l} (hid : id < k) (has : WrittenAll T k lo as mid) :
      Written T k lo (.apply id mid text as l) (mid + 1)
  | applied {lo id head text as hi l} (hhead : (T.binding? head).isSome)
      (h : T.Templated head ∨ T.result? id = some .error) (has : WrittenAll T k lo as hi) :
      Written T k lo (.apply id head text as l) hi
  | dot {lo b hi m l} (h : Written T k lo b hi) : Written T k lo (.dot b m l) hi
  | var {lo v} : Written T k lo (.var v) lo

/-- Types as they are written, one after another. -/
inductive WrittenAll (T : Store) (k : Nat) : Nat → List Ty → Nat → Prop
  | nil {lo} : WrittenAll T k lo [] lo
  | cons {lo t mid ts hi} (h : Written T k lo t mid) (hs : WrittenAll T k mid ts hi) :
      WrittenAll T k lo (t :: ts) hi

end

mutual

/-- The numbers of the new names of a type do not go down. -/
theorem Written.le {T : Store} {k lo hi : Nat} {t : Ty} : Written T k lo t hi → lo ≤ hi
  | .builtin | .var | .known _ => Nat.le_refl _
  | .name => Nat.le_succ _
  | .pointer h | .slice h | .array h | .dot h => h.le
  | .struct h | .applied _ _ h => h.le
  | .function has hr => has.le.trans hr.le
  | .apply _ has => has.le.trans (Nat.le_succ _)

/-- The numbers of the new names of several types do not go down. -/
theorem WrittenAll.le {T : Store} {k lo hi : Nat} {ts : List Ty} : WrittenAll T k lo ts hi → lo ≤ hi
  | .nil => Nat.le_refl _
  | .cons h hs => h.le.trans hs.le

end

end Qll.Types

namespace Qll.Program

open Qll.Computation
open Check (State CheckM onTypes check_bind_ok check_pure_ok check_get_ok check_modify_ok)
open Source (Decl Location)
open Qll.Types (Ty Store Scope Binding TypeM IsPlain IsQualified Named Remembers Written WrittenAll
  Upholds Learns)

/-! ## What names stand for -/

/-- What names may stand for, and in which scopes they are looked up. -/
structure Offer where
  binding : Binding → Prop
  scope : Scope → Prop
  builtin : ∀ kind : Types.Builtin, binding { qualified := kind.name, type := .builtin kind none }
  error : ∀ text, binding { qualified := text, type := .error }
  parameter : ∀ {s : Scope} {p}, scope s → p ∈ s.params → binding { qualified := p.1, type := p.2 }
  inner : ∀ {b s}, binding b → s ∈ b.scope → scope s
  space : ∀ space, scope (scopeOf space)

/-- In the tables and in the store names stand for what is offered, and variables stand for types in which
names are resolved. -/
structure Offer.Holds (O : Offer) (s : State) : Prop where
  tables : ∀ n ∈ s.spaces, ∀ p ∈ n.types, O.binding p.2
  items : ∀ item ∈ s.typeItems, O.scope item.scope
  templates : ∀ t ∈ s.templates, O.scope t.scope
  binding : ∀ {id b}, s.types.binding? id = some b → O.binding b
  bound : ∀ {v t}, s.types.bound? v = some t → Named s.types t

/-! ## Computations -/

/-- A computation that ends well keeps what holds of the state. -/
def Preserves {α : Type} (I : State → Prop) (x : CheckM α) : Prop :=
  ∀ s a s', x directory s = .ok a s' → I s → I s'

namespace Preserves

variable {α β : Type} {I : State → Prop} {x : CheckM α} {f : α → CheckM β}

/-- A value that is given back keeps the state. -/
theorem pure {a : α} : Preserves I (Pure.pure a) := by
  intro s b s' hrun hs
  obtain ⟨-, rfl⟩ := check_pure_ok.1 hrun
  exact hs

/-- A computation that fails keeps what holds, since nothing is asked of it. -/
theorem throw {e : Fault} : Preserves I (MonadExcept.throw e : CheckM α) :=
  fun _ _ _ h => absurd h Check.check_throw_ok

/-- Two computations in a row keep what each of them keeps. -/
theorem bind (hx : Preserves I x) (hf : ∀ a, Preserves I (f a)) : Preserves I (x >>= f) := by
  intro s b s' hrun hs
  obtain ⟨a, s₁, hxs, hfs⟩ := check_bind_ok.1 hrun
  exact hf a s₁ b s' hfs (hx s a s₁ hxs hs)

/-- What is made of a result does not matter to the state. -/
theorem map {g : α → β} (hx : Preserves I x) : Preserves I (g <$> x) := .bind hx fun _ => .pure

/-- A choice keeps what both of its branches keep. -/
theorem ite {c : Prop} [Decidable c] {y : CheckM α} (hx : Preserves I x) (hy : Preserves I y) :
    Preserves I (if c then x else y) := by
  split
  · exact hx
  · exact hy

/-- What follows a reading of the state is given the state. -/
theorem get {g : State → CheckM β} (h : ∀ s, I s → Preserves I (g s)) :
    Preserves I (MonadState.get >>= g) := fun s b s' hrun hs => h s hs s b s' (check_get_ok.1 hrun) hs

/-- A loop keeps what each of its rounds keeps. -/
theorem forM {g : α → CheckM PUnit} {l : List α} (h : ∀ a ∈ l, Preserves I (g a)) :
    Preserves I (l.forM g) := by
  induction l with
  | nil => exact .pure
  | cons a l ih => exact .bind (h a (by simp)) fun _ => ih fun b hb => h b (by simp [hb])

/-- Collecting results keeps what getting each of them keeps. -/
theorem mapM {g : α → CheckM β} {l : List α} (h : ∀ a ∈ l, Preserves I (g a)) :
    Preserves I (l.mapM g) := by
  induction l with
  | nil => exact .pure
  | cons a l ih =>
    rw [List.mapM_cons]
    exact .bind (h a (by simp)) fun _ => .bind (ih fun b hb => h b (by simp [hb])) fun _ => .pure

end Preserves

variable {O : Offer}

/-- What holds of a state in which names stand for what is offered, and which remembers what was resolved
in another one. -/
def After (O : Offer) (s₀ s : State) : Prop := O.Holds s ∧ Remembers s₀.types s.types

/-- A computation that can be a part of checking: it keeps what names stand for. -/
def Keeps (O : Offer) {α : Type} (x : CheckM α) : Prop := ∀ s₀, Preserves (After O s₀) x

/-- A run of a computation that keeps the offer ends in a state with the offer, which remembers the first one. -/
theorem Keeps.run {α : Type} {x : CheckM α} (hx : Keeps O x) {s s' : State} {a : α}
    (hrun : x directory s = .ok a s') (hs : O.Holds s) : After O s s' :=
  hx s s a s' hrun ⟨hs, .refl _⟩

section Steps

variable {s₀ s : State}

/-- States that come after one another do so in a row. -/
theorem After.trans {s₁ s' : State} (h : After O s₀ s₁) (h' : After O s₁ s') : After O s₀ s' :=
  ⟨h'.1, h.2.trans h'.2⟩

/-- A step with other types. -/
theorem After.onto (hs : After O s₀ s) {T : Store} (h : Remembers s.types T)
    (hbinding : ∀ {id b}, T.binding? id = some b → s.types.binding? id = some b ∨ O.binding b)
    (hbound : ∀ v, T.bound? v = s.types.bound? v) : After O s₀ { s with types := T } := by
  obtain ⟨hletter, hremembers⟩ := hs
  refine ⟨⟨hletter.tables, hletter.items, hletter.templates, fun hb => (hbinding hb).elim hletter.binding id,
    fun {v t} ht => ?_⟩, hremembers.trans h⟩
  have ht : T.bound? v = some t := ht
  exact (hletter.bound ((hbound v).symm.trans ht)).mono h

/-- Following types leaves what names stand for. -/
theorem After.learns (hs : After O s₀ s) {T : Store} (h : Learns s.types T) :
    After O s₀ { s with types := T } :=
  hs.onto ⟨fun hb => (h.binding? _).trans hb, fun he => h.result? he⟩
    (fun hb => .inl ((h.binding? _).symm.trans hb)) h.bound?

/-- Further reports change nothing of what names stand for. -/
theorem After.report (hs : After O s₀ s) (reports : Array Diagnostic) : After O s₀ { s with reports } :=
  ⟨⟨hs.1.tables, hs.1.items, hs.1.templates, hs.1.binding, hs.1.bound⟩, hs.2⟩

/-- A name is resolved. -/
theorem After.resolve (hs : After O s₀ s) {id : Nat} (hnone : s.types.binding? id = none) {b : Binding}
    (hb : O.binding b) : After O s₀ (withBinding s id b) := by
  have hbinding {j : Nat} : (withBinding s id b).types.binding? j =
      if id = j then (s.types.names[j]?).map fun _ => b else s.types.binding? j := by
    simp only [withBinding, Store.binding?, Array.getElem?_modify]
    split
    · cases s.types.names[j]? <;> rfl
    · rfl
  refine hs.onto ⟨fun {j b'} hb' => ?_, fun h => h⟩ (fun {j b'} hb' => ?_) fun _ => rfl
  · change (withBinding s id b).types.binding? j = some b'
    rw [hbinding, if_neg (by rintro rfl; simp [hnone] at hb'), hb']
  · have hb' : (withBinding s id b).types.binding? j = some b' := hb'
    rw [hbinding] at hb'
    split at hb'
    · obtain ⟨_, -, rfl⟩ := Option.map_eq_some_iff.1 hb'
      exact .inr hb
    · exact .inl hb'

/-- A change of applications in which errors stay. -/
theorem After.modify_apply (hs : After O s₀ s) {f : Types.ApplyEntry → Types.ApplyEntry}
    (hf : ∀ e, e.result = some .error → (f e).result = some .error) (id : Nat) :
    After O s₀ { s with types := { s.types with applies := s.types.applies.modify id f } } := by
  refine hs.onto ⟨fun hb => hb, fun {j} he => ?_⟩ (fun hb => .inl hb) fun _ => rfl
  obtain ⟨e, hentry, hresult⟩ := Option.bind_eq_some_iff.1 he
  simp only [Store.result?, Array.getElem?_modify, hentry]
  split
  · exact hf e hresult
  · exact hresult

end Steps

namespace Keeps

variable {α β : Type} {x : CheckM α} {f : α → CheckM β}

/-- A value that is given back keeps the offer. -/
theorem pure {a : α} : Keeps O (Pure.pure a : CheckM α) := fun _ => .pure

/-- Two computations in a row keep the offer. -/
theorem bind (hx : Keeps O x) (hf : ∀ a, Keeps O (f a)) : Keeps O (x >>= f) := fun s₀ =>
  .bind (hx s₀) fun a => hf a s₀

/-- A choice keeps the offer if both of its branches do. -/
theorem ite {c : Prop} [Decidable c] {y : CheckM α} (hx : Keeps O x) (hy : Keeps O y) :
    Keeps O (if c then x else y) := fun s₀ => .ite (hx s₀) (hy s₀)

/-- A computation that reads the state may rely on the offer. -/
theorem get {g : State → CheckM β} (h : ∀ s, O.Holds s → Keeps O (g s)) :
    Keeps O (MonadState.get >>= g) := fun s₀ => .get fun s hs => h s hs.1 s₀

/-- A loop keeps the offer if each of its rounds does. -/
theorem forM {g : α → CheckM PUnit} {l : List α} (h : ∀ a ∈ l, Keeps O (g a)) : Keeps O (l.forM g) :=
  fun s₀ => .forM fun a ha => h a ha s₀

/-- Collecting results keeps the offer if getting each of them does. -/
theorem mapM {g : α → CheckM β} {l : List α} (h : ∀ a ∈ l, Keeps O (g a)) : Keeps O (l.mapM g) :=
  fun s₀ => .mapM fun a ha => h a ha s₀

/-- Types are followed. -/
theorem types {x : TypeM α} (hx : ∀ T, Upholds (Learns T) x fun _ => True) : Keeps O (onTypes x) := by
  intro s₀ s a s' hrun hs
  obtain ⟨T, hT, rfl⟩ := Check.onTypes_ok hrun
  have hends := hx s.types s.types (.refl _)
  rw [hT] at hends
  exact hs.learns hends.1

/-- The store is read. -/
theorem read {g : Store → Except Fault α} : Keeps O (onTypes (Types.read g)) :=
  .types fun _ => .read fun _ _ _ _ => trivial

/-- Reading the limit keeps the offer. -/
theorem limit : Keeps O (onTypes Types.limit) := .types fun _ => .limit

/-- Writing a type keeps the offer. -/
theorem textOf (t : Ty) : Keeps O (Check.textOf t) := .read

/-- A report keeps the offer. -/
theorem report {scope : Scope} {severity : Diagnostic.Severity} {l : Option Location}
    {code : Diagnostic.Code} {message : String} : Keeps O (Check.report scope severity l code message) := by
  intro s₀ s u s' hrun hs
  obtain rfl := check_modify_ok.1 hrun
  exact hs.report _

/-- A report of an error keeps the offer. -/
theorem reportError {scope : Scope} {l : Option Location} {code : Diagnostic.Code} {message : String} :
    Keeps O (Check.reportError scope l code message) := .report

/-- An application that becomes an error keeps the offer. -/
theorem setError (id : Nat) : Keeps O (onTypes (Types.setResult id .error)) := by
  intro s₀ s u s' hrun hs
  cases hrun
  exact hs.modify_apply (fun _ _ => rfl) id

/-- Marking an application as circular keeps the offer. -/
theorem setCyclicApply (id : Nat) : Keeps O (onTypes (Types.setCyclicApply id)) := by
  intro s₀ s u s' hrun hs
  cases hrun
  exact hs.modify_apply (f := fun e => { e with cyclic := true }) (fun _ h => h) id

/-- Marking a name as circular keeps the offer. -/
theorem setCyclicName (id : Nat) : Keeps O (onTypes (Types.setCyclicName id)) := by
  intro s₀ s u s' hrun hs
  cases hrun
  have hbinding (j : Nat) : Store.binding? { s.types with
      names := s.types.names.modify id fun e => { e with cyclic := true } } j = s.types.binding? j := by
    simp only [Store.binding?, Array.getElem?_modify]
    split
    · cases s.types.names[j]? <;> rfl
    · rfl
  exact hs.learns ⟨hbinding, fun _ => rfl, fun h => h⟩

end Keeps

/-! ## Checking types -/

section Check

variable {scope : Scope}

/-- The builtin types are offered under their own names. -/
theorem Offer.of_ofName (O : Offer) {name : String} {kind : Types.Builtin}
    (h : Types.Builtin.ofName? name = some kind) :
    O.binding { qualified := name, type := .builtin kind none } := by
  obtain rfl := eq_name_of_ofName h
  exact O.builtin kind

/-- What a name is found to stand for is offered. -/
theorem offered_of_finds {s : State} (hs : O.Holds s) (hscope : O.scope scope) {name : String} {b : Binding}
    (h : Check.Finds scope s name b) : O.binding b := by
  obtain ⟨t, ht, rfl⟩ | ⟨kind, hkind, rfl⟩ | ⟨space, -, hfind⟩ := h.cases
  · exact O.parameter hscope ht
  · exact O.of_ofName hkind
  · simp only [findType, except_bind_ok] at hfind
    obtain ⟨found, hfound, hb⟩ := hfind
    cases found with
    | none =>
      rw [except_pure_ok] at hb
      obtain ⟨kind, hkind, rfl⟩ := Option.map_eq_some_iff.1 hb
      exact O.of_ofName hkind
    | some found =>
      obtain rfl : found = b := by simpa [except_pure_ok] using hb
      obtain ⟨home, _, hdirect⟩ := findOutwards_some hfound
      obtain ⟨entry, hentry, leaf, hleaf, -⟩ := findDirect_some hdirect
      exact hs.tables entry hentry _ hleaf

/-- What resolving a name does: it was resolved before, or it gets something that it is called after,
perhaps after a report. -/
theorem resolveName_ok {s s' : State} (hs : O.Holds s) (hscope : O.scope scope) {id : Nat} {text : String}
    {l : Option Location} {u : Unit} (hrun : Check.resolveName scope id text l directory s = .ok u s') :
    (s.types.binding? id).isSome ∧ s' = s ∨ s.types.binding? id = none ∧
      ∃ b reports, O.binding b ∧ s' = withBinding { s with reports } id b := by
  by_cases hknown : (s.types.binding? id).isSome
  · obtain ⟨b, hb⟩ := Option.isSome_iff_exists.1 hknown
    rw [Check.resolveName_of_binding hb] at hrun
    cases hrun
    exact .inl ⟨hknown, rfl⟩
  · obtain ⟨found, hfound⟩ : ∃ found, Check.lookupType scope text directory s = .ok found s := by
      unfold Check.lookupType
      rcases scope.params.lookup text with _ | t <;> rcases scope.space with _ | space <;> exact ⟨_, rfl⟩
    rw [resolveName_of_lookup hknown hfound] at hrun
    cases hrun
    refine .inr ⟨by simpa using hknown, ?_⟩
    obtain message | _ | b := found
    · exact ⟨_, _, O.error text, rfl⟩
    · exact ⟨_, _, O.error text, rfl⟩
    · exact ⟨b, s.reports, offered_of_finds hs hscope hfound, rfl⟩

/-- A name is resolved. -/
theorem keeps_resolveName (hscope : O.scope scope) (id : Nat) (text : String) (l : Option Location) :
    Keeps O (Check.resolveName scope id text l) := by
  intro s₀ s u s' hrun hs
  obtain ⟨-, rfl⟩ | ⟨hnone, b, reports, hb, rfl⟩ := resolveName_ok hs.1 hscope hrun
  · exact hs
  · exact (hs.report reports).resolve hnone hb

/-- An application that cannot have an instance is reported. -/
theorem keeps_checkApplication (id head : Nat) (text : String) (given : Nat) (l : Option Location) :
    Keeps O (Check.checkApplication scope id head text given l) := by
  refine .bind .read fun target => .bind .read fun _ => .ite (.setError id) ?_
  split
  · exact .bind (.types fun _ => Types.upholds_templateEntry _) fun _ =>
      .ite (.bind .reportError fun _ => .setError id) .pure
  · exact .bind .reportError fun _ => .setError id

/-- The names of a type are resolved. -/
theorem keeps_bindNamesWithin (hscope : O.scope scope) (n : Nat) (t : Ty) :
    Keeps O (Check.bindNamesWithin scope n t) := by
  induction n generalizing t with
  | zero => exact fun _ => .throw
  | succ n ih =>
    unfold Check.bindNamesWithin
    cases t with
    | builtin => exact .pure
    | name id text l => exact keeps_resolveName hscope id text l
    | pointer e l => exact ih e
    | slice e l => exact ih e
    | array e k l => exact ih e
    | dot b m l => exact ih b
    | struct ms l => exact .forM fun m _ => ih m.type
    | function as r l => exact .bind (.forM fun a _ => ih a) fun _ => ih r
    | apply id head text as l =>
      refine .get fun s _ => .bind (keeps_resolveName hscope head text l) fun _ => ?_
      exact .bind (.forM fun a _ => ih a) fun _ => .ite (keeps_checkApplication _ _ _ _ _) .pure
    | var v =>
      refine .get fun s _ => ?_
      split
      · exact ih _
      · exact .pure
    | template id => exact .bind (.types fun _ => Types.upholds_templateEntry _) fun e => ih e.body

/-- Resolving the names of a type keeps the offer. -/
theorem keeps_bindNames (hscope : O.scope scope) (t : Ty) : Keeps O (Check.bindNames scope t) :=
  .bind .limit fun n => keeps_bindNamesWithin hscope n t

/-- Following types leaves what names stand for. -/
theorem keeps_follow {α : Type} {x : Nat → TypeM α}
    (hx : ∀ {I : Store → Prop}, (∀ T T', Learns T T' → I T → I T') → ∀ n, Upholds I (x n) fun _ => True) :
    Keeps O (onTypes (Types.limit >>= x)) :=
  .types fun _ => .seq .limit fun n => hx (fun _ _ h h' => h'.trans h) n

/-- Resolving a type keeps the offer. -/
theorem keeps_resolve (t : Ty) : Keeps O (onTypes (Types.resolve t)) :=
  keeps_follow fun hI n => (Types.upholds_follow hI n).1 t

/-- Asking whether a type is void keeps the offer. -/
theorem keeps_isVoid (t : Ty) : Keeps O (onTypes (Types.isVoid t)) := by
  refine .types fun _ => .seq (.seq .limit fun n =>
    (Types.upholds_follow (fun _ _ h h' => Learns.trans h' h) n).1 t) fun u => ?_
  split <;> exact .pure trivial

/-- Members are checked one by one. -/
theorem keeps_checkMembers {whole : Ty} {check : Ty → CheckM Unit} {members : List (Types.Member Ty)}
    (hcheck : ∀ m ∈ members, Keeps O (check m.type)) (seen : List String) :
    Keeps O (Check.checkMembers scope whole check seen members) := by
  induction members generalizing seen with
  | nil => exact .pure
  | cons m rest ih =>
    have hrest (seen : List String) := ih (fun m hm => hcheck m (by simp [hm])) seen
    have hnext : Keeps O (do
        check m.type
        if ← onTypes (Types.isVoid m.type) then
          Check.reportError scope m.location .voidValue ("member " ++ m.name ++ " cannot have type void")
        Check.checkMembers scope whole check (m.name :: seen) rest) :=
      .bind (hcheck m (by simp)) fun _ => .bind (keeps_isVoid _) fun _ =>
        .ite (.bind .reportError fun _ => hrest _) (hrest _)
    exact .ite (.bind (.textOf whole) fun _ => .bind .reportError fun _ => hnext) hnext

/-- The use of a name is followed. -/
theorem keeps_followReference {path : Types.Path} {l : Option Location} {name label : String}
    {check : Types.Path → CheckM Unit} (h : ∀ next, Keeps O (check next)) :
    Keeps O (Check.followReference scope path l name label check) := by
  unfold Check.followReference
  split
  · exact .pure
  · exact .bind .reportError fun _ => .pure
  · exact .bind (h _) fun _ => .pure

/-- A member type without a member is reported. -/
theorem keeps_checkDot (base : Ty) (member : String) (l : Option Location) :
    Keeps O (Check.checkDot scope base member l) := by
  refine .bind (keeps_resolve base) fun shape => .bind .read fun _ => .ite .pure ?_
  split
  · refine .bind (keeps_follow fun hI n => (Types.upholds_follow hI n).2.2.1 _ _ _) fun _ => ?_
    exact .ite (.bind (.textOf base) fun _ => .reportError) .pure
  · exact .bind (.textOf base) fun _ => .reportError

/-- A type is followed through its definitions. -/
theorem keeps_kindcheckWithin (n : Nat) {scope : Scope} (hscope : O.scope scope) (path : Types.Path)
    (t : Ty) : Keeps O (Check.kindcheckWithin n scope path t) := by
  induction n generalizing scope path t with
  | zero => exact fun _ => .throw
  | succ n ih =>
    unfold Check.kindcheckWithin
    cases t with
    | builtin => exact .pure
    | name id text l =>
      refine .bind (keeps_resolveName hscope id text l) fun _ => .get fun s hs => ?_
      split
      · exact .pure
      · next b hb =>
        have hinner : O.scope (b.scope.getD scope) := by
          cases hb' : b.scope with
          | none => exact hscope
          | some inner => exact O.inner (hs.binding hb) hb'
        have hfollow (u : Ty) : Keeps O (do
            let sound ← Check.followReference scope path l b.qualified b.qualified fun next =>
              Check.kindcheckWithin n (b.scope.getD scope) next u
            if !sound then onTypes (Types.setCyclicName id)) :=
          .bind (keeps_followReference fun next => ih hinner next u) fun _ => .ite (.setCyclicName id) .pure
        split
        · exact .pure
        · exact .pure
        · exact hfollow _
    | pointer e l => exact ih hscope _ e
    | slice e l => exact ih hscope _ e
    | array e k l => exact .ite (ih hscope _ e) (.ite .reportError (ih hscope _ e))
    | struct ms l => exact keeps_checkMembers (fun m _ => ih hscope _ m.type) []
    | function as r l => exact .bind (.forM fun a _ => ih hscope _ a) fun _ => ih hscope _ r
    | apply id head text as l =>
      refine .bind (keeps_bindNames hscope _) fun _ => ?_
      refine .bind (.types fun _ => Types.upholds_applied (fun _ _ h h' => h'.trans h) id head text as)
        fun result => .bind .read fun _ => .ite .pure ?_
      refine .get fun s hs => .bind .read fun name => .bind .read fun headText => ?_
      refine .bind (.mapM fun a _ => .textOf a) fun parts => ?_
      have hinner : O.scope (((s.types.binding? head).bind (·.scope)).getD scope) := by
        cases hb : (s.types.binding? head).bind (·.scope) with
        | none => exact hscope
        | some inner =>
          obtain ⟨b, hb, hb'⟩ := Option.bind_eq_some_iff.1 hb
          exact O.inner (hs.binding hb) hb'
      split
      · exact .bind .reportError fun _ => .setCyclicApply id
      · exact .bind (keeps_followReference fun next => ih hinner next result) fun _ =>
          .ite (.setCyclicApply id) .pure
    | dot b m l => exact .bind (ih hscope _ b) fun _ => keeps_checkDot b m l
    | var v =>
      refine .get fun s _ => ?_
      split
      · exact ih hscope _ _
      · exact .pure
    | template id => exact .bind (.types fun _ => Types.upholds_templateEntry _) fun e => ih hscope _ e.body

/-- Following a type keeps the offer. -/
theorem keeps_kindcheck (hscope : O.scope scope) (path : Types.Path) (t : Ty) :
    Keeps O (Check.kindcheck scope path t) :=
  .bind .limit fun n => keeps_kindcheckWithin n hscope path t

/-- A type is resolved and checked. -/
theorem keeps_checkType (hscope : O.scope scope) (t : Ty) : Keeps O (Check.checkType scope t) :=
  .bind (keeps_bindNames hscope t) fun _ => keeps_kindcheck hscope {} t

/-! ## Names of a written type -/

/-- Where all steps leave the state, the whole does. -/
theorem forM_same {α : Type} {g : α → CheckM PUnit} {l : List α} {s s' : State} {u : PUnit}
    (h : ∀ a ∈ l, ∀ u s', g a directory s = .ok u s' → s' = s) (hrun : l.forM g directory s = .ok u s') :
    s' = s := by
  induction l with
  | nil => exact (check_pure_ok.1 hrun).2.symm
  | cons a l ih =>
    obtain ⟨_, s₁, hfirst, hrest⟩ := check_bind_ok.1 hrun
    obtain rfl := h a (by simp) _ s₁ hfirst
    exact ih (fun b hb => h b (by simp [hb])) hrest

/-- Where all names are resolved, there is nothing to do. -/
theorem bindNames_named {s s' : State} (hs : O.Holds s) {n : Nat} {t : Ty} (ht : Named s.types t)
    {u : Unit} (hrun : Check.bindNamesWithin scope n t directory s = .ok u s') : s' = s := by
  induction n generalizing t u s' with
  | zero => exact absurd hrun Check.check_throw_ok
  | succ n ih =>
    have hname {id : Nat} {text : String} {l : Option Location} (hid : (s.types.binding? id).isSome)
        {u : Unit} {s' : State} (hrun : Check.resolveName scope id text l directory s = .ok u s') : s' = s := by
      obtain ⟨b, hb⟩ := Option.isSome_iff_exists.1 hid
      rw [Check.resolveName_of_binding hb] at hrun
      cases hrun
      rfl
    unfold Check.bindNamesWithin at hrun
    cases ht with
    | builtin => exact (check_pure_ok.1 hrun).2.symm
    | name hid => exact hname hid hrun
    | pointer h | slice h | array h | dot h => exact ih h hrun
    | struct h => exact forM_same (fun m hm _ _ hrun => ih (h m hm) hrun) hrun
    | function has hr =>
      obtain ⟨_, s₁, hfirst, hrest⟩ := check_bind_ok.1 hrun
      obtain rfl := forM_same (fun a ha _ _ hrun => ih (has a ha) hrun) hfirst
      exact ih hr hrest
    | apply hhead _ has =>
      rw [check_get_ok, hhead] at hrun
      obtain ⟨_, s₁, hfirst, hrest⟩ := check_bind_ok.1 hrun
      obtain rfl := hname hhead hfirst
      obtain ⟨_, s₂, hargs, hlast⟩ := check_bind_ok.1 hrest
      obtain rfl := forM_same (fun a ha _ _ hrun => ih (has a ha) hrun) hargs
      exact (check_pure_ok.1 hlast).2.symm
    | @var v =>
      rw [check_get_ok] at hrun
      cases hv : s.types.bound? v with
      | none =>
        rw [hv] at hrun
        exact (check_pure_ok.1 hrun).2.symm
      | some t =>
        rw [hv] at hrun
        exact ih (hs.bound hv) hrun

/-- Of the entries for names only those that are said get something. -/
structure Fills (R : Nat → Prop) (s s' : State) : Prop where
  names : s'.types.names.size = s.types.names.size
  applies : s'.types.applies.size = s.types.applies.size
  others : ∀ id, ¬ R id → s'.types.binding? id = s.types.binding? id

/-- Nothing gets anything if nothing happens. -/
theorem Fills.refl (R : Nat → Prop) (s : State) : Fills R s s := ⟨rfl, rfl, fun _ _ => rfl⟩

/-- The entries that get something over two stretches are those of either one. -/
theorem Fills.trans {R R' : Nat → Prop} {s s₁ s' : State} (h : Fills R s s₁) (h' : Fills R' s₁ s') :
    Fills (fun id => R id ∨ R' id) s s' :=
  ⟨h'.names.trans h.names, h'.applies.trans h.applies, fun id hid =>
    (h'.others id fun h => hid (.inr h)).trans (h.others id fun h => hid (.inl h))⟩

/-- More entries may be said to get something. -/
theorem Fills.mono {R R' : Nat → Prop} {s s' : State} (h : Fills R s s') (hR : ∀ id, R id → R' id) :
    Fills R' s s' := ⟨h.names, h.applies, fun id hid => h.others id fun h => hid (hR id h)⟩

/-- A state after another one in which some entries for names are not resolved and which has `k` entries
for applications. -/
structure Blank (O : Offer) (s₀ : State) (k : Nat) (R : Nat → Prop) (s : State) : Prop where
  after : After O s₀ s
  names : ∀ id, R id → id < s.types.names.size ∧ s.types.binding? id = none
  applies : k ≤ s.types.applies.size

/-- A computation that resolves some entries for names, after which something is known of the store. -/
def Resolves (O : Offer) (s₀ : State) (k : Nat) (R : Nat → Prop) (Q : Store → Prop) (x : CheckM Unit) : Prop :=
  Keeps O x ∧ ∀ s u s', Blank O s₀ k R s → x directory s = .ok u s' → Fills R s s' ∧ Q s'.types

/-- What is known of a store and stays known. -/
def Lasting (Q : Store → Prop) : Prop := ∀ T T' : Store, Remembers T T' → Q T → Q T'

namespace Resolves

variable {s₀ : State} {k : Nat} {R R₁ R₂ : Nat → Prop} {Q Q₁ Q₂ : Store → Prop} {x y : CheckM Unit}

/-- A value that is given back resolves nothing. -/
theorem pure (O : Offer) (s₀ : State) (k : Nat) (R : Nat → Prop) :
    Resolves O s₀ k R (fun _ => True) (Pure.pure ()) := by
  refine ⟨.pure, fun s u s' _ hrun => ?_⟩
  obtain ⟨-, rfl⟩ := check_pure_ok.1 hrun
  exact ⟨.refl _ _, trivial⟩

/-- Less may be asked of the store after a computation. -/
theorem mono (hx : Resolves O s₀ k R Q x) (h : ∀ T, Q T → Q₁ T) : Resolves O s₀ k R Q₁ x :=
  ⟨hx.1, fun s u s' hs hrun => (hx.2 s u s' hs hrun).imp_right (h _)⟩

/-- Two computations that resolve different entries. -/
theorem seq (hx : Resolves O s₀ k R₁ Q₁ x) (hy : Resolves O s₀ k R₂ Q₂ y) (hQ : Lasting Q₁)
    (hR : ∀ id, R₁ id ∨ R₂ id → R id) (hdisjoint : ∀ id, R₁ id → ¬ R₂ id) :
    Resolves O s₀ k R (fun T => Q₁ T ∧ Q₂ T) (x >>= fun _ => y) := by
  refine ⟨.bind hx.1 fun _ => hy.1, fun s u s' hs hrun => ?_⟩
  obtain ⟨_, s₁, hrunx, hruny⟩ := check_bind_ok.1 hrun
  have hafter₁ := hx.1.run hrunx hs.after.1
  have hafter₂ := hy.1.run hruny hafter₁.1
  obtain ⟨hfills₁, hQ₁⟩ := hx.2 s _ s₁
    ⟨hs.after, fun id hid => hs.names id (hR id (.inl hid)), hs.applies⟩ hrunx
  obtain ⟨hfills₂, hQ₂⟩ := hy.2 s₁ _ s' ⟨hs.after.trans hafter₁, fun id hid => by
    rw [hfills₁.names, hfills₁.others id fun h => hdisjoint id h hid]
    exact hs.names id (hR id (.inr hid)), hfills₁.applies ▸ hs.applies⟩ hruny
  exact ⟨(hfills₁.trans hfills₂).mono hR, hQ _ _ hafter₂.2 hQ₁, hQ₂⟩

end Resolves

/-- The entries from one number up to another one. -/
def Slots (lo hi id : Nat) : Prop := lo ≤ id ∧ id < hi

variable {s₀ : State}

/-- An entry is resolved. -/
theorem resolves_resolveName (hscope : O.scope scope) (k id : Nat) (text : String) (l : Option Location) :
    Resolves O s₀ k (Slots id (id + 1)) (fun T => (T.binding? id).isSome)
      (Check.resolveName scope id text l) := by
  refine ⟨keeps_resolveName hscope id text l, fun s u s' hs hrun => ?_⟩
  obtain ⟨hlt, hnone⟩ := hs.names id ⟨Nat.le_refl _, Nat.lt_succ_self _⟩
  obtain ⟨hsome, -⟩ | ⟨-, b, reports, -, rfl⟩ := resolveName_ok hs.after.1 hscope hrun
  · simp [hnone] at hsome
  · have hbinding := binding_withBinding (s := { s with reports }) hlt b
    refine ⟨⟨by simp [withBinding], rfl, fun j hj => ?_⟩, by simp [hbinding]⟩
    have hne : id ≠ j := by
      rintro rfl
      exact hj ⟨Nat.le_refl _, Nat.lt_succ_self _⟩
    rw [hbinding, if_neg hne]

/-- A name that is resolved stays as it is. -/
theorem resolves_known (hscope : O.scope scope) {k id : Nat} {R : Nat → Prop}
    (hid : (s₀.types.binding? id).isSome) (text : String) (l : Option Location) :
    Resolves O s₀ k R (fun T => (T.binding? id).isSome) (Check.resolveName scope id text l) := by
  refine ⟨keeps_resolveName hscope id text l, fun s u s' hs hrun => ?_⟩
  have hsome := hs.after.2.isSome hid
  obtain ⟨b, hb⟩ := Option.isSome_iff_exists.1 hsome
  rw [Check.resolveName_of_binding hb] at hrun
  cases hrun
  exact ⟨.refl _ _, hsome⟩

/-- What is applied is a template, or the application stands for the error type. -/
theorem resolves_checkApplication {k id head : Nat} (hid : id < k) (text : String) (given : Nat)
    (l : Option Location) : Resolves O s₀ k (fun _ => False)
      (fun T => T.Templated head ∨ T.result? id = some .error)
      (Check.checkApplication scope id head text given l) := by
  refine ⟨keeps_checkApplication id head text given l, fun s u s' hs hrun => ?_⟩
  have hset {s₁ : State} {u : Unit} (hs₁ : s₁.types = s.types)
      (h : onTypes (Types.setResult id .error) directory s₁ = .ok u s') :
      Fills (fun _ => False) s s' ∧ s'.types.result? id = some .error := by
    cases h
    have hlt : id < s₁.types.applies.size := by
      rw [hs₁]
      exact Nat.lt_of_lt_of_le hid hs.applies
    refine ⟨⟨congrArg (·.names.size) hs₁, by simp [hs₁], fun j _ => ?_⟩, ?_⟩
    · change s₁.types.binding? j = _
      rw [hs₁]
    · simp only [Store.result?, Array.getElem?_modify, if_true, Array.getElem?_eq_getElem hlt]
      rfl
  have hreport {code : Diagnostic.Code} {message : String}
      (h : (Check.reportError scope l code message >>= fun _ =>
        onTypes (Types.setResult id .error)) directory s = .ok u s') :
      Fills (fun _ => False) s s' ∧ s'.types.result? id = some .error := by
    obtain ⟨_, s₁, hreport, hlast⟩ := check_bind_ok.1 h
    exact hset (Check.report_types hreport).1 hlast
  obtain ⟨target, s₁, hread, h₁⟩ := check_bind_ok.1 hrun
  obtain ⟨bad, s₂, herror, h₂⟩ := check_bind_ok.1 h₁
  obtain ⟨htarget, rfl⟩ := Check.onTypes_read hread
  obtain ⟨-, rfl⟩ := Check.onTypes_read herror
  split at h₂
  · exact (hset rfl h₂).imp_right .inr
  split at h₂
  · next template =>
    obtain ⟨entry, s₃, hentry, h₃⟩ := check_bind_ok.1 h₂
    obtain ⟨-, rfl⟩ := Check.onTypes_entry hentry
    split at h₃
    · exact (hreport h₃).imp_right .inr
    · obtain ⟨-, rfl⟩ := check_pure_ok.1 h₃
      refine ⟨.refl _ _, .inl ?_⟩
      unfold Store.target at htarget
      split at htarget
      · next b cyclic he =>
        have htype : (if cyclic then Ty.error else b.type) = .template template := Except.ok.inj htarget
        cases cyclic with
        | true => cases htype
        | false => exact ⟨b, template, by simp [Store.binding?, he], htype⟩
      · cases htarget
  · exact (hreport h₂).imp_right .inr

/-- The names of some written types are resolved, one type after another. -/
theorem resolves_all {α : Type} {type : α → Ty} {items : List α} {g : α → CheckM Unit} {k lo hi : Nat}
    (hg : ∀ a ∈ items, ∀ lo hi, Written s₀.types k lo (type a) hi →
      Resolves O s₀ k (Slots lo hi) (Named · (type a)) (g a))
    (h : WrittenAll s₀.types k lo (items.map type) hi) :
    Resolves O s₀ k (Slots lo hi) (fun T => ∀ a ∈ items, Named T (type a)) (items.forM g) := by
  induction items generalizing lo with
  | nil => exact (Resolves.pure O s₀ k _).mono fun T _ => by simp
  | cons a items ih =>
    obtain ⟨⟩ | @⟨_, _, mid, _, _, hfirst, hrest⟩ := h
    refine (Resolves.seq (hg a (by simp) lo mid hfirst) (ih (fun b hb => hg b (by simp [hb])) hrest)
      (fun _ _ h ht => ht.mono h) ?_ ?_).mono fun T h => by simpa using h
    · exact fun id hid => hid.elim (fun h => ⟨h.1, h.2.trans_le hrest.le⟩) fun h => ⟨hfirst.le.trans h.1, h.2⟩
    · exact fun id hid hid' => Nat.lt_irrefl _ (hid.2.trans_le hid'.1)

/-- The names of a written type are resolved. -/
theorem resolves_bindNamesWithin (hscope : O.scope scope) (n : Nat) {k lo hi : Nat} {t : Ty}
    (ht : Written s₀.types k lo t hi) :
    Resolves O s₀ k (Slots lo hi) (Named · t) (Check.bindNamesWithin scope n t) := by
  induction n generalizing t lo hi with
  | zero => exact ⟨fun _ => .throw, fun _ _ _ _ hrun => absurd hrun Check.check_throw_ok⟩
  | succ n ih =>
    have hkeeps := keeps_bindNamesWithin hscope (n + 1) t
    have hargs {as : List Ty} {lo hi : Nat} (has : WrittenAll s₀.types k lo as hi) :
        Resolves O s₀ k (Slots lo hi) (fun T => ∀ a ∈ as, Named T a)
          (as.forM (Check.bindNamesWithin scope n)) :=
      resolves_all (fun a _ lo hi (ha : Written s₀.types k lo a hi) => ih ha) (by simpa using has)
    have hlasting (as : List Ty) : Lasting fun T => ∀ a ∈ as, Named T a :=
      fun _ _ h has a ha => (has a ha).mono h
    unfold Check.bindNamesWithin at hkeeps ⊢
    cases ht with
    | builtin => exact (Resolves.pure O s₀ k _).mono fun _ _ => .builtin
    | @name _ text l => exact (resolves_resolveName hscope k lo text l).mono fun _ h => .name h
    | @known _ id text l h => exact (resolves_known hscope h text l).mono fun _ h => .name h
    | pointer h => exact (ih h).mono fun _ h => .pointer h
    | slice h => exact (ih h).mono fun _ h => .slice h
    | array h => exact (ih h).mono fun _ h => .array h
    | dot h => exact (ih h).mono fun _ h => .dot h
    | struct h => exact (resolves_all (fun m _ lo hi hm => ih hm) h).mono fun _ h => .struct h
    | @function _ as mid r _ l has hr =>
      refine (Resolves.seq (hargs has) (ih hr) (hlasting as) ?_ ?_).mono fun _ h => .function h.1 h.2
      · exact fun id hid => hid.elim (fun h => ⟨h.1, h.2.trans_le hr.le⟩) fun h => ⟨has.le.trans h.1, h.2⟩
      · exact fun id hid hid' => Nat.lt_irrefl _ (hid.2.trans_le hid'.1)
    | @apply _ id mid text as l hid has =>
      refine ⟨hkeeps, fun s u s' hs hrun => ?_⟩
      have hnone : s.types.binding? mid = none := (hs.names mid ⟨has.le, Nat.lt_succ_self _⟩).2
      rw [check_get_ok, hnone] at hrun
      have hcheck : Resolves O s₀ k (fun _ => False) (fun T => T.Templated mid ∨ T.result? id = some .error)
          (Check.checkApplication scope id mid text as.length l) := resolves_checkApplication hid text as.length l
      have hall := Resolves.seq (R := Slots lo (mid + 1)) (resolves_resolveName hscope k mid text l)
        (Resolves.seq (R := Slots lo mid) (hargs has) hcheck (hlasting as)
          (fun id h => h.elim (fun h => h) False.elim) fun _ _ h => h)
        (fun _ _ h hsome => h.isSome hsome) (fun i hi => ?_) (fun i hi hi' => ?_)
      · obtain ⟨hfills, hhead, has, happly⟩ := hall.2 s u s' hs hrun
        exact ⟨hfills, .apply hhead happly has⟩
      · exact hi.elim (fun h => ⟨has.le.trans h.1, h.2⟩) fun h => ⟨h.1, h.2.trans (Nat.lt_succ_self _)⟩
      · exact Nat.lt_irrefl _ (hi'.2.trans_le hi.1)
    | @applied _ id head text as hi l hhead happly has =>
      refine ⟨hkeeps, fun s u s' hs hrun => ?_⟩
      have hafter := hs.after.trans (hkeeps.run hrun hs.after.1)
      rw [check_get_ok, hs.after.2.isSome hhead] at hrun
      have hknown : Resolves O s₀ k (fun _ => False) (fun T => (T.binding? head).isSome)
          (Check.resolveName scope head text l) := resolves_known hscope hhead text l
      have hall := Resolves.seq (R := Slots lo hi) hknown
        (Resolves.seq (R := Slots lo hi) (hargs has) (.pure O s₀ k fun _ => False) (hlasting as)
          (fun id h => h.elim (fun h => h) False.elim) fun _ _ h => h)
        (fun _ _ h hsome => h.isSome hsome) (fun i hi => hi.elim False.elim fun h => h) fun _ h => h.elim
      obtain ⟨hfills, hhead, has, -⟩ := hall.2 s u s' hs hrun
      exact ⟨hfills, .apply hhead (hafter.2.templated happly) has⟩
    | @var _ v =>
      refine ⟨hkeeps, fun s u s' hs hrun => ?_⟩
      obtain rfl : s' = s := bindNames_named hs.after.1 (n := n + 1) (.var (v := v)) hrun
      exact ⟨.refl _ _, .var⟩

end Check

end Qll.Program
