import Qll.Proofs.Types.Shape
import Qll.Types.Unify

/-!
# The names that occur in types

A vocabulary says which names declarations and members may have, which entries for names are known
to be resolved, and which templates may be used. A type is admitted when nothing else occurs in it,
and a store fits when it holds admitted types only. Whatever is computed from admitted types in a
store that fits is admitted, and the store still fits: substitution, instances, shapes and
comparisons make up no names of their own.
-/

namespace Qll.Types

open Qll.Computation

/-! ## Parts of types -/

/-- What is asked of the parts of a type. -/
structure Parts where
  /-- The entry and the text of a name, or of the head of an application. -/
  name : Nat → String → Prop
  member : String → Prop
  var : Nat → Prop
  template : Nat → Prop

mutual

/-- Every part of a type is as asked. -/
def Ty.Over (P : Parts) : Ty → Prop
  | .builtin .. => True
  | .name id text _ => P.name id text
  | .pointer e _ | .slice e _ | .array e _ _ => e.Over P
  | .struct members _ => MembersOver P members
  | .function arguments result _ => TypesOver P arguments ∧ result.Over P
  | .apply _ head text arguments _ => P.name head text ∧ TypesOver P arguments
  | .dot base member _ => base.Over P ∧ P.member member
  | .var v => P.var v
  | .template id => P.template id

/-- Every part of some types is as asked. -/
def TypesOver (P : Parts) : List Ty → Prop
  | [] => True
  | t :: rest => t.Over P ∧ TypesOver P rest

/-- Every part of some members is as asked. -/
def MembersOver (P : Parts) : List (Member Ty) → Prop
  | [] => True
  | ⟨name, type, _⟩ :: rest => (P.member name ∧ type.Over P) ∧ MembersOver P rest

end

/-- Types are as asked if each of them is. -/
theorem typesOver_iff {P : Parts} {ts : List Ty} : TypesOver P ts ↔ ∀ t ∈ ts, t.Over P := by
  induction ts with
  | nil => simp [TypesOver]
  | cons t ts ih => simp [TypesOver, ih]

/-- Members are as asked if the name and the type of each of them are. -/
theorem membersOver_iff {P : Parts} {ms : List (Member Ty)} :
    MembersOver P ms ↔ ∀ m ∈ ms, P.member m.name ∧ m.type.Over P := by
  induction ms with
  | nil => simp [MembersOver]
  | cons m ms ih => simp [MembersOver, ih]

mutual

/-- Less may be asked. -/
theorem Ty.Over.mono {P P' : Parts} (hname : ∀ id text, P.name id text → P'.name id text)
    (hmember : ∀ m, P.member m → P'.member m) (hvar : ∀ v, P.var v → P'.var v)
    (htemplate : ∀ id, P.template id → P'.template id) : ∀ {t : Ty}, t.Over P → t.Over P'
  | .builtin .., _ => trivial
  | .name .., h => hname _ _ h
  | .pointer e _, h | .slice e _, h | .array e _ _, h =>
    Ty.Over.mono hname hmember hvar htemplate (t := e) h
  | .struct _ _, h => MembersOver.mono hname hmember hvar htemplate h
  | .function _ r _, h => ⟨TypesOver.mono hname hmember hvar htemplate h.1,
      Ty.Over.mono hname hmember hvar htemplate (t := r) h.2⟩
  | .apply .., h => ⟨hname _ _ h.1, TypesOver.mono hname hmember hvar htemplate h.2⟩
  | .dot b _ _, h => ⟨Ty.Over.mono hname hmember hvar htemplate (t := b) h.1, hmember _ h.2⟩
  | .var _, h => hvar _ h
  | .template _, h => htemplate _ h

/-- Less may be asked of types. -/
theorem TypesOver.mono {P P' : Parts} (hname : ∀ id text, P.name id text → P'.name id text)
    (hmember : ∀ m, P.member m → P'.member m) (hvar : ∀ v, P.var v → P'.var v)
    (htemplate : ∀ id, P.template id → P'.template id) :
    ∀ {ts : List Ty}, TypesOver P ts → TypesOver P' ts
  | [], _ => trivial
  | t :: _, h => ⟨Ty.Over.mono hname hmember hvar htemplate (t := t) h.1,
      TypesOver.mono hname hmember hvar htemplate h.2⟩

/-- Less may be asked of members. -/
theorem MembersOver.mono {P P' : Parts} (hname : ∀ id text, P.name id text → P'.name id text)
    (hmember : ∀ m, P.member m → P'.member m) (hvar : ∀ v, P.var v → P'.var v)
    (htemplate : ∀ id, P.template id → P'.template id) :
    ∀ {ms : List (Member Ty)}, MembersOver P ms → MembersOver P' ms
  | [], _ => trivial
  | ⟨_, t, _⟩ :: _, h => ⟨⟨hmember _ h.1.1, Ty.Over.mono hname hmember hvar htemplate (t := t) h.1.2⟩,
      MembersOver.mono hname hmember hvar htemplate h.2⟩

end

/-! ## Vocabularies -/

/-- A qualified name whose parts are accepted. -/
inductive IsQualified (accepts : String → Prop) : String → Prop
  | name {n : String} (h : accepts n) : IsQualified accepts n
  | nested {q n : String} (hq : IsQualified accepts q) (h : accepts n) :
      IsQualified accepts (q ++ "::" ++ n)

/-- The names that may occur in types: accepted ones, which declarations and members have, and
entries that are known to be resolved. -/
structure Vocabulary where
  accepts : String → Prop
  resolved : Nat → Prop
  template : Nat → Prop
  /-- How many entries for names there are at least. -/
  entries : Nat
  /-- What is known of the other templates. -/
  idle : Nat → TemplateEntry → Prop
  root : accepts "global"
  null : accepts "null"
  builtin : ∀ kind : Builtin, accepts kind.name

namespace Vocabulary

variable (V : Vocabulary)

/-- A name is resolved, or reads as a qualified name. -/
def parts : Parts where
  name id text := V.resolved id ∨ IsQualified V.accepts text
  member := V.accepts
  var _ := True
  template := V.template

/-- Only names of the vocabulary occur in a type. -/
def Admits (t : Ty) : Prop := t.Over V.parts

/-- Only names of the vocabulary occur in a member. -/
def AdmitsMember (m : Member Ty) : Prop := V.accepts m.name ∧ V.Admits m.type

/-- The template parameters of a scope are admitted. -/
def Scopes (scope : Scope) : Prop := ∀ p ∈ scope.params, V.accepts p.1 ∧ V.Admits p.2

/-- What a name stands for is admitted. -/
structure Binds (b : Binding) : Prop where
  qualified : IsQualified V.accepts b.qualified
  type : V.Admits b.type
  scope : ∀ scope ∈ b.scope, V.Scopes scope

/-- A store holds admitted types only, and the entries known to be resolved are. -/
structure Fits (s : Store) : Prop where
  entries : V.entries ≤ s.names.size
  resolved : ∀ {id}, V.resolved id → (s.binding? id).isSome
  binding : ∀ {id b}, s.binding? id = some b → V.Binds b
  result : ∀ {id : Nat} {e : ApplyEntry} {t}, s.applies[id]? = some e → e.result = some t → V.Admits t
  bound : ∀ {v t}, s.bound? v = some t → V.Admits t
  varName : ∀ {v : Nat} {e : VarEntry}, s.vars[v]? = some e → e.name = "" ∨ V.accepts e.name
  body : ∀ {id : Nat} {e : TemplateEntry}, V.template id → s.templates[id]? = some e → V.Admits e.body
  instances : ∀ {id : Nat} {e : TemplateEntry} {p}, V.template id → s.templates[id]? = some e →
    p ∈ e.instances → V.Admits p.2
  idle : ∀ {id : Nat} {e : TemplateEntry}, ¬ V.template id → s.templates[id]? = some e → V.idle id e

variable {V} {s : Store}

/-- Builtin types are always admitted. -/
@[simp] theorem admits_builtin {kind : Builtin} {l : Option Source.Location} :
    V.Admits (.builtin kind l) := trivial

/-- The error type is always admitted. -/
@[simp] theorem admits_error : V.Admits .error := trivial

/-- The type of bytes is always admitted. -/
@[simp] theorem admits_byte : V.Admits .byte := trivial

/-- The void type is always admitted. -/
@[simp] theorem admits_void : V.Admits .void := trivial

/-- A name is admitted if it is resolved, or may be written. -/
@[simp] theorem admits_name {id : Nat} {text : String} {l : Option Source.Location} :
    V.Admits (.name id text l) ↔ V.resolved id ∨ IsQualified V.accepts text := Iff.rfl

/-- A pointer is admitted with what it points to. -/
@[simp] theorem admits_pointer {e : Ty} {l : Option Source.Location} :
    V.Admits (.pointer e l) ↔ V.Admits e := Iff.rfl

/-- A slice is admitted with its elements. -/
@[simp] theorem admits_slice {e : Ty} {l : Option Source.Location} :
    V.Admits (.slice e l) ↔ V.Admits e := Iff.rfl

/-- An array is admitted with its elements, whatever its length. -/
@[simp] theorem admits_array {e : Ty} {n : Int} {l : Option Source.Location} :
    V.Admits (.array e n l) ↔ V.Admits e := Iff.rfl

/-- A struct is admitted with its members. -/
@[simp] theorem admits_struct {ms : List (Member Ty)} {l : Option Source.Location} :
    V.Admits (.struct ms l) ↔ ∀ m ∈ ms, V.AdmitsMember m := membersOver_iff

/-- A type of functions is admitted with its parameters and its result. -/
@[simp] theorem admits_function {as : List Ty} {r : Ty} {l : Option Source.Location} :
    V.Admits (.function as r l) ↔ (∀ a ∈ as, V.Admits a) ∧ V.Admits r :=
  and_congr_left' typesOver_iff

/-- An application is admitted if its head may be named, with its arguments. -/
@[simp] theorem admits_apply {id head : Nat} {text : String} {as : List Ty}
    {l : Option Source.Location} : V.Admits (.apply id head text as l) ↔
      (V.resolved head ∨ IsQualified V.accepts text) ∧ ∀ a ∈ as, V.Admits a :=
  and_congr_right' typesOver_iff

/-- A member type is admitted if the member may be named, with the type it is taken of. -/
@[simp] theorem admits_dot {b : Ty} {m : String} {l : Option Source.Location} :
    V.Admits (.dot b m l) ↔ V.Admits b ∧ V.accepts m := Iff.rfl

/-- Variables are always admitted. -/
@[simp] theorem admits_var {v : Nat} : V.Admits (.var v) := trivial

/-- A template is admitted if the vocabulary has it. -/
@[simp] theorem admits_template {id : Nat} : V.Admits (.template id) ↔ V.template id := Iff.rfl

namespace Fits

/-- A name that is not resolved reads as a qualified name. -/
theorem text_of_unresolved (hs : V.Fits s) {id : Nat} {text : String}
    (h : V.resolved id ∨ IsQualified V.accepts text) (hnone : s.binding? id = none) :
    IsQualified V.accepts text := by
  refine h.resolve_left fun hid => ?_
  have := hs.resolved hid
  simp [hnone] at this

/-- What a name stands for. -/
theorem target (hs : V.Fits s) {id : Nat} {text : String} {t : Ty} (h : s.target id text = .ok t) :
    V.Admits t := by
  unfold Store.target at h
  split at h
  · next b cyclic he =>
    obtain rfl : (if cyclic then Ty.error else b.type) = t := by simpa using h
    split
    · exact admits_error
    · have hb : s.binding? id = some b := by simp [Store.binding?, he]
      exact (hs.binding hb).type
  · cases h

/-- What a variable, or a name of a template parameter, stands for. -/
theorem normalizeWithin (hs : V.Fits s) {n : Nat} {t u : Ty} (ht : V.Admits t)
    (h : s.normalizeWithin n t = .ok u) : V.Admits u := by
  induction n generalizing t with
  | zero => cases h
  | succ n ih =>
    unfold Store.normalizeWithin at h
    split at h
    · split at h
      · cases h
        exact ht
      · next hbound => exact ih (hs.bound hbound) h
    · split at h
      · exact ih admits_var h
      · cases h
        exact ht
    · cases h
      exact ht

/-- Following variables leaves an admitted type. -/
theorem normalize (hs : V.Fits s) {t u : Ty} (ht : V.Admits t) (h : s.normalize t = .ok u) :
    V.Admits u := hs.normalizeWithin ht h

end Fits

/-! ## Computations -/

variable (V) in
/-- A computation keeps a store that fits, and gives what is said. -/
def Keeps {α : Type} (Q : α → Prop) (x : TypeM α) : Prop :=
  ∀ s a s', V.Fits s → x s = .ok a s' → V.Fits s' ∧ Q a

namespace Keeps

variable {α β : Type} {Q Q' : α → Prop} {R : β → Prop} {x : TypeM α} {f : α → TypeM β}

/-- A value may be given that is as it is said. -/
theorem pure {a : α} (h : Q a) : V.Keeps Q (Pure.pure a) := by
  intro s b s' hs hrun
  obtain ⟨rfl, rfl⟩ := pure_ok.1 hrun
  exact ⟨hs, h⟩

/-- Of a fault nothing is said. -/
theorem throw {e : Fault} : V.Keeps Q (MonadExcept.throw e : TypeM α) :=
  fun _ _ _ _ h => absurd h throw_ok

/-- Computations that keep the store do so one behind the other. -/
theorem bind (hx : V.Keeps Q x) (hf : ∀ a, Q a → V.Keeps R (f a)) : V.Keeps R (x >>= f) := by
  intro s b s' hs h
  obtain ⟨a, s₁, hxs, hfs⟩ := bind_ok.1 h
  obtain ⟨hs₁, ha⟩ := hx s a s₁ hs hxs
  exact hf a ha s₁ b s' hs₁ hfs

/-- What is said may be weakened. -/
theorem mono (hx : V.Keeps Q x) (h : ∀ a, Q a → Q' a) : V.Keeps Q' x :=
  fun s a s' hs hrun => (hx s a s' hs hrun).imp_right (h a)

/-- Of a step that is done for its effect nothing needs to be said. -/
theorem drop (hx : V.Keeps Q x) : V.Keeps (fun _ => True) x := hx.mono fun _ _ => trivial

/-- Either of two computations may be taken. -/
theorem ite {c : Prop} [Decidable c] {y : TypeM α} (hx : V.Keeps Q x) (hy : V.Keeps Q y) :
    V.Keeps Q (if c then x else y) := by
  split
  · exact hx
  · exact hy

/-- What follows a reading of the store knows that it fits. -/
theorem get {g : Store → TypeM β} (h : ∀ s, V.Fits s → V.Keeps R (g s)) :
    V.Keeps R (MonadState.get >>= g) :=
  fun s b s' hs hg => h s hs s b s' hs (get_bind_ok.1 hg)

/-- A reading of the store. -/
theorem read {g : Store → Except Fault α} (h : ∀ s a, V.Fits s → g s = .ok a → Q a) :
    V.Keeps Q (Types.read g) := by
  intro s a s' hs hrun
  obtain ⟨hg, rfl⟩ := read_ok.1 hrun
  exact ⟨hs, h s a hs hg⟩

/-- The number of steps may be looked at. -/
theorem limit : V.Keeps (fun _ => True) Types.limit := by
  intro s n s' hs h
  obtain ⟨-, rfl⟩ := limit_ok.1 h
  exact ⟨hs, trivial⟩

/-- A change of the store. -/
theorem update {g : Store → Store} (h : ∀ s, V.Fits s → V.Fits (g s)) :
    V.Keeps (fun _ => True) (modify g : TypeM PUnit) := by
  intro s a s' hs hrun
  obtain rfl := modify_ok.1 hrun
  exact ⟨h s hs, trivial⟩

/-- Each value of a list is as it is said. -/
theorem mapM {g : α → TypeM β} {l : List α} (h : ∀ a ∈ l, V.Keeps R (g a)) :
    V.Keeps (fun bs => bs.length = l.length ∧ ∀ b ∈ bs, R b) (l.mapM g) := by
  induction l with
  | nil => exact .pure (by simp)
  | cons a l ih =>
    rw [List.mapM_cons]
    refine .bind (h a List.mem_cons_self) fun b hb => ?_
    refine .bind (ih fun c hc => h c (List.mem_cons_of_mem a hc)) fun bs hbs => ?_
    exact .pure (by simpa [hbs.1, hb] using hbs.2)

/-- Going through a list keeps the store if each step does. -/
theorem foldlM {g : β → α → TypeM β} {l : List α}
    (h : ∀ b, ∀ a ∈ l, V.Keeps (fun _ => True) (g b a)) (b : β) :
    V.Keeps (fun _ => True) (l.foldlM g b) := by
  induction l generalizing b with
  | nil => exact .pure trivial
  | cons a l ih =>
    rw [List.foldlM_cons]
    exact .bind (h b a (by simp)) fun c _ => ih (fun b a ha => h b a (by simp [ha])) c

end Keeps

/-! ## Entries of the store -/

namespace Fits

/-- A new name is not resolved. -/
theorem push_name (hs : V.Fits s) : V.Fits { s with names := s.names.push {} } := by
  have hbinding (id : Nat) : Store.binding? { s with names := s.names.push {} } id = s.binding? id := by
    simp only [Store.binding?, Array.getElem?_push]
    split
    · next h => simp [h]
    · rfl
  exact { hs with
    entries := by simpa using Nat.le_succ_of_le hs.entries
    resolved := fun h => by rw [hbinding]; exact hs.resolved h
    binding := fun h => hs.binding (by rwa [hbinding] at h) }

/-- A name is resolved. -/
theorem bind_name (hs : V.Fits s) {b : Binding} (hb : V.Binds b) (id : Nat) :
    V.Fits { s with names := s.names.modify id fun e => { e with binding := some b } } := by
  have hbinding (i : Nat) : Store.binding?
      { s with names := s.names.modify id fun e => { e with binding := some b } } i =
        if id = i then (s.names[i]?).map fun _ => b else s.binding? i := by
    simp only [Store.binding?, Array.getElem?_modify]
    split
    · cases s.names[i]? <;> rfl
    · rfl
  refine { hs with entries := by simpa using hs.entries, resolved := fun {i} hi => ?_, binding := fun {i b'} hb' => ?_ }
  · have hsome := hs.resolved hi
    rw [hbinding]
    split
    · cases hi : s.names[i]? with
      | none => simp [Store.binding?, hi] at hsome
      | some e => rfl
    · exact hsome
  · rw [hbinding] at hb'
    split at hb'
    · cases hi : s.names[i]? with
      | none => simp [hi] at hb'
      | some e =>
        obtain rfl : b = b' := by simpa [hi] using hb'
        exact hb
    · exact hs.binding hb'

/-- A name closes a type of infinite size. -/
theorem close_name (hs : V.Fits s) (id : Nat) :
    V.Fits { s with names := s.names.modify id fun e => { e with cyclic := true } } := by
  have hbinding (i : Nat) : Store.binding?
      { s with names := s.names.modify id fun e => { e with cyclic := true } } i = s.binding? i := by
    simp only [Store.binding?, Array.getElem?_modify]
    split
    · cases s.names[i]? <;> rfl
    · rfl
  exact { hs with
    entries := by simpa using hs.entries
    resolved := fun h => by rw [hbinding]; exact hs.resolved h
    binding := fun h => hs.binding (by rwa [hbinding] at h) }

/-- A new application has no instance. -/
theorem push_apply (hs : V.Fits s) : V.Fits { s with applies := s.applies.push {} } := by
  refine { hs with result := fun {id e t} he ht => ?_ }
  simp only [Array.getElem?_push] at he
  split at he
  · obtain rfl : ({} : ApplyEntry) = e := by simpa using he
    cases ht
  · exact hs.result he ht

/-- An application gets its instance, or closes a type of infinite size. -/
theorem change_apply (hs : V.Fits s) {f : ApplyEntry → ApplyEntry}
    (hf : ∀ e t, (f e).result = some t → e.result = some t ∨ V.Admits t) (id : Nat) :
    V.Fits { s with applies := s.applies.modify id f } := by
  refine { hs with result := fun {i e t} he ht => ?_ }
  simp only [Array.getElem?_modify] at he
  split at he
  · cases hi : s.applies[i]? with
    | none => simp [hi] at he
    | some e' =>
      obtain rfl : f e' = e := by simpa [hi] using he
      exact (hf e' t ht).elim (hs.result hi) fun h => h
  · exact hs.result he ht

/-- A new variable is unbound. -/
theorem push_var (hs : V.Fits s) {name : String} {l : Option Source.Location}
    (hname : name = "" ∨ V.accepts name) :
    V.Fits { s with vars := s.vars.push { name, location := l } } := by
  refine { hs with bound := fun {v t} ht => ?_, varName := fun {v e} he => ?_ }
  · simp only [Store.bound?, Array.getElem?_push] at ht
    split at ht
    · cases ht
    · exact hs.bound ht
  · simp only [Array.getElem?_push] at he
    split at he
    · obtain rfl : ({ name, location := l } : VarEntry) = e := by simpa using he
      exact hname
    · exact hs.varName he

/-- A variable is bound. -/
theorem bind_var (hs : V.Fits s) {t : Ty} (ht : V.Admits t) (v : Nat) :
    V.Fits { s with vars := s.vars.modify v fun e => { e with bound := some t } } := by
  refine { hs with bound := fun {i u} hu => ?_, varName := fun {i e} he => ?_ }
  · simp only [Store.bound?, Array.getElem?_modify] at hu
    split at hu
    · cases hi : s.vars[i]? with
      | none => simp [hi] at hu
      | some e =>
        obtain rfl : t = u := by simpa [hi] using hu
        exact ht
    · exact hs.bound hu
  · simp only [Array.getElem?_modify] at he
    split at he
    · cases hi : s.vars[i]? with
      | none => simp [hi] at he
      | some e' =>
        obtain rfl : { e' with bound := some t } = e := by simpa [hi] using he
        exact hs.varName (e := e') hi
    · exact hs.varName he

/-- A template gets an instance. -/
theorem add_instance (hs : V.Fits s) {key : String} {t : Ty} (ht : V.Admits t) {id : Nat}
    (hid : V.template id) : V.Fits { s with
      templates := s.templates.modify id fun e =>
        { e with instances := (key, t) :: e.instances } } := by
  have hentry {i : Nat} {e : TemplateEntry} (he : (s.templates.modify id fun e =>
      { e with instances := (key, t) :: e.instances })[i]? = some e) :
      ∃ e', s.templates[i]? = some e' ∧ e.body = e'.body ∧
        ∀ p ∈ e.instances, p = (key, t) ∨ p ∈ e'.instances := by
    simp only [Array.getElem?_modify] at he
    split at he
    · cases hi : s.templates[i]? with
      | none => simp [hi] at he
      | some e' =>
        obtain rfl : { e' with instances := (key, t) :: e'.instances } = e := by simpa [hi] using he
        exact ⟨e', rfl, rfl, fun p hp => by simpa using hp⟩
    · exact ⟨e, he, rfl, fun p hp => .inr hp⟩
  refine { hs with
    body := fun {i e} hi he => ?_, instances := fun {i e p} hi he hp => ?_,
    idle := fun {i e} hi he => ?_ }
  · obtain ⟨e', he', hbody, -⟩ := hentry he
    rw [hbody]
    exact hs.body hi he'
  · obtain ⟨e', he', -, hinstances⟩ := hentry he
    obtain rfl | hp := hinstances p hp
    · exact ht
    · exact hs.instances hi he' hp
  · have hne : id ≠ i := fun heq => hi (heq ▸ hid)
    rw [Array.getElem?_modify, if_neg hne] at he
    exact hs.idle hi he

end Fits

namespace Keeps

/-- A name with the text of a qualified one. -/
theorem newName {text : String} (h : IsQualified V.accepts text) (l : Option Source.Location) :
    V.Keeps V.Admits (Types.newName text l) := by
  intro s t s' hs hrun
  simp only [Types.newName, bind_ok, get_ok, set_ok, pure_ok] at hrun
  obtain ⟨_, _, ⟨rfl, rfl⟩, _, _, rfl, rfl, rfl⟩ := hrun
  exact ⟨hs.push_name, .inr h⟩

/-- A variable. -/
theorem newVar {name : String} (h : name = "" ∨ V.accepts name) (l : Option Source.Location) :
    V.Keeps (fun _ => True) (Types.newVar name l) := by
  intro s v s' hs hrun
  simp only [Types.newVar, bind_ok, get_ok, set_ok, pure_ok] at hrun
  obtain ⟨_, _, ⟨rfl, rfl⟩, _, _, rfl, -, rfl⟩ := hrun
  exact ⟨hs.push_var h, trivial⟩

/-- An application, and an entry for its head. -/
theorem newApply (text : String) (as : List Ty) (l : Option Source.Location) :
    V.Keeps (fun t => ∃ id head, t = .apply id head text as l) (Types.newApply text as l) := by
  intro s t s' hs hrun
  simp only [Types.newApply, bind_ok, get_ok, set_ok, pure_ok] at hrun
  obtain ⟨_, _, ⟨rfl, rfl⟩, _, _, rfl, rfl, rfl⟩ := hrun
  exact ⟨hs.push_name.push_apply, _, _, rfl⟩

/-- A name may come to stand for what is admitted. -/
theorem setBinding {b : Binding} (hb : V.Binds b) (id : Nat) :
    V.Keeps (fun _ => True) (Types.setBinding id b) := .update fun _ hs => hs.bind_name hb id

/-- A name may be marked. -/
theorem setCyclicName (id : Nat) : V.Keeps (fun _ => True) (Types.setCyclicName id) :=
  .update fun _ hs => hs.close_name id

/-- An application may get an admitted instance. -/
theorem setResult {t : Ty} (ht : V.Admits t) (id : Nat) :
    V.Keeps (fun _ => True) (Types.setResult id t) := by
  refine .update fun _ hs => hs.change_apply (fun e u hu => .inr ?_) id
  obtain rfl : t = u := by simpa using hu
  exact ht

/-- An application may be marked. -/
theorem setCyclicApply (id : Nat) : V.Keeps (fun _ => True) (Types.setCyclicApply id) := by
  refine .update fun _ hs => hs.change_apply (fun e u hu => ?_) id
  exact .inl hu

/-- The entry of a template that may be used. -/
theorem templateEntry {id : Nat} (h : V.template id) :
    V.Keeps (fun e => V.Admits e.body ∧ ∀ p ∈ e.instances, V.Admits p.2)
      (Types.templateEntry id) := by
  refine .get fun s hs => ?_
  split
  · next e he => exact .pure ⟨hs.body h he, fun p hp => hs.instances h he hp⟩
  · exact .throw

/-- Looking at a template changes nothing. -/
theorem templateRead (id : Nat) : V.Keeps (fun _ => True) (Types.templateEntry id) := by
  refine .get fun s hs => ?_
  split
  · exact .pure trivial
  · exact .throw

/-! ### Templates -/

/-- Replacing variables by admitted types. -/
theorem substituteWithin {σ : Substitution} (hσ : ∀ p ∈ σ, V.Admits p.2) (n : Nat) {t : Ty}
    (ht : V.Admits t) : V.Keeps V.Admits (Types.substituteWithin σ n t) := by
  have hfind {v : Nat} {u : Ty} (h : σ.find? v = some u) : V.Admits u := by
    obtain ⟨before, after, rfl, -⟩ := List.lookup_eq_some_iff.1 h
    exact hσ (v, u) (by simp)
  induction n generalizing t with
  | zero => exact .throw
  | succ n ih =>
    unfold Types.substituteWithin
    cases t with
    | builtin kind l => exact .pure ht
    | template id => exact .pure ht
    | name id text l =>
      refine .get fun s hs => ?_
      split
      · next hnone => exact .newName (hs.text_of_unresolved ht hnone) l
      · next _ v _ hb =>
        refine .pure ?_
        cases hv : σ.find? v with
        | none => exact ht
        | some u => exact hfind hv
      · exact .pure ht
    | pointer e l => exact .bind (ih ht) fun u hu => .pure hu
    | slice e l => exact .bind (ih ht) fun u hu => .pure hu
    | array e k l => exact .bind (ih ht) fun u hu => .pure hu
    | struct ms l =>
      rw [admits_struct] at ht
      have hmember (m : Member Ty) (hm : m ∈ ms) : V.Keeps V.AdmitsMember
          (Types.substituteWithin σ n m.type >>= fun u => Pure.pure { m with type := u }) :=
        .bind (ih (ht m hm).2) fun u hu => .pure ⟨(ht m hm).1, hu⟩
      exact .bind (mapM hmember) fun ms' hms => .pure (admits_struct.2 hms.2)
    | function as r l =>
      rw [admits_function] at ht
      refine .bind (mapM fun a ha => ih (ht.1 a ha)) fun as' has => .bind (ih ht.2) fun r' hr => ?_
      exact .pure (admits_function.2 ⟨has.2, hr⟩)
    | apply id head text as l =>
      rw [admits_apply] at ht
      refine .bind (mapM fun a ha => ih (ht.2 a ha)) fun as' has => ?_
      refine .bind (newApply text as' l) fun u hu => ?_
      obtain ⟨id', fresh, rfl⟩ := hu
      refine .get fun s hs => .pure (admits_apply.2 ⟨?_, has.2⟩)
      split
      · next hnone => exact .inr (hs.text_of_unresolved ht.1 (by simpa using hnone))
      · exact ht.1
    | dot b m l => exact .bind (ih ht.1) fun u hu => .pure ⟨hu, ht.2⟩
    | var v =>
      refine .get fun s hs => ?_
      split
      · next u hu => exact .pure (hfind hu)
      · next u _ hu => exact ih (hs.bound hu)
      · exact .pure ht

/-- Putting admitted types for variables gives an admitted type. -/
theorem substitute {σ : Substitution} (hσ : ∀ p ∈ σ, V.Admits p.2) {t : Ty} (ht : V.Admits t) :
    V.Keeps V.Admits (Types.substitute σ t) :=
  .bind .limit fun n _ => substituteWithin hσ n ht

/-- The types for the parameters of a template. -/
theorem admits_ofLists {params : List Nat} {types : List Ty} (h : ∀ t ∈ types, V.Admits t) :
    ∀ p ∈ Substitution.ofLists params types, V.Admits p.2 := by
  intro p hp
  exact h p.2 (List.of_mem_zip (List.mem_reverse.1 hp)).2

/-- An instance of a template. -/
theorem instantiate {id : Nat} (h : V.template id) {as : List Ty} (has : ∀ a ∈ as, V.Admits a) :
    V.Keeps (fun r => V.Admits r.1) (Types.instantiate id as) := by
  refine .bind (Keeps.read fun _ _ _ _ => trivial) fun key _ => ?_
  refine .bind (templateEntry h) fun e he => ?_
  split
  · next t ht =>
    obtain ⟨before, after, hinstances, -⟩ := List.lookup_eq_some_iff.1 ht
    exact .pure (he.2 (key, t) (by simp [hinstances]))
  · refine .ite (.bind (Keeps.read fun _ _ _ _ => trivial) fun _ _ => .throw) ?_
    refine .bind (substitute (admits_ofLists has) he.1) fun t ht => ?_
    exact .bind (.update fun _ hs => hs.add_instance ht h) fun _ _ => .pure ht

/-- The body of a template with new variables. -/
theorem freshBody {id : Nat} (h : V.template id) :
    V.Keeps (fun r => V.Admits r.1) (Types.freshBody id) := by
  refine .bind (templateEntry h) fun e he => ?_
  have hvar (v : Nat) : V.Keeps (fun _ => True) (do
      let s ← MonadState.get
      Types.newVar (s.varName v) ((s.vars[v]?).bind (·.location))) := by
    refine .get fun s hs => .newVar ?_ _
    cases hv : s.vars[v]? with
    | none => exact .inl (by simp [Store.varName, hv])
    | some e => simpa [Store.varName, hv] using hs.varName hv
  refine .bind (mapM fun v _ => hvar v) fun fresh _ => ?_
  refine .bind (substitute (admits_ofLists ?_) he.1) fun body hbody => .pure hbody
  simp

/-- A variable is bound to an admitted type. -/
theorem bindVar (v : Nat) {t : Ty} (ht : V.Admits t) :
    V.Keeps (fun _ => True) (Types.bindVar v t) := by
  refine .ite (.pure trivial) (.get fun s _ => ?_)
  split
  · exact .bind (Keeps.read fun _ _ _ _ => trivial) fun _ _ =>
      .bind (Keeps.read fun _ _ _ _ => trivial) fun _ _ => .get fun _ _ => .throw
  · exact .update fun _ hs => hs.bind_var ht v

/-- The instance of an application. -/
theorem applied {id head : Nat} {text : String} {as : List Ty} (has : ∀ a ∈ as, V.Admits a) :
    V.Keeps V.Admits (Types.applied id head text as) := by
  refine .get fun s hs => ?_
  split
  · exact .pure admits_error
  · next t _ he => exact .pure (hs.result he rfl)
  · refine .bind (Q := V.Admits) (Keeps.read fun s t hs h => hs.target h) fun t ht => ?_
    split
    · next template =>
      refine .bind (templateEntry ht) fun e he => .ite ?_ ?_
      · exact .bind (setResult admits_error id) fun _ _ => .pure admits_error
      · refine .bind (instantiate ht has) fun r hr => ?_
        exact .bind (setResult hr id) fun _ _ => .pure hr
    · exact .bind (setResult admits_error id) fun _ _ => .pure admits_error

/-! ### Shapes and sizes -/

/-- Following a type: its shape, the type of a member, a member and its place, and its size. -/
theorem follow (n : Nat) :
    (∀ {t}, V.Admits t → V.Keeps V.Admits (resolveWithin n t)) ∧
    (∀ {b name}, V.Admits b → V.Keeps V.Admits (memberTypeWithin n b name)) ∧
    (∀ {ms name offset}, (∀ m ∈ ms, V.AdmitsMember m) →
      V.Keeps (fun r => ∀ m ∈ r, V.AdmitsMember m.1) (findMemberWithin n ms name offset)) ∧
    (∀ {t}, V.Admits t → V.Keeps (fun _ => True) (sizeWithin n t)) := by
  induction n with
  | zero => exact ⟨fun _ => .throw, fun _ => .throw, fun _ => .throw, fun _ => .throw⟩
  | succ n ih =>
    obtain ⟨hresolve, hmember, hfind, hsize⟩ := ih
    refine ⟨fun {t} ht => ?_, fun {b name} hb => ?_, fun {ms name offset} hms => ?_,
      fun {t} ht => ?_⟩
    · unfold resolveWithin
      cases t with
      | name id text l => exact .bind (Keeps.read fun _ _ hs h => hs.target h) fun u hu => hresolve hu
      | apply id head text as l => exact .bind (applied (admits_apply.1 ht).2) fun u hu => hresolve hu
      | dot b m l => exact .bind (hmember ht.1) fun u hu => hresolve hu
      | var v =>
        refine .get fun s hs => ?_
        split
        · next u hu => exact hresolve (hs.bound hu)
        · exact .pure ht
      | _ => exact .pure ht
    · unfold memberTypeWithin
      refine .bind (hresolve hb) fun u hu => ?_
      cases u with
      | struct ms l =>
        refine .bind (hfind (admits_struct.1 hu)) fun r hr => ?_
        cases r with
        | none => exact .pure admits_error
        | some r => exact .pure (hr r rfl).2
      | _ => exact .pure admits_error
    · unfold findMemberWithin
      cases ms with
      | nil => exact .pure (by simp)
      | cons m rest =>
        refine .ite (.pure (by simpa using hms m (by simp))) ?_
        refine .bind (hsize (hms m (by simp)).2) fun k _ => ?_
        exact hfind fun m hm => hms m (by simp [hm])
    · unfold sizeWithin
      cases t with
      | array e k l => exact .ite (.pure trivial) (.bind (hsize ht) fun _ _ => .pure trivial)
      | struct ms l =>
        rw [admits_struct] at ht
        exact foldlM (fun _ m hm => .bind (hsize (ht m hm).2) fun _ _ => .pure trivial) 0
      | name id text l => exact .bind (Keeps.read fun _ _ hs h => hs.target h) fun u hu => hsize hu
      | apply id head text as l => exact .bind (applied (admits_apply.1 ht).2) fun u hu => hsize hu
      | dot b m l => exact .bind (hmember ht.1) fun u hu => hsize hu
      | var v =>
        refine .get fun s hs => ?_
        split
        · next u hu => exact hsize (hs.bound hu)
        · exact .get fun _ _ => .throw
      | template id => exact .bind (Keeps.read fun _ _ _ _ => trivial) fun _ _ => .throw
      | _ => exact .pure trivial

/-- The shape of a type. -/
theorem resolve {t : Ty} (ht : V.Admits t) : V.Keeps V.Admits (Types.resolve t) :=
  .bind .limit fun n _ => (follow n).1 ht

/-- The size of a type. -/
theorem size {t : Ty} (ht : V.Admits t) : V.Keeps (fun _ => True) (Types.size t) :=
  .bind .limit fun n _ => (follow n).2.2.2 ht

/-- A member of a struct. -/
theorem findMember {ms : List (Member Ty)} (hms : ∀ m ∈ ms, V.AdmitsMember m) (name : String) :
    V.Keeps (fun r => ∀ m ∈ r, V.AdmitsMember m.1) (Types.findMember ms name) :=
  .bind .limit fun n _ => (follow n).2.2.1 hms

/-- Asking whether a type is the error type keeps the store. -/
theorem isError (t : Ty) : V.Keeps (fun _ => True) (Types.isError t) :=
  Keeps.read fun _ _ _ _ => trivial

/-- Asking whether a type is void keeps the store. -/
theorem isVoid {t : Ty} (ht : V.Admits t) : V.Keeps (fun _ => True) (Types.isVoid t) := by
  refine .bind (resolve ht) fun u _ => ?_
  split <;> exact .pure trivial

/-- Asking whether a type is integral keeps the store. -/
theorem isIntegral {t : Ty} (ht : V.Admits t) : V.Keeps (fun _ => True) (Types.isIntegral t) := by
  refine .bind (resolve ht) fun u _ => ?_
  split <;> exact .pure trivial

/-- Names, applications and member types are stripped. -/
theorem dealias {t : Ty} (ht : V.Admits t) : V.Keeps V.Admits (Types.dealias t) := by
  refine .bind .limit fun n _ => ?_
  induction n generalizing t with
  | zero => exact .throw
  | succ n ih =>
    unfold dealiasWithin
    refine .bind (Q := V.Admits) (Keeps.read fun _ _ hs h => hs.normalize ht h) fun u hu => ?_
    cases u with
    | name id text l => exact .bind (Keeps.read fun _ _ hs h => hs.target h) fun u hu => ih hu
    | apply id head text as l => exact .bind (applied (admits_apply.1 hu).2) fun u hu => ih hu
    | dot b m l => exact .bind .limit fun k _ => .bind ((follow k).2.1 hu.1) fun u hu => ih hu
    | _ => exact .pure hu

/-! ### Comparisons -/

/-- The element type of a struct laid out like a slice. -/
theorem sliceShape? {ms : List (Member Ty)} (hms : ∀ m ∈ ms, V.AdmitsMember m) :
    V.Keeps (fun r => ∀ t ∈ r, V.Admits t) (Types.sliceShape? ms) := by
  unfold Types.sliceShape?
  split
  · next address length capacity =>
    refine .ite (.pure (by simp)) (.bind (dealias (hms address (by simp)).2) fun a ha => ?_)
    split
    · refine .bind (dealias (hms length (by simp)).2) fun b hb => ?_
      split
      · refine .bind (dealias (hms capacity (by simp)).2) fun d hd => ?_
        split
        · exact .pure (by simpa using ha)
        · exact .pure (by simp)
      · exact .pure (by simp)
    · exact .pure (by simp)
  · exact .pure (by simp)

/-- The element types that are compared where one side becomes a slice. -/
theorem decayElements? {a b : Ty} (ha : V.Admits a) (hb : V.Admits b) :
    V.Keeps (fun r => ∀ p ∈ r, V.Admits p.1 ∧ V.Admits p.2) (Types.decayElements? a b) := by
  unfold Types.decayElements?
  split
  · refine .bind (dealias ha) fun u hu => ?_
    split
    · refine .pure ?_
      split
      · simp
      · simpa using ⟨hu, hb⟩
    · exact .pure (by simp)
  · refine .pure ?_
    split
    · simp
    · simpa using ⟨ha, hb⟩
  · refine .bind (sliceShape? (admits_struct.1 ha)) fun r hr => .pure ?_
    simpa using fun t ht => ⟨hr t ht, hb⟩
  · refine .bind (sliceShape? (admits_struct.1 hb)) fun r hr => .pure ?_
    simpa using fun t ht => ⟨ha, hr t ht⟩
  · exact .pure (by simp)

/-- A member type at the head is stripped. -/
theorem stripDot {t : Ty} (ht : V.Admits t) : V.Keeps V.Admits (Types.stripDot t) := by
  unfold Types.stripDot
  split
  · exact dealias ht
  · exact .pure ht

end Keeps

variable (V) in
/-- A comparison keeps a store that fits, whatever pairs it assumes to agree. -/
def KeepsAgreeing {α : Type} (Q : α → Prop) (x : UnifyM α) : Prop :=
  ∀ pairs, V.Keeps (fun r => Q r.1) (x pairs)

namespace KeepsAgreeing

variable {α β : Type} {Q : α → Prop} {R : β → Prop} {x : UnifyM α} {f : α → UnifyM β}

/-- A value may be given that is as it is said. -/
theorem pure {a : α} (h : Q a) : V.KeepsAgreeing Q (Pure.pure a) := fun _ => Keeps.pure h

/-- Comparisons that keep the store do so one behind the other. -/
theorem bind (hx : V.KeepsAgreeing Q x) (hf : ∀ a, Q a → V.KeepsAgreeing R (f a)) :
    V.KeepsAgreeing R (x >>= f) :=
  fun pairs => Keeps.bind (hx pairs) fun r hr => hf r.1 hr r.2

/-- A computation that does not look at the assumed pairs. -/
theorem lift {x : TypeM α} (hx : V.Keeps Q x) : V.KeepsAgreeing Q (liftM x : UnifyM α) :=
  fun _ => Keeps.bind hx fun _ ha => Keeps.pure ha

/-- Either of two comparisons may be made. -/
theorem ite {c : Prop} [Decidable c] {y : UnifyM α} (hx : V.KeepsAgreeing Q x)
    (hy : V.KeepsAgreeing Q y) : V.KeepsAgreeing Q (if c then x else y) := by
  split
  · exact hx
  · exact hy

variable {agree : Ty → Ty → UnifyM Bool}

/-- Lists of types are compared in order. -/
theorem allAgree (h : ∀ a b, V.Admits a → V.Admits b → V.KeepsAgreeing (fun _ => True) (agree a b)) :
    ∀ {as bs : List Ty}, (∀ a ∈ as, V.Admits a) → (∀ b ∈ bs, V.Admits b) →
      V.KeepsAgreeing (fun _ => True) (Types.allAgree agree as bs)
  | [], [], _, _ | [], _ :: _, _, _ | _ :: _, [], _, _ => .pure trivial
  | a :: as, b :: bs, has, hbs => by
    refine .bind (h a b (has a (by simp)) (hbs b (by simp))) fun r _ => .ite ?_ (.pure trivial)
    exact allAgree h (fun a ha => has a (by simp [ha])) fun b hb => hbs b (by simp [hb])

/-- Lists of members are compared in order. -/
theorem membersAgree
    (h : ∀ a b, V.Admits a → V.Admits b → V.KeepsAgreeing (fun _ => True) (agree a b)) :
    ∀ {as bs : List (Member Ty)}, (∀ a ∈ as, V.AdmitsMember a) → (∀ b ∈ bs, V.AdmitsMember b) →
      V.KeepsAgreeing (fun _ => True) (Types.membersAgree agree as bs)
  | [], [], _, _ | [], _ :: _, _, _ | _ :: _, [], _, _ => .pure trivial
  | a :: as, b :: bs, has, hbs => by
    refine .ite (.pure trivial) ?_
    refine .bind (h a.type b.type (has a (by simp)).2 (hbs b (by simp)).2) fun r _ =>
      .ite ?_ (.pure trivial)
    exact membersAgree h (fun a ha => has a (by simp [ha])) fun b hb => hbs b (by simp [hb])

/-- Types of one form are compared by their parts. -/
theorem partsAgree
    (h : ∀ a b, V.Admits a → V.Admits b → V.KeepsAgreeing (fun _ => True) (agree a b)) {a b : Ty}
    (ha : V.Admits a) (hb : V.Admits b) :
    V.KeepsAgreeing (fun _ => True) (Types.partsAgree agree a b) := by
  unfold Types.partsAgree
  have hread {g : Store → Except Fault String} :
      V.KeepsAgreeing (fun _ => True) (liftM (Types.read g) : UnifyM String) :=
    .lift (Keeps.read fun _ _ _ _ => trivial)
  split
  · exact .pure trivial
  · exact .bind hread fun _ _ => .bind hread fun _ _ => .pure trivial
  · exact h _ _ ha hb
  · exact h _ _ ha hb
  · exact .ite (.pure trivial) (h _ _ ha hb)
  · exact .ite (.pure trivial) (membersAgree h (admits_struct.1 ha) (admits_struct.1 hb))
  · rw [admits_function] at ha hb
    exact .ite (.pure trivial) (.bind (allAgree h hb.1 ha.1) fun _ _ =>
      .ite (h _ _ ha.2 hb.2) (.pure trivial))
  · rw [admits_apply] at ha hb
    exact .bind hread fun _ _ => .bind hread fun _ _ => .ite (.pure trivial)
      (.ite (.pure trivial) (allAgree h ha.2 hb.2))
  · exact .pure trivial
  · exact .pure trivial

/-- Two admitted types are compared. -/
theorem unifyWithin (mode : Agreement) (n : Nat) {a b : Ty} (ha : V.Admits a) (hb : V.Admits b) :
    V.KeepsAgreeing (fun _ => True) (Types.unifyWithin mode n a b) := by
  induction n generalizing a b with
  | zero => exact fun _ => .throw
  | succ n ih =>
    have herror (t : Ty) :
        V.KeepsAgreeing (fun _ => True) (liftM (Types.isError t) : UnifyM Bool) :=
      .lift (.isError t)
    have hmangle (t : Ty) :
        V.KeepsAgreeing (fun _ => True) (liftM (Types.read (·.mangle t)) : UnifyM String) :=
      .lift (Keeps.read fun _ _ _ _ => trivial)
    have hpairs : V.KeepsAgreeing (fun _ => True) (MonadState.get : UnifyM _) :=
      fun _ => Keeps.pure trivial
    have hassume (g : List (String × String) → List (String × String)) :
        V.KeepsAgreeing (fun _ => True) (modify g : UnifyM PUnit) := fun _ => Keeps.pure trivial
    unfold Types.unifyWithin
    refine .bind (.lift (Keeps.read fun _ _ hs h => hs.normalize ha h)) fun a ha => ?_
    refine .bind (.lift (Keeps.read fun _ _ hs h => hs.normalize hb h)) fun b hb => ?_
    refine .ite (.pure trivial) (.bind (herror a) fun _ _ => .ite (.pure trivial) ?_)
    refine .bind (herror b) fun _ _ => .ite (.pure trivial) ?_
    split
    · exact .bind (.lift (.bindVar _ hb)) fun _ _ => .pure trivial
    · exact .bind (.lift (.bindVar _ ha)) fun _ _ => .pure trivial
    · refine .bind (.lift (.stripDot ha)) fun a ha => .bind (.lift (.stripDot hb)) fun b hb => ?_
      refine .ite (partsAgree (fun _ _ => ih) ha hb) (.ite ?_ ?_)
      · refine .bind (hmangle a) fun _ _ => .bind (hmangle b) fun _ _ => .ite (.pure trivial) ?_
        refine .bind hpairs fun _ _ => .ite (.pure trivial) (.bind (hassume _) fun _ _ => ?_)
        refine .bind (.lift (.dealias ha)) fun a ha => .bind (.lift (.dealias hb)) fun b hb => ?_
        exact .bind (herror a) fun _ _ => .ite (.pure trivial)
          (.bind (herror b) fun _ _ => .ite (.pure trivial) (ih ha hb))
      · refine .bind (.lift (.decayElements? ha hb)) fun r hr => ?_
        cases r with
        | none => exact partsAgree (fun _ _ => ih) ha hb
        | some p => exact ih (hr p rfl).1 (hr p rfl).2

end KeepsAgreeing

namespace Keeps

/-- Whether a value can be used as another type. -/
theorem isConvertible {a b : Ty} (ha : V.Admits a) (hb : V.Admits b) :
    V.Keeps (fun _ => True) (Types.isConvertible a b) :=
  .bind .limit fun n _ => .bind (KeepsAgreeing.unifyWithin .conversion n ha hb []) fun _ _ =>
    .pure trivial

/-- Asking whether a type is numeric keeps the store. -/
theorem isNumeric {t : Ty} (ht : V.Admits t) : V.Keeps (fun _ => True) (Types.isNumeric t) :=
  isConvertible ht admits_byte

end Keeps

end Vocabulary

end Qll.Types
