import Mathlib.Data.Finset.Card
import Mathlib.Tactic.ByContra
import Mathlib.Tactic.Tauto
import Qll.Proofs.Types.Shape
import Qll.Types.Path

/-!
# Routes through type definitions

A route leads from a type to its parts and, where it meets a name, on to the definition that the
name stands for. A type has no finite size when some definition leads back to its own name without a
function type in between and without both a struct and an indirection. The traversal along a path
follows a definition once; `Meets` says which references it finds to be endless. It finds one exactly
if there is such a route: the names on a path are the ends of routes, and a shortest route back
follows no name twice.
-/

namespace Qll.Types

open Source (Location)

/-! ## Routes -/

/-- What lies between a type and a part of it. -/
inductive Edge
  /-- Behind a pointer, a slice, or an array whose length is not part of its type. -/
  | indirection
  | member
  /-- An argument or the result of a function type. -/
  | function
  | element
  /-- Inside an array of negative length. -/
  | malformed
  | definition (id : Nat)
  deriving DecidableEq

/-- One step from a type to a part of it, or from a name to its definition. -/
inductive Follows (T : Store) : Ty → Edge → Ty → Prop
  | pointer {e l} : Follows T (.pointer e l) .indirection e
  | slice {e l} : Follows T (.slice e l) .indirection e
  | unsized {e l} : Follows T (.array e unsized l) .indirection e
  | element {e n l} (h : 0 ≤ n) : Follows T (.array e n l) .element e
  | malformed {e n l} (h : n < 0) (hn : n ≠ unsized) : Follows T (.array e n l) .malformed e
  | member {ms l m} (h : m ∈ ms) : Follows T (.struct ms l) .member m.type
  | argument {as r l a} (h : a ∈ as) : Follows T (.function as r l) .function a
  | result {as r l} : Follows T (.function as r l) .function r
  | definition {id text l b} (h : T.binding? id = some b) :
      Follows T (.name id text l) (.definition id) b.type

/-- Steps one after another. -/
inductive Route (T : Store) : Ty → List Edge → Ty → Prop
  | refl {t} : Route T t [] t
  | step {t u v e es} (h : Follows T t e u) (hrest : Route T u es v) : Route T t (e :: es) v

/-- No function type lies on the way, and not both a struct and an indirection. -/
def Unguarded (es : List Edge) : Prop :=
  .function ∉ es ∧ ¬ (.member ∈ es ∧ .indirection ∈ es)

/-- The type lies inside the type it is part of: no function type and no indirection lies on the
way. -/
def ByValue (es : List Edge) : Prop := .function ∉ es ∧ .indirection ∉ es

variable {T : Store} {t u v : Ty} {es es' : List Edge}

/-- A route goes on with another one. -/
theorem Route.append (h : Route T t es u) (h' : Route T u es' v) : Route T t (es ++ es') v := by
  induction h with
  | refl => exact h'
  | step hfirst _ ih => exact .step hfirst (ih h')

/-- A route goes on with one step. -/
theorem Route.snoc {e : Edge} (h : Route T t es u) (h' : Follows T u e v) :
    Route T t (es ++ [e]) v := h.append (.step h' .refl)

/-- Routes depend on what names stand for, and on nothing else of the store. -/
theorem Route.congr {T' : Store} (h : Route T t es u) (hT' : ∀ id, T'.binding? id = T.binding? id) :
    Route T' t es u := by
  induction h with
  | refl => exact .refl
  | step hfirst _ ih =>
    refine .step ?_ ih
    cases hfirst with
    | pointer => exact .pointer
    | slice => exact .slice
    | unsized => exact .unsized
    | element h => exact .element h
    | malformed h hn => exact .malformed h hn
    | member h => exact .member h
    | argument h => exact .argument h
    | result => exact .result
    | definition h => exact .definition ((hT' _).trans h)

/-- A route through a name is one to the name and one from its definition. -/
theorem Route.split {id : Nat} (h : Route T t (es ++ .definition id :: es') v) :
    ∃ text l b, Route T t es (.name id text l) ∧ T.binding? id = some b ∧ Route T b.type es' v := by
  induction es generalizing t with
  | nil =>
    cases h with
    | step hfirst hrest =>
      cases hfirst with
      | definition hb => exact ⟨_, _, _, .refl, hb, hrest⟩
  | cons e es ih =>
    cases h with
    | step hfirst hrest =>
      obtain ⟨text, l, b, hto, hb, hfrom⟩ := ih hrest
      exact ⟨text, l, b, .step hfirst hto, hb, hfrom⟩

/-- What is left of an unguarded route is unguarded. -/
theorem Unguarded.sublist (h : Unguarded es) (hsub : es'.Sublist es) : Unguarded es' :=
  ⟨fun he => h.1 (hsub.subset he), fun he => h.2 ⟨hsub.subset he.1, hsub.subset he.2⟩⟩

/-- Edges by value and further ones are edges by value. -/
theorem ByValue.append (h : ByValue es) (h' : ByValue es') : ByValue (es ++ es') := by
  simpa [ByValue] using ⟨⟨h.1, h'.1⟩, h.2, h'.2⟩

/-! ## Definitions -/

/-- A type that a traversal enters: neither a builtin type nor a variable. -/
def Ty.IsDefinition : Ty → Prop
  | .builtin .. | .var _ => False
  | _ => True

/-- A reference stands for a definition with a qualified name. -/
def Refers (T : Store) (id : Nat) (q : String) : Prop :=
  ∃ b, T.binding? id = some b ∧ b.qualified = q ∧ b.type.IsDefinition

/-- A type that leads to a reference can be entered. -/
theorem Route.isDefinition {id : Nat} {text : String} {l : Option Location}
    (h : Route T t es (.name id text l)) : t.IsDefinition := by
  cases h with
  | refl => trivial
  | step hfirst _ => cases hfirst <;> trivial

/-- The names whose definitions a route follows. -/
def followed (T : Store) (es : List Edge) : List String :=
  es.filterMap fun
    | .definition id => (T.binding? id).map (·.qualified)
    | _ => none

/-- The followed names are those of the definitions on the route. -/
theorem mem_followed {q : String} :
    q ∈ followed T es ↔ ∃ id b, .definition id ∈ es ∧ T.binding? id = some b ∧ b.qualified = q := by
  simp only [followed, List.mem_filterMap]
  constructor
  · rintro ⟨e, he, hq⟩
    cases e with
    | definition id =>
      obtain ⟨b, hb, hq⟩ := Option.map_eq_some_iff.1 hq
      exact ⟨id, b, he, hb, hq⟩
    | _ => cases hq
  · rintro ⟨id, b, he, hb, hq⟩
    exact ⟨.definition id, he, by simp [hb, hq]⟩

/-! ## Names on a path -/

namespace Path

variable {p : Path} {q x : String}

/-- All names on a path. -/
def names (p : Path) : List String := p.direct ++ p.inStruct ++ p.behindPointer ++ p.passed

/-- The names of a path are those in its four lists. -/
theorem mem_names : q ∈ p.names ↔
    q ∈ p.direct ∨ q ∈ p.inStruct ∨ q ∈ p.behindPointer ∨ q ∈ p.passed := by
  simp [names]

/-- A definition on a path adds its name. -/
@[simp] theorem mem_names_define : q ∈ (p.define x).names ↔ q ∈ p.names ∨ q = x := by
  simp only [mem_names, define, List.mem_append, List.mem_singleton]
  tauto

/-- A pointer on a path adds no name. -/
@[simp] theorem mem_names_pointer : q ∈ p.pointer.names ↔ q ∈ p.names := by
  simp only [mem_names, pointer, List.mem_append, List.not_mem_nil]
  tauto

/-- A struct on a path adds no name. -/
@[simp] theorem mem_names_struct : q ∈ p.struct.names ↔ q ∈ p.names := by
  simp only [mem_names, struct, List.mem_append, List.not_mem_nil]
  tauto

/-- A type of functions on a path adds no name. -/
@[simp] theorem mem_names_function : q ∈ p.function.names ↔ q ∈ p.names := by
  simp only [mem_names, function, List.mem_append, List.not_mem_nil]
  tauto

/-- When a name is entered, fewer names are left that are not on the path. -/
theorem card_define_lt {names : Finset String} {p' : Path} (hsame : ∀ q, q ∈ p'.names ↔ q ∈ p.names)
    (hx : x ∈ names) (hfresh : x ∉ p.names) :
    (names.filter (· ∉ (p'.define x).names)).card < (names.filter (· ∉ p.names)).card := by
  refine Finset.card_lt_card ((Finset.ssubset_iff_of_subset ?_).2 ⟨x, ?_, by simp⟩)
  · intro q hq
    simp only [Finset.mem_filter, mem_names_define, hsame, not_or] at hq ⊢
    exact ⟨hq.1, hq.2.1⟩
  · simpa using ⟨hx, hfresh⟩

/-- What becomes of the use of a name, by where the name is on the path. -/
theorem reference_cases (p : Path) (q : String) :
    (q ∈ p.passed ∧ p.reference q = .accepted) ∨
    (q ∉ p.passed ∧ (q ∈ p.direct ∨ q ∈ p.inStruct ∨ q ∈ p.behindPointer) ∧
      p.reference q = .infinite) ∨
    (q ∉ p.names ∧ p.reference q = .enter (p.define q)) := by
  by_cases hpassed : q ∈ p.passed
  · exact .inl ⟨hpassed, by simp [reference, hpassed]⟩
  · by_cases hopen : q ∈ p.direct ∨ q ∈ p.inStruct ∨ q ∈ p.behindPointer
    · exact .inr (.inl ⟨hpassed, hopen, by simp [reference, isOpen, hpassed, or_assoc, hopen]⟩)
    · refine .inr (.inr ⟨?_, by simp [reference, isOpen, hpassed, or_assoc, hopen]⟩)
      rw [mem_names]
      tauto

/-- A path without names behind an indirection. -/
structure Inline (p : Path) : Prop where
  behindPointer : p.behindPointer = []
  passed : p.passed = []

/-- A name may be entered. -/
theorem Inline.define (h : p.Inline) (q : String) : (p.define q).Inline :=
  ⟨h.behindPointer, h.passed⟩

/-- A struct may be entered. -/
theorem Inline.struct (h : p.Inline) : p.struct.Inline :=
  ⟨rfl, by simp [Path.struct, h.behindPointer, h.passed]⟩

/-- A template may be entered. -/
theorem Inline.expand {p' : Path} (h : p.Inline) (hp : p.expand? = some p') : p'.Inline := by
  unfold expand? at hp
  split at hp
  · cases hp
  · cases hp
    exact ⟨h.behindPointer, h.passed⟩

/-- A path may start with a name. -/
theorem inline_define (q : String) : (define {} q).Inline := ⟨rfl, rfl⟩

end Path

/-! ## Endless references -/

/-- The traversal of a type along a path comes to a reference, at a location, whose name it finds on
its path without both a struct and an indirection in between. -/
inductive Meets (T : Store) : Path → Ty → Nat → Option Location → Prop
  | infinite {p id text l b} (hb : T.binding? id = some b) (hdef : b.type.IsDefinition)
      (hp : p.reference b.qualified = .infinite) : Meets T p (.name id text l) id l
  | enter {p id text l b next id' l'} (hb : T.binding? id = some b) (hdef : b.type.IsDefinition)
      (hp : p.reference b.qualified = .enter next) (h : Meets T next b.type id' l') :
      Meets T p (.name id text l) id' l'
  | pointer {p e l id l'} (h : Meets T p.pointer e id l') : Meets T p (.pointer e l) id l'
  | slice {p e l id l'} (h : Meets T p.pointer e id l') : Meets T p (.slice e l) id l'
  | unsized {p e l id l'} (h : Meets T p.pointer e id l') : Meets T p (.array e unsized l) id l'
  | element {p e n l id l'} (hn : 0 ≤ n) (h : Meets T p e id l') : Meets T p (.array e n l) id l'
  | member {p ms l m id l'} (hm : m ∈ ms) (h : Meets T p.struct m.type id l') :
      Meets T p (.struct ms l) id l'
  | argument {p as r l a id l'} (ha : a ∈ as) (h : Meets T p.function a id l') :
      Meets T p (.function as r l) id l'
  | result {p as r l id l'} (h : Meets T p.function r id l') : Meets T p (.function as r l) id l'

/-- What the traversal of a name finds, by what becomes of its use. -/
theorem meets_name_iff {p : Path} {id id' : Nat} {text : String} {l l' : Option Location} {b : Binding}
    (hb : T.binding? id = some b) (hdef : b.type.IsDefinition) :
    Meets T p (.name id text l) id' l' ↔
      (p.reference b.qualified = .infinite ∧ id' = id ∧ l' = l) ∨
      ∃ next, p.reference b.qualified = .enter next ∧ Meets T next b.type id' l' := by
  constructor
  · intro h
    cases h with
    | infinite hb' _ hp =>
      obtain rfl := Option.some.inj (hb'.symm.trans hb)
      exact .inl ⟨hp, rfl, rfl⟩
    | enter hb' _ hp h =>
      obtain rfl := Option.some.inj (hb'.symm.trans hb)
      exact .inr ⟨_, hp, h⟩
  · rintro (⟨hp, rfl, rfl⟩ | ⟨next, hp, h⟩)
    · exact .infinite hb hdef hp
    · exact .enter hb hdef hp h

/-- A traversal gets to the references that it finds. -/
theorem Meets.route {p : Path} {id : Nat} {l : Option Location} (h : Meets T p t id l) :
    ∃ es text, Route T t es (.name id text l) := by
  have hstep {t u : Ty} {e : Edge} (hfirst : Follows T t e u) :
      (∃ es text, Route T u es (.name id text l)) → ∃ es text, Route T t es (.name id text l) := by
    rintro ⟨es, text, hrest⟩
    exact ⟨e :: es, text, .step hfirst hrest⟩
  induction h with
  | infinite => exact ⟨[], _, .refl⟩
  | enter hb hdef hp _ ih => exact hstep (.definition hb) (ih hstep)
  | pointer _ ih => exact hstep .pointer (ih hstep)
  | slice _ ih => exact hstep .slice (ih hstep)
  | unsized _ ih => exact hstep .unsized (ih hstep)
  | element hn _ ih => exact hstep (.element hn) (ih hstep)
  | member hm _ ih => exact hstep (.member hm) (ih hstep)
  | argument ha _ ih => exact hstep (.argument ha) (ih hstep)
  | result _ ih => exact hstep .result (ih hstep)

section Declared

-- `D q t` says that `q` is declared to be `t`.
variable {D : String → Ty → Prop}

/-- What lies between the definition of a name and a type. -/
def Between (T : Store) (D : String → Ty → Prop) (q : String) (t : Ty) (C : List Edge → Prop) :
    Prop :=
  ∃ u es, D q u ∧ Route T u es t ∧ C es

/-- A step further lies one edge more in between. -/
theorem Between.step {q : String} {C C' : List Edge → Prop} {e : Edge} (h : Between T D q t C)
    (he : Follows T t e u) (hC : ∀ es, C es → C' (es ++ [e])) : Between T D q u C' := by
  obtain ⟨w, es, hw, hroute, hes⟩ := h
  exact ⟨w, es ++ [e], hw, hroute.snoc he, hC es hes⟩

/-- The names on the path of a type are those whose definitions led to it, by what lies in
between. -/
structure OnRoute (T : Store) (D : String → Ty → Prop) (p : Path) (t : Ty) : Prop where
  direct : ∀ q ∈ p.direct, Between T D q t fun es =>
    .function ∉ es ∧ .member ∉ es ∧ .indirection ∉ es
  inStruct : ∀ q ∈ p.inStruct, Between T D q t fun es =>
    .function ∉ es ∧ .member ∈ es ∧ .indirection ∉ es
  behindPointer : ∀ q ∈ p.behindPointer, Between T D q t fun es =>
    .function ∉ es ∧ .member ∉ es ∧ .indirection ∈ es
  passed : ∀ q ∈ p.passed, Between T D q t fun es =>
    .member ∈ es ∨ .indirection ∈ es ∨ .function ∈ es

namespace OnRoute

variable {p : Path}

/-- The path of a definition has its name. -/
theorem define {q : String} (hq : D q t) : OnRoute T D (Path.define {} q) t where
  direct q' hq' := by
    obtain rfl : q' = q := by simpa [Path.define] using hq'
    exact ⟨t, [], hq, .refl, by simp⟩
  inStruct _ h := by simp [Path.define] at h
  behindPointer _ h := by simp [Path.define] at h
  passed _ h := by simp [Path.define] at h

/-- Behind an indirection the path is that of the pointer. -/
theorem pointer (h : OnRoute T D p t) (ht : Follows T t .indirection u) :
    OnRoute T D p.pointer u where
  direct _ hq := by simp [Path.pointer] at hq
  inStruct _ hq := by simp [Path.pointer] at hq
  behindPointer q hq := by
    obtain hq | hq := List.mem_append.1 hq
    · exact (h.behindPointer q hq).step ht (by simp +contextual)
    · exact (h.direct q hq).step ht (by simp +contextual)
  passed q hq := by
    obtain hq | hq := List.mem_append.1 hq
    · exact (h.passed q hq).step ht (by simp)
    · exact (h.inStruct q hq).step ht (by simp)

/-- In a struct the path is that of the struct. -/
theorem member (h : OnRoute T D p t) (ht : Follows T t .member u) : OnRoute T D p.struct u where
  direct _ hq := by simp [Path.struct] at hq
  behindPointer _ hq := by simp [Path.struct] at hq
  inStruct q hq := by
    obtain hq | hq := List.mem_append.1 hq
    · exact (h.inStruct q hq).step ht (by simp +contextual)
    · exact (h.direct q hq).step ht (by simp +contextual)
  passed q hq := by
    obtain hq | hq := List.mem_append.1 hq
    · exact (h.passed q hq).step ht (by simp)
    · exact (h.behindPointer q hq).step ht (by simp)

/-- In a function the path is that of the function. -/
theorem function (h : OnRoute T D p t) (ht : Follows T t .function u) :
    OnRoute T D p.function u where
  direct _ hq := by simp [Path.function] at hq
  inStruct _ hq := by simp [Path.function] at hq
  behindPointer _ hq := by simp [Path.function] at hq
  passed q hq := by
    simp only [Path.function, List.mem_append, or_assoc] at hq
    obtain hq | hq | hq | hq := hq
    · exact (h.passed q hq).step ht (by simp)
    · exact (h.direct q hq).step ht (by simp)
    · exact (h.inStruct q hq).step ht (by simp)
    · exact (h.behindPointer q hq).step ht (by simp)

/-- A step that the path does not record. -/
theorem unrecorded {e : Edge} (h : OnRoute T D p t) (ht : Follows T t e u)
    (he : e ≠ .function ∧ e ≠ .member ∧ e ≠ .indirection) : OnRoute T D p u where
  direct q hq := (h.direct q hq).step ht (by simp [eq_comm, he])
  inStruct q hq := (h.inStruct q hq).step ht (by simp [eq_comm, he])
  behindPointer q hq := (h.behindPointer q hq).step ht (by simp [eq_comm, he])
  passed q hq := (h.passed q hq).step ht (by simp [eq_comm, he])

/-- A definition is entered. -/
theorem enter {id : Nat} {text : String} {l : Option Location} {b : Binding}
    (h : OnRoute T D p (.name id text l)) (hb : T.binding? id = some b) (hD : D b.qualified b.type) :
    OnRoute T D (p.define b.qualified) b.type := by
  have hall := h.unrecorded (.definition hb) (by simp)
  refine ⟨fun q hq => ?_, hall.inStruct, hall.behindPointer, hall.passed⟩
  obtain hq | hq := List.mem_append.1 hq
  · exact hall.direct q hq
  · obtain rfl : q = b.qualified := by simpa using hq
    exact ⟨b.type, [], hD, .refl, by simp⟩

end OnRoute

/-- Every definition that a name stands for is declared. -/
def Declares (T : Store) (D : String → Ty → Prop) : Prop :=
  ∀ {id b}, T.binding? id = some b → b.type.IsDefinition → D b.qualified b.type

/-- A declared name leads back to itself, and its type has no finite size or no end at all. -/
def Recurs (T : Store) (D : String → Ty → Prop) : Prop :=
  ∃ q u es id text l, D q u ∧ Route T u es (.name id text l) ∧ Refers T id q ∧ Unguarded es

/-- A reference that a traversal finds endless closes a route from the definition of its name. -/
theorem Meets.recurs (hD : Declares T D) {p : Path} {id : Nat} {l : Option Location}
    (h : Meets T p t id l) (hp : OnRoute T D p t) : Recurs T D := by
  induction h with
  | @infinite p id text l b hb hdef href =>
    have hclose {C : List Edge → Prop} (hq : Between T D b.qualified (.name id text l) C)
        (hC : ∀ es, C es → Unguarded es) : Recurs T D := by
      obtain ⟨u, es, hu, hroute, hes⟩ := hq
      exact ⟨b.qualified, u, es, id, text, l, hu, hroute, ⟨b, hb, rfl, hdef⟩, hC es hes⟩
    obtain ⟨-, h⟩ | ⟨-, hq, -⟩ | ⟨-, h⟩ := p.reference_cases b.qualified
    · simp [href] at h
    · obtain hq | hq | hq := hq
      · exact hclose (hp.direct _ hq) fun es h => ⟨h.1, fun h' => h.2.1 h'.1⟩
      · exact hclose (hp.inStruct _ hq) fun es h => ⟨h.1, fun h' => h.2.2 h'.2⟩
      · exact hclose (hp.behindPointer _ hq) fun es h => ⟨h.1, fun h' => h.2.1 h'.1⟩
    · simp [href] at h
  | @enter p id text l b next id' l' hb hdef href _ ih =>
    obtain ⟨-, h⟩ | ⟨-, -, h⟩ | ⟨-, h⟩ := p.reference_cases b.qualified
    · simp [href] at h
    · simp [href] at h
    · obtain rfl : next = p.define b.qualified := by simpa [href] using h
      exact ih (hp.enter hb (hD hb hdef))
  | pointer _ ih => exact ih (hp.pointer .pointer)
  | slice _ ih => exact ih (hp.pointer .slice)
  | unsized _ ih => exact ih (hp.pointer .unsized)
  | element hn _ ih => exact ih (hp.unrecorded (.element hn) (by simp))
  | member hm _ ih => exact ih (hp.member (.member hm))
  | argument ha _ ih => exact ih (hp.function (.argument ha))
  | result _ ih => exact ih (hp.function .result)

/-! ## Every route back is found -/

/-- A name on a path is found endless at the end of a route. -/
structure Awaits (p : Path) (q : String) (es : List Edge) : Prop where
  passed : q ∉ p.passed
  isOpen : q ∈ p.direct ∨ q ∈ p.inStruct ∨ q ∈ p.behindPointer
  inStruct : q ∈ p.inStruct → .indirection ∉ es
  behindPointer : q ∈ p.behindPointer → .member ∉ es
  unguarded : Unguarded es

namespace Awaits

variable {p : Path} {q : String}

/-- A name is still waited for when another one is entered. -/
theorem define (h : Awaits p q es) (x : String) : Awaits (p.define x) q es where
  passed := h.passed
  isOpen := h.isOpen.imp_left fun h => List.mem_append_left _ h
  inStruct := h.inStruct
  behindPointer := h.behindPointer
  unguarded := h.unguarded

/-- A name is waited for on the rest of a route. -/
theorem tail {e : Edge} (h : Awaits p q (e :: es)) : Awaits p q es where
  passed := h.passed
  isOpen := h.isOpen
  inStruct hq he := h.inStruct hq (List.mem_cons_of_mem _ he)
  behindPointer hq he := h.behindPointer hq (List.mem_cons_of_mem _ he)
  unguarded := h.unguarded.sublist (List.sublist_cons_self _ _)

/-- A name is waited for behind an indirection. -/
theorem pointer (h : Awaits p q (.indirection :: es)) : Awaits p.pointer q es := by
  have hstruct : q ∉ p.inStruct := fun hq => h.inStruct hq (by simp)
  have hmember : .member ∉ es := fun he => h.unguarded.2 (by simp [he])
  refine ⟨?_, ?_, by simp [Path.pointer], fun _ => hmember, h.tail.unguarded⟩
  · simpa [Path.pointer] using ⟨h.passed, hstruct⟩
  · simpa [Path.pointer, hstruct, or_comm] using h.isOpen

/-- A name is waited for in a struct. -/
theorem struct (h : Awaits p q (.member :: es)) : Awaits p.struct q es := by
  have hpointer : q ∉ p.behindPointer := fun hq => h.behindPointer hq (by simp)
  have hindirection : .indirection ∉ es := fun he => h.unguarded.2 (by simp [he])
  refine ⟨?_, ?_, fun _ => hindirection, by simp [Path.struct], h.tail.unguarded⟩
  · simpa [Path.struct] using ⟨h.passed, hpointer⟩
  · simpa [Path.struct, hpointer, or_comm] using h.isOpen

end Awaits

/-- A route follows no name that is on the path, and none twice. -/
def Fresh (T : Store) (p : Path) (es : List Edge) : Prop :=
  ∀ before id after b, es = before ++ .definition id :: after → T.binding? id = some b →
    b.qualified ∉ p.names ∧ b.qualified ∉ followed T after

/-- The rest of a route is fresh on a path with no more names. -/
theorem Fresh.tail {p p' : Path} {e : Edge} (h : Fresh T p (e :: es))
    (hp : ∀ q, q ∈ p'.names → q ∈ p.names) : Fresh T p' es := by
  intro before id after b hes hb
  obtain ⟨hnames, hafter⟩ := h (e :: before) id after b (by simp [hes]) hb
  exact ⟨fun hq => hnames (hp _ hq), hafter⟩

/-- A traversal goes along a route that follows no name twice, and finds its end. -/
theorem Route.meets {p : Path} {q : String} {id : Nat} {text : String} {l : Option Location}
    (h : Route T t es (.name id text l)) (hq : Refers T id q) (hes : .malformed ∉ es)
    (hp : Awaits p q es) (hfresh : Fresh T p es) : Meets T p t id l := by
  generalize hv : Ty.name id text l = v at h
  induction h generalizing p with
  | refl =>
    subst hv
    obtain ⟨b, hb, rfl, hdef⟩ := hq
    refine .infinite hb hdef ?_
    obtain ⟨h, -⟩ | ⟨-, -, h⟩ | ⟨h, -⟩ := p.reference_cases b.qualified
    · exact absurd h hp.passed
    · exact h
    · have hopen := hp.isOpen
      exact absurd (Path.mem_names.2 (by tauto)) h
  | @step t u v e es hfirst hrest ih =>
    have hes' : .malformed ∉ es := fun h => hes (List.mem_cons_of_mem _ h)
    have hsame : Fresh T p es := hfresh.tail fun _ h => h
    cases hfirst with
    | pointer => exact .pointer (ih hes' hp.pointer (hfresh.tail (by simp)) hv)
    | slice => exact .slice (ih hes' hp.pointer (hfresh.tail (by simp)) hv)
    | unsized => exact .unsized (ih hes' hp.pointer (hfresh.tail (by simp)) hv)
    | element hn => exact .element hn (ih hes' hp.tail hsame hv)
    | malformed => simp at hes
    | member hm => exact .member hm (ih hes' hp.struct (hfresh.tail (by simp)) hv)
    | argument => exact absurd List.mem_cons_self hp.unguarded.1
    | result => exact absurd List.mem_cons_self hp.unguarded.1
    | @definition i text' l' b hb =>
      obtain ⟨hnames, hafter⟩ := hfresh [] i es b rfl hb
      have hdef : b.type.IsDefinition := (hv ▸ hrest).isDefinition
      refine .enter hb hdef ?_ (ih hes' (hp.tail.define b.qualified) ?_ hv)
      · obtain ⟨h, -⟩ | ⟨-, h, -⟩ | ⟨-, h⟩ := p.reference_cases b.qualified
        · exact absurd (Path.mem_names.2 (by tauto)) hnames
        · exact absurd (Path.mem_names.2 (by tauto)) hnames
        · exact h
      · intro before j after c hsplit hc
        obtain ⟨hpath, hlater⟩ := hsame before j after c hsplit hc
        refine ⟨fun hmem => ?_, hlater⟩
        obtain hmem | heq := Path.mem_names_define.1 hmem
        · exact hpath hmem
        · exact hafter (mem_followed.2 ⟨j, c, by simp [hsplit], hc, heq⟩)

/-- Where a declared name leads back to itself, the traversal of some definition finds an endless
reference. -/
theorem Recurs.meets (hD : Declares T D) (hlengths : ∀ q u es v, D q u → Route T u es v →
    .malformed ∉ es) (h : Recurs T D) :
    ∃ q u id l, D q u ∧ Meets T (Path.define {} q) u id l := by
  obtain ⟨q, u, es, id, text, l, hu, hroute, hrefers, hes⟩ := h
  -- A route that follows a name twice, or the name it starts from, has a shorter one inside.
  induction hlen : es.length using Nat.strongRecOn generalizing q u es id text l with
  | _ n ih =>
    have hinside {before : List Edge} {i : Nat} {after : List Edge} (heq : es = before ++ .definition i :: after) :
        ∃ text' l' b, Route T u before (.name i text' l') ∧ T.binding? i = some b ∧
          b.type.IsDefinition ∧ Route T b.type after (.name id text l) := by
      obtain ⟨text', l', b, hto, hb, hfrom⟩ := (heq ▸ hroute).split
      exact ⟨text', l', b, hto, hb, hfrom.isDefinition, hfrom⟩
    by_cases hfresh : Fresh T (Path.define {} q) es
    · refine ⟨q, u, id, l, hu, hroute.meets hrefers (hlengths q u es _ hu hroute) ?_ hfresh⟩
      exact ⟨by simp [Path.define], by simp [Path.define], by simp [Path.define],
        by simp [Path.define], hes⟩
    · simp only [Fresh, not_forall] at hfresh
      obtain ⟨before, i, after, b, heq, hb, htwice⟩ := hfresh
      obtain ⟨text₁, l₁, b₁, hto, hb₁, hdef, hfrom⟩ := hinside heq
      obtain rfl : b₁ = b := Option.some.inj (hb₁.symm.trans hb)
      by_cases hself : b₁.qualified = q
      · refine ih before.length ?_ q u before i text₁ l₁ hu hto ⟨b₁, hb, hself, hdef⟩ ?_ rfl
        · simp [← hlen, heq]
        · exact hes.sublist (heq ▸ List.sublist_append_left _ _)
      · have hlater : b₁.qualified ∈ followed T after := by
          by_contra h
          exact htwice ⟨by simpa [Path.names, Path.define] using hself, h⟩
        obtain ⟨j, c, hj, hc, hname⟩ := mem_followed.1 hlater
        obtain ⟨middle, rest, rfl⟩ := List.append_of_mem hj
        obtain ⟨text₂, l₂, c₂, hmiddle, hc₂, hrest⟩ := hfrom.split
        obtain rfl : c₂ = c := Option.some.inj (hc₂.symm.trans hc)
        refine ih middle.length ?_ b₁.qualified b₁.type middle j text₂ l₂ (hD hb hdef) hmiddle
          ⟨c₂, hc, hname, hrest.isDefinition⟩ ?_ rfl
        · simp [← hlen, heq]
          omega
        · refine hes.sublist ?_
          rw [heq]
          exact ((List.sublist_append_left _ _).cons _).trans (List.sublist_append_right _ _)

end Declared

end Qll.Types
