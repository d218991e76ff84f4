import Mathlib.Data.Fintype.EquivFin
import Qll.Proofs.Types.Layouts
import Qll.Proofs.Types.Routes
import Qll.Proofs.Types.Vocabulary

/-!
# Traversals of plain types

A plain type has no template application, no member type and no variable. Its traversal along a path
comes to an end, because it enters a definition only if its name is not on the path yet. Once the
references that a traversal finds endless are marked, the type that was traversed stands for a shape,
and if the path went through no indirection its layout is finite as well.
-/

namespace Qll.Types

open Source (Location)

/-! ## Texts of written types

The plain text of a type without variables and templates shows the names as they were written. It
depends on nothing that the store knows, and is found in finitely many steps. -/

/-- A reading of stores that gives the same in each once enough steps are allowed. -/
def Reads {α : Type} (f : Nat → Store → Except Fault α) (a : α) : Prop :=
  ∃ K, ∀ n T, K ≤ n → f n T = .ok a

namespace Reads

variable {α β : Type} {f : Nat → Store → Except Fault α} {a : α}

/-- A value is read in any number of steps. -/
theorem const (a : α) : Reads (fun _ _ => .ok a) a := ⟨0, fun _ _ _ => rfl⟩

/-- A step more may be asked for. -/
theorem succ (h : Reads (fun n => f (n + 1)) a) : Reads f a := by
  obtain ⟨K, hK⟩ := h
  refine ⟨K + 1, fun n T hn => ?_⟩
  cases n with
  | zero => omega
  | succ n => exact hK n T (by omega)

/-- A reading may come behind another one. -/
theorem bind {g : Nat → Store → α → Except Fault β} {b : β} (h : Reads f a)
    (hg : Reads (fun n T => g n T a) b) : Reads (fun n T => f n T >>= g n T) b := by
  obtain ⟨K, hK⟩ := h
  obtain ⟨K', hK'⟩ := hg
  refine ⟨max K K', fun n T hn => ?_⟩
  change f n T >>= g n T = _
  rw [hK n T (by omega)]
  exact hK' n T (by omega)

/-- What is made of a reading is one. -/
theorem map (h : Reads f a) (g : α → β) : Reads (fun n T => do return g (← f n T)) (g a) :=
  h.bind (.const (g a))

end Reads

/-- Neither variables nor templates are allowed. -/
structure Parts.Closed (P : Parts) : Prop where
  var : ∀ v, ¬ P.var v
  template : ∀ id, ¬ P.template id

mutual

/-- A type without variables and templates has a text. -/
theorem reads_text {P : Parts} (hP : P.Closed) : ∀ t : Ty, t.Over P →
    ∃ text, Reads (fun n T => T.renderWithin false n t) text
  | .builtin kind _, _ => ⟨kind.name, .succ (.const _)⟩
  | .name _ text _, _ => ⟨text, .succ (.const _)⟩
  | .pointer e _, h => by
    obtain ⟨text, he⟩ := reads_text hP e h
    exact ⟨_, .succ (he.map fun x => "*" ++ x)⟩
  | .slice e _, h => by
    obtain ⟨text, he⟩ := reads_text hP e h
    exact ⟨_, .succ (he.map fun x => "[" ++ x ++ "]")⟩
  | .array e length _, h => by
    obtain ⟨text, he⟩ := reads_text hP e h
    exact ⟨_, .succ (he.map fun x => "[" ++ x ++ "; " ++ Store.lengthText length ++ "]")⟩
  | .struct ms _, h => by
    obtain ⟨texts, hms⟩ := reads_members hP ms h
    exact ⟨_, .succ (hms.map fun xs => "struct \x7b" ++ String.join xs ++ " \x7d")⟩
  | .function as r _, h => by
    obtain ⟨texts, has⟩ := reads_texts hP as h.1
    obtain ⟨text, hr⟩ := reads_text hP r h.2
    exact ⟨_, .succ (has.bind (hr.map fun x => "(" ++ Text.join ", " texts ++ ") => " ++ x))⟩
  | .apply _ _ text as _, h => by
    obtain ⟨texts, has⟩ := reads_texts hP as h.2
    exact ⟨_, .succ (.bind (.const text) (has.map fun xs => text ++ Store.bracket xs))⟩
  | .dot b m _, h => by
    obtain ⟨text, hb⟩ := reads_text hP b h.1
    exact ⟨_, .succ (hb.map fun x => x ++ "." ++ m)⟩
  | .var v, h => absurd h (hP.var v)
  | .template id, h => absurd h (hP.template id)

/-- The texts of closed types are read. -/
theorem reads_texts {P : Parts} (hP : P.Closed) : ∀ ts : List Ty, TypesOver P ts →
    ∃ texts, Reads (fun n T => ts.mapM (T.renderWithin false n)) texts
  | [], _ => ⟨[], .const _⟩
  | t :: ts, h => by
    obtain ⟨text, ht⟩ := reads_text hP t h.1
    obtain ⟨texts, hts⟩ := reads_texts hP ts h.2
    simp only [List.mapM_cons]
    exact ⟨_, ht.bind (hts.map fun xs => text :: xs)⟩

/-- The texts of closed members are read. -/
theorem reads_members {P : Parts} (hP : P.Closed) : ∀ ms : List (Member Ty), MembersOver P ms →
    ∃ texts, Reads (fun n T => ms.mapM fun m =>
      return " " ++ m.name ++ ": " ++ (← T.renderWithin false n m.type) ++ ";") texts
  | [], _ => ⟨[], .const _⟩
  | ⟨name, t, _⟩ :: ms, h => by
    obtain ⟨text, ht⟩ := reads_text hP t h.1.2
    obtain ⟨texts, hms⟩ := reads_members hP ms h.2
    simp only [List.mapM_cons]
    exact ⟨_, (ht.map fun x => " " ++ name ++ ": " ++ x ++ ";").bind (hms.map fun xs => _ :: xs)⟩

end

/-! ## Plain types -/

variable {T T' : Store} {D : String → Ty → Prop} {p : Path} {t : Ty}

/-- A type without templates, member types and variables, whose names and array lengths are as
said. -/
inductive Plain (N : Nat → Prop) (L : Int → Prop) : Ty → Prop
  | builtin {kind l} : Plain N L (.builtin kind l)
  | name {id text l} (h : N id) : Plain N L (.name id text l)
  | pointer {e l} (h : Plain N L e) : Plain N L (.pointer e l)
  | slice {e l} (h : Plain N L e) : Plain N L (.slice e l)
  | array {e n l} (hn : L n) (h : Plain N L e) : Plain N L (.array e n l)
  | struct {ms l} (h : ∀ m ∈ ms, Plain N L m.type) : Plain N L (.struct ms l)
  | function {as r l} (has : ∀ a ∈ as, Plain N L a) (hr : Plain N L r) : Plain N L (.function as r l)

/-- Less may be asked of the names and the lengths. -/
theorem Plain.mono {N N' : Nat → Prop} {L L' : Int → Prop} (h : Plain N L t)
    (hN : ∀ id, N id → N' id) (hL : ∀ n, L n → L' n) : Plain N' L' t := by
  induction h with
  | builtin => exact .builtin
  | name h => exact .name (hN _ h)
  | pointer _ ih => exact .pointer ih
  | slice _ ih => exact .slice ih
  | array hn _ ih => exact .array (hL _ hn) ih
  | struct _ ih => exact .struct ih
  | function _ _ iha ihr => exact .function iha ihr

/-- What a plain type may be made of. -/
def plainParts : Parts where
  name _ _ := True
  member _ := True
  var _ := False
  template _ := False

/-- A plain type has neither variables nor templates. -/
theorem plainParts_closed : plainParts.Closed := ⟨fun _ h => h, fun _ h => h⟩

/-- A plain type is made of what one may be made of. -/
theorem Plain.over {N : Nat → Prop} {L : Int → Prop} (h : Plain N L t) : t.Over plainParts := by
  induction h with
  | builtin => exact trivial
  | name => exact trivial
  | pointer _ ih => exact ih
  | slice _ ih => exact ih
  | array _ _ ih => exact ih
  | struct _ ih => exact membersOver_iff.2 fun m hm => ⟨trivial, ih m hm⟩
  | function _ _ iha ihr => exact ⟨typesOver_iff.2 iha, ihr⟩

/-- A type without templates and variables, and without member types unless `M` says so, whose names and
array lengths are as said. -/
inductive Projected (M : Prop) (N : Nat → Prop) (L : Int → Prop) : Ty → Prop
  | builtin {kind l} : Projected M N L (.builtin kind l)
  | name {id text l} (h : N id) : Projected M N L (.name id text l)
  | pointer {e l} (h : Projected M N L e) : Projected M N L (.pointer e l)
  | slice {e l} (h : Projected M N L e) : Projected M N L (.slice e l)
  | array {e n l} (hn : L n) (h : Projected M N L e) : Projected M N L (.array e n l)
  | struct {ms l} (h : ∀ m ∈ ms, Projected M N L m.type) : Projected M N L (.struct ms l)
  | function {as r l} (has : ∀ a ∈ as, Projected M N L a) (hr : Projected M N L r) :
      Projected M N L (.function as r l)
  | dot {b m l} (hM : M) (h : Projected M N L b) : Projected M N L (.dot b m l)

namespace Projected

variable {M : Prop} {N : Nat → Prop} {L : Int → Prop}

/-- Less may be asked of the names. -/
theorem mono {N' : Nat → Prop} (h : Projected M N L t) (hN : ∀ id, N id → N' id) :
    Projected M N' L t := by
  induction h with
  | builtin => exact .builtin
  | name h => exact .name (hN _ h)
  | pointer _ ih => exact .pointer ih
  | slice _ ih => exact .slice ih
  | array hn _ ih => exact .array hn ih
  | struct _ ih => exact .struct ih
  | function _ _ iha ihr => exact .function iha ihr
  | dot hM _ ih => exact .dot hM ih

/-- A type with member types, but without templates and variables, is made of what a plain type may be made
of. -/
theorem plain_over (h : Projected M N L t) : t.Over plainParts := by
  induction h with
  | builtin => exact trivial
  | name => exact trivial
  | pointer _ ih => exact ih
  | slice _ ih => exact ih
  | array _ _ ih => exact ih
  | struct _ ih => exact membersOver_iff.2 fun m hm => ⟨trivial, ih m hm⟩
  | function _ _ iha ihr => exact ⟨typesOver_iff.2 iha, ihr⟩
  | dot _ _ ih => exact ⟨ih, trivial⟩

/-- Without member types a type is plain. -/
theorem plain (h : Projected M N L t) (hM : ¬ M) : Plain N L t := by
  induction h with
  | builtin => exact .builtin
  | name h => exact .name h
  | pointer _ ih => exact .pointer ih
  | slice _ ih => exact .slice ih
  | array hn _ ih => exact .array hn ih
  | struct _ ih => exact .struct ih
  | function _ _ iha ihr => exact .function iha ihr
  | dot h => exact absurd h hM

/-- A type that no traversal enters is builtin. -/
theorem builtin_of_not_isDefinition (h : Projected M N L t) (hdef : ¬ t.IsDefinition) :
    ∃ kind l, t = .builtin kind l := by
  cases h with
  | builtin => exact ⟨_, _, rfl⟩
  | _ => exact absurd trivial hdef

end Projected

/-- A plain type that no traversal enters is builtin. -/
theorem Plain.builtin_of_not_isDefinition {N : Nat → Prop} {L : Int → Prop} (h : Plain N L t)
    (hdef : ¬ t.IsDefinition) : ∃ kind l, t = .builtin kind l := by
  cases h with
  | builtin => exact ⟨_, _, rfl⟩
  | _ => exact absurd trivial hdef

/-- The names of a plain type are resolved. -/
abbrev Resolved (T : Store) (L : Int → Prop) : Ty → Prop :=
  Plain (fun id => (T.binding? id).isSome) L

/-- A store in which every name stands for a plain type, declared under its qualified name or
builtin, and each qualified name is declared once. -/
structure Closed (T : Store) (L : Int → Prop) (D : String → Ty → Prop) : Prop where
  declares : Declares T D
  plain : ∀ {id b}, T.binding? id = some b → Resolved T L b.type
  unique : ∀ {q u u'}, D q u → D q u' → u = u'

/-! ## Traversals end -/

/-- The traversal of a type along a path comes to an end. -/
inductive Visits (T : Store) : Path → Ty → Prop
  | builtin {p kind l} : Visits T p (.builtin kind l)
  | ground {p id text l b} (hb : T.binding? id = some b) (hdef : ¬ b.type.IsDefinition) :
      Visits T p (.name id text l)
  | accepted {p id text l b} (hb : T.binding? id = some b) (hdef : b.type.IsDefinition)
      (hp : p.reference b.qualified = .accepted) : Visits T p (.name id text l)
  | infinite {p id text l b} (hb : T.binding? id = some b) (hdef : b.type.IsDefinition)
      (hp : p.reference b.qualified = .infinite) : Visits T p (.name id text l)
  | enter {p id text l b} (hb : T.binding? id = some b) (hdef : b.type.IsDefinition)
      (hp : p.reference b.qualified = .enter (p.define b.qualified))
      (h : Visits T (p.define b.qualified) b.type) : Visits T p (.name id text l)
  | pointer {p e l} (h : Visits T p.pointer e) : Visits T p (.pointer e l)
  | slice {p e l} (h : Visits T p.pointer e) : Visits T p (.slice e l)
  | unsized {p e l} (h : Visits T p.pointer e) : Visits T p (.array e unsized l)
  | element {p e n l} (hn : 0 ≤ n) (h : Visits T p e) : Visits T p (.array e n l)
  | malformed {p e n l} (hn : n < 0) (hu : n ≠ unsized) : Visits T p (.array e n l)
  | struct {p ms l} (h : ∀ m ∈ ms, Visits T p.struct m.type) : Visits T p (.struct ms l)
  | function {p as r l} (has : ∀ a ∈ as, Visits T p.function a) (hr : Visits T p.function r) :
      Visits T p (.function as r l)

/-- The traversal of a plain type ends if every definition that it can still enter does. -/
theorem visits_of_enter {L : Int → Prop} (ht : Resolved T L t)
    (henter : ∀ (p' : Path) id b, (∀ q, q ∈ p'.names ↔ q ∈ p.names) → T.binding? id = some b →
      b.type.IsDefinition → b.qualified ∉ p.names → Visits T (p'.define b.qualified) b.type) :
    ∀ p' : Path, (∀ q, q ∈ p'.names ↔ q ∈ p.names) → Visits T p' t := by
  induction ht with
  | builtin => exact fun _ _ => .builtin
  | @name id text l h =>
    intro p' hnames
    obtain ⟨b, hb⟩ := Option.isSome_iff_exists.1 h
    by_cases hdef : b.type.IsDefinition
    · obtain ⟨-, hp⟩ | ⟨-, -, hp⟩ | ⟨hfresh, hp⟩ := p'.reference_cases b.qualified
      · exact .accepted hb hdef hp
      · exact .infinite hb hdef hp
      · exact .enter hb hdef hp (henter p' id b hnames hb hdef (by rwa [← hnames]))
    · exact .ground hb hdef
  | pointer _ ih => exact fun p' hnames => .pointer (ih _ (by simpa using hnames))
  | slice _ ih => exact fun p' hnames => .slice (ih _ (by simpa using hnames))
  | @array e n l _ _ ih =>
    intro p' hnames
    by_cases hu : n = unsized
    · subst hu
      exact .unsized (ih _ (by simpa using hnames))
    · by_cases hn : n < 0
      · exact .malformed hn hu
      · exact .element (by omega) (ih p' hnames)
  | struct _ ih => exact fun p' hnames => .struct fun m hm => ih m hm _ (by simpa using hnames)
  | function _ _ iha ihr =>
    exact fun p' hnames => .function (fun a ha => iha a ha _ (by simpa using hnames))
      (ihr _ (by simpa using hnames))

/-- Every traversal of a plain type comes to an end: it enters only names that are not on its
path. -/
theorem Resolved.visits {L : Int → Prop} (hT : Closed T L D) {names : Finset String}
    (hnames : ∀ q u, D q u → q ∈ names) (ht : Resolved T L t) (p : Path) : Visits T p t := by
  induction hk : (names.filter (· ∉ p.names)).card using Nat.strongRecOn generalizing p t with
  | _ k ih =>
    refine visits_of_enter ht (fun p' id b hsame hb hdef hfresh => ?_) p fun _ => Iff.rfl
    exact ih _ (hk ▸ Path.card_define_lt hsame (hnames _ _ (hT.declares hb hdef)) hfresh) (hT.plain hb) _ rfl

/-! ## What marks leave -/

/-- A reference stands for the error type, because it closes a type of infinite size. -/
def Marked (T : Store) (id : Nat) : Prop := ∃ e, T.names[id]? = some e ∧ e.cyclic = true

/-- A marked name stands for the error type. -/
theorem target_of_marked {id : Nat} {b : Binding} (hb : T.binding? id = some b) (h : Marked T id)
    (text : String) : T.target id text = .ok .error := by
  obtain ⟨⟨binding, cyclic⟩, he, hcyclic⟩ := h
  obtain rfl : binding = some b := by simpa [Store.binding?, he] using hb
  obtain rfl : cyclic = true := hcyclic
  simp [Store.target, he]

/-- A name without a mark stands for its definition. -/
theorem target_of_unmarked {id : Nat} {b : Binding} (hb : T.binding? id = some b) (h : ¬ Marked T id)
    (text : String) : T.target id text = .ok b.type := by
  obtain ⟨⟨binding, cyclic⟩, he, hbinding⟩ := Option.bind_eq_some_iff.1 hb
  obtain rfl : binding = some b := hbinding
  cases cyclic with
  | true => exact absurd ⟨_, he, rfl⟩ h
  | false => simp [Store.target, he]

/-- A name stands for its definition or for the error type. -/
theorem target_of_binding {id : Nat} {b : Binding} (hb : T.binding? id = some b) (text : String) :
    T.target id text = .ok b.type ∨ T.target id text = .ok .error := by
  by_cases hmarked : Marked T id
  · exact .inr (target_of_marked hb hmarked text)
  · exact .inl (target_of_unmarked hb hmarked text)

/-- What stands for a type with a finite layout, or is marked, has one. -/
theorem layout_of_binding {inside : Int → Prop} {bare : Prop} {id : Nat} {b : Binding}
    (hb : T.binding? id = some b) (h : ¬ Marked T id → Layout T inside bare b.type) (text : String)
    (l : Option Location) : Layout T inside bare (.name id text l) := by
  by_cases hmarked : Marked T id
  · exact .name (target_of_marked hb hmarked text) .builtin
  · exact (target_of_binding hb text).elim (.name · (h hmarked)) (.name · .builtin)

/-- Names lead to a type with a form of its own. -/
inductive Ends (T : Store) : Ty → Prop
  | shape {u : Ty} (h : u.IsShape) : Ends T u
  | name {id text l u} (h : T.target id text = .ok u) (hu : Ends T u) : Ends T (.name id text l)

/-- A name leads to a type with a form of its own if its definition does. -/
theorem Ends.of_binding {id : Nat} {b : Binding} (hb : T.binding? id = some b) (h : Ends T b.type)
    (text : String) (l : Option Location) : Ends T (.name id text l) :=
  (target_of_binding hb text).elim (.name · h) (.name · (.shape trivial))

/-- A type that stands for a shape has that shape, and the store stays. -/
theorem Ends.resolves (h : Ends T t) : ∃ u, u.IsShape ∧ Resolves T t u := by
  induction h with
  | @shape t h =>
    refine ⟨t, h, .succ ?_⟩
    cases t with
    | name => exact h.elim
    | apply => exact h.elim
    | dot => exact h.elim
    | var => exact h.elim
    | template => exact h.elim
    | _ => exact .const fun _ => rfl
  | name h _ ih =>
    obtain ⟨u, hu, hr⟩ := ih
    exact ⟨u, hu, .succ (.bind (.const fun _ => read_ok.2 ⟨h, rfl⟩) hr)⟩

/-- Once a route leaves the names it comes through, they stand for a shape. -/
theorem Route.ends {es : List Edge} {u v : Ty} (h : Route T u es v)
    (hT' : ∀ id, T'.binding? id = T.binding? id) (hes : ∃ e ∈ es, ∀ id, e ≠ .definition id) :
    Ends T' u := by
  induction h with
  | refl => simp at hes
  | step hfirst _ ih =>
    cases hfirst with
    | @definition id text l b hb =>
      obtain ⟨e, he, hne⟩ := hes
      have hrest : e ∈ _ := (List.mem_cons.1 he).resolve_left (hne id)
      exact Ends.of_binding ((hT' id).trans hb) (ih ⟨e, hrest, hne⟩) text l
    | _ => exact .shape trivial

section Static

variable (hT' : ∀ id, T'.binding? id = T.binding? id)

include hT'

/-- Once the endless references that a traversal finds are marked, the type stands for a shape. -/
theorem Visits.ends {L : Int → Prop} (hT : Closed T L D) (h : Visits T p t) (hp : OnRoute T D p t)
    (hmarks : ∀ id l, Meets T p t id l → Marked T' id) : Ends T' t := by
  induction h with
  | @ground p id text l b hb hdef =>
    obtain ⟨kind, l', hkind⟩ := (hT.plain hb).builtin_of_not_isDefinition hdef
    exact Ends.of_binding ((hT' id).trans hb) (.shape (hkind ▸ trivial)) text l
  | @accepted p id text l b hb hdef href =>
    obtain ⟨hq, -⟩ | ⟨-, -, h⟩ | ⟨-, h⟩ := p.reference_cases b.qualified
    · obtain ⟨u, es, hu, hroute, hes⟩ := hp.passed _ hq
      obtain rfl := hT.unique hu (hT.declares hb hdef)
      refine Ends.of_binding ((hT' id).trans hb) (hroute.ends hT' ?_) text l
      obtain he | he | he := hes
      · exact ⟨_, he, by simp⟩
      · exact ⟨_, he, by simp⟩
      · exact ⟨_, he, by simp⟩
    · simp [href] at h
    · simp [href] at h
  | @infinite p id text l b hb hdef href =>
    have hmarked := hmarks id l (.infinite hb hdef href)
    exact .name (target_of_marked ((hT' id).trans hb) hmarked text) (.shape trivial)
  | @enter p id text l b hb hdef href _ ih =>
    refine Ends.of_binding ((hT' id).trans hb) ?_ text l
    exact ih (hp.enter hb (hT.declares hb hdef)) fun id' l' h => hmarks id' l' (.enter hb hdef href h)
  | _ => exact .shape trivial

/-- Once the endless references that a traversal finds are marked, a type that it came to by value
has a finite layout, arrays of negative length left aside. -/
theorem Visits.layout {L : Int → Prop} (hT : Closed T L D) (h : Visits T p t) (hp : p.Inline)
    (hmarks : ∀ id l, Meets T p t id l → Marked T' id) : Layout T' (0 ≤ ·) False t := by
  induction h with
  | builtin => exact .builtin
  | @ground p id text l b hb hdef =>
    obtain ⟨kind, l', hkind⟩ := (hT.plain hb).builtin_of_not_isDefinition hdef
    exact layout_of_binding ((hT' id).trans hb) (fun _ => hkind ▸ .builtin) text l
  | @accepted p id text l b hb hdef href =>
    obtain ⟨hq, -⟩ | ⟨-, -, h⟩ | ⟨-, h⟩ := p.reference_cases b.qualified
    · simp [hp.passed] at hq
    · simp [href] at h
    · simp [href] at h
  | @infinite p id text l b hb hdef href =>
    have hmarked := hmarks id l (.infinite hb hdef href)
    exact layout_of_binding ((hT' id).trans hb) (fun h => absurd hmarked h) text l
  | @enter p id text l b hb hdef href _ ih =>
    refine layout_of_binding ((hT' id).trans hb) (fun _ => ?_) text l
    exact ih (hp.define _) fun id' l' h => hmarks id' l' (.enter hb hdef href h)
  | pointer => exact .pointer
  | slice => exact .slice
  | unsized => exact .array fun h => absurd h (by decide)
  | element hn _ ih => exact .array fun _ => ih hp fun id l h => hmarks id l (.element hn h)
  | malformed hn => exact .array fun h => by omega
  | struct _ ih =>
    exact .struct fun m hm => ih m hm hp.struct fun id l h => hmarks id l (.member hm h)
  | function => exact .function

end Static

/-! ## Arrays of negative length

A traversal stops at an array of negative length, but the size of the array is asked for with that of
its elements. So what lies inside such an array has to be looked at apart. -/

/-- A type has another one inside by value, and no endless reference leads to it. -/
def Encloses (T : Store) (u : Ty) (es : List Edge) (t : Ty) : Prop :=
  Route T u es t ∧ ByValue es ∧ ∀ id, .definition id ∈ es → ¬ Marked T id

/-- What is inside by value is still so one step further. -/
theorem Encloses.snoc {u v : Ty} {es : List Edge} {e : Edge} (h : Encloses T u es t) (ht : Follows T t e v)
    (he : e ≠ .function ∧ e ≠ .indirection ∧ ∀ id, e = .definition id → ¬ Marked T id) :
    Encloses T u (es ++ [e]) v := by
  obtain ⟨hroute, ⟨hfunction, hindirection⟩, hmarked⟩ := h
  refine ⟨hroute.snoc ht, ⟨?_, ?_⟩, fun id hid => ?_⟩
  · simpa [hfunction] using he.1.symm
  · simpa [hindirection] using he.2.1.symm
  · obtain hid | hid := List.mem_append.1 hid
    · exact hmarked id hid
    · exact he.2.2 id (List.mem_singleton.1 hid).symm

/-- What is inside by value of something inside by value is inside by value. -/
theorem Encloses.append {u v : Ty} {es es' : List Edge} (h : Encloses T u es t) (h' : Encloses T t es' v) :
    Encloses T u (es ++ es') v := by
  refine ⟨h.1.append h'.1, ⟨?_, ?_⟩, fun id hid => ?_⟩
  · simpa using ⟨h.2.1.1, h'.2.1.1⟩
  · simpa using ⟨h.2.1.2, h'.2.1.2⟩
  · exact (List.mem_append.1 hid).elim (h.2.2 id) (h'.2.2 id)

/-- A definition holds another one inside an array of negative length. -/
def Holds (T : Store) (D : String → Ty → Prop) (q q' : String) : Prop :=
  ∃ u es id text l, D q u ∧ Encloses T u es (.name id text l) ∧ .malformed ∈ es ∧ Refers T id q' ∧
    ¬ Marked T id

section Malformed

variable {L : Int → Prop}

/-- What is held in something held is held. -/
theorem Holds.trans (hT : Closed T L D) {q q' q'' : String} (h : Holds T D q q')
    (h' : Holds T D q' q'') : Holds T D q q'' := by
  obtain ⟨u, es, id, text, l, hu, hin, hes, ⟨b, hb, rfl, hdef⟩, hid⟩ := h
  obtain ⟨u', es', id', text', l', hu', hin', -, hrefers, hid'⟩ := h'
  obtain rfl := hT.unique hu' (hT.declares hb hdef)
  have hnext : Encloses T u (es ++ [.definition id]) b.type :=
    hin.snoc (.definition hb) ⟨by simp, by simp, by rintro _ ⟨⟩; exact hid⟩
  exact ⟨u, _, id', text', l', hu, hnext.append hin', by simp [hes], hrefers, hid'⟩

/-- Inside an array of negative length only definitions are looked at that the type holds. -/
theorem layout_of_inner (hT : Closed T L D) {q : String} {u : Ty} (hu : D q u)
    (hrec : ∀ q' u', Holds T D q q' → D q' u' → Layout T (· ≠ unsized) False u') {es : List Edge}
    (ht : Resolved T L t) (hin : Encloses T u es t) (hes : .malformed ∈ es) :
    Layout T (· ≠ unsized) False t := by
  induction ht generalizing es with
  | builtin => exact .builtin
  | @name id text l h =>
    obtain ⟨b, hb⟩ := Option.isSome_iff_exists.1 h
    refine layout_of_binding hb (fun hid => ?_) text l
    by_cases hdef : b.type.IsDefinition
    · exact hrec b.qualified b.type ⟨u, es, id, text, l, hu, hin, hes, ⟨b, hb, rfl, hdef⟩, hid⟩
        (hT.declares hb hdef)
    · obtain ⟨kind, l', hkind⟩ := (hT.plain hb).builtin_of_not_isDefinition hdef
      exact hkind ▸ .builtin
  | pointer => exact .pointer
  | slice => exact .slice
  | @array e n l _ _ ih =>
    refine .array fun hn => ?_
    by_cases hneg : n < 0
    · exact ih (hin.snoc (.malformed hneg hn) (by simp)) (by simp [hes])
    · exact ih (hin.snoc (.element (by omega)) (by simp)) (by simp [hes])
  | struct _ ih =>
    exact .struct fun m hm => ih m hm (hin.snoc (.member hm) (by simp)) (by simp [hes])
  | function => exact .function

/-- A layout up to the arrays of negative length goes on inside them. -/
theorem layout_of_outer (hT : Closed T L D) {q : String} {u : Ty} (hu : D q u)
    (hrec : ∀ q' u', Holds T D q q' → D q' u' → Layout T (· ≠ unsized) False u') {es : List Edge}
    (h : Layout T (0 ≤ ·) False t) (ht : Resolved T L t) (hin : Encloses T u es t) :
    Layout T (· ≠ unsized) False t := by
  induction h generalizing es with
  | builtin => exact .builtin
  | pointer => exact .pointer
  | slice => exact .slice
  | function => exact .function
  | template hbare => exact hbare.elim
  | unbound hbare => exact hbare.elim
  | @array e n l _ ih =>
    cases ht with
    | array _ ht =>
      refine .array fun hn => ?_
      by_cases hneg : n < 0
      · exact layout_of_inner hT hu hrec ht (hin.snoc (.malformed hneg hn) (by simp)) (by simp)
      · exact ih (by omega) ht (hin.snoc (.element (by omega)) (by simp))
  | struct _ ih =>
    cases ht with
    | struct ht => exact .struct fun m hm => ih m hm (ht m hm) (hin.snoc (.member hm) (by simp))
  | @name id text l v htarget _ ih =>
    cases ht with
    | name hid =>
      obtain ⟨b, hb⟩ := Option.isSome_iff_exists.1 hid
      by_cases hmarked : Marked T id
      · exact .name (target_of_marked hb hmarked text) .builtin
      · obtain rfl : v = b.type := by simpa [target_of_unmarked hb hmarked text] using htarget.symm
        refine .name htarget (ih (hT.plain hb) (hin.snoc (.definition hb) ?_))
        exact ⟨by simp, by simp, by rintro _ ⟨⟩; exact hmarked⟩
  | apply => nomatch ht
  | var => nomatch ht
  | dot => nomatch ht

/-- Where no definition holds itself inside an array of negative length, layouts that end at such
arrays are finite. -/
theorem layout_of_negative (hT : Closed T L D) {names : Finset String}
    (hnames : ∀ q u, D q u → q ∈ names) (hlayouts : ∀ q u, D q u → Layout T (0 ≤ ·) False u)
    (hplain : ∀ q u, D q u → Resolved T L u) (hself : ∀ q, ¬ Holds T D q q) {q : String} {u : Ty}
    (hu : D q u) : Layout T (· ≠ unsized) False u := by
  let inner (a b : { q // q ∈ names }) : Prop := Holds T D b.1 a.1
  have : IsTrans _ inner := ⟨fun a b c hab hbc => hbc.trans hT hab⟩
  have : Std.Irrefl inner := ⟨fun a h => hself a.1 h⟩
  have hwf : WellFounded inner := Finite.wellFounded_of_trans_of_irrefl inner
  -- What a definition holds inside such arrays comes before the definition itself.
  have hall (a : { q // q ∈ names }) : ∀ u, D a.1 u → Layout T (· ≠ unsized) False u := by
    induction a using hwf.induction with
    | _ a ih =>
      intro u hu
      refine layout_of_outer hT hu (fun q' u' hholds hu' => ?_) (hlayouts _ u hu) (hplain _ u hu)
        ⟨.refl, by simp [ByValue], by simp⟩
      exact ih ⟨q', hnames q' u' hu'⟩ hholds u' hu'
  exact hall ⟨q, hnames q u hu⟩ u hu

end Malformed

end Qll.Types
