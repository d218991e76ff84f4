import Qll.Program.Check
import Qll.Proofs.Check.Steps
import Qll.Proofs.Check.Traversal
import Qll.Proofs.Program.Lookup

/-!
# Programs of plain type declarations

A program of type declarations without templates and member types, in whatever namespaces, is entered
and its names are resolved whatever is written in it. Afterwards every name in a definition stands
for a builtin type or for a declared type, and nothing is marked yet.
-/

namespace Qll.Source

/-- A written type without templates and member types, whose array lengths are as said. -/
inductive TypeExpr.Plain (L : Int → Prop) : TypeExpr → Prop
  | name {text l} : Plain L (.name text l)
  | pointer {e l} (h : Plain L e) : Plain L (.pointer e l)
  | slice {e l} (h : Plain L e) : Plain L (.slice e l)
  | array {e n l} (hn : L n) (h : Plain L e) : Plain L (.array e n l)
  | struct {ms l} (h : ∀ m ∈ ms, Plain L m.2.1) : Plain L (.struct ms l)
  | function {as r l} (has : ∀ a ∈ as, Plain L a) (hr : ∀ t, r = some t → Plain L t) :
      Plain L (.function as r l)

/-- A written type without templates, and without member types unless `M` says so, whose array lengths
are as said. -/
inductive TypeExpr.Projected (M : Prop) (L : Int → Prop) : TypeExpr → Prop
  | name {text l} : Projected M L (.name text l)
  | pointer {e l} (h : Projected M L e) : Projected M L (.pointer e l)
  | slice {e l} (h : Projected M L e) : Projected M L (.slice e l)
  | array {e n l} (hn : L n) (h : Projected M L e) : Projected M L (.array e n l)
  | struct {ms l} (h : ∀ m ∈ ms, Projected M L m.2.1) : Projected M L (.struct ms l)
  | function {as r l} (has : ∀ a ∈ as, Projected M L a) (hr : ∀ t, r = some t → Projected M L t) :
      Projected M L (.function as r l)
  | dot {b m l} (hM : M) (h : Projected M L b) : Projected M L (.dot b m l)

/-- A plain type is one in which no members need be projected. -/
theorem TypeExpr.Plain.projected {L : Int → Prop} {M : Prop} {t : TypeExpr} (h : t.Plain L) :
    t.Projected M L := by
  induction h with
  | name => exact .name
  | pointer _ ih => exact .pointer ih
  | slice _ ih => exact .slice ih
  | array hn _ ih => exact .array hn ih
  | struct _ ih => exact .struct ih
  | function _ _ iha ihr => exact .function iha ihr

/-- A declaration of a plain type, an import, or a namespace of such declarations. -/
inductive Decl.Plain (L : Int → Prop) : Decl → Prop
  | type {name t l} (h : t.Plain L) : Plain L (.type name [] t l)
  | use {name l} : Plain L (.use name l)
  | space {name decls l} (h : ∀ d ∈ decls, Plain L d) : Plain L (.space name decls l)

/-- A declaration of a type without templates, an import, or a namespace of such declarations. -/
inductive Decl.Projected (M : Prop) (L : Int → Prop) : Decl → Prop
  | type {name t l} (h : t.Projected M L) : Projected M L (.type name [] t l)
  | use {name l} : Projected M L (.use name l)
  | space {name decls l} (h : ∀ d ∈ decls, Projected M L d) : Projected M L (.space name decls l)

/-- A plain declaration is one in which no members need be projected. -/
theorem Decl.Plain.projected {L : Int → Prop} {M : Prop} {decl : Decl} (h : decl.Plain L) :
    decl.Projected M L := by
  induction h with
  | type ht => exact .type ht.projected
  | use => exact .use
  | space _ ih => exact .space ih

mutual

/-- The qualified names of the types that a declaration declares in a namespace. -/
def Decl.typeNames (space : String) : Decl → List String
  | .type name .. => [space ++ Program.separator ++ name]
  | .space name decls _ => declsTypeNames (space ++ Program.separator ++ name) decls
  | _ => []

/-- The qualified names of the types that declarations declare in a namespace. -/
def declsTypeNames (space : String) : List Decl → List String
  | [] => []
  | d :: rest => d.typeNames space ++ declsTypeNames space rest

end

end Qll.Source

/-- What the name of a declared type stands for. -/
def Qll.Check.TypeItem.binding (item : Qll.Check.TypeItem) : Qll.Types.Binding :=
  { qualified := item.qualified, type := item.type, scope := some item.scope }

namespace Qll.Program

open Check (State Space CheckM Runs onTypes check_get_run)
open Source (TypeExpr Decl Location)
open Qll.Types (Ty Store Binding Projected)

/-! ## The limit does not matter for a search -/

section Search

variable {s s' : State}

/-- A walk depends on the namespaces only. -/
theorem walk_congr (hspaces : s.spaces = s'.spaces) (space : Nat) (parts : List String) :
    walk s space parts = walk s' space parts := by
  induction parts generalizing space with
  | nil => rfl
  | cons name rest ih => simp only [walk, hspaces, ih]

/-- What is found directly depends on the namespaces only. -/
theorem findDirect_congr {α : Type} {table : Space → List (String × α)}
    (hspaces : s.spaces = s'.spaces) (space : Nat) (parts : List String) :
    findDirect table s space parts = findDirect table s' space parts := by
  simp only [findDirect, direct, walk_congr hspaces, hspaces]

/-- What imports offer depends on the namespaces and the imports only. -/
theorem offers_congr {α : Type} {table : Space → List (String × α)} (hspaces : s.spaces = s'.spaces)
    (himports : s.imports = s'.imports) (parts : List String) (imports : List Nat)
    (found : List (Nat × Nat × α)) :
    offers table s parts imports found = offers table s' parts imports found := by
  induction imports generalizing found with
  | nil => rfl
  | cons i rest ih => simp only [offers, findDirect_congr hspaces, himports, ih]

/-- A search outwards depends on the namespaces and the imports only. -/
theorem findOutwards_congr {α : Type} {table : Space → List (String × α)}
    (hspaces : s.spaces = s'.spaces) (himports : s.imports = s'.imports) (name : String) (n : Nat)
    (space : Option Nat) : findOutwards table s name n space = findOutwards table s' name n space := by
  induction n generalizing space with
  | zero => rfl
  | succ n ih =>
    cases space with
    | none => rfl
    | some space =>
      simp only [findOutwards, findDirect_congr hspaces, offers_congr hspaces himports, ih,
        qualifiedName, hspaces]

/-- The limit does not matter to the search for a type. -/
theorem findType_withLimit (s : State) (n space : Nat) (name : String) :
    findType (s.withLimit n) space name = findType s space name := by
  unfold findType
  have hspaces : (s.withLimit n).spaces = s.spaces := rfl
  rw [findOutwards_congr hspaces rfl]
  rfl

/-- The limit does not matter to the search for a namespace. -/
theorem findSpace_withLimit (s : State) (n space : Nat) (name : String) :
    findSpace (s.withLimit n) space name = findSpace s space name := by
  have hwithin (parts : List String) (k : Nat) (space : Option Nat) :
      findSpaceOutwards (s.withLimit n) parts k space = findSpaceOutwards s parts k space := by
    induction k generalizing space with
    | zero => rfl
    | succ k ih =>
      cases space with
      | none => rfl
      | some space =>
        have hspaces : (s.withLimit n).spaces = s.spaces := rfl
        simp only [findSpaceOutwards, direct, walk_congr hspaces, hspaces, ih]
  exact hwithin _ _ _

end Search

/-! ## Written types -/

/-- The store gets new names. -/
structure Renamed (T T' : Store) : Prop where
  same : T' = { T with names := T'.names }
  size : T.names.size ≤ T'.names.size
  fresh : ∀ e ∈ T'.names, e ∈ T.names ∨ e = {}

/-- A store with no new names. -/
theorem Renamed.refl (T : Store) : Renamed T T := ⟨rfl, Nat.le_refl _, fun _ => .inl⟩

/-- New names after new names are new names. -/
theorem Renamed.trans {T T' T'' : Store} (h : Renamed T T') (h' : Renamed T' T'') : Renamed T T'' :=
  ⟨by rw [h'.same, h.same], Nat.le_trans h.size h'.size,
    fun e he => (h'.fresh e he).elim (h.fresh e) .inr⟩

/-- A type whose names have entries in the store. -/
abbrev Inside (M : Prop) (L : Int → Prop) (T : Store) : Ty → Prop := Projected M (· < T.names.size) L

/-- A type with entries in a store has them in a store with more names. -/
theorem Inside.mono {M : Prop} {L : Int → Prop} {T T' : Store} {t : Ty} (h : Inside M L T t)
    (hsize : T.names.size ≤ T'.names.size) : Inside M L T' t :=
  Projected.mono h fun _ hid => Nat.lt_of_lt_of_le hid hsize

/-- Something is written to the store, whatever its limit. -/
def Writes {α : Type} (x : Types.TypeM α) (T : Store) (a : α) (T' : Store) : Prop :=
  ∀ m, x (T.withLimit m) = .ok a (T'.withLimit m)

/-- What is written by two computations in a row. -/
theorem Writes.bind {α β : Type} {x : Types.TypeM α} {f : α → Types.TypeM β} {T T₁ T' : Store} {a : α}
    {b : β} (hx : Writes x T a T₁) (hf : Writes (f a) T₁ b T') : Writes (x >>= f) T b T' :=
  fun m => Computation.bind_ok.2 ⟨a, _, hx m, hf m⟩

/-- A value that is given back writes nothing. -/
theorem Writes.pure {α : Type} (a : α) (T : Store) : Writes (Pure.pure a) T a T := fun _ => rfl

section Written

variable {M : Prop} {L : Int → Prop}

/-- Written types get entries of their own. -/
theorem writes_types {ts : List TypeExpr} (h : ∀ t ∈ ts, ∀ T, ∃ u T',
      Writes (Check.internType t) T u T' ∧ Renamed T T' ∧ Inside M L T' u) (T : Store) :
    ∃ us T', Writes (Check.internTypes ts) T us T' ∧ Renamed T T' ∧ ∀ u ∈ us, Inside M L T' u := by
  induction ts generalizing T with
  | nil => exact ⟨[], T, .pure _ _, .refl T, by simp⟩
  | cons t ts ih =>
    obtain ⟨u, T₁, hrun₁, hnamed₁, hu⟩ := h t (by simp) T
    obtain ⟨us, T₂, hrun₂, hnamed₂, hus⟩ := ih (fun t ht => h t (by simp [ht])) T₁
    refine ⟨u :: us, T₂, hrun₁.bind (hrun₂.bind (.pure _ _)), hnamed₁.trans hnamed₂, ?_⟩
    simpa using ⟨hu.mono hnamed₂.size, hus⟩

/-- Written members get entries of their own. -/
theorem writes_members {ms : List (String × TypeExpr × Location)} (h : ∀ m ∈ ms, ∀ T, ∃ u T',
      Writes (Check.internType m.2.1) T u T' ∧ Renamed T T' ∧ Inside M L T' u) (T : Store) :
    ∃ us T', Writes (Check.internMembers ms) T us T' ∧ Renamed T T' ∧
      ∀ u ∈ us, Inside M L T' u.type := by
  induction ms generalizing T with
  | nil => exact ⟨[], T, .pure _ _, .refl T, by simp⟩
  | cons m ms ih =>
    obtain ⟨name, t, l⟩ := m
    obtain ⟨u, T₁, hrun₁, hnamed₁, hu⟩ := h (name, t, l) (by simp) T
    obtain ⟨us, T₂, hrun₂, hnamed₂, hus⟩ := ih (fun m hm => h m (by simp [hm])) T₁
    refine ⟨⟨name, u, some l⟩ :: us, T₂, hrun₁.bind (hrun₂.bind (.pure _ _)),
      hnamed₁.trans hnamed₂, ?_⟩
    simpa using ⟨hu.mono hnamed₂.size, hus⟩

/-- A written plain type gets entries of its own. -/
theorem writes_type {t : TypeExpr} (h : t.Projected M L) (T : Store) :
    ∃ u T', Writes (Check.internType t) T u T' ∧ Renamed T T' ∧ Inside M L T' u := by
  induction h generalizing T with
  | @name text l =>
    refine ⟨.name T.names.size text (some l), { T with names := T.names.push {} }, fun _ => rfl,
      ⟨rfl, by simp, fun e he => Array.mem_push.1 he⟩, .name (by simp)⟩
  | pointer _ ih =>
    obtain ⟨u, T', hrun, hnamed, hu⟩ := ih T
    exact ⟨_, T', hrun.bind (.pure _ _), hnamed, .pointer hu⟩
  | slice _ ih =>
    obtain ⟨u, T', hrun, hnamed, hu⟩ := ih T
    exact ⟨_, T', hrun.bind (.pure _ _), hnamed, .slice hu⟩
  | array hn _ ih =>
    obtain ⟨u, T', hrun, hnamed, hu⟩ := ih T
    exact ⟨_, T', hrun.bind (.pure _ _), hnamed, .array hn hu⟩
  | struct _ ih =>
    obtain ⟨us, T', hrun, hnamed, hus⟩ := writes_members ih T
    exact ⟨_, T', hrun.bind (.pure _ _), hnamed, .struct hus⟩
  | @function as r l _ _ iha ihr =>
    obtain ⟨us, T₁, hrun₁, hnamed₁, hus⟩ := writes_types iha T
    have hresult : ∃ u T', Writes (Check.internResult r) T₁ u T' ∧ Renamed T₁ T' ∧ Inside M L T' u := by
      cases r with
      | none => exact ⟨.void, T₁, .pure _ _, .refl _, .builtin⟩
      | some t => exact ihr t rfl T₁
    obtain ⟨u, T₂, hrun₂, hnamed₂, hu⟩ := hresult
    exact ⟨_, T₂, hrun₁.bind (hrun₂.bind (.pure _ _)), hnamed₁.trans hnamed₂,
      .function (fun a ha => (hus a ha).mono hnamed₂.size) hu⟩
  | dot hM _ ih =>
    obtain ⟨u, T', hrun, hnamed, hu⟩ := ih T
    exact ⟨_, T', hrun.bind (.pure _ _), hnamed, .dot hM hu⟩

end Written

/-! ## Declarations -/


/-- What a name of a program without templates may stand for. -/
def Provided (s : State) (b : Binding) : Prop :=
  (∃ item ∈ s.typeItems, b = item.binding) ∨
    ∃ kind l, b.type = .builtin kind l ∧ b.scope = none ∧ (kind ≠ .error → b.qualified = kind.name)

/-- The state while plain declarations are entered and their names resolved. -/
structure Listed (M : Prop) (L : Int → Prop) (s : State) : Prop where
  children : ∀ n ∈ s.spaces, ∀ p ∈ n.children, ∃ c, s.spaces[p.2]? = some c ∧
    c.qualified = n.qualified ++ separator ++ p.1
  types : ∀ n ∈ s.spaces, ∀ p ∈ n.types, ∃ item ∈ s.typeItems, p.2 = item.binding ∧
    item.qualified = n.qualified ++ separator ++ p.1
  items : ∀ item ∈ s.typeItems, item.scope.params = [] ∧ Inside M L s.types item.type
  names : ∀ e ∈ s.types.names, e.cyclic = false ∧ ∀ b, e.binding = some b → Provided s b
  others : s.globals = #[] ∧ s.functions = #[] ∧ s.templates = #[]
  reports : ∀ d ∈ s.reports, d.code ≠ .recursiveType

/-- The qualified names of the declared types. -/
def itemNames (s : State) : List String := s.typeItems.toList.map (·.qualified)

/-- Declarations with some names are entered, if the names are free. -/
structure Lists (names : List String) (s s' : State) : Prop where
  spaces : ∀ {i : Nat} {n : Space}, s.spaces[i]? = some n →
    ∃ n', s'.spaces[i]? = some n' ∧ n'.qualified = n.qualified
  items : (itemNames s ++ names).Nodup → itemNames s' = itemNames s ++ names

/-- No declarations are entered if nothing happens. -/
theorem Lists.refl (s : State) : Lists [] s s := ⟨fun h => ⟨_, h, rfl⟩, by simp⟩

/-- Declarations that are entered one after another have their names in a row. -/
theorem Lists.trans {names names' : List String} {s s₁ s' : State} (h : Lists names s s₁)
    (h' : Lists names' s₁ s') : Lists (names ++ names') s s' where
  spaces hn := by
    obtain ⟨n₁, hn₁, hq₁⟩ := h.spaces hn
    obtain ⟨n₂, hn₂, hq₂⟩ := h'.spaces hn₁
    exact ⟨n₂, hn₂, hq₂.trans hq₁⟩
  items hnodup := by
    rw [← List.append_assoc] at hnodup ⊢
    have hfirst := h.items hnodup.of_append_left
    rw [← hfirst] at hnodup ⊢
    exact h'.items hnodup

section Declare

variable {M : Prop} {L : Int → Prop} {s : State} {d : Check.Directory} {space : Nat} {entry : Space} {name : String}

/-- Reading a namespace that is there changes nothing. -/
theorem runs_getSpace (h : s.spaces[space]? = some entry) :
    Runs d (fun _ => getSpace space) s entry s := by
  refine .const fun m => ?_
  have h : (s.withLimit m).spaces[space]? = some entry := h
  rewrite [getSpace, check_get_run, h]
  rfl

/-- A computation on types that writes to the store. -/
theorem Writes.runs {α : Type} {x : Types.TypeM α} {a : α} {T : Store} (h : Writes x s.types a T) :
    Runs d (fun _ => onTypes x) s a { s with types := T } :=
  .const fun m => by
    have hrun : x (s.withLimit m).types = .ok a (T.withLimit m) := h m
    simp only [onTypes, hrun]
    rfl

/-- New names do not matter to the tables. -/
theorem Listed.renamed (hs : Listed M L s) {T : Store} (hT : Renamed s.types T) :
    Listed M L { s with types := T } where
  children := hs.children
  types := hs.types
  items item hitem := ⟨(hs.items item hitem).1, (hs.items item hitem).2.mono hT.size⟩
  names e he := by
    obtain he | rfl := hT.fresh e he
    · exact hs.names e he
    · simp
  others := hs.others
  reports := hs.reports

/-- A report that tells of no recursive type does not matter to the tables. -/
theorem Listed.reporting (hs : Listed M L s) {scope : Types.Scope} {l : Option Location}
    {code : Diagnostic.Code} {message : String} (hcode : code ≠ .recursiveType) :
    Listed M L (s.reporting scope l code message) where
  children := hs.children
  types := hs.types
  items := hs.items
  names := hs.names
  others := hs.others
  reports := Check.forall_push hs.reports hcode

/-- A new namespace leaves the earlier ones. -/
theorem spaces_push {spaces : Array Space} {i : Nat} {n new : Space} (h : spaces[i]? = some n) :
    (spaces.push new)[i]? = some n := by
  rw [Array.getElem?_push_lt (Array.getElem?_eq_some_iff.1 h).1]
  simpa using (Array.getElem?_eq_some_iff.1 h).2

/-- A change that keeps qualified names keeps them in every namespace. -/
theorem spaces_modify {f : Space → Space} (hqualified : ∀ n, (f n).qualified = n.qualified)
    {spaces : Array Space} {i : Nat} {n : Space} (h : spaces[i]? = some n) :
    ∃ n', (spaces.modify space f)[i]? = some n' ∧ n'.qualified = n.qualified := by
  simp only [Array.getElem?_modify, h]
  split
  · exact ⟨f n, rfl, hqualified n⟩
  · exact ⟨n, rfl, rfl⟩

/-- A namespace gets other entries, and the types get declarations. -/
theorem Listed.modified (hs : Listed M L s) {f : Space → Space} {items : Array Check.TypeItem}
    (hqualified : ∀ n, (f n).qualified = n.qualified)
    (hchildren : ∀ n, s.spaces[space]? = some n → ∀ p ∈ (f n).children, p ∈ n.children ∨
      ∃ c, s.spaces[p.2]? = some c ∧ c.qualified = n.qualified ++ separator ++ p.1)
    (hitems : ∀ item ∈ items, item.scope.params = [] ∧ Inside M L s.types item.type)
    (hold : ∀ item ∈ s.typeItems, item ∈ items)
    (htypes : ∀ n, s.spaces[space]? = some n → ∀ p ∈ (f n).types, p ∈ n.types ∨
      ∃ item ∈ items, p.2 = item.binding ∧ item.qualified = n.qualified ++ separator ++ p.1) :
    Listed M L { s with spaces := s.spaces.modify space f, typeItems := items } where
  children n hn p hp := by
    have hold : ∃ c, s.spaces[p.2]? = some c ∧ c.qualified = n.qualified ++ separator ++ p.1 := by
      obtain hn | ⟨old, hmem, rfl⟩ := Check.mem_modify_at hn
      · exact hs.children n hn p hp
      · rw [hqualified]
        exact (hchildren old hmem p hp).elim (hs.children old (Array.mem_of_getElem? hmem) p) fun h => h
    obtain ⟨c, hc, hq⟩ := hold
    rw [← hq]
    exact spaces_modify hqualified hc
  types n hn p hp := by
    have hkept {n₀ : Space} (hn₀ : n₀ ∈ s.spaces) (hp : p ∈ n₀.types) : ∃ item ∈ items,
        p.2 = item.binding ∧ item.qualified = n₀.qualified ++ separator ++ p.1 := by
      obtain ⟨item, hitem, h⟩ := hs.types n₀ hn₀ p hp
      exact ⟨item, hold item hitem, h⟩
    obtain hn | ⟨old, hmem, rfl⟩ := Check.mem_modify_at hn
    · exact hkept hn hp
    · rw [hqualified]
      exact (htypes old hmem p hp).elim (hkept (Array.mem_of_getElem? hmem)) fun h => h
  items := hitems
  names e he := by
    refine ⟨(hs.names e he).1, fun b hb => ((hs.names e he).2 b hb).imp_left ?_⟩
    exact fun ⟨item, hitem, h⟩ => ⟨item, hold item hitem, h⟩
  others := hs.others
  reports := hs.reports

/-- A namespace without entries is added. -/
theorem Listed.push (hs : Listed M L s) {n : Space} (hchildren : n.children = []) (htypes : n.types = []) :
    Listed M L { s with spaces := s.spaces.push n } where
  children := by
    refine Check.forall_push (fun old hold p hp => ?_) (by simp [hchildren])
    obtain ⟨c, hc, hq⟩ := hs.children old hold p hp
    exact ⟨c, spaces_push hc, hq⟩
  types := Check.forall_push hs.types (by simp [htypes])
  items := hs.items
  names := hs.names
  others := hs.others
  reports := hs.reports

/-- The qualified name of a declaration has that of its namespace in front. -/
theorem runs_qualify (h : s.spaces[space]? = some entry) :
    Runs d (fun _ => qualify space name) s (entry.qualified ++ separator ++ name) s := by
  unfold qualify
  exact (runs_getSpace h).bind (.const fun _ => rfl)

/-- A type is added to the table of its namespace, or its name is taken and reported. -/
theorem runs_addType (h : s.spaces[space]? = some entry) (b : Binding) (l : Option Location) :
    (∃ message b', (name, b') ∈ entry.types ∧ Runs d (fun _ => addType space name b l) s false
      (s.reporting (scopeOf space) l .duplicate message)) ∨
    Runs d (fun _ => addType space name b l) s true
      { s with spaces := s.spaces.modify space fun n => { n with types := (name, b) :: n.types } } := by
  unfold addType
  by_cases hused : (entry.types.lookup name).isSome
  · obtain ⟨b', hb'⟩ := Option.isSome_iff_exists.1 hused
    obtain ⟨before, after, hlist, -⟩ := List.lookup_eq_some_iff.1 hb'
    refine .inl ⟨"type " ++ name ++ " is already declared in " ++ entry.qualified, b',
      by simp [hlist], (runs_getSpace h).bind ?_⟩
    simp only [if_pos hused]
    exact (Check.runs_reportError _ l .duplicate _).bind (.const fun _ => rfl)
  · refine .inr ((runs_getSpace h).bind ?_)
    simp only [if_neg hused]
    exact .const fun _ => rfl

/-- A plain type is declared. -/
theorem runs_declareType (hs : Listed M L s) (h : s.spaces[space]? = some entry) {t : TypeExpr}
    (ht : t.Projected M L) (l : Option Location) :
    ∃ s', Runs d (fun _ => declareType space name [] t l) s () s' ∧ Listed M L s' ∧
      Lists [entry.qualified ++ separator ++ name] s s' := by
  obtain ⟨u, T, hwrites, hnamed, hu⟩ := writes_type ht s.types
  let item : Check.TypeItem :=
    { qualified := entry.qualified ++ separator ++ name, type := u, scope := scopeOf space }
  let s₁ : State := { s with types := T }
  have hs₁ : Listed M L s₁ := hs.renamed hnamed
  unfold declareType
  have hspace : s₁.spaces[space]? = some entry := h
  obtain ⟨message, b', hb', hadd⟩ | hadd := runs_addType hspace item.binding l
  · refine ⟨s₁.reporting (scopeOf space) l .duplicate message, ?_, hs₁.reporting (by decide),
      fun hn => ⟨_, hn, rfl⟩, fun hnodup => ?_⟩
    · exact (runs_qualify h).bind (hwrites.runs.bind (hadd.bind (.const fun _ => rfl)))
    · -- The name that is in the table belongs to a declared type.
      obtain ⟨old, hold, -, hq⟩ := hs.types entry (Array.mem_of_getElem? h) _ hb'
      have hmem : old.qualified ∈ itemNames s := by simpa [itemNames] using ⟨old, hold, rfl⟩
      exact absurd rfl ((List.nodup_append.1 hnodup).2.2 _ (hq ▸ hmem) _ (by simp))
  · let f (n : Space) : Space := { n with types := (name, item.binding) :: n.types }
    refine ⟨{ s₁ with spaces := s₁.spaces.modify space f, typeItems := s₁.typeItems.push item }, ?_,
      hs₁.modified (fun _ => rfl) (fun _ _ _ hp => .inl hp) ?_ (fun _ h => Array.mem_push_of_mem item h) ?_,
      spaces_modify (f := f) (fun _ => rfl), fun _ => by simp [itemNames, s₁, item]⟩
    · exact (runs_qualify h).bind (hwrites.runs.bind (hadd.bind (.const fun _ => rfl)))
    · exact Check.forall_push hs₁.items ⟨rfl, hu⟩
    · intro n hn p hp
      obtain rfl : n = entry := Option.some.inj (hn.symm.trans h)
      obtain rfl | hp := List.mem_cons.1 hp
      · exact .inr ⟨item, Array.mem_push_self, rfl, rfl⟩
      · exact .inl hp

/-- An import is declared. -/
theorem runs_declareImport (hs : Listed M L s) (l : Option Location) :
    ∃ s', Runs d (fun _ => declareImport space name l) s () s' ∧ Listed M L s' ∧ Lists [] s s' := by
  let f (n : Space) : Space := { n with imports := n.imports ++ [s.imports.size] }
  have hs' : Listed M L { s with spaces := s.spaces.modify space f } := hs.modified (fun _ => rfl)
    (fun _ _ _ hp => .inl hp) hs.items (fun _ h => h) fun _ _ _ hp => .inl hp
  exact ⟨{ s with imports := s.imports.push { owner := space, name, location := l },
                  spaces := s.spaces.modify space f }, .const fun _ => rfl,
    ⟨hs'.children, hs'.types, hs'.items, hs'.names, hs'.others, hs'.reports⟩,
    spaces_modify (f := f) (fun _ => rfl), by simp [itemNames]⟩

/-- The nested namespace of a name is there. -/
theorem runs_childSpace (hs : Listed M L s) (h : s.spaces[space]? = some entry) :
    ∃ child c s', Runs d (fun _ => childSpace space name) s child s' ∧ Listed M L s' ∧ Lists [] s s' ∧
      s'.spaces[child]? = some c ∧ c.qualified = entry.qualified ++ separator ++ name := by
  unfold childSpace
  cases hchild : entry.children.lookup name with
  | some child =>
    obtain ⟨before, after, hlist, -⟩ := List.lookup_eq_some_iff.1 hchild
    obtain ⟨c, hc, hq⟩ := hs.children entry (Array.mem_of_getElem? h) (name, child) (by simp [hlist])
    refine ⟨child, c, s, (runs_getSpace h).bind ?_, hs, .refl s, hc, hq⟩
    simp only [hchild]
    exact .const fun _ => rfl
  | none =>
    let new : Space :=
      { name, qualified := entry.qualified ++ separator ++ name, parent := some space }
    let f (n : Space) : Space := { n with children := (name, s.spaces.size) :: n.children }
    have hnew : (s.spaces.push new)[s.spaces.size]? = some new := by simp
    obtain ⟨c, hc, hq⟩ : ∃ c, ((s.spaces.push new).modify space f)[s.spaces.size]? = some c ∧
        c.qualified = new.qualified := spaces_modify (f := f) (fun _ => rfl) hnew
    refine ⟨s.spaces.size, c, { s with spaces := (s.spaces.push new).modify space f },
      (runs_getSpace h).bind ?_,
      (hs.push (n := new) rfl rfl).modified (f := f) (fun _ => rfl) ?_ hs.items (fun _ h => h)
        fun _ _ _ hp => .inl hp,
      ⟨fun hn => spaces_modify (f := f) (fun _ => rfl) (spaces_push hn), by simp [itemNames]⟩, hc, hq⟩
    · simp only [hchild]
      exact .const fun _ => rfl
    · intro n hn p hp
      obtain rfl : n = entry := by simpa using hn.symm.trans (spaces_push h)
      obtain rfl | hp := List.mem_cons.1 hp
      · exact .inr ⟨new, hnew, rfl⟩
      · exact .inl hp

/-- Plain declarations are entered one by one. -/
theorem runs_declareAll {decls : List Decl} (hdecls : ∀ decl ∈ decls, ∀ {s : State} {space : Nat}
      {entry : Space}, Listed M L s → s.spaces[space]? = some entry → ∃ s',
        Runs d (fun _ => declare space decl) s () s' ∧ Listed M L s' ∧
          Lists (decl.typeNames entry.qualified) s s')
    (hs : Listed M L s) (h : s.spaces[space]? = some entry) :
    ∃ s', Runs d (fun _ => declareAll space decls) s () s' ∧ Listed M L s' ∧
      Lists (Source.declsTypeNames entry.qualified decls) s s' := by
  induction decls generalizing s entry with
  | nil => exact ⟨s, .const fun _ => rfl, hs, .refl s⟩
  | cons decl rest ih =>
    obtain ⟨s₁, hrun₁, hs₁, hlists₁⟩ := hdecls decl (by simp) hs h
    obtain ⟨entry', hentry', hq⟩ := hlists₁.spaces h
    obtain ⟨s₂, hrun₂, hs₂, hlists₂⟩ := ih (fun decl hdecl => hdecls decl (by simp [hdecl])) hs₁ hentry'
    unfold declareAll
    exact ⟨s₂, hrun₁.bind hrun₂, hs₂, hlists₁.trans (hq ▸ hlists₂)⟩

/-- A plain declaration is entered. -/
theorem runs_declare {decl : Decl} (hdecl : decl.Projected M L) (hs : Listed M L s)
    (h : s.spaces[space]? = some entry) : ∃ s', Runs d (fun _ => declare space decl) s () s' ∧
      Listed M L s' ∧ Lists (decl.typeNames entry.qualified) s s' := by
  induction hdecl generalizing s space entry with
  | type ht =>
    unfold declare
    exact runs_declareType hs h ht _
  | use =>
    unfold declare
    exact runs_declareImport hs _
  | space _ ih =>
    obtain ⟨child, c, s₁, hrun₁, hs₁, hlists₁, hc, hq⟩ := runs_childSpace (d := d) hs h
    obtain ⟨s₂, hrun₂, hs₂, hlists₂⟩ := runs_declareAll (fun decl hdecl _ _ _ hs h => ih decl hdecl hs h) hs₁ hc
    unfold declare
    exact ⟨s₂, hrun₁.bind hrun₂, hs₂, hlists₁.trans (hq ▸ hlists₂)⟩

/-- A program of plain declarations is entered. -/
theorem runs_declareProgram {decls : List Decl} (hdecls : ∀ decl ∈ decls, decl.Projected M L) :
    ∃ s, Runs d (fun _ => declareProgram decls) emptyState () s ∧ Listed M L s ∧
      ((Source.declsTypeNames rootName decls).Nodup →
        itemNames s = Source.declsTypeNames rootName decls) := by
  have hempty : Listed M L emptyState :=
    ⟨by simp [emptyState], by simp [emptyState], by simp [emptyState], by simp [emptyState],
      ⟨rfl, rfl, rfl⟩, by simp [emptyState]⟩
  have hroot : emptyState.spaces[root]? =
      some { name := rootName, qualified := rootName, parent := none } := rfl
  obtain ⟨s, hrun, hs, hlists⟩ := runs_declareAll (d := d) (fun decl hdecl _ _ _ hs h =>
    runs_declare (hdecls decl hdecl) hs h) hempty hroot
  have hnone : itemNames emptyState = [] := rfl
  exact ⟨s, hrun, hs, by simpa [hnone] using hlists.items⟩

end Declare

/-! ## Names -/

/-- Names are resolved: declarations stay, and what a name stands for does. -/
structure Binds (s s' : State) : Prop where
  items : s'.typeItems = s.typeItems
  size : s'.types.names.size = s.types.names.size
  binding : ∀ id b, s.types.binding? id = some b → s'.types.binding? id = some b

/-- Nothing is resolved if nothing happens. -/
theorem Binds.refl (s : State) : Binds s s := ⟨rfl, rfl, fun _ _ h => h⟩

/-- Names that are resolved one after another are resolved altogether. -/
theorem Binds.trans {s s₁ s' : State} (h : Binds s s₁) (h' : Binds s₁ s') : Binds s s' :=
  ⟨h'.items.trans h.items, h'.size.trans h.size, fun id b hb => h'.binding id b (h.binding id b hb)⟩

/-- The names of a type that are resolved stay so. -/
theorem Binds.resolved {M : Prop} {L : Int → Prop} {s s' : State} {t : Ty} (h : Binds s s')
    (ht : Types.Projected M (fun id => (s.types.binding? id).isSome) L t) : Types.Projected M (fun id => (s'.types.binding? id).isSome) L t := by
  refine ht.mono fun id hid => ?_
  obtain ⟨b, hb⟩ := Option.isSome_iff_exists.1 hid
  exact Option.isSome_iff_exists.2 ⟨b, h.binding id b hb⟩

section Bind

variable {M : Prop} {L : Int → Prop} {s : State}

/-- What a search finds is a declared or a builtin type. -/
theorem provided_of_findType (hs : Listed M L s) {space : Nat} {name : String} {b : Binding}
    (h : findType s space name = .ok (some b)) : Provided s b := by
  obtain ⟨entry, hentry, leaf, hleaf⟩ | ⟨kind, rfl⟩ := findType_cases h
  · obtain ⟨item, hitem, hb, -⟩ := hs.types entry hentry _ hleaf
    exact .inl ⟨item, hitem, hb⟩
  · exact .inr ⟨kind, none, rfl, rfl, fun _ => rfl⟩

/-- The state once a name has a meaning. -/
def withBinding (s : State) (id : Nat) (b : Binding) : State :=
  { s with types := { s.types with
      names := s.types.names.modify id fun e => { e with binding := some b } } }

/-- A name that gets something provided keeps the tables. -/
theorem Listed.withBinding (hs : Listed M L s) {b : Binding} (hb : Provided s b) (id : Nat) :
    Listed M L (withBinding s id b) where
  children := hs.children
  types := hs.types
  items item hitem := ⟨(hs.items item hitem).1, (hs.items item hitem).2.mono (by simp [Program.withBinding])⟩
  names e he := by
    have he : e ∈ s.types.names.modify id fun e => { e with binding := some b } := he
    obtain he | ⟨old, hold, rfl⟩ := Check.mem_modify he
    · exact hs.names e he
    · refine ⟨(hs.names old hold).1, fun b' hb' => ?_⟩
      obtain rfl : b = b' := by simpa using hb'
      exact hb
  others := hs.others
  reports := hs.reports

/-- Only the name in question gets something. -/
theorem binding_withBinding {id : Nat} (hid : id < s.types.names.size) (b : Binding) (j : Nat) :
    (withBinding s id b).types.binding? j = if id = j then some b else s.types.binding? j := by
  simp only [withBinding, Store.binding?, Array.getElem?_modify]
  split
  · next h =>
    subst h
    simp [hid]
  · rfl

/-- A name is looked up. -/
theorem lookupType_provided (hs : Listed M L s) {scope : Types.Scope} (hscope : scope.params = [])
    (text : String) : ∃ found, (∀ m, Check.lookupType scope text directory (s.withLimit m) =
      .ok found (s.withLimit m)) ∧ ∀ b, found = .ok (some b) → Provided s b := by
  unfold Check.lookupType
  cases hspace : scope.space with
  | none =>
    refine ⟨_, fun m => by simp only [hscope, List.lookup_nil]; rfl, fun b hb => ?_⟩
    obtain ⟨kind, hkind, rfl⟩ := Option.map_eq_some_iff.1 (Except.ok.inj hb)
    exact .inr ⟨kind, none, rfl, rfl, fun _ => eq_name_of_ofName hkind⟩
  | some space =>
    refine ⟨findType s space text, fun m => ?_, fun b => provided_of_findType hs⟩
    simp only [hscope, List.lookup_nil]
    rw [← findType_withLimit s m]
    rfl

/-- The state once a name was looked up. -/
def withFound (s : State) (scope : Types.Scope) (id : Nat) (text : String) (l : Option Location) :
    Except String (Option Binding) → State
  | .ok (some b) => withBinding s id b
  | .ok none => withBinding (s.reporting scope l .unknownType ("unknown type " ++ text)) id
      { qualified := text, type := .error }
  | .error message => withBinding (s.reporting scope l .ambiguous message) id
      { qualified := text, type := .error }

/-- A name is resolved to what its text leads to, or the failure is reported. -/
theorem resolveName_of_lookup {d : Check.Directory} {scope : Types.Scope} {id : Nat} {text : String}
    {found : Except String (Option Binding)} (hnone : ¬ (s.types.binding? id).isSome)
    (hfound : Check.lookupType scope text d s = .ok found s) (l : Option Location) :
    Check.resolveName scope id text l d s = .ok () (withFound s scope id text l found) := by
  change (if (s.types.binding? id).isSome then (pure () : CheckM Unit) else _) d s = _
  rw [if_neg hnone]
  change EStateM.bind (Check.lookupType scope text d) _ s = _
  rw [EStateM.bind, hfound]
  obtain message | _ | b := found <;> rfl

/-- A name is resolved. -/
theorem runs_resolveName (hs : Listed M L s) {scope : Types.Scope} (hscope : scope.params = []) {id : Nat}
    (hid : id < s.types.names.size) (text : String) (l : Option Location) :
    ∃ s', Runs directory (fun _ => Check.resolveName scope id text l) s () s' ∧ Listed M L s' ∧
      Binds s s' ∧ (s'.types.binding? id).isSome := by
  by_cases hknown : (s.types.binding? id).isSome
  · obtain ⟨b, hb⟩ := Option.isSome_iff_exists.1 hknown
    exact ⟨s, .const fun m => Check.resolveName_of_binding (s := s.withLimit m) hb, hs, .refl s, hknown⟩
  -- Whatever the name stands for, it is written to its entry in the end.
  have hlast {s₁ : State} {b : Binding} (hs₁ : Listed M L s₁) (htypes : s₁.types = s.types)
      (hitems : s₁.typeItems = s.typeItems) (hb : Provided s₁ b) :
      Listed M L (withBinding s₁ id b) ∧ Binds s (withBinding s₁ id b) ∧
        ((withBinding s₁ id b).types.binding? id).isSome := by
    have hbinding := binding_withBinding (s := s₁) (htypes ▸ hid) b
    refine ⟨hs₁.withBinding hb id, ⟨hitems, by simp [withBinding, htypes], fun j b' hb' => ?_⟩, by
      simp [hbinding]⟩
    rw [hbinding, if_neg (by rintro rfl; simp [hb'] at hknown), htypes, hb']
  have herror (s : State) : Provided s { qualified := text, type := .error } :=
    .inr ⟨.error, none, rfl, rfl, by simp⟩
  obtain ⟨found, hlookup, hfound⟩ := lookupType_provided hs hscope text
  have hrun (m : Nat) := resolveName_of_lookup (s := s.withLimit m) hknown (hlookup m) l
  refine ⟨withFound s scope id text l found, .const fun m => ?_, ?_⟩
  · rw [hrun m]
    obtain message | _ | b := found <;> rfl
  · obtain message | _ | b := found
    · exact hlast (hs.reporting (by decide)) rfl rfl (herror _)
    · exact hlast (hs.reporting (by decide)) rfl rfl (herror _)
    · exact hlast hs rfl rfl (hfound b rfl)

/-- Names are resolved one type after another. -/
theorem runs_each {α : Type} {xs : List α} {type : α → Ty} {check : Nat → α → CheckM Unit}
    (h : ∀ x ∈ xs, ∀ {s : State}, Listed M L s → Inside M L s.types (type x) → ∃ s',
      Runs directory (fun n => check n x) s () s' ∧ Listed M L s' ∧ Binds s s' ∧
        Types.Projected M (fun id => (s'.types.binding? id).isSome) L (type x))
    (hs : Listed M L s) (hxs : ∀ x ∈ xs, Inside M L s.types (type x)) :
    ∃ s', Runs directory (fun n => xs.forM (check n)) s () s' ∧ Listed M L s' ∧ Binds s s' ∧
      ∀ x ∈ xs, Types.Projected M (fun id => (s'.types.binding? id).isSome) L (type x) := by
  induction xs generalizing s with
  | nil => exact ⟨s, .const fun _ => rfl, hs, .refl s, by simp⟩
  | cons x rest ih =>
    obtain ⟨hx, hrest⟩ := List.forall_mem_cons.1 hxs
    obtain ⟨s₁, hrun₁, hs₁, hbinds₁, hx₁⟩ := h x (by simp) hs hx
    obtain ⟨s₂, hrun₂, hs₂, hbinds₂, hrest₂⟩ := ih (fun x hx => h x (by simp [hx])) hs₁
      fun x hx => (hrest x hx).mono hbinds₁.size.ge
    exact ⟨s₂, hrun₁.bind hrun₂, hs₂, hbinds₁.trans hbinds₂,
      by simpa using ⟨hbinds₂.resolved hx₁, hrest₂⟩⟩

/-- The names of a plain type are resolved. -/
theorem runs_bindNames {t : Ty} {N : Nat → Prop} (ht : Projected M N L t) {scope : Types.Scope}
    (hscope : scope.params = []) (hs : Listed M L s) (hin : Inside M L s.types t) :
    ∃ s', Runs directory (fun n => Check.bindNamesWithin scope n t) s () s' ∧ Listed M L s' ∧
      Binds s s' ∧ Types.Projected M (fun id => (s'.types.binding? id).isSome) L t := by
  induction ht generalizing s with
  | builtin => exact ⟨s, .succ (.const fun _ => rfl), hs, .refl s, .builtin⟩
  | @name id text l _ =>
    cases hin with
    | name hid =>
      obtain ⟨s', hrun, hs', hbinds, hbound⟩ := runs_resolveName hs hscope hid text l
      exact ⟨s', .succ hrun, hs', hbinds, .name hbound⟩
  | pointer _ ih =>
    cases hin with
    | pointer hin =>
      obtain ⟨s', hrun, hs', hbinds, ht⟩ := ih hs hin
      exact ⟨s', .succ hrun, hs', hbinds, .pointer ht⟩
  | slice _ ih =>
    cases hin with
    | slice hin =>
      obtain ⟨s', hrun, hs', hbinds, ht⟩ := ih hs hin
      exact ⟨s', .succ hrun, hs', hbinds, .slice ht⟩
  | array hn _ ih =>
    cases hin with
    | array _ hin =>
      obtain ⟨s', hrun, hs', hbinds, ht⟩ := ih hs hin
      exact ⟨s', .succ hrun, hs', hbinds, .array hn ht⟩
  | struct _ ih =>
    cases hin with
    | struct hin =>
      obtain ⟨s', hrun, hs', hbinds, hms⟩ := runs_each (fun m hm _ hs hin => ih m hm hs hin) hs hin
      exact ⟨s', .succ hrun, hs', hbinds, .struct hms⟩
  | @function as r l _ _ iha ihr =>
    cases hin with
    | function hina hinr =>
      obtain ⟨s₁, hrun₁, hs₁, hbinds₁, has⟩ := runs_each (fun a ha _ hs hin => iha a ha hs hin) hs hina
      obtain ⟨s₂, hrun₂, hs₂, hbinds₂, hr⟩ := ihr hs₁ (Inside.mono hinr hbinds₁.size.ge)
      exact ⟨s₂, .succ (hrun₁.bind hrun₂), hs₂, hbinds₁.trans hbinds₂,
        .function (fun a ha => hbinds₂.resolved (has a ha)) hr⟩
  | dot hM _ ih =>
    cases hin with
    | dot _ hin =>
      obtain ⟨s', hrun, hs', hbinds, ht⟩ := ih hs hin
      exact ⟨s', .succ hrun, hs', hbinds, .dot hM ht⟩

/-- The namespace of an import is looked up. -/
theorem runs_resolveImport (hs : Listed M L s) (index : Nat) :
    ∃ s', Runs directory (fun _ => resolveImport index) s () s' ∧ Listed M L s' ∧
      s'.typeItems = s.typeItems := by
  cases hi : s.imports[index]? with
  | none =>
    refine ⟨s, .const fun m => ?_, hs, rfl⟩
    have hi : (s.withLimit m).imports[index]? = none := hi
    rewrite [resolveImport, check_get_run, hi]
    rfl
  | some i =>
    cases hspace : findSpace s i.owner i.name with
    | none =>
      refine ⟨s.reporting (scopeOf i.owner) i.location .unknownNamespace ("unknown namespace " ++ i.name),
        .const fun m => ?_, hs.reporting (by decide), rfl⟩
      have hi : (s.withLimit m).imports[index]? = some i := hi
      rewrite [resolveImport, check_get_run, hi]
      simp only [findSpace_withLimit, hspace]
      rfl
    | some target =>
      refine ⟨{ s with imports := s.imports.modify index fun i => { i with target := some target } },
        .const fun m => ?_, ⟨hs.children, hs.types, hs.items, hs.names, hs.others, hs.reports⟩, rfl⟩
      have hi : (s.withLimit m).imports[index]? = some i := hi
      rewrite [resolveImport, check_get_run, hi]
      simp only [findSpace_withLimit, hspace]
      rfl

/-- The namespaces of the imports are looked up. -/
theorem runs_resolveImports (hs : Listed M L s) (indices : List Nat) :
    ∃ s', Runs directory (fun _ => indices.forM resolveImport) s () s' ∧ Listed M L s' ∧
      s'.typeItems = s.typeItems := by
  induction indices generalizing s with
  | nil => exact ⟨s, .const fun _ => rfl, hs, rfl⟩
  | cons index rest ih =>
    obtain ⟨s₁, hrun₁, hs₁, hitems₁⟩ := runs_resolveImport hs index
    obtain ⟨s₂, hrun₂, hs₂, hitems₂⟩ := ih hs₁
    exact ⟨s₂, hrun₁.bind hrun₂, hs₂, hitems₂.trans hitems₁⟩

/-- The names of a program of plain declarations are resolved. -/
theorem runs_bind (hs : Listed M L s) : ∃ s', Runs directory (fun _ => bind) s () s' ∧ Listed M L s' ∧
    s'.typeItems = s.typeItems ∧ ∀ item ∈ s'.typeItems, Types.Projected M (fun id => (s'.types.binding? id).isSome) L item.type := by
  obtain ⟨s₁, hrun₁, hs₁, hitems₁⟩ := runs_resolveImports hs (List.range s.imports.size)
  have hstep (item : Check.TypeItem) (hitem : item ∈ s₁.typeItems.toList) {s : State}
      (hs : Listed M L s) (hin : Inside M L s.types item.type) : ∃ s',
        Runs directory (fun _ => Check.bindNames item.scope item.type) s () s' ∧ Listed M L s' ∧
          Binds s s' ∧ Types.Projected M (fun id => (s'.types.binding? id).isSome) L item.type := by
    obtain ⟨s', hrun, hrest⟩ := runs_bindNames hin (hs₁.items item (by simpa using hitem)).1 hs hin
    exact ⟨s', hrun.limited, hrest⟩
  obtain ⟨s₂, hrun₂, hs₂, hbinds, hresolved⟩ := runs_each hstep hs₁
    fun item hitem => (hs₁.items item (by simpa using hitem)).2
  refine ⟨s₂, (hrun₁.bind (hrun₂.congr fun _ _ => rfl)).congr fun _ _ => rfl, hs₂,
    hbinds.items.trans hitems₁, fun item hitem => hresolved item ?_⟩
  simpa [← hbinds.items] using hitem

end Bind

end Qll.Program
