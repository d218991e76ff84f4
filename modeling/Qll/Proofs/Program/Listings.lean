import Qll.Proofs.Program.Spaces

/-!
# What a program lists

The declarations of a program are listed by the path of their namespace and their name, those of types and
those of values apart. If no two of a list have the same path and name, every one of them has an entry in
the table of its namespace.
-/

namespace Qll.Program

open Check (State Space Storage SpaceGrows SpacesGrow SpacesStay check_bind_ok check_pure_ok)
open Source (Location Decl)
open Qll.Types (Binding)

/-! ## Listings -/

/-- A declaration by the path of its namespace, its name and its place. -/
structure Listing where
  path : List String
  name : String
  place : Location

/-- What a name is made of: a name may stand once in a namespace. -/
def Listing.key (e : Listing) : List String × String := (e.path, e.name)

/-- The qualified name of a declaration. -/
def Listing.qualified (e : Listing) : String := pathName (e.path ++ [e.name])

mutual

/-- The declarations of a kind that a declaration of the namespace at a path holds. -/
def listed (pick : Decl → Option (String × Location)) (path : List String) : Decl → List Listing
  | .space name decls _ => listedAll pick (path ++ [name]) decls
  | d => (pick d).toList.map fun p => { path, name := p.1, place := p.2 }

/-- The declarations of a kind in some declarations of the namespace at a path. -/
def listedAll (pick : Decl → Option (String × Location)) (path : List String) : List Decl → List Listing
  | [] => []
  | d :: rest => listed pick path d ++ listedAll pick path rest

end

/-- The name of a declared value is one of its declaration. -/
theorem mem_names_of_asValue (d : Decl) (name : String) (l : Location) (h : asValue d = some (name, l)) :
    name ∈ d.names := by
  cases d <;> simp_all [asValue, Decl.names]

/-- The name of a declared type is one of its declaration. -/
theorem mem_names_of_asType (d : Decl) (name : String) (l : Location) (h : asType d = some (name, l)) :
    name ∈ d.names := by
  cases d <;> simp_all [asType, Decl.names]

/-- What a declaration itself adds to a listing. -/
theorem accepts_own {accepts : String → Prop} {pick : Decl → Option (String × Location)}
    (hpick : ∀ d name l, pick d = some (name, l) → name ∈ d.names) {path : List String}
    (hpath : ∀ p ∈ path, accepts p) {d : Decl} (hd : ∀ n ∈ d.names, accepts n) {e : Listing}
    (he : e ∈ (pick d).toList.map fun p => { path, name := p.1, place := p.2 : Listing }) :
    ∀ p ∈ e.path ++ [e.name], accepts p := by
  obtain ⟨⟨name, l⟩, hmem, rfl⟩ := List.mem_map.1 he
  have hname := hd name (hpick d name l (by simpa using hmem))
  simpa [or_imp, forall_and] using ⟨hpath, hname⟩

mutual

/-- The names of a declaration and of the namespaces around it are among those of the program. -/
theorem accepts_listed {accepts : String → Prop} {pick : Decl → Option (String × Location)}
    (hpick : ∀ d name l, pick d = some (name, l) → name ∈ d.names) {path : List String}
    (hpath : ∀ p ∈ path, accepts p) : ∀ d : Decl, (∀ n ∈ d.names, accepts n) →
      ∀ e ∈ listed pick path d, ∀ p ∈ e.path ++ [e.name], accepts p
  | .space name decls l, hd, e, he => by
    simp only [Decl.names, List.mem_cons, or_imp, forall_and, forall_eq] at hd
    have hinner : ∀ p ∈ path ++ [name], accepts p := by
      simpa [or_imp, forall_and] using ⟨hpath, hd.1⟩
    exact accepts_listedAll hpick hinner decls hd.2 e he
  | .type .., hd, e, he => accepts_own hpick hpath hd he
  | .global .., hd, e, he => accepts_own hpick hpath hd he
  | .function .., hd, e, he => accepts_own hpick hpath hd he
  | .use .., hd, e, he => accepts_own hpick hpath hd he

/-- The names of a listing are accepted if those of the declarations are. -/
theorem accepts_listedAll {accepts : String → Prop} {pick : Decl → Option (String × Location)}
    (hpick : ∀ d name l, pick d = some (name, l) → name ∈ d.names) {path : List String}
    (hpath : ∀ p ∈ path, accepts p) : ∀ decls : List Decl, (∀ n ∈ Source.declsNames decls, accepts n) →
      ∀ e ∈ listedAll pick path decls, ∀ p ∈ e.path ++ [e.name], accepts p
  | [], _, e, he => nomatch he
  | d :: rest, hdecls, e, he => by
    simp only [Source.declsNames, List.mem_append, or_imp, forall_and] at hdecls
    obtain he | he := List.mem_append.1 he
    · exact accepts_listed hpick hpath d hdecls.1 e he
    · exact accepts_listedAll hpick hpath rest hdecls.2 e he

end

/-! ## What is declared is in the tables -/

/-- A table of the namespaces: which declarations go there, and what an entry tells of its
declaration. -/
structure Ledger (α : Type) where
  table : Space → List (String × α)
  pick : Decl → Option (String × Location)
  Tells : α → (name qualified : String) → Location → Prop

/-- Values. -/
def valueLedger : Ledger Storage where
  table := (·.values)
  pick := asValue
  Tells st name q l := st.name = name ∧ st.qualified = q ∧ st.location = some l

/-- Types. -/
def typeLedger : Ledger Binding where
  table := (·.types)
  pick := asType
  Tells b _ q _ := b.qualified = q

/-- What the steps of entering do to a table. -/
structure Ledger.Kept {α : Type} (L : Ledger α) : Prop where
  entered : ∀ {s n d x}, Adds s n d x →
    (∃ name l a, L.pick d = some (name, l) ∧ (L.table n).lookup name = none ∧
      L.Tells a name (n.qualified ++ separator ++ name) l ∧ L.table (x.onto n) = (name, a) :: L.table n) ∨
    ((∀ name l, L.pick d = some (name, l) → ((L.table n).lookup name).isSome) ∧
      L.table (x.onto n) = L.table n)
  children : ∀ n children, L.table { n with children } = L.table n
  new : ∀ name qualified parent, L.table { name, qualified, parent } = []
  grows : ∀ {n n' name a}, SpaceGrows n n' → (L.table n).lookup name = some a →
    (L.table n').lookup name = some a
  space : ∀ {d}, isSpace d = true → L.pick d = none

/-- A declaration is a type, a value, or neither. -/
theorem asValue_of_asType {d : Decl} {name : String} {l : Location} (h : asType d = some (name, l)) :
    asValue d = none := by
  cases d <;> first | rfl | cases h

/-- A declared value is no type. -/
theorem asType_of_asValue {d : Decl} {name : String} {l : Location} (h : asValue d = some (name, l)) :
    asType d = none := by
  cases d <;> first | rfl | cases h

/-- Entering values keeps the table of values. -/
theorem kept_valueLedger : valueLedger.Kept where
  entered {s n d x} h := by
    cases h with
    | type hd => exact .inr ⟨by simp [valueLedger, asValue_of_asType hd], rfl⟩
    | value hd hfree hname hqualified hlocation =>
      exact .inl ⟨_, _, _, hd, hfree, ⟨hname, hqualified, hlocation⟩, rfl⟩
    | typeTaken hd => exact .inr ⟨by simp [valueLedger, asValue_of_asType hd], rfl⟩
    | valueTaken hd htaken =>
      refine .inr ⟨fun name l h => ?_, rfl⟩
      obtain ⟨rfl, rfl⟩ : _ = name ∧ _ = l := by simpa using hd.symm.trans h
      exact htaken
    | use => exact .inr ⟨nofun, rfl⟩
  children _ _ := rfl
  new _ _ _ := rfl
  grows hgrows h := hgrows.values h
  space {d} hd := by cases d <;> first | rfl | cases hd

/-- Entering types keeps the table of types. -/
theorem kept_typeLedger : typeLedger.Kept where
  entered {s n d x} h := by
    cases h with
    | type hd hfree hb => exact .inl ⟨_, _, _, hd, hfree, hb, rfl⟩
    | value hd => exact .inr ⟨by simp [typeLedger, asType_of_asValue hd], rfl⟩
    | typeTaken hd htaken =>
      refine .inr ⟨fun name l h => ?_, rfl⟩
      obtain ⟨rfl, rfl⟩ : _ = name ∧ _ = l := by simpa using hd.symm.trans h
      exact htaken
    | valueTaken hd => exact .inr ⟨by simp [typeLedger, asType_of_asValue hd], rfl⟩
    | use => exact .inr ⟨nofun, rfl⟩
  children _ _ := rfl
  new _ _ _ := rfl
  grows hgrows h := hgrows.types h
  space {d} hd := by cases d <;> first | rfl | cases hd

namespace Ledger

variable {α : Type} {L : Ledger α} {s s' : State} {space : Nat} {path : List String}
  {done : List (List String × String)} {u : Unit}

/-- The tables have no other names than those of some declarations. -/
def Only (L : Ledger α) (done : List (List String × String)) (s : State) : Prop :=
  ∀ ⦃i n name⦄, s.spaces[i]? = some n → ((L.table n).lookup name).isSome →
    ∃ path, walk s root path = some i ∧ (path, name) ∈ done

/-- The table of its namespace has a declaration. -/
def Has (L : Ledger α) (s : State) (e : Listing) : Prop :=
  ∃ i n a, walk s root e.path = some i ∧ s.spaces[i]? = some n ∧
    (L.table n).lookup e.name = some a ∧ L.Tells a e.name e.qualified e.place

/-- What a table has it keeps. -/
theorem Kept.has (hL : L.Kept) {e : Listing} (h : L.Has s e) (hgrows : SpacesGrow s s') : L.Has s' e := by
  obtain ⟨i, n, a, hwalk, hn, hlookup, htells⟩ := h
  obtain ⟨n', hn', hn⟩ := hgrows hn
  exact ⟨i, n', a, walk_grows hgrows hwalk, hn', hL.grows hn hlookup, htells⟩

/-- A nested namespace has nothing at first. -/
theorem Kept.only_childSpace (hL : L.Kept) (hs : L.Only done s) {name : String} {child : Nat}
    (h : childSpace space name directory s = .ok child s') (hgrows : SpacesGrow s s') : L.Only done s' := by
  intro i m leaf hm hleaf
  have hold {m₀ : Space} (hm₀ : s.spaces[i]? = some m₀) (hleaf : ((L.table m₀).lookup leaf).isSome) :
      ∃ path, walk s' root path = some i ∧ (path, leaf) ∈ done := by
    obtain ⟨path, hwalk, hmem⟩ := hs hm₀ hleaf
    exact ⟨path, walk_grows hgrows hwalk, hmem⟩
  obtain ⟨n, hn, -, ⟨-, hspaces⟩ | ⟨-, hmakes⟩⟩ := childSpace_cases h
  · exact hold (hspaces ▸ hm) hleaf
  · obtain ⟨-, rfl⟩ | ⟨rfl, rfl⟩ | ⟨-, hm₀⟩ := hmakes.cases hm
    · simp [hL.new] at hleaf
    · rw [hL.children] at hleaf
      exact hold hmakes.outer hleaf
    · exact hold hm₀ hleaf

/-- A declaration whose name was not declared before comes into the table of its namespace. -/
theorem Kept.goes (hL : L.Kept) (hnested : Nested s) (hs : L.Only done s) {d : Decl}
    (hd : isSpace d = false) (hpath : walk s root path = some space)
    (hnew : (done ++ (listed L.pick path d).map Listing.key).Nodup) (h : Goes s space d s') :
    L.Only (done ++ (listed L.pick path d).map Listing.key) s' ∧
      ∀ e ∈ listed L.pick path d, L.Has s' e := by
  have hlisted : listed L.pick path d =
      (L.pick d).toList.map fun p => { path, name := p.1, place := p.2 } := by
    cases d with
    | space => cases hd
    | _ => rfl
  have hstays := h.stays
  obtain ⟨n, x, hn, hadds, hspaces, -⟩ := h
  have hspace : s'.spaces[space]? = some (x.onto n) := by
    rw [hspaces, Array.getElem?_modify, if_pos rfl, hn]
    rfl
  have hqualified : n.qualified = pathName path := by
    obtain ⟨n', hn', hqualified⟩ := hnested.exists_of_walk hpath
    obtain rfl : n = n' := Option.some.inj (hn.symm.trans hn')
    exact hqualified
  -- other namespaces are as before
  have hother {i : Nat} {m : Space} {leaf : String} (hi : i ≠ space) (hm : s'.spaces[i]? = some m)
      (hleaf : ((L.table m).lookup leaf).isSome) : ∃ path, walk s' root path = some i ∧
        (path, leaf) ∈ done := by
    rw [hspaces, Array.getElem?_modify, if_neg hi.symm] at hm
    obtain ⟨path, hwalk, hmem⟩ := hs hm hleaf
    exact ⟨path, walk_grows hstays.grows hwalk, hmem⟩
  have hbefore {leaf : String} (hleaf : ((L.table n).lookup leaf).isSome) : ∃ path,
      walk s' root path = some space ∧ (path, leaf) ∈ done := by
    obtain ⟨path, hwalk, hmem⟩ := hs hn hleaf
    exact ⟨path, walk_grows hstays.grows hwalk, hmem⟩
  obtain ⟨name, l, a, hpick, hfree, htells, htable⟩ | ⟨htaken, htable⟩ := hL.entered hadds
  · simp only [hlisted, hpick, Option.toList_some, List.map_cons, List.map_nil, Listing.key]
    constructor
    · intro i m leaf hm hleaf
      by_cases hi : i = space
      · subst hi
        obtain rfl : x.onto n = m := Option.some.inj (hspace.symm.trans hm)
        rw [htable] at hleaf
        by_cases hname : leaf = name
        · subst hname
          exact ⟨path, walk_grows hstays.grows hpath, by simp⟩
        · rw [List.lookup_cons, beq_eq_false_iff_ne.2 hname] at hleaf
          obtain ⟨path, hwalk, hmem⟩ := hbefore hleaf
          exact ⟨path, hwalk, List.mem_append_left _ hmem⟩
      · obtain ⟨path, hwalk, hmem⟩ := hother hi hm hleaf
        exact ⟨path, hwalk, List.mem_append_left _ hmem⟩
    · intro e he
      obtain rfl := List.mem_singleton.1 he
      refine ⟨space, x.onto n, a, walk_grows hstays.grows hpath, hspace, by rw [htable, List.lookup_cons_self], ?_⟩
      rwa [Listing.qualified, pathName_concat, ← hqualified]
  · cases hpick : L.pick d with
    | some p =>
      -- the name would have been declared before
      obtain ⟨name, l⟩ := p
      obtain ⟨path', hwalk, hmem⟩ := hs hn (htaken name l hpick)
      obtain rfl := hnested.walk_injective hwalk hpath
      rw [hlisted, hpick] at hnew
      exact absurd hmem ((List.nodup_append.1 hnew).2.2 _ · _ (by simp [Listing.key]) rfl)
    | none =>
      simp only [hlisted, hpick, Option.toList_none, List.map_nil, List.append_nil]
      refine ⟨fun i m leaf hm hleaf => ?_, nofun⟩
      by_cases hi : i = space
      · subst hi
        obtain rfl : x.onto n = m := Option.some.inj (hspace.symm.trans hm)
        exact hbefore (htable ▸ hleaf)
      · exact hother hi hm hleaf

/-- Nothing new was listed: what was declared before is a part of it. -/
theorem nodup_left {α : Type} {l l₁ l₂ : List α} (h : (l ++ (l₁ ++ l₂)).Nodup) : (l ++ l₁).Nodup :=
  (List.nodup_append.1 (List.append_assoc l l₁ l₂ ▸ h)).1

mutual

/-- All declarations of a kind in a declaration come into the tables, if their names are new. -/
theorem Kept.declare (hL : L.Kept) {s s' : State} {space : Nat} {path : List String}
    {done : List (List String × String)} {u : Unit} (hnested : Nested s) (hs : L.Only done s)
    (hspace : (s.spaces[space]?).isSome) (hpath : walk s root path = some space) :
    ∀ d : Decl, (done ++ (listed L.pick path d).map Listing.key).Nodup →
      declare space d directory s = .ok u s' →
        L.Only (done ++ (listed L.pick path d).map Listing.key) s' ∧ ∀ e ∈ listed L.pick path d, L.Has s' e
  | .space name decls _, hnew, h => by
    obtain ⟨child, s₁, hchild, hdeclare⟩ := check_bind_ok.1 h
    obtain ⟨hnested₁, hgrows, hpath₁⟩ := nested_childSpace hnested hchild
    exact hL.declareAll hnested₁ (hL.only_childSpace hs hchild hgrows) (childSpace_inner hnested hspace hchild).1
      (hpath₁ path hpath) decls hnew hdeclare
  | .type .., hnew, h => hL.goes hnested hs rfl hpath hnew (goes_declare hspace _ rfl h)
  | .global .., hnew, h => hL.goes hnested hs rfl hpath hnew (goes_declare hspace _ rfl h)
  | .function .., hnew, h => hL.goes hnested hs rfl hpath hnew (goes_declare hspace _ rfl h)
  | .use .., hnew, h => hL.goes hnested hs rfl hpath hnew (goes_declare hspace _ rfl h)

/-- All declarations of a kind come into the tables, if no name is declared twice. -/
theorem Kept.declareAll (hL : L.Kept) {s s' : State} {space : Nat} {path : List String}
    {done : List (List String × String)} {u : Unit} (hnested : Nested s) (hs : L.Only done s)
    (hspace : (s.spaces[space]?).isSome) (hpath : walk s root path = some space) :
    ∀ decls : List Decl, (done ++ (listedAll L.pick path decls).map Listing.key).Nodup →
      declareAll space decls directory s = .ok u s' →
        L.Only (done ++ (listedAll L.pick path decls).map Listing.key) s' ∧
          ∀ e ∈ listedAll L.pick path decls, L.Has s' e
  | [], _, h => by
    obtain ⟨-, rfl⟩ := check_pure_ok.1 h
    exact ⟨by simpa [listedAll] using hs, nofun⟩
  | d :: rest, hnew, h => by
    rw [listedAll, List.map_append] at hnew
    obtain ⟨_, s₁, hfirst, hrest⟩ := check_bind_ok.1 h
    obtain ⟨hnested₁, hgrows⟩ := nested_declare hnested hspace d hfirst
    obtain ⟨honly, hhas⟩ := hL.declare hnested hs hspace hpath d (nodup_left hnew) hfirst
    obtain ⟨honly', hhas'⟩ := hL.declareAll hnested₁ honly (isSome_grows hgrows hspace)
      (walk_grows hgrows hpath) rest (by rwa [List.append_assoc]) hrest
    obtain ⟨-, hgrows'⟩ := nested_declareAll hnested₁ (isSome_grows hgrows hspace) rest hrest
    rw [listedAll, List.map_append, ← List.append_assoc]
    refine ⟨honly', fun e he => ?_⟩
    obtain he | he := List.mem_append.1 he
    · exact hL.has (hhas e he) hgrows'
    · exact hhas' e he

end

end Ledger

end Qll.Program
