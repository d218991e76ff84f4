import Qll.Proofs.Program.Checked
import Qll.Proofs.Program.Cutting
import Qll.Proofs.Program.InstanceTable
import Qll.Proofs.Program.Listings
import Qll.Proofs.Program.Outwards
import Qll.Proofs.Program.Spelling

/-!
# Qualified names are absolute

A name that begins with that of the outermost namespace is searched like any other one: from the
namespace of its use outwards, and through imports. What it means is the same everywhere as long as
no namespace but the outermost one has a nested namespace called `global`, since only there the
first part of the name can be taken for something else.

The name of an instance is that of its template with a key behind it, which is not cut. So it leads to
the namespace of the template.
-/

namespace Qll.Program

open Check (State Space Storage SpaceGrows SpacesGrow SpacesStay CheckM check_bind_ok check_pure_ok check_get_ok)
open Source (Location Decl)
open Qll.Types (Ty Binding IsPlain Carries Whole)

/-! ## Cutting qualified names -/

/-- The characters of a qualified name. -/
theorem toList_pathName (path : List String) : (pathName path).toList = joined (rootName :: path) := by
  induction path using List.reverseRecOn with
  | nil => rfl
  | append_singleton path name ih =>
    rw [pathName_concat, ← List.cons_append, joined_concat (List.cons_ne_nil _ _), ← ih]
    simp

/-- The parts of the qualified name of a declaration or of an instance. -/
theorem splitQualified_concat {path : List String} {name key : String}
    (hplain : ∀ p ∈ path ++ [name], IsPlain p) (hkey : Uncut key) :
    splitQualified (pathName (path ++ [name]) ++ key) = rootName :: (path ++ [name ++ key]) := by
  have hroot : ∀ p ∈ (rootName :: path) ++ [name], IsPlain p := List.forall_mem_cons.2 ⟨by decide, hplain⟩
  rw [splitQualified, String.toList_append, toList_pathName, ← List.cons_append, ← List.cons_append]
  exact splitFrom_joined hroot hkey (by decide)

/-- A path from the outermost namespace is cut into its plain parts. -/
theorem splitQualified_pathName {path : List String} {name : String}
    (hplain : ∀ p ∈ path ++ [name], IsPlain p) :
    splitQualified (pathName (path ++ [name])) = rootName :: (path ++ [name]) := by
  simpa using splitQualified_concat hplain uncut_empty

/-! ## Searching from anywhere -/

/-- Only in the outermost namespace can a nested one have its name. -/
def RootAlone (s : State) : Prop :=
  ∀ ⦃i : Nat⦄ ⦃n : Space⦄, s.spaces[i]? = some n → i ≠ root → n.children.lookup rootName = none

section Search

variable {α : Type} {table : Space → List (String × α)} {s s' : State} {i : Nat} {path : List String}
  {leaf : String}

/-- From an inner namespace a qualified name is not found directly. -/
theorem findDirect_inner (hs : Nested s) (halone : RootAlone s) (hi : i ≠ root) :
    findDirect table s i (rootName :: (path ++ [leaf])) = none := by
  cases hn : s.spaces[i]? with
  | none => simp [findDirect, direct, hn]
  | some n =>
    obtain ⟨p, -, hparent, -⟩ := hs.inner hn hi
    have hparts : relativeParts n (rootName :: (path ++ [leaf])) = rootName :: (path ++ [leaf]) := by
      cases path <;> simp [relativeParts, hparent]
    have hwalk : walk s i (rootName :: (path ++ [leaf])).dropLast = none := by
      rw [← List.cons_append, List.dropLast_concat, walk, hn, Option.bind_some, halone hn hi]
    simp [findDirect, direct, hn, hparts, hwalk]

/-- From the outermost namespace the last part of a qualified name is looked for where its path leads. -/
theorem direct_root (hs : Nested s) :
    direct s root (rootName :: (path ++ [leaf])) = (walk s root path).map fun home => (home, leaf) := by
  obtain ⟨n, hn, hparent, -⟩ := hs.outermost
  have hparts : relativeParts n (rootName :: (path ++ [leaf])) = path ++ [leaf] := by
    cases path <;> simp [relativeParts, hparent]
  simp only [direct, hn, hparts, Option.bind_eq_bind, Option.bind_some, List.dropLast_concat,
    List.getLastD_concat]
  cases walk s root path <;> rfl

/-- From the outermost namespace a qualified name is found where its path leads. -/
theorem findDirect_root (hs : Nested s) :
    findDirect table s root (rootName :: (path ++ [leaf])) =
      (walk s root path).bind fun home => (s.spaces[home]?).bind fun n =>
        ((table n).lookup leaf).map fun a => (home, a) := by
  rw [findDirect, direct_root hs]
  cases walk s root path with
  | none => rfl
  | some home =>
    change ((s.spaces[home]?).bind _) = (s.spaces[home]?).bind _
    congr 1
    funext m
    cases (table m).lookup leaf <;> rfl

/-- Under a qualified name every namespace provides what the outermost one has under it, if anything. -/
theorem provides_qualified (hs : Nested s) (halone : RootAlone s) {e : Nat × α}
    (he : Provides table s (rootName :: (path ++ [leaf])) i e) :
    findDirect table s root (rootName :: (path ++ [leaf])) = some e := by
  have hdirect {j : Nat} (hj : findDirect table s j (rootName :: (path ++ [leaf])) = some e) :
      findDirect table s root (rootName :: (path ++ [leaf])) = some e := by
    by_cases hroot : j = root
    · rwa [hroot] at hj
    · simp [findDirect_inner hs halone hroot] at hj
  obtain he | ⟨-, target, -, he⟩ := he
  · exact hdirect he
  · exact hdirect he

/-- From every namespace a qualified name leads to what the outermost namespace has under it. -/
theorem findOutwards_qualified (hs : Nested s) (halone : RootAlone s) {q : String}
    (hq : splitQualified q = rootName :: (path ++ [leaf])) {n : Space} (hn : s.spaces[i]? = some n) :
    findOutwards table s q (s.spaces.size + 1) (some i) =
      .ok ((findDirect table s root (rootName :: (path ++ [leaf]))).map (·.2)) := by
  have hends : Ends table s (splitQualified q) i (findOutwards table s q (s.spaces.size + 1) (some i)) :=
    ends_findOutwards hs fun n hn => (Array.getElem?_eq_some_iff.1 hn).1.le
  rw [hq] at hends
  generalize findOutwards table s q (s.spaces.size + 1) (some i) = r at hends
  cases hends with
  | found hm honly =>
    rw [provides_qualified hs halone ((honly _).2 rfl)]
    rfl
  | ambiguous hm he he' hne =>
    have hsame := (provides_qualified hs halone he).symm.trans (provides_qualified hs halone he')
    exact absurd (Option.some.inj hsame) hne
  | nowhere hnot =>
    cases hroot : findDirect table s root (rootName :: (path ++ [leaf])) with
    | none => rfl
    | some e => exact absurd (.inl hroot) (hnot root (hs.around_root hn) e)

end Search

/-! ## Names of namespaces in a program -/

mutual

/-- The names of the namespaces in a declaration. -/
def spaceNames : Decl → List String
  | .space name decls _ => name :: spacesNames decls
  | _ => []

/-- The names of the namespaces in some declarations. -/
def spacesNames : List Decl → List String
  | [] => []
  | d :: rest => spaceNames d ++ spacesNames rest

end

/-- The names of the namespaces inside those of a program. -/
def innerSpaceNames : List Decl → List String
  | [] => []
  | .space _ decls _ :: rest => spacesNames decls ++ innerSpaceNames rest
  | _ :: rest => innerSpaceNames rest

/-- Declarations that may stand in a namespace: those of an inner one have no namespace called like the
outermost one, and those of the outermost one have none further inside. -/
def SparesRoot (space : Nat) (decls : List Decl) : Prop :=
  if space = root then rootName ∉ innerSpaceNames decls else rootName ∉ spacesNames decls

section Alone

variable {s s' : State} {space : Nat} {u : Unit}

/-- If a namespace may be declared somewhere, the declarations in it may stand there. -/
theorem SparesRoot.inside {name : String} {decls rest : List Decl} {l : Location}
    (h : SparesRoot space (.space name decls l :: rest)) :
    rootName ∉ spacesNames decls ∧ (space ≠ root → name ≠ rootName) := by
  unfold SparesRoot at h
  split at h
  · next hroot =>
    rw [innerSpaceNames, List.mem_append, not_or] at h
    exact ⟨h.1, fun hne => absurd hroot hne⟩
  · rw [spacesNames, spaceNames, List.mem_append, List.mem_cons, not_or, not_or] at h
    exact ⟨h.1.2, fun _ => Ne.symm h.1.1⟩

/-- The first of some declarations spares the outermost name. -/
theorem SparesRoot.head {d : Decl} {rest : List Decl} (h : SparesRoot space (d :: rest)) :
    SparesRoot space [d] := by
  unfold SparesRoot at h ⊢
  split at h
  · next hroot =>
    rw [if_pos hroot]
    cases d with
    | space => exact fun hmem => h (List.mem_append_left _ (by simpa [innerSpaceNames] using hmem))
    | _ => exact List.not_mem_nil
  · next hroot =>
    rw [if_neg hroot]
    exact fun hmem => h (List.mem_append_left _ (by simpa [spacesNames] using hmem))

/-- The rest of some declarations spares the outermost name. -/
theorem SparesRoot.tail {d : Decl} {rest : List Decl} (h : SparesRoot space (d :: rest)) :
    SparesRoot space rest := by
  unfold SparesRoot at h ⊢
  split at h
  · next hroot =>
    rw [if_pos hroot]
    cases d with
    | space => exact fun hmem => h (List.mem_append_right _ hmem)
    | _ => exact h
  · next hroot =>
    rw [if_neg hroot]
    exact fun hmem => h (List.mem_append_right _ hmem)

/-- No namespace gets the outermost name while the namespaces stay. -/
theorem RootAlone.stays (hs : RootAlone s) (h : SpacesStay s s') : RootAlone s' := by
  intro i n' hn' hi
  obtain ⟨n, hn, hchildren⟩ := h.back hn'
  rw [hchildren]
  exact hs hn hi

/-- A new namespace does not get the outermost name, unless it lies in the outermost one. -/
theorem rootAlone_childSpace (hs : RootAlone s) {name : String} (hname : space ≠ root → name ≠ rootName)
    {child : Nat} (h : childSpace space name directory s = .ok child s') : RootAlone s' := by
  obtain ⟨n, hn, -, ⟨-, hspaces⟩ | ⟨-, hmakes⟩⟩ := childSpace_cases h
  · exact hs.stays (.of_eq hspaces)
  · intro i m hm hi
    obtain ⟨-, rfl⟩ | ⟨rfl, rfl⟩ | ⟨-, hm₀⟩ := hmakes.cases hm
    · rfl
    · rw [List.lookup_cons, beq_eq_false_iff_ne.2 (hname hi).symm]
      exact hs hn hi
    · exact hs hm₀ hi

end Alone

mutual

/-- A declaration that may stand in its namespace leaves the name of the outermost namespace to it. -/
theorem rootAlone_declare {s s' : State} {space : Nat} {u : Unit} (hs : Nested s) (halone : RootAlone s)
    (hspace : (s.spaces[space]?).isSome) :
    ∀ d : Decl, SparesRoot space [d] → declare space d directory s = .ok u s' → RootAlone s'
  | .space name decls l, hd, h => by
    obtain ⟨hinside, hname⟩ := hd.inside
    obtain ⟨child, s₁, hchild, hdeclare⟩ := check_bind_ok.1 h
    obtain ⟨hchildSpace, hne⟩ := childSpace_inner hs hspace hchild
    refine rootAlone_declareAll (nested_childSpace hs hchild).1 (rootAlone_childSpace halone hname hchild)
      hchildSpace decls ?_ hdeclare
    rwa [SparesRoot, if_neg hne]
  | .type .., _, h => halone.stays (goes_declare hspace _ rfl h).stays
  | .global .., _, h => halone.stays (goes_declare hspace _ rfl h).stays
  | .function .., _, h => halone.stays (goes_declare hspace _ rfl h).stays
  | .use .., _, h => halone.stays (goes_declare hspace _ rfl h).stays

/-- Declarations that may stand in their namespace leave the name of the outermost namespace to it. -/
theorem rootAlone_declareAll {s s' : State} {space : Nat} {u : Unit} (hs : Nested s)
    (halone : RootAlone s) (hspace : (s.spaces[space]?).isSome) :
    ∀ decls : List Decl, SparesRoot space decls → declareAll space decls directory s = .ok u s' →
      RootAlone s'
  | [], _, h => by
    obtain ⟨-, rfl⟩ := check_pure_ok.1 h
    exact halone
  | d :: rest, hdecls, h => by
    obtain ⟨_, s₁, hfirst, hrest⟩ := check_bind_ok.1 h
    exact rootAlone_declareAll (nested_declare hs hspace d hfirst).1
      (rootAlone_declare hs halone hspace d hdecls.head hfirst) (isSome_grows (nested_declare hs hspace d hfirst).2 hspace) rest
      hdecls.tail hrest

end

/-! ## Programs -/

/-- A program is declared, and no namespace inside another one is called like the outermost one. -/
theorem nested_declareProgram {decls : List Decl} {limit : Nat} {s : State} {u : Unit}
    (h : declareProgram decls directory (emptyState.withLimit limit) = .ok u s) :
    Nested s ∧ (rootName ∉ innerSpaceNames decls → RootAlone s) := by
  have hnested := nested_emptyState limit
  have halone : RootAlone (emptyState.withLimit limit) :=
    fun i n hn hi => absurd (spaces_emptyState hn).1 hi
  refine ⟨(nested_declareAll hnested rfl decls h).1, fun hinner => ?_⟩
  exact rootAlone_declareAll hnested halone rfl decls (by rwa [SparesRoot, if_pos rfl]) h

/-- Every declaration of a program without duplicates is in the tables. -/
theorem Ledger.Kept.has_declareProgram {α : Type} {L : Ledger α} (hL : L.Kept) {decls : List Decl}
    (hdistinct : ((listedAll L.pick [] decls).map Listing.key).Nodup) {limit : Nat} {s : State} {u : Unit}
    (h : declareProgram decls directory (emptyState.withLimit limit) = .ok u s) :
    ∀ e ∈ listedAll L.pick [] decls, L.Has s e := by
  have hempty : L.Only [] (emptyState.withLimit limit) := by
    intro i n name hn hname
    obtain ⟨-, rfl⟩ := spaces_emptyState hn
    simp [hL.new] at hname
  exact (hL.declareAll (nested_emptyState limit) hempty rfl rfl decls (by simpa using hdistinct) h).2

section Absolute

variable {s s' : State} {i : Nat} {n : Space}

/-- A qualified name is searched in the outermost namespace only. -/
theorem findOutwards_pathName {α : Type} {table : Space → List (String × α)} (hs : Nested s)
    (halone : RootAlone s) (hn : s.spaces[i]? = some n) {path : List String} {leaf : String}
    (hpath : ∀ p ∈ path ++ [leaf], IsPlain p) :
    findOutwards table s (pathName (path ++ [leaf])) (s.spaces.size + 1) (some i) =
      .ok ((walk s root path).bind fun home => (s.spaces[home]?).bind fun n => (table n).lookup leaf) := by
  rw [findOutwards_qualified hs halone (splitQualified_pathName hpath) hn, findDirect_root hs]
  congr 1
  cases walk s root path with
  | none => rfl
  | some home =>
    cases hhome : s.spaces[home]? with
    | none => simp [hhome]
    | some m =>
      simp only [Option.bind_some, hhome]
      cases (table m).lookup leaf <;> rfl

/-- What a ledger had is found later on under its qualified name. -/
theorem Ledger.Has.found {α : Type} {L : Ledger α} (hL : L.Kept) {s₀ : State} {e : Listing}
    (h : L.Has s₀ e) (hstays : SpacesStay s₀ s) (hs : Nested s) (halone : RootAlone s)
    (hn : s.spaces[i]? = some n) (hpath : ∀ p ∈ e.path ++ [e.name], IsPlain p) :
    ∃ a, findOutwards L.table s e.qualified (s.spaces.size + 1) (some i) = .ok (some a) ∧
      L.Tells a e.name e.qualified e.place ∧ ∃ m ∈ s₀.spaces, (e.name, a) ∈ L.table m := by
  obtain ⟨home, m, a, hwalk, hm, hlookup, htells⟩ := h
  obtain ⟨m', hm', hgrows⟩ := hstays.grows hm
  obtain ⟨before, after, htable, -⟩ := List.lookup_eq_some_iff.1 hlookup
  refine ⟨a, ?_, htells, m, Array.mem_of_getElem? hm, by simp [htable]⟩
  rw [Listing.qualified, findOutwards_pathName hs halone hn hpath, walk_grows hstays.grows hwalk,
    Option.bind_some, hm', Option.bind_some, hL.grows hgrows hlookup]

/-- A value that is not found in the blocks comes from the namespaces. -/
theorem findValue_of_lookup {c : Check.Context} (hspace : c.scope.space = some i) {name : String}
    (hblocks : Check.Context.inBlocks (c.blocks s) name = none) {l : Option Location} {st : Storage}
    (h : c.lookup name l directory s = .ok (some st) s') : findValue s i name = .ok (some st) := by
  unfold Check.Context.lookup at h
  rw [check_get_ok, hblocks, hspace] at h
  obtain ⟨d, s₁, hread, h⟩ := check_bind_ok.1 h
  obtain ⟨rfl, rfl⟩ : directory = d ∧ s = s₁ := by cases hread; exact ⟨rfl, rfl⟩
  rw [check_get_ok] at h
  have hnone {scope : Types.Scope} {code : Diagnostic.Code} {message : String}
      (h : (do Check.reportError scope l code message; return none : CheckM (Option Storage)) directory s =
        .ok (some st) s') : False := by
    obtain ⟨_, _, -, hpure⟩ := check_bind_ok.1 h
    exact absurd (check_pure_ok.1 hpure).1 (by simp)
  cases hfind : findValue s i name with
  | error message =>
    rw [show directory.findValue s i name = .error message from hfind] at h
    exact (hnone h).elim
  | ok found =>
    rw [show directory.findValue s i name = .ok found from hfind] at h
    cases found with
    | none => exact (hnone h).elim
    | some st' =>
      dsimp only at h
      split at h
      · obtain ⟨_, _, -, hpure⟩ := check_bind_ok.1 h
        rw [(check_pure_ok.1 hpure).1]
      · rw [(check_pure_ok.1 h).1]

/-- The function that memory is allocated or freed with is the value its name stands for. -/
theorem lookup_of_heapFunction {c : Check.Context} {name : String} {want : Ty} {l : Option Location}
    {st : Storage} (h : Check.heapFunction c name want l directory s = .ok (some st) s') :
    ∃ s₁, c.lookup ("global::" ++ name) l directory s = .ok (some st) s₁ := by
  obtain ⟨found, s₁, hlookup, h⟩ := check_bind_ok.1 h
  cases found with
  | none => exact absurd (check_pure_ok.1 h).1 (by simp)
  | some st' =>
    have hlast {fits : Bool} {s₂ : State} (h : (if fits = true then pure (some st') else do
        let wanted ← Check.textOf want
        let got ← Check.textOf st'.type
        Check.reportError c.scope l .mismatch
          ("global::" ++ name ++ " must be a function of type " ++ wanted ++ ", found " ++ got)
        return none : CheckM (Option Storage)) directory s₂ = .ok (some st) s') : st' = st := by
      split at h
      · exact Option.some.inj (check_pure_ok.1 h).1
      · obtain ⟨_, _, -, h⟩ := check_bind_ok.1 h
        obtain ⟨_, _, -, h⟩ := check_bind_ok.1 h
        obtain ⟨_, _, -, h⟩ := check_bind_ok.1 h
        exact absurd (check_pure_ok.1 h).1 (by simp)
    refine ⟨s₁, ?_⟩
    dsimp only at h
    split at h
    all_goals
      obtain ⟨_, _, -, h⟩ := check_bind_ok.1 h
      rw [hlookup, hlast h]

/-- What is allocated or freed with is the function of the outermost namespace, wherever it is written. -/
theorem heapFunction_outermost (hs : Nested s) (halone : RootAlone s) {c : Check.Context}
    (hspace : c.scope.space = some i) (hn : s.spaces[i]? = some n) {name : String} (hname : IsPlain name)
    (hblocks : Check.Context.inBlocks (c.blocks s) ("global::" ++ name) = none) {want : Ty}
    {l : Option Location} {st : Storage}
    (h : Check.heapFunction c name want l directory s = .ok (some st) s') :
    ∃ outermost, s.spaces[root]? = some outermost ∧ outermost.values.lookup name = some st := by
  obtain ⟨outermost, houtermost, -⟩ := hs.outermost
  have hqualified : "global::" ++ name = pathName ([] ++ [name]) := by
    apply String.toList_injective
    simp [pathName, rootName, separator]
  obtain ⟨s₁, hlookup⟩ := lookup_of_heapFunction h
  have hfind := findValue_of_lookup hspace hblocks hlookup
  rw [hqualified, findValue, findOutwards_pathName hs halone hn (by simpa using hname)] at hfind
  exact ⟨outermost, houtermost, by simpa [walk, houtermost] using hfind⟩

end Absolute

/-- Qualified names are absolute: where only the outermost namespace may have one called `global` in it,
and nothing is declared twice, the qualified name of a declaration is found from every namespace, in every
state in which the namespaces are still those that were declared, and stands for that declaration.
Memory is allocated and freed with functions of the outermost namespace. -/
theorem qualified_names_absolute {decls : List Decl} (hnames : ∀ n ∈ Source.declsNames decls, IsPlain n)
    (hinner : rootName ∉ innerSpaceNames decls)
    (hvalues : ((listedAll asValue [] decls).map Listing.key).Nodup)
    (htypes : ((listedAll asType [] decls).map Listing.key).Nodup) {limit : Nat} {s₀ s : State} {u : Unit}
    (hrun : declareProgram decls directory (emptyState.withLimit limit) = .ok u s₀)
    (hstays : SpacesStay s₀ s) {i : Nat} (hi : i < s.spaces.size) :
    (∀ e ∈ listedAll asValue [] decls, ∃ st, findValue s i e.qualified = .ok (some st) ∧
      st.name = e.name ∧ st.qualified = e.qualified ∧ st.location = some e.place ∧ HasItem s₀ st) ∧
    (∀ e ∈ listedAll asType [] decls, ∃ item ∈ s₀.typeItems, item.qualified = e.qualified ∧
      findType s i e.qualified = .ok (some
        { qualified := item.qualified, type := item.type, scope := some item.scope })) ∧
    ∀ (c : Check.Context) (name : String) (want : Ty) (l : Option Location) (st : Storage) (s' : State),
      c.scope.space = some i → IsPlain name →
      Check.Context.inBlocks (c.blocks s) ("global::" ++ name) = none →
      Check.heapFunction c name want l directory s = .ok (some st) s' →
        ∃ outermost, s.spaces[root]? = some outermost ∧ outermost.values.lookup name = some st := by
  obtain ⟨hnested₀, halone₀⟩ := nested_declareProgram hrun
  have hnested := hnested₀.stays hstays
  have halone := (halone₀ hinner).stays hstays
  have hn := Array.getElem?_eq_getElem hi
  have hentered := entered_declareProgram (by decide) hnames hrun
  refine ⟨fun e he => ?_, fun e he => ?_, fun c name want l st s' hspace hname hblocks h =>
    heapFunction_outermost hnested halone hspace hn hname hblocks h⟩
  · have hpath := accepts_listedAll mem_names_of_asValue (List.forall_mem_nil IsPlain) decls hnames e he
    obtain ⟨st, hfind, ⟨hname, hqualified, hplace⟩, m, hm, hentry⟩ :=
      (kept_valueLedger.has_declareProgram hvalues hrun e he).found kept_valueLedger hstays hnested halone hn hpath
    exact ⟨st, hfind, hname, hqualified, hplace, hentered.values m hm _ hentry⟩
  · have hpath := accepts_listedAll mem_names_of_asType (List.forall_mem_nil IsPlain) decls hnames e he
    obtain ⟨b, hfind, hqualified, m, hm, hentry⟩ :=
      (kept_typeLedger.has_declareProgram htypes hrun e he).found kept_typeLedger hstays hnested halone hn hpath
    obtain ⟨-, item, hitem, hb⟩ := hentered.types m hm _ hentry
    dsimp only at hb
    subst hb
    refine ⟨item, hitem, hqualified, ?_⟩
    change findOutwards (·.types) s _ _ _ = _ at hfind
    simp only [findType, hfind]
    rfl

/-- One name in two namespaces, of which the outer one imports the inner one. -/
def importedDecls : List Decl :=
  [.global "g" (some (.name "byte" somewhere)) none false somewhere,
    .use "a" somewhere,
    .space "a" [.global "g" (some (.name "byte" somewhere)) none false somewhere,
      .type "T" [] (.name "byte" somewhere) somewhere] somewhere]

/-- In the example an absolute name leads past the imported namespace to the outermost one. -/
theorem qualified_names_absolute_imported :
    (∀ n ∈ Source.declsNames importedDecls, IsPlain n) ∧ rootName ∉ innerSpaceNames importedDecls ∧
      ∃ s, declareProgram importedDecls directory (emptyState.withLimit 10) = .ok () s ∧
        (∃ st, findValue s 1 "global::g" = .ok (some st) ∧ st.qualified = "global::g") ∧
          ∃ b, findType s 1 "global::a::T" = .ok (some b) ∧ b.qualified = "global::a::T" := by
  have hnames : ∀ n ∈ Source.declsNames importedDecls, IsPlain n := by decide
  have hinner : rootName ∉ innerSpaceNames importedDecls := by decide
  have hends : endsIn (fun s => s.spaces.size == 2)
      (declareProgram importedDecls directory (emptyState.withLimit 10)) = true := by decide +kernel
  obtain ⟨s, hrun, hsize⟩ := endsIn_iff.1 hends
  obtain ⟨hvalues, htypes, -⟩ := qualified_names_absolute hnames hinner (by decide) (by decide) hrun
    (.of_eq rfl) (i := 1) (by simp at hsize; omega)
  obtain ⟨st, hfind, -, hqualified, -⟩ := hvalues ⟨[], "g", somewhere⟩
    (by simp [importedDecls, listedAll, listed, asValue])
  obtain ⟨item, -, hitem, hfindType⟩ := htypes ⟨["a"], "T", somewhere⟩
    (by simp [importedDecls, listedAll, listed, asType])
  exact ⟨hnames, hinner, s, hrun, ⟨st, hfind, hqualified⟩, _, hfindType, hitem⟩

/-- A function for allocating memory. -/
def allocDecl : Decl :=
  .function "alloc" [] [{ name := "size", type := .name "byte" somewhere, location := somewhere }]
    (some (.pointer (.name "byte" somewhere) somewhere)) [] false false somewhere

/-- The outermost namespace allocates memory, and so does a namespace called like it inside another one. -/
def capturedDecls : List Decl :=
  [allocDecl, .space "a" [.space "global" [allocDecl] somewhere] somewhere]

/-- Whether a value of a qualified name was found. -/
def findsValue (q : String) : Except String (Option Storage) → Bool
  | .ok (some st) => st.qualified == q
  | _ => false

/-- Whether memory is allocated with the function of a qualified name. -/
def allocatesWith (q : String) : EStateM.Result Fault State (Option Storage) → Bool
  | .ok (some st) _ => st.qualified == q
  | _ => false

/-- Inside a namespace that has one called `global` in it, the qualified name of a function of the outermost
namespace stands for another function, and memory is allocated with that one. -/
theorem nested_global_captures :
    (∀ n ∈ Source.declsNames capturedDecls, IsPlain n) ∧
      ((listedAll asValue [] capturedDecls).map Listing.key).Nodup ∧
      ⟨[], "alloc", somewhere⟩ ∈ listedAll asValue [] capturedDecls ∧
      ∃ s, kinds capturedDecls directory (emptyState.withLimit 40) = .ok () s ∧
        findsValue "global::a::global::alloc" (findValue s 1 "global::alloc") = true ∧
        allocatesWith "global::a::global::alloc" (Check.heapFunction { scope := scopeOf 1 } "alloc"
          Check.allocSignature none directory s) = true := by
  have hends : endsIn (fun s =>
      findsValue "global::a::global::alloc" (findValue s 1 "global::alloc") &&
        allocatesWith "global::a::global::alloc" (Check.heapFunction { scope := scopeOf 1 } "alloc"
          Check.allocSignature none directory s))
      (kinds capturedDecls directory (emptyState.withLimit 40)) = true := by decide +kernel
  obtain ⟨s, hrun, hs⟩ := endsIn_iff.1 hends
  exact ⟨by decide, by decide, by simp [capturedDecls, allocDecl, listedAll, listed, asValue], s, hrun,
    by simpa using hs⟩

/-! ## Names of instances -/

/-- A key of checked arguments: of closed types without errors, in which all names are plain. -/
def CheckedKey (key : String) : Prop :=
  ∃ (decls : List Decl) (s : State) (A : Set Ty) (arguments : List Ty),
    (∀ n ∈ Source.declsNames decls, IsPlain n) ∧ Checking decls s A ∧
    (∀ a ∈ arguments, a ∈ A ∧ Whole s.types a ∧
      ∀ u, Relation.ReflTransGen (Carries s.types) a u → u.PlainMembers) ∧
    s.types.key arguments = .ok key

/-- A key of checked arguments stays in one piece. -/
theorem CheckedKey.uncut {key : String} (h : CheckedKey key) : Uncut key := by
  obtain ⟨decls, s, A, arguments, hnames, hchecking, harguments, hkey⟩ := h
  simp only [Types.Store.key, Computation.except_bind_ok, Computation.except_pure_ok] at hkey
  obtain ⟨texts, htexts, rfl⟩ := hkey
  refine uncut_bracket fun x hx => ?_
  obtain ⟨a, ha, htext⟩ := Types.mem_of_mapM htexts hx
  obtain ⟨hmem, hwhole, hplain⟩ := harguments a ha
  exact mangled_checked hnames hchecking hmem hwhole hplain htext

/-- A program goes through all checks without an error. -/
def GoesThrough (decls : List Decl) (limit : Nat) (s : State) : Prop :=
  ∃ s₂ s₃ b, kinds decls directory (emptyState.withLimit limit) = .ok () s₂ ∧
    typecheck directory s₂ = .ok () s₃ ∧ deferred directory s₃ = .ok b s ∧ s.failed = false

section Instances

variable {s s' : State} {t t' : Check.TemplateItem}

/-- A template is still called after its namespace when namespaces grow. -/
theorem Homed.grows (h : Homed s.spaces t) (hgrows : SpacesGrow s s') : Homed s'.spaces t := by
  obtain ⟨n, hn, hq⟩ := h
  obtain ⟨n', hn', hsame⟩ := hgrows hn
  exact ⟨n', hn', by rw [hsame.qualified, hq]⟩

/-- A template with more instances is still called after its namespace. -/
theorem Homed.same (h : Homed s.spaces t) (hsame : t.Same t') : Homed s.spaces t' := by
  rw [hsame]
  exact h

/-- The qualified name of an instance leads to the namespace of its template. -/
theorem direct_instance (hs : Nested s) (hchildren : ∀ n ∈ s.spaces, ∀ p ∈ n.children, IsPlain p.1)
    (hhome : Homed s.spaces t) (hname : IsPlain t.name) {key : String} (hkey : Uncut key) :
    ∃ path, walk s root path = some t.space ∧
      splitQualified (t.qualified ++ key) = rootName :: (path ++ [t.name ++ key]) ∧
      direct s root (splitQualified (t.qualified ++ key)) = some (t.space, t.name ++ key) := by
  obtain ⟨n, hn, hq⟩ := hhome
  obtain ⟨path, hwalk⟩ := hs.exists_walk hn
  obtain ⟨n', hn', hpath⟩ := hs.exists_of_walk hwalk
  obtain rfl : n = n' := Option.some.inj (hn.symm.trans hn')
  have hplain : ∀ p ∈ path ++ [t.name], IsPlain p := by
    simpa [or_imp, forall_and] using ⟨accepts_of_walk hchildren hwalk, hname⟩
  have hsplit : splitQualified (t.qualified ++ key) = rootName :: (path ++ [t.name ++ key]) := by
    rw [hq, hpath, ← pathName_concat]
    exact splitQualified_concat hplain hkey
  exact ⟨path, hwalk, hsplit, by rw [hsplit, direct_root hs, hwalk]; rfl⟩

/-- The templates of a program that goes through all checks are called after their namespaces, and list
their instances under keys of plain names. -/
theorem templates_of_goesThrough {decls : List Decl} (hnames : ∀ n ∈ Source.declsNames decls, IsPlain n)
    {limit : Nat} (h : GoesThrough decls limit s) : ∃ base, State.Tabled base s ∧ Nested s ∧
      (∀ n ∈ s.spaces, ∀ p ∈ n.children, IsPlain p.1) ∧
      ∀ t ∈ s.templates, Homed s.spaces t ∧ IsPlain t.name ∧ ∀ p ∈ t.instances, Uncut p.1 := by
  obtain ⟨s₂, s₃, b, hkinds, htypes, hdeferred, hok⟩ := h
  obtain ⟨_, s₀, hdeclare, hrest⟩ := check_bind_ok.1 hkinds
  obtain ⟨_, s₁, hbind, hkind⟩ := check_bind_ok.1 hrest
  have hentered := entered_declareProgram (by decide) hnames hdeclare
  obtain ⟨w, hw, -, hsound⟩ :=
    sound_entered (V := Types.plainNames) hentered hbind hkind htypes hdeferred hok
  obtain ⟨-, reports, postponed, rfl⟩ := deferred_ok hdeferred hok
  -- From the declarations on, namespaces and templates remain.
  have hremains : Remains s₀ { s₃ with reports, postponed } := by
    have h₁ := remains_bind s₀
    have h₂ := remains_kindcheck s₁
    have h₃ := remains_typecheck s₂
    rw [hbind] at h₁
    rw [hkind] at h₂
    rw [htypes] at h₃
    exact ((h₁.trans h₂).trans h₃).trans (.of_eq rfl rfl)
  have htabled := tabled_typecheck (untouched_kinds hkinds)
  rw [htypes] at htabled
  refine ⟨_, ⟨htabled.declared, htabled.keys, htabled.made, htabled.once, htabled.listed, htabled.chains⟩,
    (nested_declareProgram hdeclare).1.stays hremains.spaces, ?_, fun t ht => ?_⟩
  · intro n hn p hp
    have hp := hsound.offers.children n hn p hp
    rwa [hw] at hp
  · obtain ⟨t₀, ht₀, hsame⟩ := hremains.templates t ht
    refine ⟨((hentered.homes t₀ ht₀).same hsame).grows hremains.spaces.grows, ?_, fun p hp => ?_⟩
    · rw [hsame]
      exact (hentered.templates t₀ ht₀).name
    · obtain ⟨texts, htexts, hkey⟩ := (hsound.items t ht).instances p hp
      rw [hw] at htexts
      rw [hkey]
      exact uncut_bracket htexts

end Instances

/-- Qualified names are cut into the parts they were put together from. No character is lost; plain names
with separators in between come back, the last one with the key of checked arguments behind it, whatever
names, lists of arguments and arrows are in the key. So in a program that goes through all checks the
qualified name of every instance leads from the outermost namespace to that of its template. -/
theorem qualified_names_split :
    (∀ name : String, Text.join separator (splitQualified name) = name) ∧
    (∀ (path : List String) (name key : String), (∀ p ∈ path ++ [name], IsPlain p) →
      key = "" ∨ CheckedKey key →
        splitQualified (Text.join separator (path ++ [name]) ++ key) = path ++ [name ++ key]) ∧
    ∀ (decls : List Decl) (limit : Nat) (s : State), (∀ n ∈ Source.declsNames decls, IsPlain n) →
      GoesThrough decls limit s → ∀ t ∈ s.templates, ∀ p ∈ t.instances,
        ∃ f path, s.functions[p.2]? = some f ∧ f.name = t.name ++ p.1 ∧ f.space = t.space ∧
          walk s root path = some f.space ∧
          splitQualified f.qualified = rootName :: (path ++ [f.name]) ∧
          direct s root (splitQualified f.qualified) = some (f.space, f.name) := by
  refine ⟨fun name => ?_, fun path name key hplain hkey => ?_, fun decls limit s hnames h t ht p hp => ?_⟩
  · apply String.toList_injective
    rw [toList_join, splitQualified, joined_splitFrom]
    rfl
  · have huncut : Uncut key := by
      obtain rfl | hkey := hkey
      · exact uncut_empty
      · exact hkey.uncut
    rw [splitQualified, String.toList_append, toList_join]
    exact splitFrom_joined hplain huncut (by decide)
  · obtain ⟨base, htabled, hnested, hchildren, htemplates⟩ := templates_of_goesThrough hnames h
    obtain ⟨hhome, hname, hkeys⟩ := htemplates t ht
    obtain ⟨f, hf, hfname, hqualified, hspace, -⟩ := htabled.made t ht p hp
    obtain ⟨path, hwalk, hsplit, hdirect⟩ := direct_instance hnested hchildren hhome hname (hkeys p hp)
    refine ⟨f, path, hf, hfname, hspace, ?_, ?_, ?_⟩
    · rw [hspace, hwalk]
    · rw [hqualified, hsplit, hfname]
    · rw [hqualified, hdirect, hspace, hfname]

/-- A pointer to a declared struct is an argument. -/
theorem checkedKey_structPointer : CheckedKey "<*global::S>" := by
  refine ⟨structDecls, _, _, [structPointer 1], by decide, checking_structPointers, fun a ha => ?_, rfl⟩
  obtain rfl := List.mem_singleton.1 ha
  have htype : StructType (structPointer 1) := .inr ⟨1, .inl rfl, .inl rfl⟩
  refine ⟨by simp, whole_structType htype, fun u hu => ?_⟩
  obtain rfl | ⟨id, -, rfl | rfl⟩ := Types.reaches_closed structType_carries htype hu <;> trivial

/-- A template in a namespace, and a function outside that starts an instance of it. -/
def keepDecls : List Decl :=
  let name (text : String) : Source.TypeExpr := .name text somewhere
  [.space "a" [.function "keep" ["T"] [{ name := "x", type := name "T", location := somewhere }]
      (some (name "T")) [.giveBack (some (.name "x" [] somewhere)) somewhere] false false somewhere] somewhere,
    .function "main" [] [] (some (name "byte"))
      [.giveBack (some (.call (.name "a::keep" [name "byte"] somewhere) [.integer 0 somewhere] somewhere))
        somewhere] false false somewhere]

/-- Whether a program went through all checks, and has the one instance of a template. -/
def keepsByte : EStateM.Result Fault State Bool → Bool
  | .ok _ s => !s.failed && s.templates.any fun t =>
    t.name == "keep" && t.space == 1 && t.instances == [("<byte>", 1)]
  | .error _ _ => false

/-- In the example a key is cut off in one piece, and the instance is found by its qualified name. -/
theorem qualified_names_split_keep :
    splitQualified "global::a::f<*global::S>" = ["global", "a", "f<*global::S>"] ∧
      ∃ s f, GoesThrough keepDecls 40 s ∧ s.functions[1]? = some f ∧
        direct s root (splitQualified f.qualified) = some (1, "keep<byte>") := by
  obtain ⟨-, hcut, hinstances⟩ := qualified_names_split
  have hends : endsIn (fun s₂ => endsIn (fun s₃ => keepsByte (deferred directory s₃)) (typecheck directory s₂))
      (kinds keepDecls directory (emptyState.withLimit 40)) = true := by decide +kernel
  obtain ⟨s₂, hkinds, h₂⟩ := endsIn_iff.1 hends
  obtain ⟨s₃, htypes, h₃⟩ := endsIn_iff.1 h₂
  cases hdeferred : deferred directory s₃ with
  | error e s =>
    rw [hdeferred] at h₃
    cases h₃
  | ok b s =>
    simp only [hdeferred, keepsByte, Bool.and_eq_true, Bool.not_eq_true', Array.any_eq_true', beq_iff_eq] at h₃
    obtain ⟨hok, t, ht, ⟨hname, hspace⟩, hlisted⟩ := h₃
    have hthrough : GoesThrough keepDecls 40 s := ⟨s₂, s₃, b, hkinds, htypes, hdeferred, hok⟩
    obtain ⟨f, path, hf, hfname, hfspace, -, -, hdirect⟩ :=
      hinstances keepDecls 40 s (by decide) hthrough t ht ("<byte>", 1) (by simp [hlisted])
    refine ⟨hcut ["global", "a"] "f" "<*global::S>" (by decide) (.inr checkedKey_structPointer),
      s, f, hthrough, hf, ?_⟩
    rw [hdirect, hfname, hfspace, hname, hspace]
    rfl

end Qll.Program
