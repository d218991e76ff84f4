import Qll.Proofs.Check.Watching
import Qll.Proofs.Program.Naming

/-!
# The tree of namespaces

Namespaces are made one inside the other, each under a name of its own, so they form a tree and a
namespace is known by its path from the outermost one. What is entered into a namespace stays there:
a later declaration adds to a table what the table does not have yet, and never hides an entry.
-/

namespace Qll.Program

open Check (State Space Storage SpaceGrows SpacesGrow SpacesStay CheckM onTypes lookup_cons_of_some
  check_bind_ok check_pure_ok check_get_ok check_set_ok check_modify_ok check_throw_ok)
open Source (Location Decl TypeExpr)
open Qll.Types (Ty Binding TypeM)

/-! ## Trees of namespaces -/

/-- The namespaces form a tree: all but the outermost one stand under their own name in an earlier
one, and what stands there is nested. -/
structure Nested (s : State) : Prop where
  outermost : ∃ n, s.spaces[root]? = some n ∧ n.parent = none ∧ n.qualified = rootName
  inner : ∀ {i : Nat} {n : Space}, s.spaces[i]? = some n → i ≠ root → ∃ p outer, n.parent = some p ∧ p < i ∧
    s.spaces[p]? = some outer ∧ outer.children.lookup n.name = some i ∧
      n.qualified = outer.qualified ++ separator ++ n.name
  child : ∀ {i : Nat} {n : Space} {name : String} {c : Nat}, s.spaces[i]? = some n → n.children.lookup name = some c →
    ∃ inner, s.spaces[c]? = some inner ∧ inner.parent = some i ∧ inner.name = name

/-- The qualified name of a path from the outermost namespace. -/
def pathName (path : List String) : String :=
  path.foldl (fun q name => q ++ separator ++ name) rootName

/-- The last part of a path stands behind its separator. -/
@[simp] theorem pathName_concat (path : List String) (name : String) :
    pathName (path ++ [name]) = pathName path ++ separator ++ name := by
  simp [pathName]

section Walks

variable {s : State} {i j : Nat} {n : Space} {name : String} {path path' : List String}

/-- A path is followed piece by piece. -/
theorem walk_append (i : Nat) (path path' : List String) :
    walk s i (path ++ path') = (walk s i path).bind (walk s · path') := by
  induction path generalizing i with
  | nil => rfl
  | cons name rest ih =>
    rw [List.cons_append, walk, walk]
    split
    · rfl
    · exact ih _

/-- A path of one name leads to a nested namespace. -/
theorem walk_single (h : s.spaces[i]? = some n) : walk s i [name] = n.children.lookup name := by
  simp only [walk, h, Option.bind_some]
  cases n.children.lookup name <;> rfl

/-- Where a path with one more name ends, the namespace in front has that name. -/
theorem walk_concat (h : walk s i (path ++ [name]) = some j) :
    ∃ p outer, walk s i path = some p ∧ s.spaces[p]? = some outer ∧
      outer.children.lookup name = some j := by
  rw [walk_append, Option.bind_eq_some_iff] at h
  obtain ⟨p, hp, hlast⟩ := h
  cases houter : s.spaces[p]? with
  | none => simp [walk, houter] at hlast
  | some outer => exact ⟨p, outer, hp, houter, (walk_single houter).symm.trans hlast⟩

namespace Nested

/-- What is nested is not the outermost namespace. -/
theorem child_ne_root (h : Nested s) (hi : s.spaces[i]? = some n)
    (hj : n.children.lookup name = some j) : j ≠ root := by
  rintro rfl
  obtain ⟨inner, hinner, hparent, -⟩ := h.child hi hj
  obtain ⟨outermost, houtermost, hnone, -⟩ := h.outermost
  obtain rfl : outermost = inner := by simpa [houtermost] using hinner
  simp [hnone] at hparent

/-- Where a path leads there is a namespace. -/
theorem exists_of_walk (h : Nested s) (hwalk : walk s root path = some i) :
    ∃ n, s.spaces[i]? = some n ∧ n.qualified = pathName path := by
  induction path using List.reverseRecOn generalizing i with
  | nil =>
    obtain rfl : root = i := by simpa [walk] using hwalk
    obtain ⟨n, hn, -, hqualified⟩ := h.outermost
    exact ⟨n, hn, hqualified⟩
  | append_singleton path name ih =>
    obtain ⟨p, outer, hp, houter, hchild⟩ := walk_concat hwalk
    obtain ⟨outer', houter', hqualified⟩ := ih hp
    obtain rfl : outer = outer' := by simpa [houter] using houter'
    obtain ⟨n, hn, hparent, hname⟩ := h.child houter hchild
    obtain ⟨p', outer', hparent', -, houter', -, hqualified'⟩ :=
      h.inner hn (h.child_ne_root houter hchild)
    obtain rfl : p = p' := by simpa [hparent] using hparent'
    obtain rfl : outer = outer' := by simpa [houter] using houter'
    exact ⟨n, hn, by rw [hqualified', hqualified, hname, pathName_concat]⟩

/-- Every namespace has a path. -/
theorem exists_walk (h : Nested s) (hi : s.spaces[i]? = some n) : ∃ path, walk s root path = some i := by
  induction i using Nat.strongRecOn generalizing n with
  | _ i ih =>
    by_cases hroot : i = root
    · exact ⟨[], by rw [hroot]; rfl⟩
    · obtain ⟨p, outer, -, hlt, houter, hchild, -⟩ := h.inner hi hroot
      obtain ⟨path, hpath⟩ := ih p hlt houter
      exact ⟨path ++ [n.name], by rw [walk_append, hpath, Option.bind_some, walk_single houter, hchild]⟩

/-- A namespace has one path only. -/
theorem walk_injective (h : Nested s) (hwalk : walk s root path = some i)
    (hwalk' : walk s root path' = some i) : path = path' := by
  induction path using List.reverseRecOn generalizing i path' with
  | nil =>
    obtain rfl : root = i := by simpa [walk] using hwalk
    cases path' using List.reverseRecOn with
    | nil => rfl
    | append_singleton path' name' =>
      obtain ⟨p', outer', -, houter', hchild'⟩ := walk_concat hwalk'
      exact absurd rfl (h.child_ne_root houter' hchild')
  | append_singleton path name ih =>
    obtain ⟨p, outer, hp, houter, hchild⟩ := walk_concat hwalk
    cases path' using List.reverseRecOn with
    | nil =>
      obtain rfl : root = i := by simpa [walk] using hwalk'
      exact absurd rfl (h.child_ne_root houter hchild)
    | append_singleton path' name' =>
      obtain ⟨p', outer', hp', houter', hchild'⟩ := walk_concat hwalk'
      obtain ⟨n, hn, hparent, hname⟩ := h.child houter hchild
      obtain ⟨n', hn', hparent', hname'⟩ := h.child houter' hchild'
      obtain rfl : n = n' := by simpa [hn] using hn'
      obtain rfl : p = p' := by simpa [hparent] using hparent'
      rw [ih hp hp', ← hname, ← hname']

end Nested

end Walks

/-! ## Namespaces go on -/

section Growing

variable {s s' : State} {i j : Nat} {path : List String}

/-- Paths lead where they led. -/
theorem walk_grows (h : SpacesGrow s s') (hwalk : walk s i path = some j) :
    walk s' i path = some j := by
  induction path generalizing i with
  | nil => exact hwalk
  | cons name rest ih =>
    rw [walk] at hwalk ⊢
    split at hwalk
    · cases hwalk
    · next child hchild =>
      obtain ⟨n, hn, hlookup⟩ := Option.bind_eq_some_iff.1 hchild
      obtain ⟨n', hn', hgrows⟩ := h hn
      rw [hn', Option.bind_some, hgrows.children hlookup]
      exact ih hwalk

end Growing

/-! ## What a declaration enters -/

/-- The name and the place of a declared type. -/
def asType : Decl → Option (String × Location)
  | .type name _ _ l => some (name, l)
  | _ => none

/-- The name and the place of a declared global or function. -/
def asValue : Decl → Option (String × Location)
  | .global name _ _ _ l | .function name _ _ _ _ _ _ l => some (name, l)
  | _ => none

/-- Whether a declaration is a namespace. -/
def isSpace : Decl → Bool
  | .space .. => true
  | _ => false

/-- Entries for the tables of a namespace. -/
structure Entries where
  types : List (String × Binding) := []
  values : List (String × Storage) := []
  imports : List Nat := []

/-- A namespace with further entries. -/
def Entries.onto (x : Entries) (n : Space) : Space :=
  { n with
    types := x.types ++ n.types
    values := x.values ++ n.values
    imports := n.imports ++ x.imports }

/-- A type goes into the table of types only. -/
theorem onto_type (name : String) (b : Binding) :
    ({ types := [(name, b)] } : Entries).onto = fun n => { n with types := (name, b) :: n.types } := by
  funext n
  simp [Entries.onto]

/-- A value goes into the table of values only. -/
theorem onto_value (name : String) (st : Storage) :
    ({ values := [(name, st)] } : Entries).onto = fun n => { n with values := (name, st) :: n.values } := by
  funext n
  simp [Entries.onto]

/-- What a declaration adds to its namespace: nothing if its name is taken. -/
inductive Adds (s : State) (n : Space) : Decl → Entries → Prop
  | type {d name l b} (hd : asType d = some (name, l)) (hfree : n.types.lookup name = none)
      (hb : b.qualified = n.qualified ++ separator ++ name) : Adds s n d { types := [(name, b)] }
  | value {d name l st} (hd : asValue d = some (name, l)) (hfree : n.values.lookup name = none)
      (hname : st.name = name) (hqualified : st.qualified = n.qualified ++ separator ++ name)
      (hlocation : st.location = some l) : Adds s n d { values := [(name, st)] }
  | typeTaken {d name l} (hd : asType d = some (name, l)) (htaken : (n.types.lookup name).isSome) :
      Adds s n d {}
  | valueTaken {d name l} (hd : asValue d = some (name, l)) (htaken : (n.values.lookup name).isSome) :
      Adds s n d {}
  | use {name l} : Adds s n (.use name l) { imports := [s.imports.size] }

/-- The imports after a declaration. -/
def importsAfter (s : State) (space : Nat) : Decl → Array Check.Import
  | .use name l => s.imports.push { owner := space, name, location := some l }
  | _ => s.imports

/-- A declaration that is no namespace goes into one namespace. -/
def Goes (s : State) (space : Nat) (d : Decl) (s' : State) : Prop :=
  ∃ n x, s.spaces[space]? = some n ∧ Adds s n d x ∧ s'.spaces = s.spaces.modify space x.onto ∧
    s'.imports = importsAfter s space d

section Enter

variable {s s' : State} {space : Nat} {name : String} {l : Option Location}

/-- Changes with nothing in them. -/
theorem modify_nothing (spaces : Array Space) : spaces.modify space ({} : Entries).onto = spaces := by
  refine Array.ext_getElem? fun i => ?_
  rw [Array.getElem?_modify]
  split
  · cases spaces[i]? <;> simp [Entries.onto]
  · rfl

/-- Namespaces and imports are the same. -/
def SameSpaces (s s' : State) : Prop := s'.spaces = s.spaces ∧ s'.imports = s.imports

/-- A computation that leaves namespaces and imports. -/
abbrev LeavesSpaces {α : Type} (x : CheckM α) : Prop := ∀ s₀, Preserves (SameSpaces s₀) x

/-- Work on types leaves namespaces and imports. -/
theorem leavesSpaces_types {α : Type} (x : TypeM α) : LeavesSpaces (onTypes x) := by
  intro s₀ s a s' hrun hs
  obtain ⟨T, -, rfl⟩ := Check.onTypes_ok hrun
  exact hs

/-- A new storage leaves namespaces and imports. -/
theorem leavesSpaces_newStorage {qualified : String} {type : Ty} {kind : Check.StorageClass} :
    LeavesSpaces (Check.Context.newStorage name qualified type kind l) := by
  intro s₀ s st s' hrun hs
  obtain ⟨-, rfl⟩ := Check.newStorage_ok hrun
  exact hs

/-- Type parameters leave namespaces and imports. -/
theorem leavesSpaces_typeParams {names : List String} : LeavesSpaces (typeParams names l) :=
  fun s₀ => .bind (.mapM fun _ _ => leavesSpaces_types _ s₀) fun _ => .pure

/-- Parameters leave namespaces and imports. -/
theorem leavesSpaces_internParams {params : List Source.Parameter} :
    LeavesSpaces (internParams params) :=
  fun s₀ => .mapM fun _ _ => .bind (leavesSpaces_types _ s₀) fun _ => .pure

/-- What was done before a declaration is entered leaves the namespaces. -/
theorem LeavesSpaces.run {α : Type} {x : CheckM α} (h : LeavesSpaces x) {a : α}
    (hrun : x directory s = .ok a s') : SameSpaces s s' := h s s a s' hrun ⟨rfl, rfl⟩

/-- What is the same over two stretches is the same over both. -/
theorem SameSpaces.trans {s'' : State} (h : SameSpaces s s') (h' : SameSpaces s' s'') : SameSpaces s s'' :=
  ⟨h'.1.trans h.1, h'.2.trans h.2⟩

/-- A type is entered exactly if its name is free. -/
theorem addType_eq {b : Binding} {free : Bool} (h : addType space name b l directory s = .ok free s') :
    ∃ n, s.spaces[space]? = some n ∧ s'.imports = s.imports ∧
      ((n.types.lookup name = none ∧
          s'.spaces = s.spaces.modify space ({ types := [(name, b)] } : Entries).onto) ∨
        ((n.types.lookup name).isSome ∧ s'.spaces = s.spaces)) := by
  obtain ⟨n, s₁, hspace, hlast⟩ := check_bind_ok.1 h
  obtain ⟨hn, rfl⟩ := getSpace_eq hspace
  split at hlast
  all_goals
    rename_i hfree
    obtain ⟨_, s₂, hstep, hpure⟩ := check_bind_ok.1 hlast
    obtain ⟨-, rfl⟩ := check_pure_ok.1 hpure
    obtain rfl := check_modify_ok.1 hstep
  · exact ⟨n, hn, rfl, .inr ⟨hfree, rfl⟩⟩
  · exact ⟨n, hn, rfl, .inl ⟨Option.not_isSome_iff_eq_none.1 hfree, by rw [onto_type]⟩⟩

/-- A value is entered exactly if its name is free. -/
theorem addValue_eq {st : Storage} {free : Bool} (h : addValue space name st l directory s = .ok free s') :
    ∃ n, s.spaces[space]? = some n ∧ s'.imports = s.imports ∧
      ((n.values.lookup name = none ∧
          s'.spaces = s.spaces.modify space ({ values := [(name, st)] } : Entries).onto) ∨
        ((n.values.lookup name).isSome ∧ s'.spaces = s.spaces)) := by
  obtain ⟨n, s₁, hspace, hlast⟩ := check_bind_ok.1 h
  obtain ⟨hn, rfl⟩ := getSpace_eq hspace
  split at hlast
  all_goals
    rename_i hfree
    obtain ⟨_, s₂, hstep, hpure⟩ := check_bind_ok.1 hlast
    obtain ⟨-, rfl⟩ := check_pure_ok.1 hpure
    obtain rfl := check_modify_ok.1 hstep
  · exact ⟨n, hn, rfl, .inr ⟨hfree, rfl⟩⟩
  · exact ⟨n, hn, rfl, .inl ⟨Option.not_isSome_iff_eq_none.1 hfree, by rw [onto_value]⟩⟩

/-- The item of a declaration is no matter of the namespaces. -/
theorem sameSpaces_item {free : Bool} {f : State → State} {u : Unit}
    (h : (if free = true then modify f else pure () : CheckM Unit) directory s = .ok u s')
    (hf : ∀ s, SameSpaces s (f s)) : SameSpaces s s' := by
  split at h
  · obtain rfl := check_modify_ok.1 h
    exact hf s
  · obtain ⟨-, rfl⟩ := check_pure_ok.1 h
    exact ⟨rfl, rfl⟩

variable {d : Decl} {place : Location} {n : Space} {s₁ s₂ s₃ : State} {free : Bool}

/-- A type is entered. -/
theorem goes_type (hd : asType d = some (name, place)) (hn : s.spaces[space]? = some n)
    (hbefore : SameSpaces s s₁) {b : Binding} (hb : b.qualified = n.qualified ++ separator ++ name)
    (hadd : addType space name b l directory s₁ = .ok free s₂) (hafter : SameSpaces s₂ s') :
    Goes s space d s' := by
  have himports : importsAfter s space d = s.imports := by
    cases d <;> simp_all [asType, importsAfter]
  obtain ⟨n', hn', himports', hcase⟩ := addType_eq hadd
  obtain rfl : n = n' := Option.some.inj (hn.symm.trans (hbefore.1 ▸ hn'))
  have hend : s'.imports = importsAfter s space d := by
    rw [himports, hafter.2, himports', hbefore.2]
  obtain ⟨hfree, hspaces⟩ | ⟨htaken, hspaces⟩ := hcase
  · exact ⟨n, _, hn, .type hd hfree hb, by rw [hafter.1, hspaces, hbefore.1], hend⟩
  · exact ⟨n, {}, hn, .typeTaken hd htaken, by rw [hafter.1, hspaces, hbefore.1, modify_nothing], hend⟩

/-- A value is entered. -/
theorem goes_value (hd : asValue d = some (name, place)) (hn : s.spaces[space]? = some n)
    (hbefore : SameSpaces s s₁) {st : Storage} {type : Ty} {kind : Check.StorageClass}
    (hnew : Check.Context.newStorage name (n.qualified ++ separator ++ name) type kind (some place)
      directory s₁ = .ok st s₂)
    (hadd : addValue space name st l directory s₂ = .ok free s₃) (hafter : SameSpaces s₃ s') :
    Goes s space d s' := by
  have himports : importsAfter s space d = s.imports := by
    cases d <;> simp_all [asValue, importsAfter]
  have hbefore := hbefore.trans (leavesSpaces_newStorage.run hnew)
  obtain ⟨hst, -⟩ := Check.newStorage_ok hnew
  obtain ⟨n', hn', himports', hcase⟩ := addValue_eq hadd
  obtain rfl : n = n' := Option.some.inj (hn.symm.trans (hbefore.1 ▸ hn'))
  have hend : s'.imports = importsAfter s space d := by
    rw [himports, hafter.2, himports', hbefore.2]
  obtain ⟨hfree, hspaces⟩ | ⟨htaken, hspaces⟩ := hcase
  · have hadds : Adds s n d { values := [(name, st)] } :=
      .value hd hfree (by rw [hst]) (by rw [hst]) (by rw [hst])
    exact ⟨n, _, hn, hadds, by rw [hafter.1, hspaces, hbefore.1], hend⟩
  · exact ⟨n, {}, hn, .valueTaken hd htaken, by rw [hafter.1, hspaces, hbefore.1, modify_nothing], hend⟩

end Enter

section Declare

variable {s s' : State} {space : Nat} {name : String} {l : Location} {u : Unit}

/-- A declared type goes into its namespace. -/
theorem goes_declareType {params : List String} {definition : TypeExpr}
    (h : declareType space name params definition (some l) directory s = .ok u s') :
    Goes s space (.type name params definition l) s' := by
  obtain ⟨qualified, s₁, hqualify, h₁⟩ := check_bind_ok.1 h
  obtain ⟨n, hn, rfl, rfl⟩ := qualify_eq hqualify
  obtain ⟨t, s₂, hintern, h₂⟩ := check_bind_ok.1 h₁
  have hsame := (leavesSpaces_types _).run hintern
  split at h₂
  · obtain ⟨_, _, hpure, h₃⟩ := check_bind_ok.1 h₂
    obtain ⟨rfl, rfl⟩ := check_pure_ok.1 hpure
    obtain ⟨free, s₃, hadd, hlast⟩ := check_bind_ok.1 h₃
    exact goes_type rfl hn hsame rfl hadd (sameSpaces_item hlast fun _ => ⟨rfl, rfl⟩)
  · obtain ⟨⟨vars, bound⟩, s₃, htype, h₃⟩ := check_bind_ok.1 h₂
    obtain ⟨template, s₄, htemplate, h₄⟩ := check_bind_ok.1 h₃
    obtain ⟨_, _, hpure, h₅⟩ := check_bind_ok.1 h₄
    obtain ⟨rfl, rfl⟩ := check_pure_ok.1 hpure
    obtain ⟨free, s₅, hadd, hlast⟩ := check_bind_ok.1 h₅
    exact goes_type rfl hn ((hsame.trans (leavesSpaces_typeParams.run htype)).trans
      ((leavesSpaces_types _).run htemplate)) rfl hadd (sameSpaces_item hlast fun _ => ⟨rfl, rfl⟩)

/-- A declared global goes into its namespace. -/
theorem goes_declareGlobal {type : Option TypeExpr} {init : Option Source.Expr} {exported : Bool}
    (h : declareGlobal space name type init exported (some l) directory s = .ok u s') :
    Goes s space (.global name type init exported l) s' := by
  obtain ⟨qualified, s₁, hqualify, h₁⟩ := check_bind_ok.1 h
  obtain ⟨n, hn, rfl, rfl⟩ := qualify_eq hqualify
  cases type with
  | none =>
    obtain ⟨written, s₂, hwritten, h₂⟩ := check_bind_ok.1 h₁
    obtain ⟨rfl, rfl⟩ := check_pure_ok.1 hwritten
    obtain ⟨inferred, s₃, hinferred, h₃⟩ := check_bind_ok.1 h₂
    obtain ⟨st, s₄, hnew, h₄⟩ := check_bind_ok.1 h₃
    obtain ⟨free, s₅, hadd, hlast⟩ := check_bind_ok.1 h₄
    exact goes_value rfl hn (LeavesSpaces.run (fun s₀ => .map (leavesSpaces_types _ s₀)) hinferred) hnew hadd
      (sameSpaces_item hlast fun _ => ⟨rfl, rfl⟩)
  | some t =>
    obtain ⟨written, s₂, hwritten, h₂⟩ := check_bind_ok.1 h₁
    have hsame := LeavesSpaces.run (fun s₀ => .map (leavesSpaces_types _ s₀)) hwritten
    obtain ⟨type, -, rfl⟩ := (Computation.map_ok (x := onTypes (Check.internType t) directory)).1 hwritten
    obtain ⟨_, _, hpure, h₃⟩ := check_bind_ok.1 h₂
    obtain ⟨rfl, rfl⟩ := check_pure_ok.1 hpure
    obtain ⟨st, s₃, hnew, h₄⟩ := check_bind_ok.1 h₃
    obtain ⟨free, s₄, hadd, hlast⟩ := check_bind_ok.1 h₄
    exact goes_value rfl hn hsame hnew hadd (sameSpaces_item hlast fun _ => ⟨rfl, rfl⟩)

/-- A declared function goes into its namespace. -/
theorem goes_declareFunction {params : List Source.Parameter} {result : Option TypeExpr}
    {body : List Source.Stmt} {exported interrupt : Bool}
    (h : declareFunction space name params result body exported interrupt (some l) directory s = .ok u s') :
    Goes s space (.function name [] params result body exported interrupt l) s' := by
  obtain ⟨qualified, s₁, hqualify, h₁⟩ := check_bind_ok.1 h
  obtain ⟨n, hn, rfl, rfl⟩ := qualify_eq hqualify
  obtain ⟨typed, s₂, htyped, h₂⟩ := check_bind_ok.1 h₁
  obtain ⟨r, s₃, hr, h₃⟩ := check_bind_ok.1 h₂
  obtain ⟨st, s₄, hnew, h₄⟩ := check_bind_ok.1 h₃
  obtain ⟨free, s₅, hadd, hlast⟩ := check_bind_ok.1 h₄
  exact goes_value rfl hn ((leavesSpaces_internParams.run htyped).trans ((leavesSpaces_types _).run hr)) hnew
    hadd (sameSpaces_item hlast fun _ => ⟨rfl, rfl⟩)

/-- A template of a function goes into its namespace. -/
theorem goes_declareTemplate {first : String} {others : List String} {params : List Source.Parameter}
    {result : Option TypeExpr} {body : List Source.Stmt} {exported interrupt : Bool}
    (h : declareTemplate space name (first :: others) params result body (some l) directory s = .ok u s') :
    Goes s space (.function name (first :: others) params result body exported interrupt l) s' := by
  obtain ⟨qualified, s₁, hqualify, h₁⟩ := check_bind_ok.1 h
  obtain ⟨n, hn, rfl, rfl⟩ := qualify_eq hqualify
  obtain ⟨⟨vars, bound⟩, s₂, htype, h₂⟩ := check_bind_ok.1 h₁
  obtain ⟨typed, s₃, htyped, h₃⟩ := check_bind_ok.1 h₂
  obtain ⟨r, s₄, hr, h₄⟩ := check_bind_ok.1 h₃
  obtain ⟨template, s₅, htemplate, h₅⟩ := check_bind_ok.1 h₄
  obtain ⟨st, s₆, hnew, h₆⟩ := check_bind_ok.1 h₅
  obtain ⟨free, s₇, hadd, hlast⟩ := check_bind_ok.1 h₆
  have hsame := (leavesSpaces_typeParams.run htype).trans (leavesSpaces_internParams.run htyped)
  exact goes_value rfl hn ((hsame.trans ((leavesSpaces_types _).run hr)).trans
    ((leavesSpaces_types _).run htemplate)) hnew hadd (sameSpaces_item hlast fun _ => ⟨rfl, rfl⟩)

/-- A using declaration goes into its namespace. -/
theorem goes_declareImport {used : String} (hn : (s.spaces[space]?).isSome)
    (h : declareImport space used (some l) directory s = .ok u s') : Goes s space (.use used l) s' := by
  obtain ⟨n, hn⟩ := Option.isSome_iff_exists.1 hn
  obtain rfl := declareImport_ok h
  exact ⟨n, _, hn, .use, rfl, rfl⟩

/-- A declaration other than a namespace is entered. -/
theorem goes_declare (hn : (s.spaces[space]?).isSome) :
    ∀ d : Decl, isSpace d = false → declare space d directory s = .ok u s' → Goes s space d s'
  | .type .., _, h => goes_declareType h
  | .global .., _, h => goes_declareGlobal h
  | .function _ [] .., _, h => goes_declareFunction h
  | .function _ (_ :: _) .., _, h => goes_declareTemplate h
  | .use .., _, h => goes_declareImport hn h
  | .space .., hd, _ => nomatch hd

end Declare

/-! ## Steps keep the tree -/

/-- Entries under free names hide nothing. -/
theorem Adds.grows {s : State} {n : Space} {d : Decl} {x : Entries} (h : Adds s n d x) :
    SpaceGrows n (x.onto n) := by
  cases h with
  | type hd hfree hb => exact { SpaceGrows.refl n with types := lookup_cons_of_some hfree }
  | value hd hfree => exact { SpaceGrows.refl n with values := lookup_cons_of_some hfree }
  | typeTaken | valueTaken | use => exact ⟨rfl, rfl, rfl, fun h => h, fun h => h, fun h => h⟩

section Steps

variable {s s' s'' : State} {space child : Nat} {name : String} {d : Decl} {n : Space}

/-- A declaration leaves the tree. -/
theorem Goes.stays (h : Goes s space d s') : SpacesStay s s' := by
  obtain ⟨n, x, hn, hadds, hspaces, -⟩ := h
  exact .of_modify hn hadds.grows (fun _ => rfl) hspaces

/-- A tree stays one. -/
theorem Nested.stays (hs : Nested s) (h : SpacesStay s s') : Nested s' where
  outermost := by
    obtain ⟨n, hn, hparent, hqualified⟩ := hs.outermost
    obtain ⟨n', hn', hgrows⟩ := h.grows hn
    exact ⟨n', hn', hgrows.parent.trans hparent, hgrows.qualified.trans hqualified⟩
  inner {i n'} hn' hi := by
    obtain ⟨n, hn, hgrows, -⟩ := h.was hn'
    obtain ⟨p, outer, hparent, hlt, houter, hchild, hqualified⟩ := hs.inner hn hi
    obtain ⟨outer', houter', hgrows'⟩ := h.grows houter
    refine ⟨p, outer', hgrows.parent.trans hparent, hlt, houter', ?_, ?_⟩
    · rw [hgrows.name]
      exact hgrows'.children hchild
    · rw [hgrows.qualified, hqualified, hgrows'.qualified, hgrows.name]
  child {i n' name c} hn' hc := by
    obtain ⟨n, hn, -, hchildren⟩ := h.was hn'
    obtain ⟨inner, hinner, hparent, hname⟩ := hs.child hn (hchildren ▸ hc)
    obtain ⟨inner', hinner', hgrows⟩ := h.grows hinner
    exact ⟨inner', hinner', hgrows.parent.trans hparent, hgrows.name.trans hname⟩

/-- A new namespace is made inside another one. -/
structure Makes (s : State) (space : Nat) (name : String) (n : Space) (s' : State) : Prop where
  outer : s.spaces[space]? = some n
  free : n.children.lookup name = none
  made : s'.spaces = (s.spaces.push
    { name, qualified := n.qualified ++ separator ++ name, parent := some space }).modify space
      fun n => { n with children := (name, s.spaces.size) :: n.children }

namespace Makes

variable {i : Nat} {m : Space}

/-- The namespace that is new. -/
theorem new (h : Makes s space name n s') : s'.spaces[s.spaces.size]? =
    some { name, qualified := n.qualified ++ separator ++ name, parent := some space } := by
  have hlt := (Array.getElem?_eq_some_iff.1 h.outer).1
  rw [h.made, Array.getElem?_modify, if_neg (by omega), Array.getElem?_push_size]

/-- The namespace around it. -/
theorem around (h : Makes s space name n s') :
    s'.spaces[space]? = some { n with children := (name, s.spaces.size) :: n.children } := by
  have hlt := (Array.getElem?_eq_some_iff.1 h.outer).1
  rw [h.made, Array.getElem?_modify, if_pos rfl, Array.getElem?_push_lt hlt,
    ← Array.getElem?_eq_getElem hlt, h.outer]
  rfl

/-- All other namespaces. -/
theorem other (h : Makes s space name n s') (hm : s.spaces[i]? = some m) (hi : i ≠ space) :
    s'.spaces[i]? = some m := by
  have hlt := (Array.getElem?_eq_some_iff.1 hm).1
  rw [h.made, Array.getElem?_modify, if_neg hi.symm, Array.getElem?_push_lt hlt,
    ← Array.getElem?_eq_getElem hlt, hm]

/-- Where there is a namespace, it is one of these. -/
theorem cases (h : Makes s space name n s') (hm : s'.spaces[i]? = some m) :
    (i = s.spaces.size ∧
      m = { name, qualified := n.qualified ++ separator ++ name, parent := some space }) ∨
    (i = space ∧ m = { n with children := (name, s.spaces.size) :: n.children }) ∨
      (i ≠ space ∧ s.spaces[i]? = some m) := by
  by_cases hnew : i = s.spaces.size
  · subst hnew
    exact .inl ⟨rfl, Option.some.inj (hm.symm.trans h.new)⟩
  by_cases hspace : i = space
  · subst hspace
    exact .inr (.inl ⟨rfl, Option.some.inj (hm.symm.trans h.around)⟩)
  · have hlt := (Array.getElem?_eq_some_iff.1 hm).1
    have hlt' : i < s.spaces.size := by
      rw [h.made, Array.size_modify, Array.size_push] at hlt
      omega
    have hold := h.other (Array.getElem?_eq_getElem hlt') hspace
    exact .inr (.inr ⟨hspace, by rw [Array.getElem?_eq_getElem hlt', ← hold, hm]⟩)

/-- A namespace that is made lets the others grow only. -/
theorem grows (h : Makes s space name n s') : SpacesGrow s s' := by
  intro i m hm
  by_cases hi : i = space
  · subst hi
    obtain rfl : n = m := Option.some.inj (h.outer.symm.trans hm)
    exact ⟨_, h.around, { SpaceGrows.refl n with children := lookup_cons_of_some h.free }⟩
  · exact ⟨m, h.other hm hi, .refl m⟩

/-- A tree stays one. -/
theorem nested (h : Makes s space name n s') (hs : Nested s) : Nested s' where
  outermost := by
    obtain ⟨m, hm, hparent, hqualified⟩ := hs.outermost
    obtain ⟨m', hm', hgrows⟩ := h.grows hm
    exact ⟨m', hm', hgrows.parent.trans hparent, hgrows.qualified.trans hqualified⟩
  inner {i m} hm hi := by
    have hlt := (Array.getElem?_eq_some_iff.1 h.outer).1
    have hold {m₀ : Space} (hm₀ : s.spaces[i]? = some m₀) (hgrows : SpaceGrows m₀ m) :
        ∃ p outer, m.parent = some p ∧ p < i ∧ s'.spaces[p]? = some outer ∧
          outer.children.lookup m.name = some i ∧
            m.qualified = outer.qualified ++ separator ++ m.name := by
      obtain ⟨p, outer, hparent, hlt, houter, hchild, hqualified⟩ := hs.inner hm₀ hi
      obtain ⟨outer', houter', hgrows'⟩ := h.grows houter
      refine ⟨p, outer', hgrows.parent.trans hparent, hlt, houter', ?_, ?_⟩
      · rw [hgrows.name]
        exact hgrows'.children hchild
      · rw [hgrows.qualified, hqualified, hgrows'.qualified, hgrows.name]
    obtain ⟨rfl, rfl⟩ | ⟨rfl, rfl⟩ | ⟨-, hm₀⟩ := h.cases hm
    · exact ⟨space, _, rfl, hlt, h.around, List.lookup_cons_self, rfl⟩
    · exact hold h.outer ⟨rfl, rfl, rfl, lookup_cons_of_some h.free, fun h => h, fun h => h⟩
    · exact hold hm₀ (.refl m)
  child {i m name' c} hm hc := by
    have hold {m₀ : Space} (hm₀ : s.spaces[i]? = some m₀) (hc : m₀.children.lookup name' = some c) :
        ∃ inner, s'.spaces[c]? = some inner ∧ inner.parent = some i ∧ inner.name = name' := by
      obtain ⟨inner, hinner, hparent, hname⟩ := hs.child hm₀ hc
      obtain ⟨inner', hinner', hgrows⟩ := h.grows hinner
      exact ⟨inner', hinner', hgrows.parent.trans hparent, hgrows.name.trans hname⟩
    obtain ⟨-, rfl⟩ | ⟨rfl, rfl⟩ | ⟨-, hm₀⟩ := h.cases hm
    · simp at hc
    · by_cases hname : name' = name
      · subst hname
        obtain rfl : s.spaces.size = c := by simpa using hc
        exact ⟨_, h.new, rfl, rfl⟩
      · rw [List.lookup_cons, beq_eq_false_iff_ne.2 hname] at hc
        exact hold h.outer hc
    · exact hold hm₀ hc

end Makes

/-- A nested namespace is there already, or is new. -/
theorem childSpace_cases (h : childSpace space name directory s = .ok child s') :
    ∃ n, s.spaces[space]? = some n ∧ s'.imports = s.imports ∧
      ((n.children.lookup name = some child ∧ s'.spaces = s.spaces) ∨
        (child = s.spaces.size ∧ Makes s space name n s')) := by
  obtain ⟨n, hn, ⟨hchild, rfl⟩ | ⟨hchild, rfl, rfl⟩⟩ := childSpace_ok h
  · exact ⟨n, hn, rfl, .inl ⟨hchild, rfl⟩⟩
  · exact ⟨n, hn, rfl, .inr ⟨rfl, hn, hchild, rfl⟩⟩

/-- A nested namespace is found in a tree, and its path is that of the outer one and its name. -/
theorem nested_childSpace (hs : Nested s) (h : childSpace space name directory s = .ok child s') :
    Nested s' ∧ SpacesGrow s s' ∧
      ∀ path, walk s root path = some space → walk s' root (path ++ [name]) = some child := by
  obtain ⟨n, hn, -, ⟨hchild, hspaces⟩ | ⟨rfl, hmakes⟩⟩ := childSpace_cases h
  · have hgrows := SpacesGrow.of_eq hspaces
    refine ⟨hs.stays (.of_eq hspaces), hgrows, fun path hpath => ?_⟩
    rw [walk_append, walk_grows hgrows hpath, Option.bind_some, walk_single (hspaces ▸ hn), hchild]
  · refine ⟨hmakes.nested hs, hmakes.grows, fun path hpath => ?_⟩
    rw [walk_append, walk_grows hmakes.grows hpath, Option.bind_some, walk_single hmakes.around]
    exact List.lookup_cons_self

/-- A nested namespace is one of the tree, and not the outermost. -/
theorem childSpace_inner {name : String} {child : Nat} (hs : Nested s)
    (hspace : (s.spaces[space]?).isSome) (h : childSpace space name directory s = .ok child s') :
    (s'.spaces[child]?).isSome ∧ child ≠ root := by
  obtain ⟨hs', -, hpath⟩ := nested_childSpace hs h
  obtain ⟨n, hn⟩ := Option.isSome_iff_exists.1 hspace
  obtain ⟨path, hwalk⟩ := hs.exists_walk hn
  obtain ⟨m, hm, -⟩ := hs'.exists_of_walk (hpath path hwalk)
  obtain ⟨p, outer, -, houter, hlookup⟩ := walk_concat (hpath path hwalk)
  exact ⟨by rw [hm]; rfl, hs'.child_ne_root houter hlookup⟩

/-- A namespace stays one. -/
theorem isSome_grows (h : SpacesGrow s s') {i : Nat} (hi : (s.spaces[i]?).isSome) :
    (s'.spaces[i]?).isSome := by
  obtain ⟨n, hn⟩ := Option.isSome_iff_exists.1 hi
  obtain ⟨n', hn', -⟩ := h hn
  rw [hn']
  rfl

end Steps

/-! ## Declarations keep the tree -/

/-- A property of namespaces and imports that every single step of declaring keeps. -/
structure Inherited (P : State → Prop) : Prop where
  same : ∀ {s s'}, P s → SameSpaces s s' → P s'
  makes : ∀ {s s' space name n}, P s → Makes s space name n s' → s'.imports = s.imports → P s'
  goes : ∀ {s s' space d}, P s → Goes s space d s' → P s'

/-- A declaration that is no namespace keeps the tree. -/
theorem nested_goes {s s' : State} {space : Nat} {d : Decl} (hs : Nested s) (h : Goes s space d s') :
    Nested s' ∧ SpacesGrow s s' := ⟨hs.stays h.stays, h.stays.grows⟩

section Inherit

variable {P : State → Prop} {s s' : State} {u : Unit}

/-- A nested namespace inherits a property. -/
theorem Inherited.childSpace (hP : Inherited P) (hs : P s) {space child : Nat} {name : String}
    (h : childSpace space name directory s = .ok child s') : P s' := by
  obtain ⟨n, -, himports, ⟨-, hspaces⟩ | ⟨-, hmakes⟩⟩ := childSpace_cases h
  · exact hP.same hs ⟨hspaces, himports⟩
  · exact hP.makes hs hmakes himports

mutual

/-- A declaration keeps the tree, and all that is in it. -/
theorem Inherited.declare (hP : Inherited P) {s s' : State} (hs : Nested s) (hp : P s) {space : Nat}
    (hspace : (s.spaces[space]?).isSome) :
    ∀ d : Decl, declare space d directory s = .ok u s' → (Nested s' ∧ SpacesGrow s s') ∧ P s'
  | .space _ decls _, h => by
    obtain ⟨child, s₁, hchild, h₁⟩ := check_bind_ok.1 h
    obtain ⟨hs₁, hgrows, -⟩ := nested_childSpace hs hchild
    obtain ⟨⟨hs', hgrows'⟩, hp'⟩ :=
      hP.declareAll hs₁ (hP.childSpace hp hchild) (childSpace_inner hs hspace hchild).1 decls h₁
    exact ⟨⟨hs', hgrows.trans hgrows'⟩, hp'⟩
  | .type .., h => let hgoes := goes_declare hspace _ rfl h; ⟨nested_goes hs hgoes, hP.goes hp hgoes⟩
  | .global .., h => let hgoes := goes_declare hspace _ rfl h; ⟨nested_goes hs hgoes, hP.goes hp hgoes⟩
  | .function .., h => let hgoes := goes_declare hspace _ rfl h; ⟨nested_goes hs hgoes, hP.goes hp hgoes⟩
  | .use .., h => let hgoes := goes_declare hspace _ rfl h; ⟨nested_goes hs hgoes, hP.goes hp hgoes⟩

/-- Declarations keep the tree. -/
theorem Inherited.declareAll (hP : Inherited P) {s s' : State} (hs : Nested s) (hp : P s) {space : Nat}
    (hspace : (s.spaces[space]?).isSome) :
    ∀ decls : List Decl, declareAll space decls directory s = .ok u s' → (Nested s' ∧ SpacesGrow s s') ∧ P s'
  | [], h => by
    obtain ⟨-, rfl⟩ := check_pure_ok.1 h
    exact ⟨⟨hs, .refl s⟩, hp⟩
  | d :: rest, h => by
    obtain ⟨_, s₁, hfirst, hrest⟩ := check_bind_ok.1 h
    obtain ⟨⟨hs₁, hgrows⟩, hp₁⟩ := hP.declare hs hp hspace d hfirst
    obtain ⟨⟨hs', hgrows'⟩, hp'⟩ := hP.declareAll hs₁ hp₁ (isSome_grows hgrows hspace) rest hrest
    exact ⟨⟨hs', hgrows.trans hgrows'⟩, hp'⟩

end

/-- The property that always holds is kept. -/
theorem inherited_true : Inherited fun _ => True :=
  ⟨fun _ _ => trivial, fun _ _ _ => trivial, fun _ _ => trivial⟩

/-- A declaration keeps the tree, and all that is in it. -/
theorem nested_declare (hs : Nested s) {space : Nat} (hspace : (s.spaces[space]?).isSome) (d : Decl)
    (h : declare space d directory s = .ok u s') : Nested s' ∧ SpacesGrow s s' :=
  (inherited_true.declare hs trivial hspace d h).1

/-- Declarations keep the tree, and all that is in it. -/
theorem nested_declareAll (hs : Nested s) {space : Nat} (hspace : (s.spaces[space]?).isSome)
    (decls : List Decl) (h : declareAll space decls directory s = .ok u s') : Nested s' ∧ SpacesGrow s s' :=
  (inherited_true.declareAll hs trivial hspace decls h).1

end Inherit

/-- At first there is the outermost namespace only, and it is empty. -/
theorem spaces_emptyState {limit i : Nat} {n : Space}
    (hn : (emptyState.withLimit limit).spaces[i]? = some n) :
    i = root ∧ n = { name := rootName, qualified := rootName, parent := none } := by
  have hspaces : (emptyState.withLimit limit).spaces =
      #[{ name := rootName, qualified := rootName, parent := none }] := rfl
  rw [hspaces] at hn
  obtain ⟨hi, rfl⟩ := Array.getElem?_eq_some_iff.1 hn
  obtain rfl : i = 0 := by simpa using hi
  exact ⟨rfl, rfl⟩

/-- One namespace is a tree. -/
theorem nested_emptyState (limit : Nat) : Nested (emptyState.withLimit limit) where
  outermost := ⟨_, rfl, rfl, rfl⟩
  inner hn hi := absurd (spaces_emptyState hn).1 hi
  child hn hc := by
    obtain ⟨-, rfl⟩ := spaces_emptyState hn
    simp at hc

end Qll.Program
