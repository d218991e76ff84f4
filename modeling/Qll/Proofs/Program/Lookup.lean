import Qll.Program.Names
import Qll.Proofs.Types.Vocabulary

/-!
# What a search for a name finds

A search finds nothing but entries of the tables, and the name it succeeds for is made of the names
of namespaces and of one entry. So a name that stands for a type is a qualified name, whatever text
was written.
-/

namespace Qll.Program

open Check (State Space Storage)
open Qll.Types (IsQualified Vocabulary Binding)

/-! ## Cutting names -/

/-- The parts of a name with the separator between them. -/
def joined : List String → List Char
  | [] => []
  | [p] => p.toList
  | p :: rest => p.toList ++ separator.toList ++ joined rest

/-- Cutting a name gives at least one part. -/
theorem splitFrom_ne_nil (depth : Nat) (previous : Char) (part cs : List Char) :
    splitFrom depth previous part cs ≠ [] := by
  fun_induction splitFrom depth previous part cs <;> simp_all

/-- The parts behind the first one stand behind a separator. -/
theorem joined_cons {p : String} {rest : List String} (h : rest ≠ []) :
    joined (p :: rest) = p.toList ++ separator.toList ++ joined rest := by
  cases rest with
  | nil => exact absurd rfl h
  | cons q rest => rfl

/-- Cutting loses no character. -/
theorem joined_splitFrom (depth : Nat) (previous : Char) (part cs : List Char) :
    joined (splitFrom depth previous part cs) = part.reverse ++ cs := by
  fun_induction splitFrom depth previous part cs with
  | case1 => simp [joined]
  | case2 previous part rest ih =>
    rw [joined_cons (splitFrom_ne_nil _ _ _ _), ih]
    simp [separator]
  | case3 => simp_all
  | case4 => simp_all

/-- A qualified name behind another one. -/
theorem isQualified_append {accepts : String → Prop} {q : String} (hq : IsQualified accepts q)
    {parts : List String} (hne : parts ≠ []) (h : ∀ p ∈ parts, accepts p) :
    IsQualified accepts (q ++ "::" ++ String.ofList (joined parts)) := by
  induction parts generalizing q with
  | nil => exact absurd rfl hne
  | cons p rest ih =>
    by_cases hrest : rest = []
    · subst hrest
      simpa [joined] using IsQualified.nested hq (h p (by simp))
    · have hnext := ih (.nested hq (h p (by simp))) hrest fun p hp => h p (by simp [hp])
      have hjoined : q ++ "::" ++ String.ofList (joined (p :: rest)) =
          q ++ "::" ++ p ++ "::" ++ String.ofList (joined rest) := by
        apply String.toList_injective
        simp [joined_cons hrest, separator]
      rwa [hjoined]

/-- A name whose parts are accepted is a qualified name. -/
theorem isQualified_of_parts {accepts : String → Prop} {name : String}
    (h : ∀ p ∈ splitQualified name, accepts p) : IsQualified accepts name := by
  have hjoined : joined (splitQualified name) = name.toList := by
    rw [splitQualified, joined_splitFrom]
    rfl
  cases hparts : splitQualified name with
  | nil => exact absurd hparts (splitFrom_ne_nil _ _ _ _)
  | cons p rest =>
    rw [hparts] at h hjoined
    have hp : IsQualified accepts p := .name (h p (by simp))
    by_cases hrest : rest = []
    · subst hrest
      have hname : p = name := String.toList_injective hjoined
      exact hname ▸ hp
    · have hall := isQualified_append hp hrest fun p hp => h p (by simp [hp])
      have hname : p ++ "::" ++ String.ofList (joined rest) = name := by
        apply String.toList_injective
        rw [← hjoined, joined_cons hrest]
        simp [separator]
      rwa [hname] at hall

/-! ## Searching -/

/-- A path of namespaces is made of their names. -/
theorem accepts_of_walk {accepts : String → Prop} {s : State}
    (hchildren : ∀ entry ∈ s.spaces, ∀ p ∈ entry.children, accepts p.1) {space home : Nat}
    {parts : List String} (h : walk s space parts = some home) : ∀ p ∈ parts, accepts p := by
  induction parts generalizing space with
  | nil => simp
  | cons p rest ih =>
    rw [walk] at h
    split at h
    · cases h
    · next child hchild =>
      obtain ⟨entry, hentry, hlookup⟩ := Option.bind_eq_some_iff.1 hchild
      obtain ⟨before, after, hlist, -⟩ := List.lookup_eq_some_iff.1 hlookup
      have hp : accepts p :=
        hchildren entry (Array.mem_of_getElem? hentry) (p, child) (by simp [hlist])
      simpa using ⟨hp, ih h⟩

/-- What is found directly is an entry of a table, and the name is made of names of namespaces and
of the entry. -/
theorem findDirect_some {α : Type} {table : Space → List (String × α)} {s : State}
    {space home : Nat} {parts : List String} {a : α}
    (h : findDirect table s space parts = some (home, a)) :
    ∃ entry ∈ s.spaces, ∃ leaf, (leaf, a) ∈ table entry ∧
      ∀ accepts : String → Prop, (∀ entry ∈ s.spaces, ∀ p ∈ entry.children, accepts p.1) →
        accepts rootName → accepts leaf → ∀ p ∈ parts, accepts p := by
  simp only [findDirect, direct, Option.bind_eq_bind, Option.bind_eq_some_iff, Option.pure_def,
    Option.some.injEq, Prod.mk.injEq] at h
  obtain ⟨⟨_, leaf⟩, ⟨entry, -, home', hwalk, rfl, rfl⟩, holder, hholder, a', hlookup, rfl, rfl⟩ := h
  obtain ⟨before, after, hlist, -⟩ := List.lookup_eq_some_iff.1 hlookup
  refine ⟨holder, Array.mem_of_getElem? hholder, (relativeParts entry parts).getLastD "",
    by simp [hlist], ?_⟩
  intro accepts hchildren hroot hleaf
  have hall : ∀ p ∈ relativeParts entry parts, accepts p := by
    intro p hp
    have hne := List.ne_nil_of_mem hp
    rw [← List.dropLast_concat_getLast hne] at hp
    rw [List.getLastD_eq_getLast?, List.getLast?_eq_some_getLast hne] at hleaf
    obtain hp | hp := List.mem_append.1 hp
    · exact accepts_of_walk hchildren hwalk p hp
    · rw [List.mem_singleton.1 hp]
      exact hleaf
  -- The name of the outermost namespace may have been left out.
  unfold relativeParts at hall
  split at hall
  · next first second rest =>
    split at hall
    · next hfirst => simpa [hfirst.2, hroot] using hall
    · exact hall
  · exact hall

/-- Imports offer what is found directly in them. -/
theorem mem_offers {α : Type} {table : Space → List (String × α)} {s : State} {parts : List String}
    {imports : List Nat} {found : List (Nat × Nat × α)} {r : Nat × Nat × α}
    (h : r ∈ offers table s parts imports found) :
    r ∈ found ∨ ∃ k ∈ imports, (s.imports[k]?).bind (·.target) = some r.1 ∧
      findDirect table s r.1 parts = some r.2 := by
  fun_induction offers table s parts imports found with
  | case1 found => exact .inl (List.mem_reverse.1 h)
  | case2 k rest found hk ih => exact (ih h).imp_right fun ⟨j, hj, hr⟩ => ⟨j, .tail _ hj, hr⟩
  | case3 k rest found target hk hnone ih =>
    exact (ih h).imp_right fun ⟨j, hj, hr⟩ => ⟨j, .tail _ hj, hr⟩
  | case4 k rest found target hk home a hfind hsame ih =>
    exact (ih h).imp_right fun ⟨j, hj, hr⟩ => ⟨j, .tail _ hj, hr⟩
  | case5 k rest found target hk home a hfind hother ih =>
    obtain hr | ⟨j, hj, hr⟩ := ih h
    · obtain rfl | hr := List.mem_cons.1 hr
      · exact .inr ⟨k, .head _, hk, hfind⟩
      · exact .inl hr
    · exact .inr ⟨j, .tail _ hj, hr⟩

/-- What is found from a namespace outwards is an entry of a table. -/
theorem findOutwards_some {α : Type} {table : Space → List (String × α)} {s : State}
    {name : String} {n : Nat} {space : Option Nat} {a : α}
    (h : findOutwards table s name n space = .ok (some a)) :
    ∃ home b, findDirect table s home (splitQualified name) = some (b, a) := by
  fun_induction findOutwards table s name n space with
  | case1 => simp at h
  | case2 => simp at h
  | case3 n space parts home found hfind =>
    obtain rfl : found = a := by simpa using h
    exact ⟨space, home, hfind⟩
  | case4 => simp at h
  | case5 n space parts entry hentry hnone hoffers ih => exact ih h
  | case6 n space parts entry hentry hnone target home found hoffers =>
    obtain rfl : found = a := by simpa using h
    have hmem : (target, home, found) ∈ offers table s parts entry.imports [] := by simp [hoffers]
    obtain hnone | ⟨k, -, -, hfind⟩ := mem_offers hmem
    · cases hnone
    · exact ⟨target, home, hfind⟩
  | case7 => simp at h

variable {V : Vocabulary} {s : State}

/-- The names of namespaces are accepted, and the types they offer are admitted. -/
structure Offers (V : Vocabulary) (s : State) : Prop where
  children : ∀ space ∈ s.spaces, ∀ p ∈ space.children, V.accepts p.1
  types : ∀ space ∈ s.spaces, ∀ p ∈ space.types, V.accepts p.1 ∧ V.Binds p.2

/-- The name of a builtin type is its own. -/
theorem eq_name_of_ofName {name : String} {kind : Types.Builtin} (h : Types.Builtin.ofName? name = some kind) :
    name = kind.name := by
  unfold Types.Builtin.ofName? at h
  split at h
  · cases h
    assumption
  split at h
  · cases h
    assumption
  split at h
  · cases h
    assumption
  · cases h

/-- What a builtin name stands for. -/
theorem binds_builtin {name : String} {kind : Types.Builtin}
    (h : Types.Builtin.ofName? name = some kind) :
    V.Binds { qualified := name, type := .builtin kind none } ∧ V.accepts name := by
  obtain rfl := eq_name_of_ofName h
  have haccepts : V.accepts kind.name := V.builtin kind
  exact ⟨⟨.name haccepts, trivial, by simp⟩, haccepts⟩

/-- A type that is found is an entry of a table, or builtin. -/
theorem findType_cases {space : Nat} {name : String} {b : Binding}
    (h : findType s space name = .ok (some b)) :
    (∃ entry ∈ s.spaces, ∃ leaf, (leaf, b) ∈ entry.types) ∨
      ∃ kind, b = { qualified := kind.name, type := .builtin kind none } := by
  simp only [findType, Computation.except_bind_ok] at h
  obtain ⟨found, hfound, hb⟩ := h
  cases found with
  | none =>
    rw [Computation.except_pure_ok] at hb
    obtain ⟨kind, hkind, rfl⟩ := Option.map_eq_some_iff.1 hb
    exact .inr ⟨kind, by rw [← eq_name_of_ofName hkind]⟩
  | some found =>
    obtain rfl : found = b := by simpa [Computation.except_pure_ok] using hb
    obtain ⟨home, _, hdirect⟩ := findOutwards_some hfound
    obtain ⟨entry, hentry, leaf, hleaf, -⟩ := findDirect_some hdirect
    exact .inl ⟨entry, hentry, leaf, hleaf⟩

/-- A type that is found is admitted, and its name reads as a qualified one. -/
theorem findType_some (h : Offers V s) {space : Nat} {name : String} {b : Binding}
    (hfind : findType s space name = .ok (some b)) :
    V.Binds b ∧ IsQualified V.accepts name := by
  simp only [findType, Computation.except_bind_ok] at hfind
  obtain ⟨found, hfound, hb⟩ := hfind
  cases found with
  | none =>
    rw [Computation.except_pure_ok] at hb
    obtain ⟨kind, hkind, rfl⟩ := Option.map_eq_some_iff.1 hb
    exact ⟨(binds_builtin hkind).1, .name (binds_builtin hkind).2⟩
  | some found =>
    obtain rfl : found = b := by simpa [Computation.except_pure_ok] using hb
    obtain ⟨home, _, hdirect⟩ := findOutwards_some hfound
    obtain ⟨entry, hentry, leaf, hleaf, hparts⟩ := findDirect_some hdirect
    obtain ⟨hname, hb⟩ := h.types entry hentry _ hleaf
    exact ⟨hb, isQualified_of_parts (hparts _ h.children V.root hname)⟩

/-- A value that is found is an entry of a table. -/
theorem findValue_some {space : Nat} {name : String} {st : Storage}
    (hfind : findValue s space name = .ok (some st)) :
    ∃ entry ∈ s.spaces, ∃ leaf, (leaf, st) ∈ entry.values := by
  obtain ⟨home, _, hdirect⟩ := findOutwards_some hfind
  obtain ⟨entry, hentry, leaf, hleaf, -⟩ := findDirect_some hdirect
  exact ⟨entry, hentry, leaf, hleaf⟩

end Qll.Program
