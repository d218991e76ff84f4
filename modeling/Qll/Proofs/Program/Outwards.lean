import Mathlib.Data.List.Chain
import Qll.Proofs.Program.Spaces

/-!
# Searching from a namespace outwards

A search ends at the innermost namespace that provides the name, by a declaration of its own or else
through its using declarations. What these provide is a set of declarations: one that is found twice
counts once, and neither the order of the using declarations nor a repeated one makes a difference.
-/

namespace Qll.Program

open Check (State Space Storage Import CheckM check_bind_ok check_pure_ok check_get_ok check_set_ok)
open Source (Decl)
open Qll.Types (Binding)

/-- The namespace around a namespace. -/
def outer (s : State) (i : Nat) : Option Nat := (s.spaces[i]?).bind (·.parent)

/-- A namespace lies around another one, or is that one itself. -/
inductive Around (s : State) : Nat → Nat → Prop
  | self {i} : Around s i i
  | out {i p m} (hp : outer s i = some p) (h : Around s p m) : Around s i m

/-- The innermost namespace around another one with a property. -/
inductive Innermost (s : State) (P : Nat → Prop) : Nat → Nat → Prop
  | self {i} (hi : P i) : Innermost s P i i
  | out {i p m} (hi : ¬ P i) (hp : outer s i = some p) (h : Innermost s P p m) : Innermost s P i m

section Outer

variable {s : State} {P : Nat → Prop} {i m m' p : Nat} {n : Space}

/-- The namespace around one was made before it. -/
theorem Nested.outer_lt (hs : Nested s) (hp : outer s i = some p) : p < i := by
  obtain ⟨n, hn, hparent⟩ := Option.bind_eq_some_iff.1 hp
  by_cases hi : i = root
  · obtain ⟨n', hn', hnone, -⟩ := hs.outermost
    obtain rfl : n = n' := by simpa [← hi, hn] using hn'
    simp [hparent] at hnone
  · obtain ⟨p', _, hp', hlt, -⟩ := hs.inner hn hi
    obtain rfl := Option.some.inj (hparent.symm.trans hp')
    exact hlt

/-- Around the outermost namespace lies that one only. -/
theorem around_last (hp : outer s i = none) (h : Around s i m) : m = i := by
  cases h with
  | self => rfl
  | out hp' => simp [hp] at hp'

/-- What lies around a namespace is that one itself or lies around the next one. -/
theorem around_out (hp : outer s i = some p) (h : Around s i m) : m = i ∨ Around s p m := by
  cases h with
  | self => exact .inl rfl
  | out hp' h =>
    obtain rfl := Option.some.inj (hp.symm.trans hp')
    exact .inr h

/-- The outermost namespace lies around all others. -/
theorem Nested.around_root (hs : Nested s) (hn : s.spaces[i]? = some n) : Around s i root := by
  induction i using Nat.strongRecOn generalizing n with
  | _ i ih =>
    by_cases hi : i = root
    · exact hi ▸ .self
    · obtain ⟨p, n', hparent, hlt, hn', -⟩ := hs.inner hn hi
      exact .out (by rw [outer, hn]; exact hparent) (ih p hlt hn')

namespace Innermost

/-- The innermost namespace with a property lies around the one in question. -/
theorem around (h : Innermost s P i m) : Around s i m := by
  induction h with
  | self => exact .self
  | out _ hp _ ih => exact .out hp ih

/-- Where a namespace has the property, it is the innermost one. -/
theorem eq_self (h : Innermost s P i m) (hi : P i) : m = i := by
  cases h with
  | self => rfl
  | out hi' => exact absurd hi hi'

/-- Where it does not have it, the namespace around it is next. -/
theorem next (h : Innermost s P i m) (hi : ¬ P i) : ∃ p, outer s i = some p ∧ Innermost s P p m := by
  cases h with
  | self hi' => exact absurd hi' hi
  | out _ hp h => exact ⟨_, hp, h⟩

/-- There is only one innermost namespace with a property. -/
theorem unique (h : Innermost s P i m) (h' : Innermost s P i m') : m = m' := by
  induction h with
  | self hi => exact (h'.eq_self hi).symm
  | out hi hp _ ih =>
    obtain ⟨p', hp', h'⟩ := h'.next hi
    obtain rfl := Option.some.inj (hp.symm.trans hp')
    exact ih h'

end Innermost

end Outer

section Search

variable {α : Type} {table : Space → List (String × α)} {s s' : State} {i m : Nat} {n : Space}
  {name : String} {parts : List String}

/-! ## What imports offer -/

/-- Whatever imports can offer is offered, at least from one of the namespaces that have it. -/
theorem offers_covers (imports : List Nat) (found : List (Nat × Nat × α)) :
    (∀ r ∈ found, r ∈ offers table s parts imports found) ∧
      ∀ k ∈ imports, ∀ target e, (s.imports[k]?).bind (·.target) = some target →
        findDirect table s target parts = some e →
          ∃ r ∈ offers table s parts imports found, r.2.1 = e.1 := by
  fun_induction offers table s parts imports found with
  | case1 found => simp
  | case2 k rest found hk ih =>
    refine ⟨ih.1, fun j hj target e htarget he => ?_⟩
    obtain rfl | hj := List.mem_cons.1 hj
    · simp [hk] at htarget
    · exact ih.2 j hj target e htarget he
  | case3 k rest found t hk hnone ih =>
    refine ⟨ih.1, fun j hj target e htarget he => ?_⟩
    obtain rfl | hj := List.mem_cons.1 hj
    · obtain rfl : t = target := Option.some.inj (hk.symm.trans htarget)
      simp [hnone] at he
    · exact ih.2 j hj target e htarget he
  | case4 k rest found t hk home a hfind hsame ih =>
    refine ⟨ih.1, fun j hj target e htarget he => ?_⟩
    obtain rfl | hj := List.mem_cons.1 hj
    · obtain rfl : t = target := Option.some.inj (hk.symm.trans htarget)
      obtain rfl : (home, a) = e := Option.some.inj (hfind.symm.trans he)
      obtain ⟨r, hr, hhome⟩ := (Option.any_eq_true _ _).1 hsame
      exact ⟨r, ih.1 r (List.mem_of_mem_head? hr), by simpa using hhome⟩
    · exact ih.2 j hj target e htarget he
  | case5 k rest found t hk home a hfind hother ih =>
    refine ⟨fun r hr => ih.1 r (.tail _ hr), fun j hj target e htarget he => ?_⟩
    obtain rfl | hj := List.mem_cons.1 hj
    · obtain rfl : t = target := Option.some.inj (hk.symm.trans htarget)
      obtain rfl : (home, a) = e := Option.some.inj (hfind.symm.trans he)
      exact ⟨_, ih.1 _ (.head _), rfl⟩
    · exact ih.2 j hj target e htarget he

/-- Of two offers in a row, each comes from another namespace. -/
theorem offers_differ (table : Space → List (String × α)) (s : State) (parts : List String)
    (imports : List Nat) {found : List (Nat × Nat × α)} (h : found.IsChain fun r r' => r.2.1 ≠ r'.2.1) :
    (offers table s parts imports found).IsChain fun r r' => r.2.1 ≠ r'.2.1 := by
  fun_induction offers table s parts imports found with
  | case1 found => exact List.isChain_reverse.2 (h.imp fun _ _ hne => hne.symm)
  | case2 k rest found hk ih => exact ih h
  | case3 k rest found target hk hnone ih => exact ih h
  | case4 k rest found target hk home a hfind hsame ih => exact ih h
  | case5 k rest found target hk home a hfind hother ih =>
    refine ih (List.isChain_cons.2 ⟨fun r hr => ?_, h⟩)
    rintro rfl
    exact hother ((Option.any_eq_true _ _).2 ⟨r, hr, by simp⟩)

/-! ## What a namespace provides -/

/-- A using declaration of a namespace stands for another namespace. -/
def Uses (s : State) (i target : Nat) : Prop :=
  ∃ n, s.spaces[i]? = some n ∧ ∃ k ∈ n.imports, (s.imports[k]?).bind (·.target) = some target

/-- A namespace provides under a name what it has itself; if it has nothing, what there is in a namespace
that it uses. A declaration is given with the namespace that holds it, so that equal ones in different
namespaces are not confused. -/
def Provides (table : Space → List (String × α)) (s : State) (parts : List String) (i : Nat) (e : Nat × α) :
    Prop :=
  findDirect table s i parts = some e ∨
    findDirect table s i parts = none ∧ ∃ target, Uses s i target ∧ findDirect table s target parts = some e

/-- The last part of a name is not affected by what may be left out in front. -/
theorem getLastD_relativeParts (n : Space) (parts : List String) :
    (relativeParts n parts).getLastD "" = parts.getLastD "" := by
  unfold relativeParts
  split
  · split <;> simp
  · rfl

/-- Which declaration is found depends on nothing but the namespace that holds it. -/
theorem findDirect_entry {home : Nat} {a : α} (h : findDirect table s i parts = some (home, a)) :
    ∃ n, s.spaces[home]? = some n ∧ (table n).lookup (parts.getLastD "") = some a := by
  simp only [findDirect, direct, Option.bind_eq_bind, Option.bind_eq_some_iff, Option.pure_def,
    Option.some.injEq, Prod.mk.injEq] at h
  obtain ⟨⟨_, leaf⟩, ⟨entry, -, home', -, rfl, rfl⟩, n, hn, a', hlookup, rfl, rfl⟩ := h
  exact ⟨n, hn, by rwa [← getLastD_relativeParts entry]⟩

/-- What is provided stands in a table under the last part of the name. -/
theorem Provides.entry {e : Nat × α} (h : Provides table s parts i e) :
    ∃ n, s.spaces[e.1]? = some n ∧ (table n).lookup (parts.getLastD "") = some e.2 := by
  obtain h | ⟨-, target, -, h⟩ := h
  · exact findDirect_entry h
  · exact findDirect_entry h

/-- One namespace holds one declaration of a name. -/
theorem Provides.eq_of_home {e e' : Nat × α} {j : Nat} (h : Provides table s parts i e)
    (h' : Provides table s parts j e') (hhome : e.1 = e'.1) : e = e' := by
  obtain ⟨n, hn, he⟩ := h.entry
  obtain ⟨n', hn', he'⟩ := h'.entry
  rw [hhome, hn', Option.some.injEq] at hn
  subst hn
  exact Prod.ext hhome (Option.some.inj (he.symm.trans he'))

/-- What a namespace has itself is all that it provides. -/
theorem provides_of_direct {e : Nat × α} (h : findDirect table s i parts = some e) (e' : Nat × α) :
    Provides table s parts i e' ↔ e' = e := by
  simp [Provides, h, eq_comm]

/-- A namespace that has nothing itself provides what its imports offer. -/
theorem provides_iff_offered (hn : s.spaces[i]? = some n) (hdirect : findDirect table s i parts = none)
    (e : Nat × α) : Provides table s parts i e ↔ ∃ r ∈ offers table s parts n.imports [], r.2 = e := by
  constructor
  · rintro (h | ⟨-, target, ⟨n', hn', k, hk, htarget⟩, he⟩)
    · simp [hdirect] at h
    · obtain rfl := Option.some.inj (hn.symm.trans hn')
      obtain ⟨r, hr, hhome⟩ := (offers_covers n.imports []).2 k hk target e htarget he
      obtain hnone | ⟨k', hk', htarget', hr'⟩ := mem_offers hr
      · cases hnone
      have hprovides : Provides table s parts i r.2 := .inr ⟨hdirect, r.1, ⟨n, hn, k', hk', htarget'⟩, hr'⟩
      exact ⟨r, hr, hprovides.eq_of_home (.inr ⟨hdirect, target, ⟨n, hn, k, hk, htarget⟩, he⟩) hhome⟩
  · rintro ⟨r, hr, rfl⟩
    obtain hnone | ⟨k, hk, htarget, hr⟩ := mem_offers hr
    · cases hnone
    · exact .inr ⟨hdirect, r.1, ⟨n, hn, k, hk, htarget⟩, hr⟩

/-! ## How a search ends -/

/-- The namespace around another one at which a search for a name ends. -/
abbrev EndsAt (table : Space → List (String × α)) (s : State) (parts : List String) : Nat → Nat → Prop :=
  Innermost s fun m => ∃ e, Provides table s parts m e

/-- How a search ends: with the only declaration that is provided where it ends, or with a complaint
because there are several, or nowhere. -/
inductive Ends (table : Space → List (String × α)) (s : State) (parts : List String) (i : Nat) :
    Except String (Option α) → Prop
  | found {m home a} (hm : EndsAt table s parts i m)
      (honly : ∀ e, Provides table s parts m e ↔ e = (home, a)) : Ends table s parts i (.ok (some a))
  | ambiguous {m e e' text} (hm : EndsAt table s parts i m) (he : Provides table s parts m e)
      (he' : Provides table s parts m e') (hne : e ≠ e') : Ends table s parts i (.error text)
  | nowhere (h : ∀ m, Around s i m → ∀ e, ¬ Provides table s parts m e) : Ends table s parts i (.ok none)

/-- Where nothing is provided the search goes on. -/
theorem Ends.out {p : Nat} {r : Except String (Option α)} (hi : ∀ e, ¬ Provides table s parts i e)
    (hp : outer s i = some p) (h : Ends table s parts p r) : Ends table s parts i r := by
  have hi' : ¬ ∃ e, Provides table s parts i e := not_exists.2 hi
  cases h with
  | found hm honly => exact .found (.out hi' hp hm) honly
  | ambiguous hm he he' hne => exact .ambiguous (.out hi' hp hm) he he' hne
  | nowhere h =>
    refine .nowhere fun m hm => ?_
    obtain rfl | hm := around_out hp hm
    · exact hi
    · exact h m hm

/-- Where nothing is provided and no namespace lies around, the search ends without a declaration. -/
theorem Ends.last (hi : ∀ e, ¬ Provides table s parts i e) (hp : outer s i = none) :
    Ends table s parts i (.ok none) :=
  .nowhere fun m hm => by
    obtain rfl := around_last hp hm
    exact hi

/-- A search ends as it should, since the namespaces around one are as many as there are steps. -/
theorem ends_findOutwards (hs : Nested s) {fuel : Nat} (hfuel : ∀ n, s.spaces[i]? = some n → i ≤ fuel) :
    Ends table s (splitQualified name) i (findOutwards table s name (fuel + 1) (some i)) := by
  induction fuel using Nat.strongRecOn generalizing i with
  | _ fuel ih =>
    rw [findOutwards]
    cases hdirect : findDirect table s i (splitQualified name) with
    | some e => exact .found (.self ⟨e, .inl hdirect⟩) (provides_of_direct hdirect)
    | none =>
      cases hn : s.spaces[i]? with
      | none =>
        refine .last (fun e he => ?_) (by simp [outer, hn])
        obtain he | ⟨-, target, ⟨n, hn', -⟩, -⟩ := he
        · simp [hdirect] at he
        · simp [hn] at hn'
      | some n =>
        have hoffers := provides_iff_offered hn hdirect
        have hdiffer := offers_differ table s (splitQualified name) n.imports .nil
        dsimp only
        cases hall : offers table s (splitQualified name) n.imports [] with
        | nil =>
          have hnothing (e : Nat × α) : ¬ Provides table s (splitQualified name) i e := by
            simp [hoffers, hall]
          cases hp : n.parent with
          | none =>
            have hend : findOutwards table s name fuel none = .ok none := by cases fuel <;> rfl
            exact hend ▸ .last hnothing (by simp [outer, hn, hp])
          | some p =>
            have houter : outer s i = some p := by simp [outer, hn, hp]
            have hlt := hs.outer_lt houter
            have hle := hfuel n hn
            obtain ⟨fuel, rfl⟩ : ∃ k, fuel = k + 1 := ⟨fuel - 1, by omega⟩
            exact .out hnothing houter (ih fuel (by omega) fun _ _ => by omega)
        | cons r rest =>
          have hr : Provides table s (splitQualified name) i r.2 := (hoffers _).2 ⟨r, by simp [hall], rfl⟩
          cases rest with
          | nil =>
            have honly (e : Nat × α) : Provides table s (splitQualified name) i e ↔ e = (r.2.1, r.2.2) := by
              simp [hoffers, hall, eq_comm]
            exact .found (.self ⟨_, hr⟩) honly
          | cons r' rest =>
            have hr' : Provides table s (splitQualified name) i r'.2 :=
              (hoffers _).2 ⟨r', by simp [hall], rfl⟩
            rw [hall, List.isChain_cons_cons] at hdiffer
            exact .ambiguous (.self ⟨_, hr⟩) hr hr' fun heq => hdiffer.1 (by rw [heq])

/-- A search ends in one way only. -/
theorem Ends.iff {r : Except String (Option α)} (h : Ends table s parts i r) :
    (∀ a, r = .ok (some a) ↔
      ∃ m home, EndsAt table s parts i m ∧ ∀ e, Provides table s parts m e ↔ e = (home, a)) ∧
    ((∃ text, r = .error text) ↔
      ∃ m e e', EndsAt table s parts i m ∧ Provides table s parts m e ∧ Provides table s parts m e' ∧ e ≠ e') ∧
    (r = .ok none ↔ ∀ m, Around s i m → ∀ e, ¬ Provides table s parts m e) := by
  cases h with
  | @found m home a hm honly =>
    have hhere : Provides table s parts m (home, a) := (honly _).2 rfl
    refine ⟨fun b => ⟨?_, ?_⟩, ⟨nofun, ?_⟩, ⟨nofun, fun h => absurd hhere (h m hm.around _)⟩⟩
    · rintro ⟨⟩
      exact ⟨m, home, hm, honly⟩
    · rintro ⟨m', home', hm', honly'⟩
      obtain rfl := hm.unique hm'
      have heq := (honly' _).1 hhere
      rw [(Prod.mk.inj heq).2]
    · rintro ⟨m', e, e', hm', he, he', hne⟩
      obtain rfl := hm.unique hm'
      exact absurd (((honly e).1 he).trans ((honly e').1 he').symm) hne
  | @ambiguous m e e' text hm he he' hne =>
    refine ⟨fun b => ⟨nofun, ?_⟩, ⟨fun _ => ⟨m, e, e', hm, he, he', hne⟩, fun _ => ⟨text, rfl⟩⟩,
      ⟨nofun, fun h => absurd he (h m hm.around e)⟩⟩
    rintro ⟨m', home, hm', honly⟩
    obtain rfl := hm.unique hm'
    exact absurd (((honly e).1 he).trans ((honly e').1 he').symm) hne
  | nowhere h =>
    refine ⟨fun b => ⟨nofun, ?_⟩, ⟨nofun, ?_⟩, ⟨fun _ => h, fun _ => rfl⟩⟩
    · rintro ⟨m, home, hm, honly⟩
      exact absurd ((honly _).2 rfl) (h m hm.around _)
    · rintro ⟨m, e, -, hm, he, -⟩
      exact absurd he (h m hm.around e)

/-- Two ends of one search differ in the text of a complaint at most. -/
theorem Ends.toOption_eq {r r' : Except String (Option α)} (h : Ends table s parts i r)
    (h' : Ends table s parts i r') : r.toOption = r'.toOption := by
  obtain ⟨hfound, herror, hnone⟩ := h'.iff
  cases r with
  | error text =>
    obtain ⟨text', rfl⟩ := herror.2 (h.iff.2.1.1 ⟨text, rfl⟩)
    rfl
  | ok found =>
    cases found with
    | none => rw [hnone.2 (h.iff.2.2.1 rfl)]
    | some a => rw [(hfound a).2 ((h.iff.1 a).1 rfl)]

/-! ## Namespaces of a path -/

/-- A namespace that is used is looked for outwards, too. -/
theorem findSpaceOutwards_iff (hs : Nested s) {fuel target : Nat}
    (hfuel : ∀ n, s.spaces[i]? = some n → i ≤ fuel) :
    findSpaceOutwards s parts (fuel + 1) (some i) = some target ↔
      ∃ m leaf, Innermost s (fun m => (direct s m (parts ++ [""])).isSome) i m ∧
        direct s m (parts ++ [""]) = some (target, leaf) := by
  induction fuel using Nat.strongRecOn generalizing i with
  | _ fuel ih =>
    rw [findSpaceOutwards]
    cases hdirect : direct s i (parts ++ [""]) with
    | some e =>
      refine ⟨fun h => ⟨i, e.2, .self (by simp [hdirect]), ?_⟩, ?_⟩
      · obtain rfl := Option.some.inj h
        exact hdirect
      · rintro ⟨m, leaf, hm, hfound⟩
        obtain rfl := hm.eq_self (by simp [hdirect])
        simp [hfound] at hdirect
        simp [← hdirect]
    | none =>
      have hnot : ¬ (direct s i (parts ++ [""])).isSome := by simp [hdirect]
      cases hn : s.spaces[i]? with
      | none =>
        refine ⟨fun h => by simp at h, ?_⟩
        rintro ⟨m, leaf, hm, -⟩
        obtain ⟨p, hp, -⟩ := hm.next hnot
        simp [outer, hn] at hp
      | some n =>
        dsimp only
        cases hp : n.parent with
        | none =>
          have hend : findSpaceOutwards s parts fuel none = none := by cases fuel <;> rfl
          refine ⟨fun h => by simp [hend] at h, ?_⟩
          rintro ⟨m, leaf, hm, -⟩
          obtain ⟨p, hp', -⟩ := hm.next hnot
          simp [outer, hn, hp] at hp'
        | some p =>
          have houter : outer s i = some p := by simp [outer, hn, hp]
          have hlt := hs.outer_lt houter
          have hle := hfuel n hn
          obtain ⟨fuel, rfl⟩ : ∃ k, fuel = k + 1 := ⟨fuel - 1, by omega⟩
          rw [ih fuel (by omega) fun _ _ => by omega]
          constructor
          · rintro ⟨m, leaf, hm, hfound⟩
            exact ⟨m, leaf, .out hnot houter hm, hfound⟩
          · rintro ⟨m, leaf, hm, hfound⟩
            obtain ⟨p', hp', hm⟩ := hm.next hnot
            obtain rfl := Option.some.inj (houter.symm.trans hp')
            exact ⟨m, leaf, hm, hfound⟩

end Search

/-! ## The tree without its using declarations -/

/-- A namespace without its using declarations. -/
def bare (n : Space) : Space := { n with imports := [] }

/-- The same namespaces with the same declarations; using declarations may differ. -/
def SameTree (s s' : State) : Prop := s'.spaces.map bare = s.spaces.map bare

/-- States with equal lists of namespaces have the same namespaces. -/
theorem SameTree.of_eq {s s' : State} (h : s'.spaces = s.spaces) : SameTree s s' := by rw [SameTree, h]

/-- The same tree the other way around. -/
theorem SameTree.symm {s s' : State} (h : SameTree s s') : SameTree s' s := Eq.symm h

namespace SameTree

variable {α : Type} {table : Space → List (String × α)} {s s' : State} {i m : Nat} {n n' : Space}
  {name : String} {parts : List String}

/-- A namespace is there again. -/
theorem space (h : SameTree s s') (hn : s.spaces[i]? = some n) :
    ∃ n', s'.spaces[i]? = some n' ∧ bare n' = bare n := by
  have hi : (s'.spaces.map bare)[i]? = some (bare n) := by rw [h, Array.getElem?_map, hn]; rfl
  rw [Array.getElem?_map] at hi
  exact Option.map_eq_some_iff.1 hi

/-- What is looked at in a namespace is no using declaration. -/
theorem look {β : Type} (h : SameTree s s') (f : Space → Option β) (hf : ∀ n, f (bare n) = f n) :
    (s'.spaces[i]?).bind f = (s.spaces[i]?).bind f := by
  have hi := congrArg (fun spaces => (spaces[i]?).bind f) h
  simpa [Array.getElem?_map, Option.bind_map, Function.comp_def, hf] using hi

/-- Paths lead to the same namespaces. -/
theorem walk_eq (h : SameTree s s') : walk s' i parts = walk s i parts := by
  induction parts generalizing i with
  | nil => rfl
  | cons name rest ih =>
    rw [walk, walk, h.look (fun n => n.children.lookup name) fun _ => rfl]
    split
    · rfl
    · exact ih

/-- A walk without imports leads to the same place in the same tree. -/
theorem direct_eq (h : SameTree s s') : direct s' i parts = direct s i parts := by
  have hparts (n : Space) : relativeParts (bare n) parts = relativeParts n parts := rfl
  simp only [direct, Option.bind_eq_bind, h.walk_eq]
  exact h.look _ fun n => by rw [hparts]

/-- What is found directly is the same in the same tree. -/
theorem findDirect_eq (h : SameTree s s') (htable : ∀ n, table (bare n) = table n) :
    findDirect table s' i parts = findDirect table s i parts := by
  simp only [findDirect, Option.bind_eq_bind, h.direct_eq]
  congr 1
  funext r
  exact h.look _ fun n => by rw [htable]

/-- The namespaces around one are the same in the same tree. -/
theorem outer_eq (h : SameTree s s') : outer s' i = outer s i := h.look _ fun _ => rfl

/-- The namespaces form the same tree. -/
theorem nested (h : SameTree s s') (hs : Nested s) : Nested s' := by
  have hback {i : Nat} {n' : Space} (hn' : s'.spaces[i]? = some n') :
      ∃ n, s.spaces[i]? = some n ∧ n'.name = n.name ∧ n'.qualified = n.qualified ∧ n'.parent = n.parent ∧
        n'.children = n.children := by
    obtain ⟨n, hn, hbare⟩ := h.symm.space hn'
    cases n
    cases n'
    cases hbare
    exact ⟨_, hn, rfl, rfl, rfl, rfl⟩
  have hagain {i : Nat} {n : Space} (hn : s.spaces[i]? = some n) :
      ∃ n', s'.spaces[i]? = some n' ∧ n'.name = n.name ∧ n'.qualified = n.qualified ∧ n'.parent = n.parent ∧
        n'.children = n.children := by
    obtain ⟨n', hn', -⟩ := h.space hn
    obtain ⟨m, hm, hsame⟩ := hback hn'
    obtain rfl := Option.some.inj (hn.symm.trans hm)
    exact ⟨n', hn', hsame⟩
  constructor
  · obtain ⟨n, hn, hparent, hqualified⟩ := hs.outermost
    obtain ⟨n', hn', -, hqualified', hparent', -⟩ := hagain hn
    exact ⟨n', hn', hparent'.trans hparent, hqualified'.trans hqualified⟩
  · intro i n' hn' hi
    obtain ⟨n, hn, hname, hqualified, hparent, -⟩ := hback hn'
    obtain ⟨p, o, hp, hlt, ho, hchild, hq⟩ := hs.inner hn hi
    obtain ⟨o', ho', -, hqualified', -, hchildren⟩ := hagain ho
    exact ⟨p, o', hparent.trans hp, hlt, ho', by rw [hchildren, hname, hchild], by rw [hqualified, hq, hqualified', hname]⟩
  · intro i n' name c hn' hc
    obtain ⟨n, hn, -, -, -, hchildren⟩ := hback hn'
    obtain ⟨inner, hinner, hparent, hname⟩ := hs.child hn (hchildren ▸ hc)
    obtain ⟨inner', hinner', hname', -, hparent', -⟩ := hagain hinner
    exact ⟨inner', hinner', hparent'.trans hparent, hname'.trans hname⟩

/-- The innermost namespace with a property is the same in the same tree. -/
theorem innermost (h : SameTree s s') {P Q : Nat → Prop} (hP : ∀ m, P m ↔ Q m) :
    Innermost s P i m ↔ Innermost s' Q i m := by
  constructor <;> intro hm
  · induction hm with
    | self hi => exact .self ((hP _).1 hi)
    | out hi hp _ ih => exact .out (fun hQ => hi ((hP _).2 hQ)) (h.outer_eq.trans hp) ih
  · induction hm with
    | self hi => exact .self ((hP _).2 hi)
    | out hi hp _ ih => exact .out (fun hQ => hi ((hP _).1 hQ)) (h.outer_eq.symm.trans hp) ih

/-- What lies around a namespace is the same in the same tree. -/
theorem around (h : SameTree s s') : Around s i m ↔ Around s' i m := by
  constructor <;> intro hm
  · induction hm with
    | self => exact .self
    | out hp _ ih => exact .out (h.outer_eq.trans hp) ih
  · induction hm with
    | self => exact .self
    | out hp _ ih => exact .out (h.outer_eq.symm.trans hp) ih

/-- Namespaces are found from the same places. -/
theorem findSpace_eq (h : SameTree s s') (hs : Nested s) : findSpace s' i name = findSpace s i name := by
  have hfuel (s : State) {n : Space} (hn : s.spaces[i]? = some n) : i ≤ s.spaces.size :=
    (Array.getElem?_eq_some_iff.1 hn).1.le
  refine Option.ext fun target => ?_
  simp only [findSpace, findSpaceOutwards_iff hs fun _ => hfuel s,
    findSpaceOutwards_iff (h.nested hs) fun _ => hfuel s', h.direct_eq, ← h.innermost fun _ => Iff.rfl]

end SameTree

/-! ## Resolved using declarations -/

/-- The names that the using declarations of a namespace were written with. -/
def usings (s : State) (n : Space) : List String := n.imports.filterMap fun k => (s.imports[k]?).map (·.name)

/-- Every using declaration is resolved: it stands for the namespace that its name stands for where it is
written, if there is one. -/
def UsingsResolved (s : State) : Prop :=
  ∀ ⦃i : Nat⦄ ⦃n : Space⦄, s.spaces[i]? = some n → ∀ k ∈ n.imports,
    ∃ u, s.imports[k]? = some u ∧ u.target = findSpace s i u.name

/-- The namespaces that are used are those that the using declarations name. -/
theorem uses_iff {s : State} {i : Nat} {n : Space} (hs : UsingsResolved s) (hn : s.spaces[i]? = some n) {target : Nat} :
    Uses s i target ↔ ∃ name ∈ usings s n, findSpace s i name = some target := by
  constructor
  · rintro ⟨n', hn', k, hk, htarget⟩
    obtain rfl := Option.some.inj (hn.symm.trans hn')
    obtain ⟨u, hu, hresolved⟩ := hs hn k hk
    refine ⟨u.name, List.mem_filterMap.2 ⟨k, hk, by rw [hu]; rfl⟩, ?_⟩
    rwa [hu, Option.bind_some, hresolved] at htarget
  · rintro ⟨name, hname, hfind⟩
    obtain ⟨k, hk, hnamed⟩ := List.mem_filterMap.1 hname
    obtain ⟨u, hu, rfl⟩ := Option.map_eq_some_iff.1 hnamed
    obtain ⟨u', hu', hresolved⟩ := hs hn k hk
    obtain rfl := Option.some.inj (hu.symm.trans hu')
    exact ⟨n, hn, k, hk, by rw [hu, Option.bind_some, hresolved, hfind]⟩

/-! ## Using declarations of a program -/

/-- Every using declaration is in the table under the namespace in which it was written, and not resolved
yet. -/
def UsingsEntered (s : State) : Prop :=
  ∀ ⦃i : Nat⦄ ⦃n : Space⦄, s.spaces[i]? = some n → ∀ k ∈ n.imports,
    ∃ u, s.imports[k]? = some u ∧ u.owner = i ∧ u.target = none

section Entering

variable {s s' : State} {space : Nat} {u : Unit}

/-- A namespace with nothing in it has no using declarations. -/
theorem UsingsEntered.makes {name : String} {n : Space} (hs : UsingsEntered s) (h : Makes s space name n s')
    (himports : s'.imports = s.imports) : UsingsEntered s' := by
  intro i m hm k hk
  rw [himports]
  obtain ⟨-, rfl⟩ | ⟨rfl, rfl⟩ | ⟨-, hm⟩ := h.cases hm
  · cases hk
  · exact hs h.outer k hk
  · exact hs hm k hk

/-- A declaration that is no namespace enters at most one using declaration, behind the others. -/
theorem UsingsEntered.goes {d : Decl} (hs : UsingsEntered s) (h : Goes s space d s') : UsingsEntered s' := by
  obtain ⟨n, x, hn, hadds, hspaces, himports⟩ := h
  have hold {i : Nat} {m : Space} (hm : s.spaces[i]? = some m) (k : Nat) (hk : k ∈ m.imports) :
      ∃ u, s'.imports[k]? = some u ∧ u.owner = i ∧ u.target = none := by
    obtain ⟨u, hu, hrest⟩ := hs hm k hk
    refine ⟨u, ?_, hrest⟩
    rw [himports]
    cases d
    case use => rwa [importsAfter, Array.getElem?_push_lt (Array.getElem?_eq_some_iff.1 hu).1,
      ← Array.getElem?_eq_getElem]
    all_goals exact hu
  intro i m hm k hk
  rw [hspaces, Array.getElem?_modify] at hm
  split at hm
  · next hi =>
    subst hi
    rw [hn] at hm
    obtain rfl := Option.some.inj hm
    obtain hk | hk := List.mem_append.1 hk
    · exact hold hn k hk
    · cases hadds with
      | use =>
        obtain rfl := List.mem_singleton.1 hk
        exact ⟨_, by rw [himports, importsAfter, Array.getElem?_push_size], rfl, rfl⟩
      | _ => cases hk
  · exact hold hm k hk

/-- The steps of declaring keep every using declaration under its namespace. -/
theorem inherited_usings : Inherited UsingsEntered where
  same hs h i n hn := by
    rw [h.1] at hn
    rw [h.2]
    exact hs hn
  makes hs h himports := hs.makes h himports
  goes hs h := hs.goes h

/-- One using declaration is resolved, if its name stands for a namespace. -/
theorem resolveImport_eq {index : Nat} (h : resolveImport index directory s = .ok u s') :
    s'.spaces = s.spaces ∧ s'.imports = s.imports.modify index fun i =>
      { i with target := (findSpace s i.owner i.name).or i.target } := by
  unfold resolveImport at h
  rw [check_get_ok] at h
  cases himport : s.imports[index]? with
  | none =>
    rw [himport] at h
    obtain ⟨-, rfl⟩ := check_pure_ok.1 h
    refine ⟨rfl, Array.ext_getElem? fun k => ?_⟩
    rw [Array.getElem?_modify]
    split
    · next hk => rw [← hk, himport]; rfl
    · rfl
  | some i =>
    rw [himport] at h
    cases hfind : findSpace s i.owner i.name with
    | none =>
      simp only [hfind] at h
      obtain rfl := Check.check_modify_ok.1 h
      refine ⟨rfl, Array.ext_getElem? fun k => ?_⟩
      rw [Array.getElem?_modify]
      split
      · next hk => simp [← hk, himport, hfind]
      · rfl
    | some target =>
      simp only [hfind] at h
      obtain rfl := check_set_ok.1 h
      refine ⟨rfl, Array.ext_getElem? fun k => ?_⟩
      rw [Array.getElem?_modify, Array.getElem?_modify]
      split
      · next hk => simp [← hk, himport, hfind]
      · rfl

/-- All using declarations of a list are resolved, and the others stay as they are. -/
theorem resolveImports_eq (hs : Nested s) {indices : List Nat} {u : PUnit}
    (h : indices.forM resolveImport directory s = .ok u s') :
    s'.spaces = s.spaces ∧ ∀ (k : Nat) (v : Import), s.imports[k]? = some v →
      s'.imports[k]? = some { v with
        target := if k ∈ indices then (findSpace s v.owner v.name).or v.target else v.target } := by
  induction indices generalizing s with
  | nil =>
    obtain ⟨-, rfl⟩ := check_pure_ok.1 h
    exact ⟨rfl, fun k v hv => by simpa using hv⟩
  | cons index rest ih =>
    obtain ⟨_, s₁, hfirst, hrest⟩ := check_bind_ok.1 h
    obtain ⟨hspaces, himports⟩ := resolveImport_eq hfirst
    have htree : SameTree s s₁ := .of_eq hspaces
    obtain ⟨hspaces', himports'⟩ := ih (htree.nested hs) hrest
    refine ⟨hspaces'.trans hspaces, fun k v hv => ?_⟩
    simp only [htree.findSpace_eq hs] at himports'
    by_cases hk : index = k
    · subst hk
      have hv₁ : s₁.imports[index]? = some { v with target := (findSpace s v.owner v.name).or v.target } := by
        rw [himports, Array.getElem?_modify, if_pos rfl, hv]
        rfl
      rw [himports' index _ hv₁]
      cases findSpace s v.owner v.name <;> simp
    · have hv₁ : s₁.imports[k]? = some v := by rw [himports, Array.getElem?_modify, if_neg hk, hv]
      rw [himports' k v hv₁]
      simp [Ne.symm hk]

/-- Once the using declarations of a program are resolved, each of them stands for the namespace that is
found where it is written. -/
theorem usingsResolved_declared {decls : List Decl} {limit : Nat} {s₀ : State} {u : Unit} {v : PUnit}
    (hdeclare : declareProgram decls directory (emptyState.withLimit limit) = .ok u s₀)
    (hresolve : (List.range s₀.imports.size).forM resolveImport directory s₀ = .ok v s) :
    Nested s ∧ UsingsResolved s := by
  have hempty : UsingsEntered (emptyState.withLimit limit) := by
    intro i n hn k hk
    obtain ⟨-, rfl⟩ := spaces_emptyState hn
    cases hk
  obtain ⟨⟨hs₀, -⟩, hentered⟩ := inherited_usings.declareAll (nested_emptyState limit) hempty rfl decls hdeclare
  obtain ⟨hspaces, himports⟩ := resolveImports_eq hs₀ hresolve
  have htree : SameTree s₀ s := .of_eq hspaces
  refine ⟨htree.nested hs₀, fun i n hn k hk => ?_⟩
  rw [hspaces] at hn
  obtain ⟨w, hw, rfl, htarget⟩ := hentered hn k hk
  have hlt := (Array.getElem?_eq_some_iff.1 hw).1
  refine ⟨_, himports k w hw, ?_⟩
  simp [hlt, htarget, htree.findSpace_eq hs₀]

end Entering

/-! ## Using declarations in another order -/

/-- The same namespaces with the same declarations and, apart from their order and repetitions, the same
using declarations. -/
structure SameUsings (s s' : State) : Prop where
  tree : SameTree s s'
  names : ∀ {i : Nat} {n n' : Space}, s.spaces[i]? = some n → s'.spaces[i]? = some n' →
    ∀ name, name ∈ usings s' n' ↔ name ∈ usings s n

namespace SameUsings

variable {α : Type} {table : Space → List (String × α)} {s s' : State} {i m : Nat} {n n' : Space}
  {name : String} {parts : List String}

/-- The same using declarations the other way around. -/
theorem symm (h : SameUsings s s') : SameUsings s' s :=
  ⟨h.tree.symm, fun hn hn' name => (h.names hn' hn name).symm⟩

/-- The namespaces that are used are the same, since the using declarations stand for what their names do. -/
theorem uses (h : SameUsings s s') (hs : Nested s) (hresolved : UsingsResolved s)
    (hresolved' : UsingsResolved s') {target : Nat} (huses : Uses s i target) : Uses s' i target := by
  obtain ⟨n, hn, -⟩ := id huses
  obtain ⟨n', hn', -⟩ := h.tree.space hn
  obtain ⟨name, hname, hfind⟩ := (uses_iff hresolved hn).1 huses
  exact (uses_iff hresolved' hn').2 ⟨name, (h.names hn hn' name).2 hname, (h.tree.findSpace_eq hs).trans hfind⟩

/-- The same declarations are provided. -/
theorem provides (h : SameUsings s s') (hs : Nested s) (hresolved : UsingsResolved s)
    (hresolved' : UsingsResolved s') (htable : ∀ n, table (bare n) = table n) (e : Nat × α) :
    Provides table s parts i e ↔ Provides table s' parts i e := by
  have huses (target : Nat) : Uses s i target ↔ Uses s' i target :=
    ⟨h.uses hs hresolved hresolved', h.symm.uses (h.tree.nested hs) hresolved' hresolved⟩
  simp only [Provides, h.tree.findDirect_eq htable, huses]

/-- A search ends in the same way. -/
theorem ends (h : SameUsings s s') (hs : Nested s) (hresolved : UsingsResolved s)
    (hresolved' : UsingsResolved s') (htable : ∀ n, table (bare n) = table n) {r : Except String (Option α)}
    (hends : Ends table s parts i r) : Ends table s' parts i r := by
  have hprovides {m : Nat} (e : Nat × α) : Provides table s parts m e ↔ Provides table s' parts m e :=
    h.provides hs hresolved hresolved' htable e
  have hendsAt {m : Nat} : EndsAt table s parts i m ↔ EndsAt table s' parts i m :=
    h.tree.innermost fun _ => exists_congr hprovides
  cases hends with
  | found hm honly => exact .found (hendsAt.1 hm) fun e => (hprovides e).symm.trans (honly e)
  | ambiguous hm he he' hne =>
    exact .ambiguous (hendsAt.1 hm) ((hprovides _).1 he) ((hprovides _).1 he') hne
  | nowhere hnot => exact .nowhere fun m hm e he => hnot m (h.tree.around.2 hm) e ((hprovides e).2 he)

end SameUsings

/-- A search ends at the innermost namespace that provides the name, and gives the one declaration that is
provided there; it complains exactly if there are two. Using declarations may be permuted or repeated:
that makes no difference to where it ends, or what is found. -/
theorem innermost_provider_found {α : Type} {table : Space → List (String × α)} {s : State} (hs : Nested s)
    (i : Nat) (name : String) :
    let provides (s : State) := Provides table s (splitQualified name)
    let endsAt (s : State) := EndsAt table s (splitQualified name)
    let found (s : State) := findOutwards table s name (s.spaces.size + 1) (some i)
    (∀ a, found s = .ok (some a) ↔ ∃ m home, endsAt s i m ∧ ∀ e, provides s m e ↔ e = (home, a)) ∧
    ((∃ text, found s = .error text) ↔
      ∃ m e e', endsAt s i m ∧ provides s m e ∧ provides s m e' ∧ e ≠ e') ∧
    (found s = .ok none ↔ ∀ m, Around s i m → ∀ e, ¬ provides s m e) ∧
    ∀ s', SameUsings s s' → UsingsResolved s → UsingsResolved s' → (∀ n, table (bare n) = table n) →
      (∀ m, endsAt s' i m ↔ endsAt s i m) ∧ (found s').toOption = (found s).toOption := by
  intro provides endsAt found
  have hends {s : State} (hs : Nested s) : Ends table s (splitQualified name) i (found s) :=
    ends_findOutwards hs fun n hn => (Array.getElem?_eq_some_iff.1 hn).1.le
  obtain ⟨hfound, herror, hnone⟩ := (hends hs).iff
  refine ⟨hfound, herror, hnone, fun s' hsame hresolved hresolved' htable => ⟨fun m => ?_, ?_⟩⟩
  · exact (hsame.tree.innermost fun m => exists_congr (hsame.provides hs hresolved hresolved' htable)).symm
  · exact (hends (hsame.tree.nested hs)).toOption_eq (hsame.ends hs hresolved hresolved' htable (hends hs))

/-- A declared type of bytes. -/
def byteBinding (qualified : String) : Binding := { qualified, type := .builtin .byte none }

/-- Two namespaces with a type of one name, inside the outermost one, which uses them in some order. -/
def usingSpaces (order : List Nat) : Array Space := #[
  { name := rootName, qualified := rootName, parent := none, children := [("b", 2), ("a", 1)], imports := order },
  { name := "a", qualified := "global::a", parent := some root,
    types := [("T", byteBinding "global::a::T"), ("U", byteBinding "global::a::U")] },
  { name := "b", qualified := "global::b", parent := some root, types := [("T", byteBinding "global::b::T")] }]

/-- The two using declarations, resolved, and the order in which they are written. -/
def usingState (order : List Nat) : State where
  spaces := usingSpaces order
  imports := #[{ owner := root, name := "a", location := none, target := some 1 },
    { owner := root, name := "b", location := none, target := some 2 }]

/-- There are three namespaces in the example. -/
theorem usingSpaces_cases {order : List Nat} {i : Nat} {n : Space} (h : (usingSpaces order)[i]? = some n) :
    (i = 0 ∧ (usingSpaces order)[0]? = some n) ∨ (i = 1 ∧ (usingSpaces order)[1]? = some n) ∨
      (i = 2 ∧ (usingSpaces order)[2]? = some n) := by
  have hlt : i < 3 := (Array.getElem?_eq_some_iff.1 h).1
  obtain rfl | rfl | rfl : i = 0 ∨ i = 1 ∨ i = 2 := by omega
  all_goals simp [h]

/-- The namespaces of the example form a tree. -/
theorem nested_usingState (order : List Nat) : Nested (usingState order) where
  outermost := ⟨_, rfl, rfl, rfl⟩
  inner hn hi := by
    obtain ⟨rfl, hn⟩ | ⟨rfl, hn⟩ | ⟨rfl, hn⟩ := usingSpaces_cases hn
    · exact absurd rfl hi
    all_goals
      obtain rfl := Option.some.inj hn
      exact ⟨0, _, rfl, by omega, rfl, rfl, rfl⟩
  child {i n name c} hn hc := by
    obtain ⟨rfl, hn⟩ | ⟨rfl, hn⟩ | ⟨rfl, hn⟩ := usingSpaces_cases hn
    all_goals obtain rfl := Option.some.inj hn
    · obtain ⟨before, after, hlist, -⟩ := List.lookup_eq_some_iff.1 hc
      have hlist : [("b", 2), ("a", 1)] = before ++ (name, c) :: after := hlist
      have hmem : (name, c) ∈ [("b", 2), ("a", 1)] := by rw [hlist]; simp
      simp only [List.mem_cons, Prod.mk.injEq, List.not_mem_nil, or_false] at hmem
      obtain ⟨rfl, rfl⟩ | ⟨rfl, rfl⟩ := hmem
      · exact ⟨_, rfl, rfl, rfl⟩
      · exact ⟨_, rfl, rfl, rfl⟩
    · cases hc
    · cases hc

/-- The using declarations of the example are resolved. -/
theorem usingsResolved_usingState {order : List Nat} (h : ∀ k ∈ order, k = 0 ∨ k = 1) :
    UsingsResolved (usingState order) := by
  intro i n hn k hk
  obtain ⟨rfl, hn⟩ | ⟨rfl, hn⟩ | ⟨rfl, hn⟩ := usingSpaces_cases hn
  all_goals obtain rfl := Option.some.inj hn
  · obtain rfl | rfl := h k hk
    · have hfind : findSpace (usingState order) 0 "a" = some 1 := by rfl
      exact ⟨_, rfl, hfind.symm⟩
    · have hfind : findSpace (usingState order) 0 "b" = some 2 := by rfl
      exact ⟨_, rfl, hfind.symm⟩
  · cases hk
  · cases hk

/-- Another order and a repetition of the two using declarations make no difference to the tree. -/
theorem sameUsings_usingState : SameUsings (usingState [0, 1]) (usingState [1, 0, 1]) where
  tree := by simp [SameTree, usingState, usingSpaces, bare]
  names {i n n'} hn hn' name := by
    obtain ⟨rfl, hn⟩ | ⟨rfl, hn⟩ | ⟨rfl, hn⟩ := usingSpaces_cases hn
    all_goals
      obtain rfl := Option.some.inj hn
      obtain rfl := Option.some.inj hn'
    · have hnames : usings (usingState [0, 1]) (usingSpaces [0, 1])[0] = ["a", "b"] := rfl
      have hnames' : usings (usingState [1, 0, 1]) (usingSpaces [1, 0, 1])[0] = ["b", "a", "b"] := rfl
      change name ∈ usings (usingState [1, 0, 1]) (usingSpaces [1, 0, 1])[0] ↔
        name ∈ usings (usingState [0, 1]) (usingSpaces [0, 1])[0]
      rw [hnames, hnames']
      simp only [List.mem_cons, List.not_mem_nil, or_false]
      tauto
    · rfl
    · rfl

/-- In the example one name is found, another one is ambiguous, and using declarations may be shuffled. -/
theorem innermost_provider_found_shuffled :
    (∃ m home, EndsAt (·.types) (usingState [0, 1]) ["U"] root m ∧
      ∀ e, Provides (·.types) (usingState [0, 1]) ["U"] m e ↔ e = (home, byteBinding "global::a::U")) ∧
    (∃ m e e', EndsAt (·.types) (usingState [0, 1]) ["T"] root m ∧
      Provides (·.types) (usingState [0, 1]) ["T"] m e ∧ Provides (·.types) (usingState [0, 1]) ["T"] m e' ∧ e ≠ e') ∧
    ∀ name, (findOutwards (·.types) (usingState [1, 0, 1]) name 4 (some root)).toOption =
      (findOutwards (·.types) (usingState [0, 1]) name 4 (some root)).toOption := by
  have hresults (name : String) := @innermost_provider_found _ (·.types) _ (nested_usingState [0, 1]) root name
  refine ⟨((hresults "U").1 _).1 rfl, (hresults "T").2.1.1 ⟨_, rfl⟩, fun name => ?_⟩
  exact ((hresults name).2.2.2 _ sameUsings_usingState (usingsResolved_usingState (by simp))
    (usingsResolved_usingState (by simp)) fun _ => rfl).2

end Qll.Program
