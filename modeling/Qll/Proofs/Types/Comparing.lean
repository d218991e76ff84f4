import Mathlib.Data.Set.Card
import Mathlib.Data.Set.Finite.Lattice
import Mathlib.Data.Set.Finite.List
import Qll.Proofs.Types.Opening

/-!
# Comparisons that come to an end

A pair of names is written down when it is opened for the first time, and is taken for granted after that.
There are finitely many such pairs, so a comparison comes to an end unless one of the pairs it comes to
leads back to itself through pairs that are not written down.
-/

namespace Qll.Types

open Qll.Computation
open Source (Location)

/-! ## Answers -/

/-- Whether a pair of texts is taken for granted. -/
def Granted (L : List (String × String)) (pair : String × String) : Prop := pair.1 = pair.2 ∨ pair ∈ L

/-- What a comparison answers on pairs that are compared from the left, and the pairs of texts that are
written down in the end. -/
inductive Answers (T : Store) (mode : Agreement) :
    List (String × String) → List (Option (Ty × Ty)) → Bool → List (String × String) → Prop
  | nil {L} : Answers T mode L [] true L
  | differ {L ps} : Answers T mode L (none :: ps) false L
  | opened {L a b parts L₁ ps r L'} (h : Opens T mode a b ⟨none, parts⟩)
      (hparts : Answers T mode L parts true L₁) (hrest : Answers T mode L₁ ps r L') :
      Answers T mode L (some (a, b) :: ps) r L'
  | openedFalse {L a b parts L₁ ps} (h : Opens T mode a b ⟨none, parts⟩)
      (hparts : Answers T mode L parts false L₁) : Answers T mode L (some (a, b) :: ps) false L₁
  | granted {L a b pair parts ps r L'} (h : Opens T mode a b ⟨some pair, parts⟩) (hpair : Granted L pair)
      (hrest : Answers T mode L ps r L') : Answers T mode L (some (a, b) :: ps) r L'
  | noted {L a b pair parts L₁ ps r L'} (h : Opens T mode a b ⟨some pair, parts⟩) (hpair : ¬ Granted L pair)
      (hparts : Answers T mode (pair :: L) parts true L₁) (hrest : Answers T mode L₁ ps r L') :
      Answers T mode L (some (a, b) :: ps) r L'
  | notedFalse {L a b pair parts L₁ ps} (h : Opens T mode a b ⟨some pair, parts⟩)
      (hpair : ¬ Granted L pair) (hparts : Answers T mode (pair :: L) parts false L₁) :
      Answers T mode L (some (a, b) :: ps) false L₁

section Answers

variable {M : Prop} {T : Store} {mode : Agreement} {L L' : List (String × String)} {r : Bool}
  {ps : List (Option (Ty × Ty))}

/-- What follows a pair that agrees. -/
theorem agreeEach_true {agree : Ty → Ty → UnifyM Bool} {a b : Ty} {S : Store}
    (h : agree a b L S = .ok (true, L') S) (ps : List (Option (Ty × Ty))) :
    agreeEach agree (some (a, b) :: ps) L S = agreeEach agree ps L' S := by
  change EStateM.bind (agree a b L) (fun p => (if p.1 then agreeEach agree ps else pure false) p.2) S = _
  rw [EStateM.bind, h]
  rfl

/-- A pair that does not agree ends the comparison. -/
theorem agreeEach_false {agree : Ty → Ty → UnifyM Bool} {a b : Ty} {S : Store}
    (h : agree a b L S = .ok (false, L') S) (ps : List (Option (Ty × Ty))) :
    agreeEach agree (some (a, b) :: ps) L S = .ok (false, L') S := by
  change EStateM.bind (agree a b L) (fun p => (if p.1 then agreeEach agree ps else pure false) p.2) S = _
  rw [EStateM.bind, h]
  rfl

/-- A pair that is taken for granted agrees. -/
theorem Opening.run_granted {agree : Ty → Ty → UnifyM Bool} {pair : String × String} (h : Granted L pair)
    (parts : List (Option (Ty × Ty))) (S : Store) :
    Opening.run agree ⟨some pair, parts⟩ L S = .ok (true, L) S := by
  by_cases hsame : pair.1 = pair.2
  · simp only [Opening.run, if_pos hsame]
    rfl
  · simp only [Opening.run, if_neg hsame]
    change (if L.contains pair then pure true else _ : UnifyM Bool) L S = _
    rw [if_pos (List.contains_iff_mem.2 (h.resolve_left hsame))]
    rfl

/-- Another pair is written down. -/
theorem Opening.run_noted {agree : Ty → Ty → UnifyM Bool} {pair : String × String} (h : ¬ Granted L pair)
    (parts : List (Option (Ty × Ty))) (S : Store) :
    Opening.run agree ⟨some pair, parts⟩ L S = agreeEach agree parts (pair :: L) S := by
  obtain ⟨hsame, hmem⟩ := not_or.1 h
  simp only [Opening.run, if_neg hsame]
  change (if L.contains pair then pure true else _ : UnifyM Bool) L S = _
  rw [if_neg (fun h => hmem (List.contains_iff_mem.1 h))]
  rfl

/-- A comparison of fixed types with an answer comes to an end with it. -/
theorem Answers.run (hT : Definite M T) (h : Answers T mode L ps r L')
    (hps : ∀ p, some p ∈ ps → Fixed M T p.1 ∧ Fixed M T p.2) : ∃ N, ∀ n m, N ≤ n → N ≤ m →
      agreeEach (unifyWithin mode n) ps L (T.withLimit m) = .ok (r, L') (T.withLimit m) := by
  have hopened {a b : Ty} {parts : List (Option (Ty × Ty))} {key : Option (String × String)}
      {L L₁ : List (String × String)} {r : Bool} (hfixed : Fixed M T a ∧ Fixed M T b)
      (h : Opens T mode a b ⟨key, parts⟩) (hparts : ∃ N, ∀ n m, N ≤ n → N ≤ m →
        Opening.run (unifyWithin mode n) ⟨key, parts⟩ L (T.withLimit m) = .ok (r, L₁) (T.withLimit m)) :
      ∃ N, ∀ n m, N ≤ n → N ≤ m →
        unifyWithin mode n a b L (T.withLimit m) = .ok (r, L₁) (T.withLimit m) := by
    obtain ⟨N, hN⟩ := hT.unify_opens hfixed.1 hfixed.2 h
    obtain ⟨N', hN'⟩ := hparts
    refine ⟨N + N' + 1, fun n m hn hm => ?_⟩
    cases n with
    | zero => omega
    | succ n => exact (hN n m L (by omega)).trans (hN' n m (by omega) (by omega))
  have hsub {a b : Ty} {o : Opening} (hfixed : Fixed M T a ∧ Fixed M T b) (h : Opens T mode a b o) :
      ∀ p, some p ∈ o.parts → Fixed M T p.1 ∧ Fixed M T p.2 :=
    fun p hp => h.gathered hT hfixed.1 hfixed.2 hT.gathers hfixed hp
  induction h with
  | nil | differ => exact ⟨0, fun _ _ _ _ => rfl⟩
  | @opened L a b parts L₁ ps r L' h _ _ ihparts ihrest =>
    obtain ⟨N₁, hN₁⟩ := ihparts (hsub (hps _ List.mem_cons_self) h)
    obtain ⟨N, hN⟩ := hopened (hps _ List.mem_cons_self) h ⟨N₁, hN₁⟩
    obtain ⟨N', hN'⟩ := ihrest fun p hp => hps p (by simp [hp])
    exact ⟨N + N', fun n m hn hm =>
      (agreeEach_true (hN n m (by omega) (by omega)) ps).trans (hN' n m (by omega) (by omega))⟩
  | openedFalse h _ ihparts =>
    obtain ⟨N₁, hN₁⟩ := ihparts (hsub (hps _ List.mem_cons_self) h)
    obtain ⟨N, hN⟩ := hopened (hps _ List.mem_cons_self) h ⟨N₁, hN₁⟩
    exact ⟨N, fun n m hn hm => agreeEach_false (hN n m hn hm) _⟩
  | granted h hpair _ ihrest =>
    obtain ⟨N, hN⟩ := hopened (hps _ List.mem_cons_self) h ⟨0, fun n m _ _ => Opening.run_granted hpair _ _⟩
    obtain ⟨N', hN'⟩ := ihrest fun p hp => hps p (by simp [hp])
    exact ⟨N + N', fun n m hn hm =>
      (agreeEach_true (hN n m (by omega) (by omega)) _).trans (hN' n m (by omega) (by omega))⟩
  | noted h hpair _ _ ihparts ihrest =>
    obtain ⟨N₁, hN₁⟩ := ihparts (hsub (hps _ List.mem_cons_self) h)
    obtain ⟨N, hN⟩ := hopened (hps _ List.mem_cons_self) h
      ⟨N₁, fun n m hn hm => (Opening.run_noted hpair _ _).trans (hN₁ n m hn hm)⟩
    obtain ⟨N', hN'⟩ := ihrest fun p hp => hps p (by simp [hp])
    exact ⟨N + N', fun n m hn hm =>
      (agreeEach_true (hN n m (by omega) (by omega)) _).trans (hN' n m (by omega) (by omega))⟩
  | notedFalse h hpair _ ihparts =>
    obtain ⟨N₁, hN₁⟩ := ihparts (hsub (hps _ List.mem_cons_self) h)
    obtain ⟨N, hN⟩ := hopened (hps _ List.mem_cons_self) h
      ⟨N₁, fun n m hn hm => (Opening.run_noted hpair _ _).trans (hN₁ n m hn hm)⟩
    exact ⟨N, fun n m hn hm => agreeEach_false (hN n m hn hm) _⟩

/-- The answer on one pair, and then on others. -/
theorem Answers.cons {p : Ty × Ty} {L₁ : List (String × String)} (h : Answers T mode L [some p] true L₁)
    (hrest : Answers T mode L₁ ps r L') : Answers T mode L (some p :: ps) r L' := by
  cases h with
  | opened h hparts hnil =>
    cases hnil
    exact .opened h hparts hrest
  | granted h hpair hnil =>
    cases hnil
    exact .granted h hpair hrest
  | noted h hpair hparts hnil =>
    cases hnil
    exact .noted h hpair hparts hrest

/-- A comparison that fails leaves the pairs behind it aside. -/
theorem Answers.consFalse {p : Ty × Ty} (h : Answers T mode L [some p] false L') :
    Answers T mode L (some p :: ps) false L' := by
  cases h with
  | opened _ _ hnil | granted _ _ hnil | noted _ _ _ hnil => cases hnil
  | openedFalse h hparts => exact .openedFalse h hparts
  | notedFalse h hpair hparts => exact .notedFalse h hpair hparts

/-- Nothing that was written down is forgotten. -/
theorem Answers.subset (h : Answers T mode L ps r L') : L ⊆ L' := by
  induction h with
  | nil | differ => exact fun _ hp => hp
  | opened _ _ _ ihparts ihrest => exact fun _ hp => ihrest (ihparts hp)
  | openedFalse _ _ ihparts => exact ihparts
  | granted _ _ _ ihrest => exact ihrest
  | noted _ _ _ _ ihparts ihrest => exact fun _ hp => ihrest (ihparts (List.mem_cons_of_mem _ hp))
  | notedFalse _ _ _ ihparts => exact fun _ hp => ihparts (List.mem_cons_of_mem _ hp)

/-- There is an answer on some pairs if there is one on each, whatever is written down. -/
theorem Answers.of_each (h : ∀ p, some p ∈ ps → ∀ L₁, L ⊆ L₁ → ∃ r L', Answers T mode L₁ [some p] r L') :
    ∃ r L', Answers T mode L ps r L' := by
  induction ps generalizing L with
  | nil => exact ⟨_, _, .nil⟩
  | cons p ps ih =>
    cases p with
    | none => exact ⟨_, _, .differ⟩
    | some p =>
      obtain ⟨r, L₁, hfirst⟩ := h p (by simp) L fun _ hp => hp
      cases r with
      | false => exact ⟨_, _, hfirst.consFalse⟩
      | true =>
        obtain ⟨r, L', hrest⟩ := ih fun q hq L₂ hsub => h q (by simp [hq]) L₂ fun _ hp =>
          hsub (hfirst.subset hp)
        exact ⟨r, L', hfirst.cons hrest⟩

end Answers

/-! ## Pairs that are reached -/

/-- The pairs that are compared once a pair is opened. -/
def Leaves (T : Store) (mode : Agreement) (p q : Ty × Ty) : Prop :=
  ∃ o, Opens T mode p.1 p.2 o ∧ some q ∈ o.parts

/-- The pairs that are compared once a pair is opened that is not written down. -/
def Unnoted (T : Store) (mode : Agreement) (p q : Ty × Ty) : Prop :=
  ∃ parts, Opens T mode p.1 p.2 ⟨none, parts⟩ ∧ some q ∈ parts

/-- A comparison comes to a pair that leads back to itself through pairs that are not written down. -/
def Returns (T : Store) (mode : Agreement) (a b : Ty) : Prop :=
  ∃ p, Relation.ReflTransGen (Leaves T mode) (a, b) p ∧ Relation.TransGen (Unnoted T mode) p p

section Reached

variable {M : Prop} {T : Store} {mode : Agreement} {a b : Ty}

/-- A fixed type is made of finitely many types. -/
theorem finite_made {t : Ty} (ht : Fixed M T t) : {u | Relation.ReflTransGen (Mentions {}) t u}.Finite := by
  have hstep {t : Ty} {S : Set Ty} (hS : S.Finite) (hfinite : ∀ u ∈ S,
      {w | Relation.ReflTransGen (Mentions {}) u w}.Finite) (hsub : ∀ u, Mentions {} t u → u ∈ S) :
      {u | Relation.ReflTransGen (Mentions {}) t u}.Finite := by
    refine ((hS.biUnion hfinite).insert t).subset fun w hw => ?_
    obtain rfl | ⟨u, hu, huw⟩ := Relation.ReflTransGen.cases_head hw
    · exact Set.mem_insert _ _
    · exact .inr (Set.mem_biUnion (hsub u hu) huw)
  have hleaf {t : Ty} (h : ∀ u, ¬ Mentions {} t u) : {u | Relation.ReflTransGen (Mentions {}) t u}.Finite :=
    hstep Set.finite_empty (by simp) fun u hu => absurd hu (h u)
  have hone {t e : Ty} (he : {u | Relation.ReflTransGen (Mentions {}) e u}.Finite)
      (h : ∀ u, Mentions {} t u → u = e) : {u | Relation.ReflTransGen (Mentions {}) t u}.Finite :=
    hstep (Set.finite_singleton e) (by simpa using he) h
  induction ht with
  | builtin => exact hleaf nofun
  | name => exact hleaf fun u hu => by cases hu with | name h => simp [Store.binding?] at h
  | pointer _ ih | slice _ ih | array _ _ ih | dot _ _ ih => exact hone ih fun u hu => by cases hu; rfl
  | @struct ms l _ ih =>
    refine hstep (ms.map (·.type)).finite_toSet (fun u hu => ?_) fun u hu => ?_
    · obtain ⟨m, hm, rfl⟩ := List.mem_map.1 hu
      exact ih m hm
    · cases hu with
      | member hm => exact List.mem_map_of_mem hm
  | @function as r l _ _ iha ihr =>
    refine hstep (r :: as).finite_toSet (fun u hu => ?_) fun u hu => ?_
    · obtain rfl | hu := List.mem_cons.1 hu
      · exact ihr
      · exact iha u hu
    · cases hu with
      | argument ha => exact List.mem_cons_of_mem _ ha
      | result => exact List.mem_cons_self

/-- Finitely many fixed types are in a finite family. -/
theorem Definite.finite_family (hT : Definite M T) {types : List Ty} (htypes : ∀ t ∈ types, Fixed M T t) :
    ∃ D, Gathers T D ∧ (∀ t ∈ types, D t) ∧ {t | D t}.Finite := by
  let roots : Set Ty := {t | t ∈ .error :: types} ∪ {u | u ∈ (T.names.toList.filterMap (·.binding)).map (·.type)}
  have hroots : roots.Finite := (List.finite_toSet _).union (List.finite_toSet _)
  have hbinding {id : Nat} {c : Binding} (hc : T.binding? id = some c) : c.type ∈ roots := by
    obtain ⟨e, he, hec⟩ := Option.bind_eq_some_iff.1 hc
    exact .inr (List.mem_map_of_mem (List.mem_filterMap.2
      ⟨e, (Array.mem_of_getElem? he).val, hec⟩))
  have hfixed : ∀ t ∈ roots, Fixed M T t := by
    rintro t (ht | ht)
    · obtain rfl | ht := List.mem_cons.1 ht
      · exact .builtin
      · exact htypes t ht
    · obtain ⟨c, hc, rfl⟩ := List.mem_map.1 ht
      obtain ⟨e, he, hec⟩ := List.mem_filterMap.1 hc
      obtain ⟨id, hid⟩ := List.getElem?_of_mem he
      have hget : T.names[id]? = some e := by simpa using hid
      have hbinding : T.binding? id = some c := Option.bind_eq_some_iff.2 ⟨e, hget, hec⟩
      exact hT.fixed hbinding
  have hmade {t u : Ty} (ht : Fixed M T t) (h : Relation.ReflTransGen (Mentions {}) t u) : Fixed M T u := by
    induction h with
    | refl => exact ht
    | tail _ hstep ih => exact hT.gathers.mentions ih (hstep.of_empty T)
  refine ⟨fun t => ∃ root ∈ roots, Relation.ReflTransGen (Mentions {}) root t, ⟨?_, ?_⟩, fun t ht => ?_, ?_⟩
  · rintro t u ⟨root, hroot, ht⟩ h
    cases h with
    | pointer => exact ⟨root, hroot, ht.tail .pointer⟩
    | slice => exact ⟨root, hroot, ht.tail .slice⟩
    | array => exact ⟨root, hroot, ht.tail .array⟩
    | member hm => exact ⟨root, hroot, ht.tail (.member hm)⟩
    | argument ha => exact ⟨root, hroot, ht.tail (.argument ha)⟩
    | result => exact ⟨root, hroot, ht.tail .result⟩
    | base => exact ⟨root, hroot, ht.tail .base⟩
    | name hc => exact ⟨_, hbinding hc, .refl⟩
    | «instance» | bound => nomatch hmade (hfixed root hroot) ht
  · exact ⟨.error, .inl List.mem_cons_self, .refl⟩
  · exact ⟨t, .inl (List.mem_cons_of_mem _ ht), .refl⟩
  · have hunion := hroots.biUnion fun t ht => finite_made (hfixed t ht)
    refine hunion.subset fun t ⟨root, hroot, ht⟩ => Set.mem_biUnion hroot ht

/-- The pairs that are reached are in the families that both types are in. -/
theorem reached_gathered (hT : Definite M T) {D : Ty → Prop} (hD : Gathers T D) {p q : Ty × Ty}
    (hp : (Fixed M T p.1 ∧ Fixed M T p.2) ∧ D p.1 ∧ D p.2) (h : Relation.ReflTransGen (Leaves T mode) p q) :
    (Fixed M T q.1 ∧ Fixed M T q.2) ∧ D q.1 ∧ D q.2 := by
  induction h with
  | refl => exact hp
  | tail _ hstep ih =>
    obtain ⟨o, ho, hq⟩ := hstep
    exact ⟨ho.gathered hT ih.1.1 ih.1.2 hT.gathers ih.1 hq, ho.gathered hT ih.1.1 ih.1.2 hD ih.2 hq⟩

/-- Without member types nothing is taken from the head of a type. -/
theorem stripDot_self (hM : ¬ M) {t u : Ty} (ht : Fixed M T t)
    (h : Settles (fun _ => stripDot t) T (.ok u)) : u = t := by
  have hself : Settles (fun _ => stripDot t) T (.ok t) := by
    cases ht with
    | dot hdot => exact absurd hdot hM
    | _ => exact .const fun _ => rfl
  exact Except.ok.inj (h.unique hself)

/-- Where there are no member types, the pairs that are not written down become smaller with each step if
nothing becomes a slice, as where names are compared as names. None leads back to itself. -/
theorem Definite.not_returns (hT : Definite M T) (hM : ¬ M) (ha : Fixed M T a) (hb : Fixed M T b)
    (hdecay : mode = .conversion →
      ∀ p, Relation.ReflTransGen (Leaves T mode) (a, b) p → ∀ q, ¬ Decays T p.1 p.2 q) :
    ¬ Returns T mode a b := by
  rintro ⟨p, hreached, hreturns⟩
  have hstep {q r : Ty × Ty} (hq : Relation.ReflTransGen (Leaves T mode) (a, b) q) (h : Unnoted T mode q r) :
      sizeOf r.1 + sizeOf r.2 < sizeOf q.1 + sizeOf q.2 := by
    obtain ⟨hfixed, -⟩ := reached_gathered hT hT.gathers ⟨⟨ha, hb⟩, ha, hb⟩ hq
    obtain ⟨parts, ho, hr⟩ := h
    have hself {a' b' : Ty} (h : Heads T q.1 q.2 a' b') : a' = q.1 ∧ b' = q.2 :=
      ⟨stripDot_self hM hfixed.1 h.left, stripDot_self hM hfixed.2 h.right⟩
    cases ho with
    | same | error => simp at hr
    | nominal _ h | parts _ h =>
      obtain ⟨rfl, rfl⟩ := hself h
      exact partsOf_smaller hr
    | decay hmode h _ hslice =>
      obtain ⟨rfl, rfl⟩ := hself h
      exact absurd hslice (hdecay hmode q hq _)
  have hless {q : Ty × Ty} (h : Relation.TransGen (Unnoted T mode) p q) :
      sizeOf q.1 + sizeOf q.2 < sizeOf p.1 + sizeOf p.2 ∧ Relation.ReflTransGen (Leaves T mode) (a, b) q := by
    have hleaves {q r : Ty × Ty} (h : Unnoted T mode q r) : Leaves T mode q r :=
      let ⟨parts, ho, hr⟩ := h; ⟨_, ho, hr⟩
    induction h with
    | single h => exact ⟨hstep hreached h, hreached.tail (hleaves h)⟩
    | tail _ h ih => exact ⟨(hstep ih.2 h).trans ih.1, ih.2.tail (hleaves h)⟩
  exact (hless hreturns).1.false

/-- A comparison of fixed types that comes to no such pair has an answer. -/
theorem Definite.answers (hT : Definite M T) (ha : Fixed M T a) (hb : Fixed M T b)
    (hreturns : ¬ Returns T mode a b) : ∃ r L, Answers T mode [] [some (a, b)] r L := by
  obtain ⟨D, hD, hmem, hfinite⟩ := hT.finite_family (by simpa using And.intro ha hb : ∀ t ∈ [a, b], Fixed M T t)
  let P : Set (Ty × Ty) := {p | Relation.ReflTransGen (Leaves T mode) (a, b) p}
  have hreached {p : Ty × Ty} (hp : p ∈ P) : (Fixed M T p.1 ∧ Fixed M T p.2) ∧ D p.1 ∧ D p.2 :=
    reached_gathered hT hD ⟨⟨ha, hb⟩, hmem a (by simp), hmem b (by simp)⟩ hp
  have hP : P.Finite := (hfinite.prod hfinite).subset fun p hp => (hreached hp).2
  let K : Set (String × String) := {k | ∃ p ∈ P, ∃ parts, Opens T mode p.1 p.2 ⟨some k, parts⟩}
  have hK : K.Finite := by
    have hone (p : Ty × Ty) : {k | ∃ parts, Opens T mode p.1 p.2 ⟨some k, parts⟩}.Finite :=
      Set.Subsingleton.finite fun k ⟨_, hk⟩ k' ⟨_, hk'⟩ =>
        Option.some.inj (congrArg Opening.key (hk.unique hk'))
    exact (hP.biUnion fun p _ => hone p).subset fun k ⟨p, hp, hk⟩ => Set.mem_biUnion hp hk
  have hleft {L L' : List (String × String)} (h : L ⊆ L') :
      (K \ {k | k ∈ L'}).ncard ≤ (K \ {k | k ∈ L}).ncard :=
    Set.ncard_le_ncard (fun k hk => ⟨hk.1, fun hmem => hk.2 (h hmem)⟩) hK.sdiff
  -- Pairs that are not written down lead to each other in one direction only.
  let lower (q p : P) : Prop := Unnoted T mode p.1 q.1
  have hlower : WellFounded lower := by
    have : Finite P := hP
    have : IsTrans P (Relation.TransGen lower) := ⟨fun _ _ _ => Relation.TransGen.trans⟩
    have : Std.Irrefl (Relation.TransGen lower) := ⟨fun p hp => by
      refine hreturns ⟨p.1, p.2, ?_⟩
      have hlift : Relation.TransGen (fun q p => Unnoted T mode p q) p.1 p.1 :=
        hp.lift Subtype.val fun _ _ h => h
      exact Relation.transGen_swap.1 hlift⟩
    exact Subrelation.wf (fun h => .single h) (Finite.wellFounded_of_trans_of_irrefl (Relation.TransGen lower))
  suffices h : ∀ k L, (K \ {k | k ∈ L}).ncard ≤ k → ∀ p : P, ∃ r L', Answers T mode L [some p.1] r L' from
    h _ [] le_rfl ⟨(a, b), .refl⟩
  intro k
  induction k using Nat.strong_induction_on with
  | h k ihk =>
    intro L hL p
    induction p using hlower.induction generalizing L with
    | h p ihp =>
      obtain ⟨⟨key, parts⟩, ho⟩ := hT.opens (hreached p.2).1.1 (hreached p.2).1.2 mode
      have hpart {q : Ty × Ty} (hq : some q ∈ parts) : q ∈ P := p.2.tail ⟨_, ho, hq⟩
      cases key with
      | none =>
        obtain ⟨r, L', hparts⟩ : ∃ r L', Answers T mode L parts r L' := Answers.of_each fun q hq L₁ hsub =>
          ihp ⟨q, hpart hq⟩ ⟨parts, ho, hq⟩ L₁ ((hleft hsub).trans hL)
        cases r with
        | true => exact ⟨_, _, .opened ho hparts .nil⟩
        | false => exact ⟨_, _, .openedFalse ho hparts⟩
      | some pair =>
        by_cases hgranted : Granted L pair
        · exact ⟨_, _, .granted ho hgranted .nil⟩
        have hmem : pair ∈ K \ {k | k ∈ L} := ⟨⟨p.1, p.2, parts, ho⟩, fun h => hgranted (.inr h)⟩
        have hnot : pair ∉ K \ {k | k ∈ pair :: L} := fun h => h.2 List.mem_cons_self
        have hsub : K \ {k | k ∈ pair :: L} ⊆ K \ {k | k ∈ L} :=
          fun k hk => ⟨hk.1, fun h => hk.2 (List.mem_cons_of_mem _ h)⟩
        have hless : (K \ {k | k ∈ pair :: L}).ncard < k :=
          (Set.ncard_lt_ncard (Set.ssubset_iff_exists.2 ⟨hsub, pair, hmem, hnot⟩) hK.sdiff).trans_le hL
        obtain ⟨r, L', hparts⟩ : ∃ r L', Answers T mode (pair :: L) parts r L' := Answers.of_each fun q hq L₁ hsub =>
          ihk _ hless L₁ (hleft hsub) ⟨q, hpart hq⟩
        cases r with
        | true => exact ⟨_, _, .noted ho hgranted hparts .nil⟩
        | false => exact ⟨_, _, .notedFalse ho hgranted hparts⟩

/-- A comparison that has an answer gives it, however many steps are allowed from some number on. -/
theorem Answers.settles {r : Bool} {L : List (String × String)} (h : Answers T mode [] [some (a, b)] r L)
    (hT : Definite M T) (ha : Fixed M T a) (hb : Fixed M T b) :
    Settles (fun _ => do return (← (unifyWithin mode (← limit) a b).run []).1) T (.ok r) := by
  obtain ⟨N, hN⟩ := h.run hT fun p hp => by
    obtain rfl : p = (a, b) := by simpa using hp
    exact ⟨ha, hb⟩
  refine ⟨N, fun _ m _ hm => ?_⟩
  have hrun : unifyWithin mode m a b [] (T.withLimit m) = .ok (r, L) (T.withLimit m) := by
    rw [← hN m m hm hm, agreeEach_single]
  change EStateM.bind (unifyWithin mode m a b []) (fun p => pure p.1) (T.withLimit m) = _
  rw [EStateM.bind, hrun]
  rfl

end Reached

end Qll.Types
