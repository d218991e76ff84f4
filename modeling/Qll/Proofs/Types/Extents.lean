import Mathlib.Algebra.Ring.Int.Defs
import Mathlib.Tactic.Choose
import Qll.Proofs.Types.Layouts

/-!
# Extents

The extent of a type is its number of words as a number without bounds: the sum of the extents of the
members of a struct, and the product of length and extent of the elements of an array. Sizes are
computed in 64 bits. A size is the extent brought back into that range, and the offset of a member is
what the members in front of it take together, brought back into that range.
-/

namespace Qll.Types

open Qll.Computation
open Source (Location)
open Machine (wrap addExtent mulExtent)

/-! ## Numbers of words -/

/-- The number of words of a type. A member type that there is no member for is the error type. -/
inductive Extent (T : Store) : Ty → Int → Prop
  | builtin {kind l} : Extent T (.builtin kind l) 1
  | pointer {e l} : Extent T (.pointer e l) 1
  | slice {e l} : Extent T (.slice e l) sliceSize
  | function {as r l} : Extent T (.function as r l) 1
  | unsized {e l} : Extent T (.array e unsized l) 1
  | array {e n l k} (hn : n ≠ unsized) (h : Extent T e k) : Extent T (.array e n l) (n * k)
  | struct {ms l} {words : Member Ty → Int} (h : ∀ m ∈ ms, Extent T m.type (words m)) :
      Extent T (.struct ms l) (ms.map words).sum
  | name {id text l u k} (h : T.target id text = .ok u) (hu : Extent T u k) : Extent T (.name id text l) k
  | apply {id head text as l u k} (h : T.instance? id = some u) (hu : Extent T u k) :
      Extent T (.apply id head text as l) k
  | var {v u k} (h : T.bound? v = some u) (hu : Extent T u k) : Extent T (.var v) k
  | dot {b name l ms l' x k} (hb : Resolves T b (.struct ms l'))
      (hx : ms.find? (·.name = name) = some x) (h : Extent T x.type k) : Extent T (.dot b name l) k
  | noMember {b name l u} (hb : Resolves T b u)
      (hnone : ∀ ms l', u = .struct ms l' → ms.find? (·.name = name) = none) : Extent T (.dot b name l) 1

/-! ## Sizes and offsets in 64 bits -/

section Sizes

variable {T : Store} {ms : List (Member Ty)} {words : Member Ty → Int}

/-- Sums may be wrapped once in the end. -/
theorem addExtent_wrap (a b : Int) : addExtent (wrap a) (wrap b) = wrap (a + b) := by
  simp only [addExtent, wrap, Int.bmod_add_bmod, Int.add_bmod_bmod]

/-- Products may be wrapped once in the end. -/
theorem mulExtent_wrap (a b : Int) : mulExtent a (wrap b) = wrap (a * b) := by
  simp only [mulExtent, wrap, Int.mul_bmod_bmod]

/-- The sizes of members are added up. -/
theorem settles_memberSizes (h : ∀ m ∈ ms, Settles (fun n => sizeWithin n m.type) T (.ok (wrap (words m))))
    (total : Int) :
    Settles (fun n => ms.foldlM (fun total m => do return addExtent total (← sizeWithin n m.type))
      (wrap total)) T (.ok (wrap (total + (ms.map words).sum))) := by
  induction ms generalizing total with
  | nil =>
    rw [List.map_nil, List.sum_nil, Int.add_zero]
    exact .const fun _ => rfl
  | cons m rest ih =>
    obtain ⟨hm, hrest⟩ := List.forall_mem_cons.1 h
    rw [List.map_cons, List.sum_cons, ← Int.add_assoc]
    simp only [List.foldlM_cons]
    refine .bind (.bind hm (.const fun _ => rfl)) ?_
    rw [addExtent_wrap]
    exact ih hrest (total + words m)

/-- A member stands behind the members in front of it. -/
theorem settles_findMember {front : List (Member Ty)} (rest : List (Member Ty)) {x : Member Ty}
    (h : ∀ m ∈ front, Settles (fun n => sizeWithin n m.type) T (.ok (wrap (words m))))
    (hnames : ∀ m ∈ front, m.name ≠ x.name) (offset : Int) :
    Settles (fun n => findMemberWithin n (front ++ x :: rest) x.name (wrap offset)) T
      (.ok (some (x, wrap (offset + (front.map words).sum)))) := by
  induction front generalizing offset with
  | nil =>
    rw [List.map_nil, List.sum_nil, Int.add_zero]
    refine .succ ?_
    simp only [List.nil_append, findMemberWithin, if_true]
    exact .const fun _ => rfl
  | cons m front ih =>
    obtain ⟨hm, hfront⟩ := List.forall_mem_cons.1 h
    obtain ⟨hname, hnames⟩ := List.forall_mem_cons.1 hnames
    rw [List.map_cons, List.sum_cons, ← Int.add_assoc]
    refine .succ ?_
    simp only [List.cons_append, findMemberWithin, if_neg hname]
    refine .bind hm ?_
    rw [addExtent_wrap]
    exact ih hfront hnames (offset + words m)

/-- A name that no member has is not found. -/
theorem settles_findMember_none {name : String} (hnames : ∀ m ∈ ms, m.name ≠ name)
    (h : ∀ m ∈ ms, ∃ k, Settles (fun n => sizeWithin n m.type) T (.ok k)) (offset : Int) :
    Settles (fun n => findMemberWithin n ms name offset) T (.ok none) := by
  induction ms generalizing offset with
  | nil => exact .succ (.const fun _ => rfl)
  | cons m rest ih =>
    obtain ⟨⟨k, hm⟩, hrest⟩ := List.forall_mem_cons.1 h
    obtain ⟨hname, hnames⟩ := List.forall_mem_cons.1 hnames
    refine .succ ?_
    simp only [findMemberWithin, if_neg hname]
    exact .bind hm (ih hnames hrest _)

/-- A size and an extent that it is congruent to. -/
def Congruent (T : Store) (t : Ty) : Prop :=
  ∃ k, Extent T t k ∧ Settles (fun n => sizeWithin n t) T (.ok (wrap k))

/-- The extents of members, as a function of the member. -/
theorem exists_words (h : ∀ m ∈ ms, Congruent T m.type) :
    ∃ words : Member Ty → Int, ∀ m ∈ ms, Extent T m.type (words m) ∧
      Settles (fun n => sizeWithin n m.type) T (.ok (wrap (words m))) := by
  choose! words hwords using h
  exact ⟨words, hwords⟩

/-- The type of a member is found where its struct is. -/
theorem settles_memberType {b : Ty} {l : Option Location} {name : String} {x : Member Ty}
    (hb : Resolves T b (.struct ms l)) (hms : ∀ m ∈ ms, Congruent T m.type)
    (hx : ms.find? (·.name = name) = some x) :
    Settles (fun n => memberTypeWithin n b name) T (.ok x.type) := by
  obtain ⟨words, hwords⟩ := exists_words hms
  obtain ⟨hname, front, rest, rfl, hfront⟩ := List.find?_eq_some_iff_append.1 hx
  obtain rfl : x.name = name := by simpa using hname
  have hfound := settles_findMember rest
    (fun m hm => (hwords m (List.mem_append_left _ hm)).2) (fun m hm => by simpa using hfront m hm) 0
  exact .succ (.bind hb (.bind hfound (.const fun _ => rfl)))

/-- A member type without a member is the error type. -/
theorem settles_memberType_error {b u : Ty} {name : String} (hb : Resolves T b u)
    (hms : ∀ ms l, u = .struct ms l → ∀ m ∈ ms, Congruent T m.type)
    (hnone : ∀ ms l, u = .struct ms l → ms.find? (·.name = name) = none) :
    Settles (fun n => memberTypeWithin n b name) T (.ok .error) := by
  refine .succ (.bind hb ?_)
  cases u with
  | struct ms l =>
    have hnames : ∀ m ∈ ms, m.name ≠ name := by simpa using hnone ms l rfl
    have hsizes (m) (hm : m ∈ ms) : ∃ k, Settles (fun n => sizeWithin n m.type) T (.ok k) := by
      obtain ⟨k, -, hk⟩ := hms ms l rfl m hm
      exact ⟨_, hk⟩
    exact .bind (settles_findMember_none hnames hsizes 0) (.const fun _ => rfl)
  | _ => exact .const fun _ => rfl

/-- The size of a type with a finite layout, in which nothing lacks a size, is its extent modulo
2^64. -/
theorem Layout.congruent {t : Ty} (h : Layout T (· ≠ Types.unsized) False t) : Congruent T t := by
  induction h with
  | builtin => exact ⟨1, .builtin, .succ (.const fun _ => rfl)⟩
  | pointer => exact ⟨1, .pointer, .succ (.const fun _ => rfl)⟩
  | slice => exact ⟨sliceSize, .slice, .succ (.const fun _ => rfl)⟩
  | function => exact ⟨1, .function, .succ (.const fun _ => rfl)⟩
  | template hbare => exact hbare.elim
  | unbound hbare => exact hbare.elim
  | @array e n l _ ih =>
    by_cases hn : n = Types.unsized
    · subst hn
      refine ⟨1, .unsized, .succ ?_⟩
      simp only [sizeWithin, if_true]
      exact .const fun _ => rfl
    · obtain ⟨k, hk, hsize⟩ := ih hn
      refine ⟨n * k, .array hn hk, .succ ?_⟩
      simp only [sizeWithin, if_neg hn]
      refine .bind hsize ?_
      rw [mulExtent_wrap]
      exact .const fun _ => rfl
  | @struct ms l _ ih =>
    obtain ⟨words, hwords⟩ := exists_words ih
    refine ⟨_, .struct fun m hm => (hwords m hm).1, .succ ?_⟩
    have hsum := settles_memberSizes (fun m hm => (hwords m hm).2) 0
    rw [Int.zero_add] at hsum
    exact hsum
  | name h _ ih =>
    obtain ⟨k, hk, hsize⟩ := ih
    exact ⟨k, .name h hk, .succ (.bind (.const fun _ => read_ok.2 ⟨h, rfl⟩) hsize)⟩
  | apply h _ ih =>
    obtain ⟨k, hk, hsize⟩ := ih
    have hgiven (m : Nat) := applied_of_instance (T := T.withLimit m) h
    exact ⟨k, .apply h hk, .succ (.bind (.const fun m => hgiven m _ _ _) hsize)⟩
  | @var v u h _ ih =>
    obtain ⟨k, hk, hsize⟩ := ih
    exact ⟨k, .var h hk, Layout.settles_size_var (by rwa [h])⟩
  | @dot b name l hb _ _ ih =>
    obtain ⟨⟨r, hr, hshape⟩, -⟩ := hb.finishes (E := fun _ => False) False.elim
    cases r with
    | error e => exact (hr e rfl).elim
    | ok u =>
      by_cases hfound : ∃ ms l' x, u = .struct ms l' ∧ ms.find? (·.name = name) = some x
      · obtain ⟨ms, l', x, rfl, hx⟩ := hfound
        obtain ⟨k, hk, hsize⟩ := ih ms l' hshape x (List.mem_of_find?_eq_some hx)
        exact ⟨k, .dot hshape hx hk, .succ (.bind (settles_memberType hshape (ih ms l' hshape) hx) hsize)⟩
      · have hnone (ms l') (hu : u = .struct ms l') : ms.find? (·.name = name) = none := by
          refine Option.eq_none_iff_forall_ne_some.2 fun x hx => hfound ⟨ms, l', x, hu, hx⟩
        refine ⟨1, .noMember hshape hnone, .succ (.bind (settles_memberType_error hshape ?_ hnone) ?_)⟩
        · rintro ms l' rfl
          exact ih ms l' hshape
        · exact .succ (.const fun _ => rfl)

end Sizes

/-! ## Ground types -/

/-- Nothing that a type contains is a template or a variable without a type. -/
def Ground (T : Store) (t : Ty) : Prop := ∀ u, Relation.ReflTransGen (Contains T) t u →
  (∀ id, u ≠ .template id) ∧ ∀ v, u = .var v → T.bound? v ≠ none

section Ground

variable {T : Store} {t u : Ty}

/-- What a ground type contains is ground. -/
theorem Ground.contains (h : Ground T t) (hu : Contains T t u) : Ground T u :=
  fun w hw => h w (.head hu hw)

/-- A type is ground when it is no template and no variable without a type, and all it contains is
ground. -/
theorem ground_of_contains (htemplate : ∀ id, t ≠ .template id)
    (hvar : ∀ v, t = .var v → T.bound? v ≠ none) (h : ∀ u, Contains T t u → Ground T u) : Ground T t := by
  intro w hw
  obtain rfl | ⟨u, hu, hw⟩ := Relation.ReflTransGen.cases_head hw
  · exact ⟨htemplate, hvar⟩
  · exact h u hu w hw

/-- In a ground type nothing ends the layout. -/
theorem Layout.of_ground {bare : Prop} (h : Layout T (· ≠ Types.unsized) bare t) (hground : Ground T t) :
    Layout T (· ≠ Types.unsized) False t := by
  induction h with
  | builtin => exact .builtin
  | pointer => exact .pointer
  | slice => exact .slice
  | function => exact .function
  | template => exact absurd rfl ((hground _ .refl).1 _)
  | unbound _ h => exact absurd h ((hground _ .refl).2 _ rfl)
  | array _ ih => exact .array fun hn => ih hn (hground.contains (.element hn))
  | struct _ ih => exact .struct fun m hm => ih m hm (hground.contains (.member hm))
  | name h _ ih => exact .name h (ih (hground.contains (.definition h)))
  | apply h _ ih => exact .apply h (ih (hground.contains (.instance_ h)))
  | var h _ ih => exact .var h (ih (hground.contains (.bound h)))
  | dot _ _ ihb ihmembers =>
    exact .dot (ihb (hground.contains .base)) fun ms l' hs x hx =>
      ihmembers ms l' hs x hx (hground.contains (.projection hs hx))

/-- A search for what keeps a type from being ground. It gives up on member types. -/
def groundWithin (T : Store) : Nat → Ty → Bool
  | 0, _ => false
  | n + 1, t =>
    match t with
    | .builtin .. | .pointer .. | .slice .. | .function .. => true
    | .array e k _ => k == Types.unsized || groundWithin T n e
    | .struct ms _ => ms.all fun m => groundWithin T n m.type
    | .name id text _ =>
      match T.target id text with
      | .ok u => groundWithin T n u
      | .error _ => true
    | .apply id _ _ _ _ => (T.instance? id).all (groundWithin T n)
    | .var v => (T.bound? v).any (groundWithin T n)
    | .dot .. | .template _ => false

/-- A type that is found to be ground is. -/
theorem ground_of_groundWithin {n : Nat} (h : groundWithin T n t = true) : Ground T t := by
  induction n generalizing t with
  | zero => simp [groundWithin] at h
  | succ n ih =>
    cases t with
    | builtin | pointer | slice | function =>
      exact ground_of_contains (by simp) (by simp) fun u hu => by cases hu
    | array e k l =>
      refine ground_of_contains (by simp) (by simp) fun u hu => ?_
      cases hu with
      | element hk => exact ih (by simpa [groundWithin, hk] using h)
    | struct ms l =>
      have hall : ms.all (fun m => groundWithin T n m.type) = true := h
      refine ground_of_contains (by simp) (by simp) fun u hu => ?_
      cases hu with
      | member hm => exact ih (List.all_eq_true.1 hall _ hm)
    | name id text l =>
      refine ground_of_contains (by simp) (by simp) fun u hu => ?_
      cases hu with
      | definition hu => exact ih (by simpa only [groundWithin, hu] using h)
    | apply id head text as l =>
      refine ground_of_contains (by simp) (by simp) fun u hu => ?_
      cases hu with
      | instance_ hu => exact ih (by simpa only [groundWithin, hu, Option.all_some] using h)
    | var v =>
      simp only [groundWithin, Option.any_eq_true] at h
      obtain ⟨w, hw, hground⟩ := h
      refine ground_of_contains (by simp) (by simp [hw]) fun u hu => ?_
      cases hu with
      | bound hu =>
        cases hw.symm.trans hu
        exact ih hground
    | dot | template => simp [groundWithin] at h

end Ground

end Qll.Types
