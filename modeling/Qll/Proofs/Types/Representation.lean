import Qll.Check.Table
import Qll.Check.Value
import Qll.Proofs.Types.Alike

/-!
# Conversion keeps the words of a value

Types that a comparison relates have one size and are both words or both not, unless a fixed array
or a pointer to one is used as a slice somewhere in them. At the outermost level such a value is
made a slice descriptor. Inside a struct, in an array and in the type of a function it is not, so
there the words have to be the same anyhow.
-/

namespace Qll.Types

open Qll.Computation
open Machine (addExtent mulExtent)

/-! ## Sizes of shapes -/

section Sizes

variable {s : Store}

/-- The words of members, one after the other. -/
theorem hasSize_members {ms : List (Member Ty)} {ks : List Int}
    (h : ms.Forall₂ (fun m k => HasSize s m.type k) ks) (total : Int) :
    ∃ n, (ms.foldlM (fun total m => return addExtent total (← sizeWithin n m.type)) total :
      TypeM Int) s = .ok (ks.foldl addExtent total) s := by
  induction h generalizing total with
  | nil => exact ⟨0, rfl⟩
  | @cons m k ms ks hm _ ih =>
    obtain ⟨n, hn⟩ := hm
    obtain ⟨n', hn'⟩ := ih (addExtent total k)
    refine ⟨max n n', ?_⟩
    rw [List.foldlM_cons]
    refine bind_ok.2 ⟨addExtent total k, s, bind_ok.2 ⟨k, s, ?_, rfl⟩, ?_⟩
    · exact sizeWithin_mono (Nat.le_max_left n n') hn
    · refine Extends.foldlM (fun c m => .bind ?_ fun _ => .refl _) ms _ _ _ _ hn'
      exact fun _ _ _ h => sizeWithin_mono (Nat.le_max_right n n') h

/-- The size of a struct is the sum of the sizes of its members. -/
theorem hasSize_struct {ms : List (Member Ty)} {l : Option Source.Location} {ks : List Int}
    (h : ms.Forall₂ (fun m k => HasSize s m.type k) ks) :
    HasSize s (.struct ms l) (ks.foldl addExtent 0) := by
  obtain ⟨n, hn⟩ := hasSize_members h 0
  exact ⟨n + 1, by unfold sizeWithin; exact hn⟩

/-- The size of an array is that of its elements. -/
theorem hasSize_array {e : Ty} {n : Int} {l : Option Source.Location} {k : Int}
    (hn : n ≠ unsized) (h : HasSize s e k) : HasSize s (.array e n l) (mulExtent n k) := by
  obtain ⟨m, hm⟩ := h
  refine ⟨m + 1, ?_⟩
  unfold sizeWithin
  dsimp only
  rw [if_neg hn]
  exact bind_ok.2 ⟨k, s, hm, rfl⟩

/-- An array without a length is the address of its elements. -/
theorem hasSize_unsized {e : Ty} {n : Int} {l : Option Source.Location} (hn : n = unsized) :
    HasSize s (.array e n l) 1 := by
  refine ⟨1, ?_⟩
  unfold sizeWithin
  dsimp only
  rw [if_pos hn]
  rfl

/-- A pointer is a word. -/
theorem hasSize_pointer {e : Ty} {l : Option Source.Location} : HasSize s (.pointer e l) 1 :=
  ⟨1, by unfold sizeWithin; rfl⟩

/-- A builtin type is a word. -/
theorem hasSize_builtin {kind : Builtin} {l : Option Source.Location} :
    HasSize s (.builtin kind l) 1 := ⟨1, by unfold sizeWithin; rfl⟩

/-- A slice is a descriptor. -/
theorem hasSize_slice {e : Ty} {l : Option Source.Location} : HasSize s (.slice e l) sliceSize :=
  ⟨1, by unfold sizeWithin; rfl⟩

/-- A struct laid out like a slice descriptor has its size. -/
theorem SliceLike.hasSize {D : Ty → Prop} (hD : Settled s D) {ms : List (Member Ty)}
    {l : Option Source.Location} (hms : ∀ m ∈ ms, D m.type) (h : SliceLike s ms) :
    HasSize s (.struct ms l) sliceSize := by
  obtain @⟨x, y, z, e, k, k', k'', -, hx, hy, hz⟩ := h
  have hx' : HasSize s x.type 1 := (hD.hasSize_iff (hms x (by simp)) hx).2 hasSize_pointer
  have hy' : HasSize s y.type 1 := (hD.hasSize_iff (hms y (by simp)) hy).2 hasSize_builtin
  have hz' : HasSize s z.type 1 := (hD.hasSize_iff (hms z (by simp)) hz).2 hasSize_builtin
  exact hasSize_struct (.cons hx' (.cons hy' (.cons hz' .nil)))

end Sizes

/-! ## Parts held by value -/

/-- The pairs of types at one place of two values: elements of arrays and members of structs. -/
inductive Held (s : Store) (a b : Ty) : Ty → Ty → Prop
  | element {e e' n l l'} (ha : Shape s a (.array e n l)) (hb : Shape s b (.array e' n l'))
      (hn : n ≠ unsized) : Held s a b e e'
  | member {ms ms' l l' m m'} (ha : Shape s a (.struct ms l)) (hb : Shape s b (.struct ms' l'))
      (hm : (m, m') ∈ ms.zip ms') : Held s a b m.type m'.type

/-- The pairs of types that a converted value takes along as they are: what it holds, and what a
call through it passes and gives. -/
inductive Inside (s : Store) (a b : Ty) : Ty → Ty → Prop
  | held {c d} (h : Held s a b c d) : Inside s a b c d
  | argument {as r l as' r' l' c d} (ha : Shape s a (.function as r l))
      (hb : Shape s b (.function as' r' l')) (h : (d, c) ∈ as.zip as') : Inside s a b c d
  | result {as r l as' r' l'} (ha : Shape s a (.function as r l))
      (hb : Shape s b (.function as' r' l')) : Inside s a b r r'
  | deeper {c d e f} (h : Inside s a b c d) (h' : Held s c d e f) : Inside s a b e f

/-- Two types of one size, both of which are words or neither. -/
def SameWords (s : Store) (a b : Ty) : Prop :=
  (∃ k, size a s = .ok k s ∧ size b s = .ok k s) ∧
    ∃ i, isIntegral a s = .ok i s ∧ isIntegral b s = .ok i s

/-- Where an array decays inside two types, or in their place, the words are the same. -/
def Keeps (s : Store) (a b : Ty) : Prop :=
  ∀ p, Relation.ReflTransGen (fun p q => Held s p.1 p.2 q.1 q.2) (a, b) p →
    Wraps s p.1 p.2 → SameWords s p.1 p.2

/-- What is held in types whose decays keep the words has decays that keep the words. -/
theorem Keeps.held {s : Store} {a b c d : Ty} (h : Keeps s a b) (h' : Held s a b c d) :
    Keeps s c d := fun p hp => h p (.head h' hp)

/-- Forms agree about being words. -/
theorem Form.isWord_eq {R : Ty → Ty → Prop} {a b : Ty} (h : Form R a b) : a.isWord = b.isWord := by
  cases h <;> rfl

/-- A relation between first lists carries over along a second. -/
theorem forall₂_along {α β γ : Type} {R : α → β → Prop} {S : α → γ → Prop} {T : β → γ → Prop} :
    ∀ {as : List α} {bs : List β} {cs : List γ},
      (∀ x y z, (x, y) ∈ as.zip bs → R x y → S x z → T y z) →
      as.Forall₂ R bs → as.Forall₂ S cs → bs.Forall₂ T cs
  | [], _, _, _, .nil, .nil => .nil
  | _ :: _, _, _, h, .cons hr hrs, .cons hs hss =>
    .cons (h _ _ _ (by simp) hr hs) (forall₂_along (fun x y z hxy => h x y z (by simp [hxy])) hrs hss)

section Settled

variable {s : Store} {D : Ty → Prop} (hD : Settled s D)

include hD

/-- Whether a settled type is a word is found at its shape. -/
theorem Settled.isIntegral {t u : Ty} (ht : D t) (h : Shape s t u) :
    isIntegral t s = .ok u.isWord s := by
  obtain ⟨u', hu', hshape, -⟩ := hD.resolve_ok ht
  obtain rfl := h.unique hshape
  refine bind_ok.2 ⟨u, s, hu', ?_⟩
  cases u <;> rfl

/-- The sizes of members, of which the size of a struct is the sum. -/
theorem Settled.sizes_of_members {n : Nat} {ms : List (Member Ty)} (hms : ∀ m ∈ ms, D m.type)
    {total k : Int}
    (h : (ms.foldlM (fun total m => return addExtent total (← sizeWithin n m.type)) total :
      TypeM Int) s = .ok k s) :
    ∃ ks, ms.Forall₂ (fun m k => sizeWithin n m.type s = .ok k s) ks ∧
      k = ks.foldl addExtent total := by
  induction ms generalizing total with
  | nil => exact ⟨[], .nil, (pure_ok.1 h).1.symm⟩
  | cons m ms ih =>
    rw [List.foldlM_cons] at h
    obtain ⟨total', s₁, hm, hrest⟩ := bind_ok.1 h
    obtain ⟨k', s₂, hk', htotal⟩ := bind_ok.1 hm
    obtain rfl := (hD.follow n).2.2.2 (hms m (by simp)) hk'
    obtain ⟨rfl, rfl⟩ := pure_ok.1 htotal
    obtain ⟨ks, hks, rfl⟩ := ih (fun m hm => hms m (by simp [hm])) hrest
    exact ⟨k' :: ks, .cons hk' hks, rfl⟩

variable (htext : TextTellsForm s D) {L : List (String × String)}
  (hL : ∀ p ∈ L, Justified s D L p)

include htext hL

/-- Related types have one size, where decays inside keep the words. -/
theorem Settled.size_of_related {n : Nat} {a b : Ty} {k : Int} (ha : D a) (hb : D b)
    (h : Related s D L a b) (hkeeps : Keeps s a b) (hsize : sizeWithin n a s = .ok k s) :
    HasSize s b k := by
  induction n generalizing a b k with
  | zero => exact absurd hsize throw_ok
  | succ n ih =>
    obtain ⟨a', ha', hk⟩ := hD.shape_of_size ha hsize
    obtain ⟨b', -, hb', hDb', -⟩ := hD.resolve_ok hb
    have hsa : Shape s a a' := ⟨_, ha'⟩
    have hDa' := (hD.shape ha hsa).1
    obtain hchanges | hform := hD.form_of_related htext hL ha hb h hsa hb'
    · cases hchanges with
      | decay hwraps =>
        obtain ⟨⟨k', hak', hbk'⟩, -⟩ := hkeeps (a, b) .refl hwraps
        have hkk' := HasSize.unique ⟨_, hsize⟩ ((hD.size_iff ha).2 hak')
        exact hkk' ▸ (hD.size_iff hb).2 hbk'
      | @descriptor ms w l l' hsource htarget hlike =>
        obtain rfl := hsa.unique hsource
        have hthree := hlike.hasSize hD (l := l) (fun m hm => hD.mentions hDa' (.member hm))
        rw [HasSize.unique ⟨_, hk⟩ hthree]
        exact (hD.hasSize_iff hb htarget).2 hasSize_slice
      | record hsource htarget hlike =>
        obtain rfl := hsa.unique hsource
        rw [HasSize.unique ⟨_, hk⟩ hasSize_slice]
        exact (hD.hasSize_iff hb htarget).2
          (hlike.hasSize hD (fun m hm => hD.mentions (hD.shape hb htarget).1 (.member hm)))
    · refine (hD.hasSize_iff hb hb').2 ?_
      unfold sizeWithin at hk
      cases hform with
      | builtin => exact (pure_ok.1 hk).1 ▸ hasSize_builtin
      | pointer => exact (pure_ok.1 hk).1 ▸ hasSize_pointer
      | slice => exact (pure_ok.1 hk).1 ▸ hasSize_slice
      | function => exact (pure_ok.1 hk).1 ▸ ⟨1, by unfold sizeWithin; rfl⟩
      | @array e e' length l l' hee' =>
        dsimp only at hk
        split at hk
        · rename_i hlength
          exact (pure_ok.1 hk).1 ▸ hasSize_unsized hlength
        · rename_i hlength
          obtain ⟨k', s₁, hk', hrest⟩ := bind_ok.1 hk
          have he := hD.mentions hDa' .array
          have hs₁ := (hD.follow n).2.2.2 he hk'
          subst hs₁
          refine (pure_ok.1 hrest).1 ▸ hasSize_array hlength ?_
          exact ih he (hD.mentions hDb' .array) hee' (hkeeps.held (.element hsa hb' hlength)) hk'
      | @struct ms ms' l l' hmembers =>
        obtain ⟨ks, hks, rfl⟩ :=
          hD.sizes_of_members (fun m hm => hD.mentions hDa' (.member hm)) hk
        refine hasSize_struct (forall₂_along (fun m m' k hm hrel hk => ?_) hmembers hks)
        exact ih (hD.mentions hDa' (.member (List.of_mem_zip hm).1))
          (hD.mentions hDb' (.member (List.of_mem_zip hm).2)) hrel.2
          (hkeeps.held (.member hsa hb' hm)) hk

/-- Related types have the same words, where decays keep them. -/
theorem Settled.sameWords_of_related {a b : Ty} (ha : D a) (hb : D b) (h : Related s D L a b)
    (hkeeps : Keeps s a b) : SameWords s a b := by
  obtain ⟨k, hk⟩ := hD.size_ok ha
  obtain ⟨n, hn⟩ := (hD.size_iff ha).2 hk
  have hsize := hD.size_of_related htext hL ha hb h hkeeps hn
  refine ⟨⟨k, hk, (hD.size_iff hb).1 hsize⟩, ?_⟩
  obtain ⟨a', -, ha', -⟩ := hD.resolve_ok ha
  obtain ⟨b', -, hb', -⟩ := hD.resolve_ok hb
  obtain hchanges | hform := hD.form_of_related htext hL ha hb h ha' hb'
  · cases hchanges with
    | decay hwraps => exact (hkeeps (a, b) .refl hwraps).2
    | descriptor hsource htarget =>
      exact ⟨false, hD.isIntegral ha hsource, hD.isIntegral hb htarget⟩
    | record hsource htarget =>
      exact ⟨false, hD.isIntegral ha hsource, hD.isIntegral hb htarget⟩
  · exact ⟨a'.isWord, hD.isIntegral ha ha', hform.isWord_eq ▸ hD.isIntegral hb hb'⟩

end Settled

/-! ## Values -/

/-- Having the same words goes both ways. -/
theorem SameWords.symm {s : Store} {a b : Ty} (h : SameWords s a b) : SameWords s b a := by
  obtain ⟨⟨k, ha, hb⟩, i, ha', hb'⟩ := h
  exact ⟨⟨k, hb, ha⟩, i, hb', ha'⟩

/-- What is inside two types keeps its words where decays inside them do. -/
theorem keeps_of_inside {s : Store} {a b c d : Ty}
    (h : ∀ c d, Inside s a b c d → Wraps s c d → SameWords s c d) (hcd : Inside s a b c d) :
    Keeps s c d := by
  intro p hp
  have hinside : Inside s a b p.1 p.2 := by
    induction hp with
    | refl => exact hcd
    | tail _ h ih => exact .deeper ih h
  exact h p.1 p.2 hinside

/-- Two types keep their words where they do not decay, and decays inside them do. -/
theorem keeps_of_not_wraps {s : Store} {a b : Ty}
    (h : ∀ c d, Inside s a b c d → Wraps s c d → SameWords s c d) (hab : ¬ Wraps s a b) :
    Keeps s a b := by
  intro p hp hwraps
  obtain rfl | ⟨q, hq, hrest⟩ := hp.cases_head
  · exact absurd hwraps hab
  · exact keeps_of_inside h (.held hq) p hrest hwraps

/-- A value used as a slice, by the shape of the array it is or points to. -/
def sliceOf (e : Checked.Expr) (source target : Ty) : Ty → Checked.Expr × Ty
  | .array _ length _ => if length = unsized then (e, source) else (.descriptor e length, target)
  | _ => (e, source)

/-- A computation on the store that leaves it leaves the state. -/
theorem onTypes_ok {α : Type} {x : TypeM α} {a : α} {d : Check.Directory} {st : Check.State}
    (h : x st.types = .ok a st.types) : Check.onTypes x d st = .ok a st := by
  simp only [Check.onTypes, h]

section Settled

variable {s : Store} {D : Ty → Prop} (hD : Settled s D)

include hD

/-- Types one of which is convertible to the other are related by what the comparison saw. -/
theorem Settled.related_of_convertible {source target : Ty} {s' : Store} (hsource : D source)
    (htarget : D target) (h : isConvertible source target s = .ok true s') :
    ∃ L, (∀ p ∈ L, Justified s D L p) ∧ Related s D L source target := by
  unfold isConvertible at h
  simp only [bind_ok, limit_ok, pure_ok] at h
  obtain ⟨n, _, ⟨-, rfl⟩, ⟨r, L⟩, s₁, hrun, rfl, rfl⟩ := h
  obtain ⟨rfl, hgrows, hseen⟩ := hD.unify_grows hsource htarget hrun
  have hL : ∀ p ∈ L, Justified s₁ D L p := fun p hp =>
    (hgrows.2 p hp).resolve_left (List.not_mem_nil)
  exact ⟨L, hL, hD.related_of_seen hL hseen⟩

/-- The array that a settled type is or points to is found. -/
theorem Settled.arrayBehind {t v : Ty} (ht : D t) (hv : Shape s t v) :
    ∃ x, (match v with | .pointer element _ => resolve element | _ => pure v : TypeM Ty) s = .ok x s ∧
      ∀ e n l, x = .array e n l ↔
        Shape s t (.array e n l) ∨ ∃ p l', Shape s t (.pointer p l') ∧ Shape s p (.array e n l) := by
  by_cases hpointer : ∃ p l, v = .pointer p l
  · obtain ⟨p, l', rfl⟩ := hpointer
    obtain ⟨x, hx, hshape, -⟩ := hD.resolve_ok (hD.mentions (hD.shape ht hv).1 .pointer)
    refine ⟨x, hx, fun e n l => ⟨?_, ?_⟩⟩
    · rintro rfl
      exact .inr ⟨p, l', hv, hshape⟩
    · rintro (harray | ⟨p', k, hp', harray⟩)
      · cases hv.unique harray
      · cases hv.unique hp'
        exact hshape.unique harray
  · refine ⟨v, ?_, fun e n l => ⟨?_, ?_⟩⟩
    · cases v
      case pointer p l => exact absurd ⟨p, l, rfl⟩ hpointer
      all_goals rfl
    · rintro rfl
      exact .inl hv
    · rintro (harray | ⟨p', k, hp', -⟩)
      · exact hv.unique harray
      · exact absurd ⟨p', k, hv.unique hp'⟩ hpointer

/-- A value of a type that decays is made a slice descriptor, and every other value is kept. -/
theorem Settled.coerce {d : Check.Directory} {st : Check.State} (hst : st.types = s)
    (e : Checked.Expr) {source target : Ty} (hsource : D source) (htarget : D target) :
    (Wraps s source target ∧
      ∃ length, Check.coerce e source target d st = .ok (.descriptor e length, target) st) ∨
    (¬ Wraps s source target ∧ Check.coerce e source target d st = .ok (e, source) st) := by
  subst hst
  obtain ⟨u, hu, hshape, -⟩ := hD.resolve_ok htarget
  obtain ⟨v, hv, hshape', hDv, -⟩ := hD.resolve_ok hsource
  by_cases hslice : ∃ w l, u = .slice w l
  · obtain ⟨w, l, rfl⟩ := hslice
    obtain ⟨x, hx, harray⟩ := hD.arrayBehind hsource hshape'
    have hrun : Check.coerce e source target d st = .ok (sliceOf e source target x) st := by
      refine onTypes_ok (bind_ok.2 ⟨_, _, hu, bind_ok.2 ⟨v, _, hv, ?_⟩⟩)
      cases v <;> exact bind_ok.2 ⟨x, _, hx, by cases x <;> rfl⟩
    by_cases hfixed : ∃ e' n l', n ≠ unsized ∧ x = .array e' n l'
    · obtain ⟨e', n, l', hn, rfl⟩ := hfixed
      refine .inl ⟨⟨⟨w, l, hshape⟩, e', n, l', hn, (harray e' n l').1 rfl⟩, n, ?_⟩
      rw [hrun, sliceOf, if_neg hn]
    · refine .inr ⟨fun h => ?_, ?_⟩
      · obtain ⟨-, e', n, l', hn, h⟩ := h
        exact hfixed ⟨e', n, l', hn, (harray e' n l').2 h⟩
      · rw [hrun]
        cases x
        case array e' n l' =>
          have hn : n = unsized := not_not.1 fun hn => hfixed ⟨e', n, l', hn, rfl⟩
          rw [sliceOf, if_pos hn]
        all_goals rfl
  · refine .inr ⟨fun h => ?_, onTypes_ok (bind_ok.2 ⟨u, _, hu, ?_⟩)⟩
    · obtain ⟨⟨w, l, hw⟩, -⟩ := h
      exact hslice ⟨w, l, hshape.unique hw⟩
    · cases u
      case slice w l => exact absurd ⟨w, l, rfl⟩ hslice
      all_goals rfl

end Settled

/-- **Conversion keeps the words of a value.** Of two settled types one of which is convertible to
the other, either the value is made a slice descriptor, or it is kept and the types have the same
words; and the arguments and the results of two types of functions have the same words. This holds
where every decay inside the types, which no descriptor is made for, keeps the words. -/
theorem convertible_keeps_words (st : Check.State) {D : Ty → Prop} (hD : Settled st.types D)
    (htext : TextTellsForm st.types D) (source target : Ty) (hsource : D source)
    (htarget : D target) {s' : Store}
    (hconvertible : isConvertible source target st.types = .ok true s')
    (hinside : ∀ c d, Inside st.types source target c d → Wraps st.types c d →
      SameWords st.types c d) (directory : Check.Directory) (e : Checked.Expr) :
    ((∃ length, Check.coerce e source target directory st =
        .ok (.descriptor e length, target) st) ∨
      Check.coerce e source target directory st = .ok (e, source) st ∧
        SameWords st.types source target) ∧
    ∀ as r l as' r' l', resolve source st.types = .ok (.function as r l) st.types →
      resolve target st.types = .ok (.function as' r' l') st.types →
        as.Forall₂ (SameWords st.types) as' ∧ SameWords st.types r r' := by
  obtain ⟨L, hL, hrelated⟩ := hD.related_of_convertible hsource htarget hconvertible
  constructor
  · obtain ⟨-, hwrap⟩ | ⟨hwraps, hkept⟩ := hD.coerce (d := directory) rfl e hsource htarget
    · exact .inl hwrap
    · exact .inr ⟨hkept, hD.sameWords_of_related htext hL hsource htarget hrelated
        (keeps_of_not_wraps hinside hwraps)⟩
  · intro as r l as' r' l' hfunction hfunction'
    obtain ⟨u, hu, hshape, hDu, -⟩ := hD.resolve_ok hsource
    obtain ⟨v, hv, hshape', hDv, -⟩ := hD.resolve_ok htarget
    cases hu.symm.trans hfunction
    cases hv.symm.trans hfunction'
    obtain hchanges | hform := hD.form_of_related htext hL hsource htarget hrelated hshape hshape'
    · -- a function has no other form
      cases hchanges with
      | decay h =>
        obtain ⟨⟨w, k, hw⟩, -⟩ := h
        cases hshape'.unique hw
      | descriptor h => cases hshape.unique h
      | record h => cases hshape.unique h
    · cases hform with
      | function hargs hres =>
        refine ⟨List.forall₂_iff_zip.2 ⟨hargs.length_eq, fun {a a'} haa' => ?_⟩, ?_⟩
        · exact (hD.sameWords_of_related htext hL
            (hD.mentions hDv (.argument (List.of_mem_zip haa').2))
            (hD.mentions hDu (.argument (List.of_mem_zip haa').1))
            ((List.forall₂_iff_zip.1 hargs).2 haa')
            (keeps_of_inside hinside (.argument hshape hshape' haa'))).symm
        · exact hD.sameWords_of_related htext hL (hD.mentions hDu .result)
            (hD.mentions hDv .result) hres (keeps_of_inside hinside (.result hshape hshape'))

/-- A list of blocks, under the name with index `id`. -/
def chain (id : Nat) (text : String) : Ty :=
  .struct [⟨"next", .pointer (.name id text none) none, none⟩,
    ⟨"block", .array .byte 4 none, none⟩] none

/-- Two names for such lists. -/
def chainStore : Store :=
  { names := #[{ binding := some { qualified := "global::First", type := chain 0 "First" } },
      { binding := some { qualified := "global::Second", type := chain 1 "Second" } }] }

/-- What the two lists are made of. -/
inductive ChainPart
  | byte
  | block
  | first
  | second
  | toFirst
  | toSecond
  | firstBody
  | secondBody
  deriving DecidableEq

namespace ChainPart

/-- The type of a part. -/
def type : ChainPart → Ty
  | byte => .byte
  | block => .array .byte 4 none
  | first => .name 0 "First" none
  | second => .name 1 "Second" none
  | toFirst => .pointer (.name 0 "First" none) none
  | toSecond => .pointer (.name 1 "Second" none) none
  | firstBody => chain 0 "First"
  | secondBody => chain 1 "Second"

/-- The mangled text of a part. -/
def text : ChainPart → String
  | byte => "byte"
  | block => "[byte; 4]"
  | first => "global::First"
  | second => "global::Second"
  | toFirst => "*global::First"
  | toSecond => "*global::Second"
  | firstBody => "struct \x7b next: *global::First; block: [byte; 4]; \x7d"
  | secondBody => "struct \x7b next: *global::Second; block: [byte; 4]; \x7d"

/-- The part that is the shape of a part. -/
def shape : ChainPart → ChainPart
  | first => firstBody
  | second => secondBody
  | p => p

/-- The mangled text of a part of the chain. -/
theorem mangle_eq (p : ChainPart) : chainStore.mangle p.type = .ok p.text := by
  cases p <;> rfl

/-- The parts of the chain have texts of their own. -/
theorem text_injective {p q : ChainPart} (h : p.text = q.text) : p = q := by
  cases p <;> cases q <;> first | rfl | exact absurd h (by decide)

/-- The shape of a part of the chain. -/
theorem shape_type (p : ChainPart) : Shape chainStore p.type p.shape.type := by
  cases p <;> first | exact ⟨1, rfl⟩ | exact ⟨2, rfl⟩

/-- The parts are settled. -/
theorem settled : Settled chainStore fun t => ∃ p : ChainPart, t = p.type where
  mentions := by
    rintro _ u ⟨p, rfl⟩ h
    cases p
    case byte => cases h
    case block => cases h; exact ⟨byte, rfl⟩
    case first =>
      cases h with
      | name h => exact ⟨firstBody, congrArg Binding.type (Option.some.inj (h.symm.trans rfl))⟩
    case second =>
      cases h with
      | name h => exact ⟨secondBody, congrArg Binding.type (Option.some.inj (h.symm.trans rfl))⟩
    case toFirst => cases h; exact ⟨first, rfl⟩
    case toSecond => cases h; exact ⟨second, rfl⟩
    case firstBody =>
      cases h with
      | member h =>
        obtain rfl | h := List.mem_cons.1 h
        · exact ⟨toFirst, rfl⟩
        · obtain rfl := List.mem_singleton.1 h
          exact ⟨block, rfl⟩
    case secondBody =>
      cases h with
      | member h =>
        obtain rfl | h := List.mem_cons.1 h
        · exact ⟨toSecond, rfl⟩
        · obtain rfl := List.mem_singleton.1 h
          exact ⟨block, rfl⟩
  name := by
    rintro id text l ⟨p, hp⟩
    cases p <;> cases hp <;> exact ⟨_, rfl⟩
  apply := by
    rintro id head text as l ⟨p, hp⟩
    cases p <;> cases hp
  var := by
    rintro v ⟨p, hp⟩
    cases p <;> cases hp
  template := by
    rintro id ⟨p, hp⟩
    cases p <;> cases hp
  error := by
    rintro l ⟨p, hp⟩
    cases p <;> cases hp
  dot := by
    rintro b m l ⟨p, hp⟩
    cases p <;> cases hp
  finite := by
    rintro _ ⟨p, rfl⟩
    cases p <;> exact ⟨_, _, rfl⟩

/-- The text of a part tells its form. -/
theorem textTellsForm : TextTellsForm chainStore fun t => ∃ p : ChainPart, t = p.type := by
  rintro _ _ a' b' ⟨p, rfl⟩ ⟨q, rfl⟩ ⟨x, hx, hx'⟩ ha' hb'
  have htext : p.text = q.text := by
    rw [mangle_eq] at hx hx'
    exact Except.ok.inj (hx.trans hx'.symm)
  obtain rfl := text_injective htext
  obtain rfl := ha'.unique (shape_type p)
  obtain rfl := hb'.unique (shape_type p)
  have hshape : p.shape.type.IsShape := by cases p <;> trivial
  refine ((Form.refl (fun _ => rfl) hshape).within settled.mentions ⟨_, rfl⟩ ⟨_, rfl⟩).mono ?_
  rintro _ _ ⟨⟨q, rfl⟩, -, rfl⟩
  exact ⟨q.text, mangle_eq q, mangle_eq q⟩

/-- The pairs of types inside the two lists: the links, the blocks and their words. -/
theorem inside_cases {c d : Ty} (h : Inside chainStore first.type second.type c d) :
    (c = toFirst.type ∧ d = toSecond.type) ∨ (c = block.type ∧ d = block.type) ∨
      c = byte.type ∧ d = byte.type := by
  induction h with
  | held h =>
    cases h with
    | element ha => cases ha.unique (shape_type first)
    | member ha hb hm =>
      cases ha.unique (shape_type first)
      cases hb.unique (shape_type second)
      obtain h | h := List.mem_cons.1 hm
      · cases h
        exact .inl ⟨rfl, rfl⟩
      · cases List.mem_singleton.1 h
        exact .inr (.inl ⟨rfl, rfl⟩)
  | argument ha => cases ha.unique (shape_type first)
  | result ha => cases ha.unique (shape_type first)
  | deeper _ h ih =>
    obtain ⟨rfl, rfl⟩ | ⟨rfl, rfl⟩ | ⟨rfl, rfl⟩ := ih
    · cases h with
      | element ha => cases ha.unique (shape_type toFirst)
      | member ha => cases ha.unique (shape_type toFirst)
    · cases h with
      | element ha hb =>
        cases ha.unique (shape_type block)
        cases hb.unique (shape_type block)
        exact .inr (.inr ⟨rfl, rfl⟩)
      | member ha => cases ha.unique (shape_type block)
    · cases h with
      | element ha => cases ha.unique (shape_type byte)
      | member ha => cases ha.unique (shape_type byte)

end ChainPart

/-- A list of blocks can be used under its other name and is kept as it is. -/
theorem convertible_keeps_words_chain :
    Check.coerce (.integer 0) ChainPart.first.type ChainPart.second.type (Check.Table.directory {})
        { types := chainStore } = .ok (.integer 0, ChainPart.first.type) { types := chainStore } ∧
      SameWords chainStore ChainPart.first.type ChainPart.second.type := by
  have hconvertible : isConvertible ChainPart.first.type ChainPart.second.type chainStore =
      .ok true chainStore := rfl
  have hinside (c d : Ty) (hcd : Inside chainStore ChainPart.first.type ChainPart.second.type c d)
      (hwraps : Wraps chainStore c d) : SameWords chainStore c d := by
    obtain ⟨⟨w, l, hw⟩, -⟩ := hwraps
    obtain ⟨-, rfl⟩ | ⟨-, rfl⟩ | ⟨-, rfl⟩ := ChainPart.inside_cases hcd
    · cases hw.unique (ChainPart.shape_type .toSecond)
    · cases hw.unique (ChainPart.shape_type .block)
    · cases hw.unique (ChainPart.shape_type .byte)
  obtain ⟨⟨length, h⟩ | h, -⟩ := convertible_keeps_words { types := chainStore } ChainPart.settled
    ChainPart.textTellsForm ChainPart.first.type ChainPart.second.type ⟨_, rfl⟩ ⟨_, rfl⟩
    hconvertible hinside (Check.Table.directory {}) (.integer 0)
  · cases h
  · exact h

/-- A struct with an array of five words. -/
def boxedArray : Ty := .struct [⟨"items", .array .byte 5 none, none⟩] none

/-- A struct with a slice. -/
def boxedSlice : Ty := .struct [⟨"items", .slice .byte none, none⟩] none

/-- An array that decays inside a struct changes its size, and no descriptor is made for it. -/
theorem inner_decay_changes_size :
    isConvertible boxedArray boxedSlice {} = .ok true {} ∧
    Check.coerce (.integer 0) boxedArray boxedSlice (Check.Table.directory {}) {} =
      .ok (.integer 0, boxedArray) {} ∧
    size boxedArray {} = .ok 5 {} ∧ size boxedSlice {} = .ok 3 {} :=
  ⟨rfl, rfl, rfl, rfl⟩

end Qll.Types
