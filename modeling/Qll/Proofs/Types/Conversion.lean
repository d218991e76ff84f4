import Mathlib.Data.List.Forall2
import Qll.Proofs.Types.Shape
import Qll.Types.Unify

/-!
# What a comparison of types has seen

A comparison that succeeds has compared the shapes of both types part by part, has met a fixed
array where a slice is wanted, or has met a pair of names that it had written down. The pairs it
wrote down were compared in turn, so together the pairs seen are closed under taking parts.
-/

namespace Qll.Types

open Qll.Computation

/-- Two shapes of one form, with related parts. Arguments are related in the opposite direction. -/
inductive Form (R : Ty → Ty → Prop) : Ty → Ty → Prop
  | builtin {kind l l'} : Form R (.builtin kind l) (.builtin kind l')
  | pointer {e e' l l'} (h : R e e') : Form R (.pointer e l) (.pointer e' l')
  | slice {e e' l l'} (h : R e e') : Form R (.slice e l) (.slice e' l')
  | array {e e' n l l'} (h : R e e') : Form R (.array e n l) (.array e' n l')
  | struct {ms ms' l l'} (h : ms.Forall₂ (fun m m' => m.name = m'.name ∧ R m.type m'.type) ms') :
      Form R (.struct ms l) (.struct ms' l')
  | function {as as' r r' l l'} (h : as.Forall₂ (fun a a' => R a' a) as') (hr : R r r') :
      Form R (.function as r l) (.function as' r' l')

/-- Lists are compared through a third list. -/
theorem forall₂_comp {α β γ : Type} {R : α → β → Prop} {R' : β → γ → Prop} {T : α → γ → Prop}
    (h : ∀ x y z, R x y → R' y z → T x z) :
    ∀ {as : List α} {bs : List β} {cs : List γ}, as.Forall₂ R bs → bs.Forall₂ R' cs → as.Forall₂ T cs
  | _, _, _, .nil, .nil => .nil
  | _, _, _, .cons ha has, .cons hb hbs => .cons (h _ _ _ ha hb) (forall₂_comp h has hbs)

namespace Form

variable {R R' T : Ty → Ty → Prop} {a b c : Ty}

/-- Parts related in one way are related in every wider way. -/
theorem mono (hR : ∀ x y, R x y → T x y) (h : Form R a b) : Form T a b := by
  cases h with
  | builtin => exact .builtin
  | pointer h => exact .pointer (hR _ _ h)
  | slice h => exact .slice (hR _ _ h)
  | array h => exact .array (hR _ _ h)
  | struct h => exact .struct (h.imp fun _ _ h => ⟨h.1, hR _ _ h.2⟩)
  | function h hr => exact .function (h.imp fun _ _ h => hR _ _ h) (hR _ _ hr)

/-- A shape has its own form. -/
theorem refl (hR : ∀ x, R x x) (h : a.IsShape) : Form R a a := by
  cases a
  case builtin => exact .builtin
  case pointer => exact .pointer (hR _)
  case slice => exact .slice (hR _)
  case array => exact .array (hR _)
  case struct => exact .struct (List.forall₂_same.2 fun m _ => ⟨rfl, hR _⟩)
  case function => exact .function (List.forall₂_same.2 fun m _ => hR _) (hR _)
  all_goals exact absurd h id

/-- Forms are compared through a third shape. -/
theorem comp (hl : ∀ x y z, R x y → R' y z → T x z) (hr : ∀ x y z, R' x y → R y z → T x z)
    (h : Form R a b) (h' : Form R' b c) : Form T a c := by
  cases h with
  | builtin => cases h'; exact .builtin
  | pointer h => cases h' with | pointer h' => exact .pointer (hl _ _ _ h h')
  | slice h => cases h' with | slice h' => exact .slice (hl _ _ _ h h')
  | array h => cases h' with | array h' => exact .array (hl _ _ _ h h')
  | struct h =>
    cases h' with
    | struct h' =>
      exact .struct (forall₂_comp (fun _ _ _ hm hm' => ⟨hm.1.trans hm'.1, hl _ _ _ hm.2 hm'.2⟩) h h')
  | function h hres =>
    cases h' with
    | function h' hres' =>
      exact .function (forall₂_comp (fun x y z ha ha' => hr z y x ha' ha) h h')
        (hl _ _ _ hres hres')

/-- The parts are in the families with what their members mention that both shapes are in. -/
theorem within {s : Store} {D : Ty → Prop} (hmentions : ∀ {t u}, D t → Mentions s t u → D u) (ha : D a)
    (hb : D b) (h : Form R a b) : Form (fun x y => D x ∧ D y ∧ R x y) a b := by
  cases h with
  | builtin => exact .builtin
  | pointer h => exact .pointer ⟨hmentions ha .pointer, hmentions hb .pointer, h⟩
  | slice h => exact .slice ⟨hmentions ha .slice, hmentions hb .slice, h⟩
  | array h => exact .array ⟨hmentions ha .array, hmentions hb .array, h⟩
  | struct h =>
    refine .struct (List.forall₂_iff_zip.2 ⟨h.length_eq, fun {m m'} hm => ?_⟩)
    obtain ⟨hname, hR⟩ := (List.forall₂_iff_zip.1 h).2 hm
    exact ⟨hname, hmentions ha (.member (List.of_mem_zip hm).1),
      hmentions hb (.member (List.of_mem_zip hm).2), hR⟩
  | function h hr =>
    refine .function (List.forall₂_iff_zip.2 ⟨h.length_eq, fun {x y} hxy => ?_⟩)
      ⟨hmentions ha .result, hmentions hb .result, hr⟩
    exact ⟨hmentions hb (.argument (List.of_mem_zip hxy).2),
      hmentions ha (.argument (List.of_mem_zip hxy).1), (List.forall₂_iff_zip.1 h).2 hxy⟩

end Form

/-- A fixed array, or a pointer to one, stands where a slice is wanted. -/
def Wraps (s : Store) (a b : Ty) : Prop :=
  (∃ w l, Shape s b (.slice w l)) ∧ ∃ e n l, n ≠ unsized ∧
    (Shape s a (.array e n l) ∨ ∃ p l', Shape s a (.pointer p l') ∧ Shape s p (.array e n l))

/-- The members of a struct laid out like a slice descriptor. -/
inductive SliceLike (s : Store) : List (Member Ty) → Prop
  | mk {address length capacity : Member Ty} {e l l' l''}
      (hnames : address.name = "pointer" ∧ length.name = "length" ∧ capacity.name = "capacity")
      (haddress : Shape s address.type (.pointer e l))
      (hlength : Shape s length.type (.builtin .byte l'))
      (hcapacity : Shape s capacity.type (.builtin .byte l'')) :
      SliceLike s [address, length, capacity]

/-- Two types with shapes of different forms, one of which can be used as the other. -/
inductive Changes (s : Store) (a b : Ty) : Prop
  | decay (h : Wraps s a b)
  | descriptor {ms w l l'} (ha : Shape s a (.struct ms l)) (hb : Shape s b (.slice w l'))
      (h : SliceLike s ms)
  | record {ms e l l'} (ha : Shape s a (.slice e l)) (hb : Shape s b (.struct ms l'))
      (h : SliceLike s ms)

/-- A shape that a type leads to is its shape. -/
theorem Ty.IsShape.of_leads {s : Store} {t u : Ty} (hu : u.IsShape) (h : Leads s t u) :
    Shape s t u :=
  (shape_iff_of_leads h).2 hu.self

/-- A shape leads to itself only. -/
theorem Ty.IsShape.eq_of_leads {s : Store} {t u : Ty} (ht : t.IsShape) (h : Leads s t u) :
    u = t := by
  obtain rfl | ⟨v, hv, -⟩ := h.cases_head
  · rfl
  · cases hv <;> exact absurd ht id

/-- A shape is no name. -/
theorem Ty.IsShape.isNamed {t : Ty} (ht : t.IsShape) : t.isNamed = false := by
  cases t <;> first | rfl | exact absurd ht id

/-- A pair that was compared, with success, before the pairs in `L` were written down. -/
def Seen (s : Store) (D : Ty → Prop) (L : List (String × String)) (a b : Ty) : Prop :=
  D a ∧ D b ∧ ∃ n L₁ L₂, unifyWithin .conversion n a b L₁ s = .ok (true, L₂) s ∧ L₂ ⊆ L

/-- Two types with the names of a pair, the shapes of which were compared. -/
def Justified (s : Store) (D : Ty → Prop) (L : List (String × String)) (p : String × String) :
    Prop :=
  ∃ a b a' b', D a ∧ D b ∧ s.mangle a = .ok p.1 ∧ s.mangle b = .ok p.2 ∧
    Leads s a a' ∧ Leads s b b' ∧ a'.IsShape ∧ b'.IsShape ∧ Seen s D L a' b'

/-- The pairs written down since `L` are justified. -/
def Grows (s : Store) (D : Ty → Prop) (L L' : List (String × String)) : Prop :=
  L ⊆ L' ∧ ∀ p ∈ L', p ∈ L ∨ Justified s D L' p

section Seen

variable {s : Store} {D : Ty → Prop} {L L' L'' : List (String × String)} {a b : Ty}

/-- More pairs may have been written down. -/
theorem Seen.mono (h : Seen s D L a b) (hL : L ⊆ L') : Seen s D L' a b := by
  obtain ⟨ha, hb, n, L₁, L₂, hn, hL₂⟩ := h
  exact ⟨ha, hb, n, L₁, L₂, hn, fun _ hp => hL (hL₂ hp)⟩

/-- More pairs may have been written down. -/
theorem Justified.mono {p : String × String} (h : Justified s D L p) (hL : L ⊆ L') :
    Justified s D L' p := by
  obtain ⟨a, b, a', b', ha, hb, hx, hy, hleads, hleads', hs, hs', hseen⟩ := h
  exact ⟨a, b, a', b', ha, hb, hx, hy, hleads, hleads', hs, hs', hseen.mono hL⟩

/-- Nothing is written down where nothing is compared. -/
theorem Grows.refl : Grows s D L L := ⟨fun _ hp => hp, fun _ hp => .inl hp⟩

/-- What is written down in two steps is justified in both. -/
theorem Grows.trans (h : Grows s D L L') (h' : Grows s D L' L'') : Grows s D L L'' := by
  refine ⟨fun p hp => h'.1 (h.1 hp), fun p hp => ?_⟩
  obtain hp | hp := h'.2 p hp
  · exact (h.2 p hp).imp_right (·.mono h'.1)
  · exact .inr hp

end Seen

section Settled

variable {s : Store} {D : Ty → Prop} (hD : Settled s D)

include hD

/-- A struct taken for a slice descriptor is laid out like one. -/
theorem Settled.sliceShape {ms : List (Member Ty)} {r : Option Ty} {s' : Store}
    (hms : ∀ m ∈ ms, D m.type) (h : sliceShape? ms s = .ok r s') :
    s' = s ∧ ∀ e ∈ r, D e ∧ SliceLike s ms := by
  unfold sliceShape? at h
  split at h
  · rename_i address length capacity
    split at h
    · obtain ⟨rfl, rfl⟩ := pure_ok.1 h
      exact ⟨rfl, by simp⟩
    · rename_i hnames
      have haddress : D address.type := hms _ (by simp)
      obtain ⟨u, s₁, hu, h₁⟩ := bind_ok.1 h
      obtain ⟨rfl, hleads, hshape⟩ := hD.dealias haddress hu
      split at h₁
      · obtain ⟨u', s₁, hu', h₂⟩ := bind_ok.1 h₁
        obtain ⟨rfl, hleads', hshape'⟩ := hD.dealias (hms length (by simp)) hu'
        split at h₂
        · obtain ⟨u'', s₁, hu'', h₃⟩ := bind_ok.1 h₂
          obtain ⟨rfl, hleads'', hshape''⟩ := hD.dealias (hms capacity (by simp)) hu''
          split at h₃
          · obtain ⟨rfl, rfl⟩ := pure_ok.1 h₃
            refine ⟨rfl, ?_⟩
            rintro e ⟨⟩
            refine ⟨hD.mentions (hD.leads haddress hleads) .pointer, .mk ?_
              (hshape.of_leads hleads) (hshape'.of_leads hleads') (hshape''.of_leads hleads'')⟩
            simpa only [not_or, not_not] using hnames
          · obtain ⟨rfl, rfl⟩ := pure_ok.1 h₃
            exact ⟨rfl, by simp⟩
        · obtain ⟨rfl, rfl⟩ := pure_ok.1 h₂
          exact ⟨rfl, by simp⟩
      · obtain ⟨rfl, rfl⟩ := pure_ok.1 h₁
        exact ⟨rfl, by simp⟩
  · obtain ⟨rfl, rfl⟩ := pure_ok.1 h
    exact ⟨rfl, by simp⟩

/-- Where one shape becomes another, the elements to compare are settled. -/
theorem Settled.decayElements {a b : Ty} {r : Option (Ty × Ty)} {s' : Store} (ha : D a) (hb : D b)
    (h : decayElements? a b s = .ok r s') :
    s' = s ∧ ∀ p ∈ r, D p.1 ∧ D p.2 ∧ Changes s a b := by
  unfold decayElements? at h
  split at h
  · rename_i e l w l'
    obtain ⟨u, s₁, hu, h₁⟩ := bind_ok.1 h
    have he : D e := hD.mentions ha .pointer
    obtain ⟨rfl, hleads, hshape⟩ := hD.dealias he hu
    split at h₁
    · rename_i element n l''
      obtain ⟨rfl, rfl⟩ := pure_ok.1 h₁
      refine ⟨rfl, fun p hp => ?_⟩
      split at hp
      · simp at hp
      · obtain rfl : (element, w) = p := by simpa using hp
        refine ⟨hD.mentions (hD.leads he hleads) .array, hD.mentions hb .slice, .decay ⟨⟨w, l', ?_⟩,
          element, n, l'', ‹_›, .inr ⟨e, l, ?_, hshape.of_leads hleads⟩⟩⟩
        · exact Ty.IsShape.self trivial
        · exact Ty.IsShape.self trivial
    · obtain ⟨rfl, rfl⟩ := pure_ok.1 h₁
      exact ⟨rfl, by simp⟩
  · rename_i element n l w l'
    obtain ⟨rfl, rfl⟩ := pure_ok.1 h
    refine ⟨rfl, fun p hp => ?_⟩
    split at hp
    · simp at hp
    · obtain rfl : (element, w) = p := by simpa using hp
      refine ⟨hD.mentions ha .array, hD.mentions hb .slice, .decay ⟨⟨w, l', ?_⟩,
        element, n, l, ‹_›, .inl ?_⟩⟩
      · exact Ty.IsShape.self trivial
      · exact Ty.IsShape.self trivial
  · rename_i ms l w l'
    obtain ⟨r', s₁, hr', h₁⟩ := bind_ok.1 h
    obtain ⟨rfl, hlike⟩ := hD.sliceShape (fun m hm => hD.mentions ha (.member hm)) hr'
    obtain ⟨rfl, rfl⟩ := pure_ok.1 h₁
    refine ⟨rfl, fun p hp => ?_⟩
    obtain ⟨e, he, rfl⟩ := Option.map_eq_some_iff.1 hp
    exact ⟨(hlike e he).1, hD.mentions hb .slice,
      .descriptor (Ty.IsShape.self trivial) (Ty.IsShape.self trivial) (hlike e he).2⟩
  · rename_i e l ms l'
    obtain ⟨r', s₁, hr', h₁⟩ := bind_ok.1 h
    obtain ⟨rfl, hlike⟩ := hD.sliceShape (fun m hm => hD.mentions hb (.member hm)) hr'
    obtain ⟨rfl, rfl⟩ := pure_ok.1 h₁
    refine ⟨rfl, fun p hp => ?_⟩
    obtain ⟨w, hw, rfl⟩ := Option.map_eq_some_iff.1 hp
    exact ⟨hD.mentions ha .slice, (hlike w hw).1,
      .record (Ty.IsShape.self trivial) (Ty.IsShape.self trivial) (hlike w hw).2⟩
  · obtain ⟨rfl, rfl⟩ := pure_ok.1 h
    exact ⟨rfl, by simp⟩

/-- Stripping a member type leads to a type that is none. -/
theorem Settled.stripDot {t u : Ty} {s' : Store} (ht : D t) (hvar : ∀ v, t ≠ .var v)
    (h : stripDot t s = .ok u s') : s' = s ∧ Leads s t u ∧ (u.IsShape ∨ u.isNamed) := by
  unfold Types.stripDot at h
  split at h
  · obtain ⟨rfl, hleads, hshape⟩ := hD.dealias ht h
    exact ⟨rfl, hleads, .inl hshape⟩
  · rename_i hdot
    obtain ⟨rfl, rfl⟩ := pure_ok.1 h
    refine ⟨rfl, .refl, ?_⟩
    obtain hs | hn | ⟨v, rfl⟩ | ⟨b, m, l, rfl⟩ := hD.isShape_or ht
    · exact .inl hs
    · exact .inr hn
    · exact absurd rfl (hvar v)
    · exact absurd rfl (hdot b m l)

/-- Asking whether a settled type is the error type gives no and leaves the store. -/
theorem Settled.isError {t : Ty} {r : Bool} {s' : Store} (ht : D t)
    (h : isError t s = .ok r s') : r = false ∧ s' = s := by
  obtain ⟨hr, rfl⟩ := read_ok.1 h
  refine ⟨?_, rfl⟩
  cases r with
  | false => rfl
  | true => exact absurd hr (hD.isErrorWithin ht)

/-- What one step of a comparison that succeeds has found: one tree, a pair of names that was
written down or is written down now, two shapes of different forms, or two of one form. -/
theorem Settled.unify_cases {n : Nat} {a b : Ty} {L L' : List (String × String)} {s' : Store}
    (ha : D a) (hb : D b) (h : unifyWithin .conversion (n + 1) a b L s = .ok (true, L') s') :
    ∃ a' b', Leads s a a' ∧ Leads s b b' ∧
      ((a'.same b' ∧ L' = L ∧ s' = s) ∨
       ((a'.isNamed ∨ b'.isNamed) ∧ ∃ x y, s.mangle a' = .ok x ∧ s.mangle b' = .ok y ∧
         ((x = y ∧ L' = L ∧ s' = s) ∨ ((x, y) ∈ L ∧ L' = L ∧ s' = s) ∨
          ∃ a'' b'', Leads s a' a'' ∧ Leads s b' b'' ∧ a''.IsShape ∧ b''.IsShape ∧
            unifyWithin .conversion n a'' b'' ((x, y) :: L) s = .ok (true, L') s')) ∨
       (a'.IsShape ∧ b'.IsShape ∧
         ((∃ e w, D e ∧ D w ∧ Changes s a' b' ∧
            unifyWithin .conversion n e w L s = .ok (true, L') s') ∨
          partsAgree (unifyWithin .conversion n) a' b' L s = .ok (true, L') s'))) := by
  unfold unifyWithin at h
  obtain ⟨a₁, _, hread, h₁⟩ := inner_lift_ok.1 h
  obtain ⟨hnormal, rfl⟩ := read_ok.1 hread
  obtain ⟨b₁, _, hread, h₂⟩ := inner_lift_ok.1 h₁
  obtain ⟨hnormal', rfl⟩ := read_ok.1 hread
  obtain ⟨hleads, hvar⟩ := hD.normalize ha hnormal
  obtain ⟨hleads', hvar'⟩ := hD.normalize hb hnormal'
  have ha₁ := hD.leads ha hleads
  have hb₁ := hD.leads hb hleads'
  by_cases hsame : a₁.same b₁
  · rw [if_pos hsame] at h₂
    obtain ⟨-, rfl, rfl⟩ := inner_pure_ok.1 h₂
    exact ⟨a₁, b₁, hleads, hleads', .inl ⟨hsame, rfl, rfl⟩⟩
  rw [if_neg hsame] at h₂
  obtain ⟨_, _, herror, h₃⟩ := inner_lift_ok.1 h₂
  obtain ⟨rfl, rfl⟩ := hD.isError ha₁ herror
  rw [if_neg Bool.false_ne_true] at h₃
  obtain ⟨_, _, herror, h₄⟩ := inner_lift_ok.1 h₃
  obtain ⟨rfl, rfl⟩ := hD.isError hb₁ herror
  rw [if_neg Bool.false_ne_true] at h₄
  split at h₄
  · exact absurd rfl (hvar _)
  · exact absurd rfl (hvar' _)
  obtain ⟨a₂, _, hstrip, h₅⟩ := inner_lift_ok.1 h₄
  obtain ⟨rfl, hdot, hform⟩ := hD.stripDot ha₁ hvar hstrip
  obtain ⟨b₂, _, hstrip, h₆⟩ := inner_lift_ok.1 h₅
  obtain ⟨rfl, hdot', hform'⟩ := hD.stripDot hb₁ hvar' hstrip
  have ha₂ := hD.leads ha₁ hdot
  have hb₂ := hD.leads hb₁ hdot'
  refine ⟨a₂, b₂, hleads.trans hdot, hleads'.trans hdot', .inr ?_⟩
  rw [if_neg (by decide)] at h₆
  by_cases hnamed : a₂.isNamed || b₂.isNamed
  · rw [if_pos hnamed] at h₆
    left
    obtain ⟨x, _, hread, h₇⟩ := inner_lift_ok.1 h₆
    obtain ⟨hx, rfl⟩ := read_ok.1 hread
    obtain ⟨y, _, hread, h₈⟩ := inner_lift_ok.1 h₇
    obtain ⟨hy, rfl⟩ := read_ok.1 hread
    refine ⟨by simpa only [Bool.or_eq_true] using hnamed, x, y, hx, hy, ?_⟩
    by_cases hpair : x = y
    · rw [if_pos hpair] at h₈
      obtain ⟨-, rfl, rfl⟩ := inner_pure_ok.1 h₈
      exact .inl ⟨hpair, rfl, rfl⟩
    rw [if_neg hpair] at h₈
    obtain ⟨M, _, _, hget, h₉⟩ := inner_bind_ok.1 h₈
    obtain ⟨rfl, rfl, rfl⟩ := inner_pure_ok.1 hget
    split at h₉
    · rename_i hmem
      obtain ⟨-, rfl, rfl⟩ := inner_pure_ok.1 h₉
      exact .inr (.inl ⟨List.contains_iff_mem.1 hmem, rfl, rfl⟩)
    obtain ⟨_, _, _, hmodify, k₁⟩ := inner_bind_ok.1 h₉
    obtain ⟨-, rfl, rfl⟩ := inner_pure_ok.1 hmodify
    obtain ⟨a₃, _, hdealias, k₂⟩ := inner_lift_ok.1 k₁
    obtain ⟨rfl, hname, hshape⟩ := hD.dealias ha₂ hdealias
    obtain ⟨b₃, _, hdealias, k₃⟩ := inner_lift_ok.1 k₂
    obtain ⟨rfl, hname', hshape'⟩ := hD.dealias hb₂ hdealias
    obtain ⟨_, _, herror, k₄⟩ := inner_lift_ok.1 k₃
    obtain ⟨rfl, rfl⟩ := hD.isError (hD.leads ha₂ hname) herror
    rw [if_neg Bool.false_ne_true] at k₄
    obtain ⟨_, _, herror, k₅⟩ := inner_lift_ok.1 k₄
    obtain ⟨rfl, rfl⟩ := hD.isError (hD.leads hb₂ hname') herror
    rw [if_neg Bool.false_ne_true] at k₅
    exact .inr (.inr ⟨a₃, b₃, hname, hname', hshape, hshape', k₅⟩)
  · rw [if_neg hnamed] at h₆
    right
    have hnot : a₂.isNamed = false ∧ b₂.isNamed = false := by
      simpa only [Bool.not_eq_true, Bool.or_eq_false_iff] using hnamed
    refine ⟨hform.resolve_right (by simp [hnot.1]), hform'.resolve_right (by simp [hnot.2]), ?_⟩
    obtain ⟨r, _, hdecay, h₇⟩ := inner_lift_ok.1 h₆
    obtain ⟨rfl, hr⟩ := hD.decayElements ha₂ hb₂ hdecay
    split at h₇
    · rename_i e w
      obtain ⟨he, hw, hchanges⟩ := hr (e, w) rfl
      exact .inl ⟨e, w, he, hw, hchanges, h₇⟩
    · exact .inr h₇

section Parts

variable {agree : Ty → Ty → UnifyM Bool}
  (hagree : ∀ {a b L L' s'}, D a → D b → agree a b L s = .ok (true, L') s' →
    s' = s ∧ Grows s D L L' ∧ Seen s D L' a b)

omit hD in
include hagree in
/-- All pairs of two lists that agree were seen. -/
theorem allAgree_ok {as bs : List Ty} {L L' : List (String × String)} {s' : Store}
    (has : ∀ a ∈ as, D a) (hbs : ∀ b ∈ bs, D b)
    (h : allAgree agree as bs L s = .ok (true, L') s') :
    s' = s ∧ Grows s D L L' ∧ as.Forall₂ (Seen s D L') bs := by
  induction as generalizing bs L with
  | nil =>
    cases bs with
    | nil =>
      obtain ⟨-, rfl, rfl⟩ := inner_pure_ok.1 h
      exact ⟨rfl, .refl, .nil⟩
    | cons b bs => exact absurd (inner_pure_ok.1 h).1 Bool.false_ne_true
  | cons a as ih =>
    cases bs with
    | nil => exact absurd (inner_pure_ok.1 h).1 Bool.false_ne_true
    | cons b bs =>
      obtain ⟨r, L₁, s₁, hab, hrest⟩ := inner_bind_ok.1 h
      cases r with
      | false => exact absurd (inner_pure_ok.1 hrest).1 Bool.false_ne_true
      | true =>
        obtain ⟨rfl, hgrows, hseen⟩ := hagree (has a (by simp)) (hbs b (by simp)) hab
        obtain ⟨rfl, hgrows', hall⟩ := ih (fun x hx => has x (by simp [hx]))
          (fun x hx => hbs x (by simp [hx])) hrest
        exact ⟨rfl, hgrows.trans hgrows', .cons (hseen.mono hgrows'.1) hall⟩

omit hD in
include hagree in
/-- All pairs of members that agree were seen. -/
theorem membersAgree_ok {as bs : List (Member Ty)} {L L' : List (String × String)} {s' : Store}
    (has : ∀ a ∈ as, D a.type) (hbs : ∀ b ∈ bs, D b.type)
    (h : membersAgree agree as bs L s = .ok (true, L') s') :
    s' = s ∧ Grows s D L L' ∧
      as.Forall₂ (fun m m' => m.name = m'.name ∧ Seen s D L' m.type m'.type) bs := by
  induction as generalizing bs L with
  | nil =>
    cases bs with
    | nil =>
      obtain ⟨-, rfl, rfl⟩ := inner_pure_ok.1 h
      exact ⟨rfl, .refl, .nil⟩
    | cons b bs => exact absurd (inner_pure_ok.1 h).1 Bool.false_ne_true
  | cons a as ih =>
    cases bs with
    | nil => exact absurd (inner_pure_ok.1 h).1 Bool.false_ne_true
    | cons b bs =>
      unfold membersAgree at h
      split at h
      · exact absurd (inner_pure_ok.1 h).1 Bool.false_ne_true
      rename_i hname
      obtain ⟨r, L₁, s₁, hab, hrest⟩ := inner_bind_ok.1 h
      cases r with
      | false => exact absurd (inner_pure_ok.1 hrest).1 Bool.false_ne_true
      | true =>
        obtain ⟨rfl, hgrows, hseen⟩ := hagree (has a (by simp)) (hbs b (by simp)) hab
        obtain ⟨rfl, hgrows', hall⟩ := ih (fun x hx => has x (by simp [hx]))
          (fun x hx => hbs x (by simp [hx])) hrest
        exact ⟨rfl, hgrows.trans hgrows',
          .cons ⟨not_not.1 hname, hseen.mono hgrows'.1⟩ hall⟩

include hagree in
/-- Two shapes that agree in their parts have one form, and the parts were seen. -/
theorem Settled.partsAgree {a b : Ty} {L L' : List (String × String)} {s' : Store} (ha : D a)
    (hb : D b) (hshape : a.IsShape) (h : partsAgree agree a b L s = .ok (true, L') s') :
    s' = s ∧ Grows s D L L' ∧ Form (Seen s D L') a b := by
  unfold Types.partsAgree at h
  split at h
  case h_1 kind l kind' l' =>
    obtain ⟨hkind, rfl, rfl⟩ := inner_pure_ok.1 h
    obtain rfl : kind = kind' := by simpa using hkind
    exact ⟨rfl, .refl, .builtin⟩
  case h_2 => exact absurd hshape id
  case h_3 =>
    obtain ⟨hs, hgrows, hseen⟩ := hagree (hD.mentions ha .pointer) (hD.mentions hb .pointer) h
    exact ⟨hs, hgrows, .pointer hseen⟩
  case h_4 =>
    obtain ⟨hs, hgrows, hseen⟩ := hagree (hD.mentions ha .slice) (hD.mentions hb .slice) h
    exact ⟨hs, hgrows, .slice hseen⟩
  case h_5 e n l e' n' l' =>
    split at h
    · exact absurd (inner_pure_ok.1 h).1 Bool.false_ne_true
    obtain rfl : n = n' := by simpa using ‹¬ n ≠ n'›
    obtain ⟨hs, hgrows, hseen⟩ := hagree (hD.mentions ha .array) (hD.mentions hb .array) h
    exact ⟨hs, hgrows, .array hseen⟩
  case h_6 ms l ms' l' =>
    split at h
    · exact absurd (inner_pure_ok.1 h).1 Bool.false_ne_true
    obtain ⟨hs, hgrows, hseen⟩ := membersAgree_ok hagree (fun m hm => hD.mentions ha (.member hm))
      (fun m hm => hD.mentions hb (.member hm)) h
    exact ⟨hs, hgrows, .struct hseen⟩
  case h_7 as r l as' r' l' =>
    split at h
    · exact absurd (inner_pure_ok.1 h).1 Bool.false_ne_true
    obtain ⟨ok, L₁, s₁, hall, hrest⟩ := inner_bind_ok.1 h
    cases ok with
    | false => exact absurd (inner_pure_ok.1 hrest).1 Bool.false_ne_true
    | true =>
      obtain ⟨rfl, hgrows, hseen⟩ := allAgree_ok hagree (fun x hx => hD.mentions hb (.argument hx))
        (fun x hx => hD.mentions ha (.argument hx)) hall
      obtain ⟨rfl, hgrows', hseen'⟩ := hagree (hD.mentions ha .result) (hD.mentions hb .result) hrest
      exact ⟨rfl, hgrows.trans hgrows',
        .function (hseen.flip.imp fun _ _ h => Seen.mono h hgrows'.1) hseen'⟩
  case h_8 => exact absurd hshape id
  case h_9 => exact absurd hshape id
  case h_10 => exact absurd (inner_pure_ok.1 h).1 Bool.false_ne_true

end Parts

/-- A comparison that succeeds leaves the store, and what it wrote down is justified. -/
theorem Settled.unify_grows {n : Nat} {a b : Ty} {L L' : List (String × String)} {s' : Store}
    (ha : D a) (hb : D b) (h : unifyWithin .conversion n a b L s = .ok (true, L') s') :
    s' = s ∧ Grows s D L L' ∧ Seen s D L' a b := by
  induction n generalizing a b L L' s' with
  | zero => exact absurd h throw_ok
  | succ n ih =>
    suffices hrun : s' = s ∧ Grows s D L L' by
      obtain ⟨rfl, hgrows⟩ := hrun
      exact ⟨rfl, hgrows, ha, hb, n + 1, L, L', h, fun _ hp => hp⟩
    obtain ⟨a', b', hleads, hleads', ⟨-, rfl, rfl⟩ | ⟨-, x, y, hx, hy, hnamed⟩ | ⟨hs, hs', hparts⟩⟩ :=
      hD.unify_cases ha hb h
    · exact ⟨rfl, .refl⟩
    · obtain ⟨-, rfl, rfl⟩ | ⟨-, rfl, rfl⟩ | ⟨a'', b'', hname, hname', hs, hs', hrest⟩ := hnamed
      · exact ⟨rfl, .refl⟩
      · exact ⟨rfl, .refl⟩
      have ha' := hD.leads ha hleads
      have hb' := hD.leads hb hleads'
      obtain ⟨rfl, hgrows, hseen⟩ := ih (hD.leads ha' hname) (hD.leads hb' hname') hrest
      -- the pair written down here is justified by the comparison of its shapes
      have hpair : Justified s' D L' (x, y) :=
        ⟨a', b', a'', b'', ha', hb', hx, hy, hname, hname', hs, hs', hseen⟩
      refine ⟨rfl, fun p hp => hgrows.1 (List.mem_cons_of_mem _ hp), fun p hp => ?_⟩
      obtain hp | hp := hgrows.2 p hp
      · obtain rfl | hp := List.mem_cons.1 hp
        · exact .inr hpair
        · exact .inl hp
      · exact .inr hp
    · have ha' := hD.leads ha hleads
      have hb' := hD.leads hb hleads'
      obtain ⟨e, w, he, hw, -, hrest⟩ | hparts := hparts
      · obtain ⟨rfl, hgrows, -⟩ := ih he hw hrest
        exact ⟨rfl, hgrows⟩
      · obtain ⟨rfl, hgrows, -⟩ := hD.partsAgree ih ha' hb' hs hparts
        exact ⟨rfl, hgrows⟩

end Settled

end Qll.Types
