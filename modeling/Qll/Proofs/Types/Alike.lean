import Qll.Proofs.Types.Conversion

/-!
# Types that are one type

Two types are alike when their shapes have one form with parts that are alike again. Types that are
the same tree are alike, and so are types with one mangled text where the text of a type tells its
form. What a successful comparison relates is then related part by part, whichever of the types
with one text were compared.
-/

namespace Qll.Types

open Qll.Computation

mutual

/-- A tree is the same as itself. -/
theorem Ty.same_refl : ∀ t : Ty, t.same t
  | .builtin .. => by simp [Ty.same]
  | .name .. => by simp [Ty.same]
  | .pointer e _ => by simp [Ty.same, Ty.same_refl e]
  | .slice e _ => by simp [Ty.same, Ty.same_refl e]
  | .array e _ _ => by simp [Ty.same, Ty.same_refl e]
  | .struct ms _ => by simp [Ty.same, sameMembers_refl ms]
  | .function as r _ => by simp [Ty.same, sameList_refl as, Ty.same_refl r]
  | .apply .. => by simp [Ty.same]
  | .dot b _ _ => by simp [Ty.same, Ty.same_refl b]
  | .var _ => by simp [Ty.same]
  | .template _ => by simp [Ty.same]

/-- A list of types is the same as itself. -/
theorem sameList_refl : ∀ ts : List Ty, sameList ts ts
  | [] => rfl
  | t :: ts => by simp [sameList, Ty.same_refl t, sameList_refl ts]

/-- A list of members is the same as itself. -/
theorem sameMembers_refl : ∀ ms : List (Member Ty), sameMembers ms ms
  | [] => rfl
  | ⟨_, t, _⟩ :: ms => by simp [sameMembers, Ty.same_refl t, sameMembers_refl ms]

end

mutual

/-- Sameness is symmetric. -/
theorem Ty.same_symm : ∀ {t u : Ty}, t.same u → u.same t
  | .builtin .., u, h => by cases u <;> simp_all [Ty.same]
  | .name .., u, h => by cases u <;> simp_all [Ty.same]
  | .pointer e _, u, h => by
    cases u <;> simp only [Ty.same, Bool.and_eq_true, beq_iff_eq, Bool.false_eq_true] at h ⊢
    exact ⟨Ty.same_symm h.1, h.2.symm⟩
  | .slice e _, u, h => by
    cases u <;> simp only [Ty.same, Bool.and_eq_true, beq_iff_eq, Bool.false_eq_true] at h ⊢
    exact ⟨Ty.same_symm h.1, h.2.symm⟩
  | .array e _ _, u, h => by
    cases u <;> simp only [Ty.same, Bool.and_eq_true, beq_iff_eq, Bool.false_eq_true] at h ⊢
    exact ⟨⟨Ty.same_symm h.1.1, h.1.2.symm⟩, h.2.symm⟩
  | .struct ms _, u, h => by
    cases u <;> simp only [Ty.same, Bool.and_eq_true, beq_iff_eq, Bool.false_eq_true] at h ⊢
    exact ⟨sameMembers_symm h.1, h.2.symm⟩
  | .function as r _, u, h => by
    cases u <;> simp only [Ty.same, Bool.and_eq_true, beq_iff_eq, Bool.false_eq_true] at h ⊢
    exact ⟨⟨sameList_symm h.1.1, Ty.same_symm h.1.2⟩, h.2.symm⟩
  | .apply .., u, h => by cases u <;> simp_all [Ty.same]
  | .dot b _ _, u, h => by
    cases u <;> simp only [Ty.same, Bool.and_eq_true, beq_iff_eq, Bool.false_eq_true] at h ⊢
    exact ⟨⟨Ty.same_symm h.1.1, h.1.2.symm⟩, h.2.symm⟩
  | .var _, u, h => by cases u <;> simp_all [Ty.same]
  | .template _, u, h => by cases u <;> simp_all [Ty.same]

/-- The same lists of types are so in both orders. -/
theorem sameList_symm : ∀ {ts us : List Ty}, sameList ts us → sameList us ts
  | [], [], _ => rfl
  | [], _ :: _, h => by simp [sameList] at h
  | _ :: _, [], h => by simp [sameList] at h
  | t :: ts, u :: us, h => by
    simp only [sameList, Bool.and_eq_true] at h ⊢
    exact ⟨Ty.same_symm h.1, sameList_symm h.2⟩

/-- The same lists of members are so in both orders. -/
theorem sameMembers_symm : ∀ {ms ns : List (Member Ty)}, sameMembers ms ns → sameMembers ns ms
  | [], [], _ => rfl
  | [], _ :: _, h => by simp [sameMembers] at h
  | _ :: _, [], h => by simp [sameMembers] at h
  | ⟨_, t, _⟩ :: ms, ⟨_, u, _⟩ :: ns, h => by
    simp only [sameMembers, Bool.and_eq_true, beq_iff_eq] at h ⊢
    exact ⟨⟨⟨h.1.1.1.symm, Ty.same_symm h.1.1.2⟩, h.1.2.symm⟩, sameMembers_symm h.2⟩

end
/-- Lists are the same when their items are. -/
theorem forall₂_of_sameList : ∀ {ts us : List Ty}, sameList ts us →
    ts.Forall₂ (fun t u => t.same u) us
  | [], [], _ => .nil
  | [], _ :: _, h => by simp [sameList] at h
  | _ :: _, [], h => by simp [sameList] at h
  | t :: ts, u :: us, h => by
    simp only [sameList, Bool.and_eq_true] at h
    exact .cons h.1 (forall₂_of_sameList h.2)

/-- Members are the same when their names and types are. -/
theorem forall₂_of_sameMembers : ∀ {ms ns : List (Member Ty)}, sameMembers ms ns →
    ms.Forall₂ (fun m n => m.name = n.name ∧ m.type.same n.type) ns
  | [], [], _ => .nil
  | [], _ :: _, h => by simp [sameMembers] at h
  | _ :: _, [], h => by simp [sameMembers] at h
  | ⟨_, t, _⟩ :: ms, ⟨_, u, _⟩ :: ns, h => by
    simp only [sameMembers, Bool.and_eq_true, beq_iff_eq] at h
    exact .cons ⟨h.1.1.1, h.1.1.2⟩ (forall₂_of_sameMembers h.2)

/-- The member found is the first with the name. -/
theorem findMember_first {s s' : Store} {name : String} {n : Nat} :
    ∀ {ms : List (Member Ty)} {offset : Int} {r : Option (Member Ty × Int)},
      findMemberWithin n ms name offset s = .ok r s' →
        r.map (·.1) = ms.find? fun m => m.name = name := by
  induction n generalizing s with
  | zero => exact fun h => absurd h throw_ok
  | succ n ih =>
    intro ms offset r h
    unfold findMemberWithin at h
    cases ms with
    | nil =>
      obtain ⟨rfl, -⟩ := pure_ok.1 h
      rfl
    | cons x rest =>
      dsimp only at h
      split at h
      · obtain ⟨rfl, -⟩ := pure_ok.1 h
        simp [*]
      · obtain ⟨k, u, -, hrest⟩ := bind_ok.1 h
        simpa [*] using ih hrest

/-- Related members are found under the same name. -/
theorem find_of_forall₂ {R : Ty → Ty → Prop} {name : String} : ∀ {ms ns : List (Member Ty)} {x y},
    ms.Forall₂ (fun m n => m.name = n.name ∧ R m.type n.type) ns →
    (ms.find? fun m => m.name = name) = some x → (ns.find? fun m => m.name = name) = some y →
    R x.type y.type
  | [], _, _, _, _, hx, _ => by simp at hx
  | m :: ms, _, x, y, .cons (b := n) hm h, hx, hy => by
    by_cases hname : m.name = name
    · simp only [List.find?_cons, hname, hm.1 ▸ hname, decide_true, Option.some.injEq] at hx hy
      exact hx ▸ hy ▸ hm.2
    · have hname' : n.name ≠ name := hm.1 ▸ hname
      simp only [List.find?_cons, hname, hname', decide_false] at hx hy
      exact find_of_forall₂ h hx hy

/-- Two types with one mangled text. -/
def SameText (s : Store) (a b : Ty) : Prop := ∃ x, s.mangle a = .ok x ∧ s.mangle b = .ok x

/-- The mangled text of a type tells its form and the texts of its parts. -/
def TextTellsForm (s : Store) (D : Ty → Prop) : Prop :=
  ∀ {a b a' b'}, D a → D b → SameText s a b → Shape s a a' → Shape s b b' →
    Form (SameText s) a' b'

/-- Types that are one tree, have one text, or have one shape. -/
def OneType (s : Store) (D : Ty → Prop) (a b : Ty) : Prop :=
  D a ∧ D b ∧ (a.same b ∨ SameText s a b ∨ ∃ u, Shape s a u ∧ Shape s b u)

/-- Types that are one type, through others. -/
abbrev Alike (s : Store) (D : Ty → Prop) : Ty → Ty → Prop := Relation.ReflTransGen (OneType s D)

/-- Being one type does not depend on the order. -/
theorem OneType.symm {s : Store} {D : Ty → Prop} {a b : Ty} (h : OneType s D a b) :
    OneType s D b a := by
  obtain ⟨ha, hb, hsame | ⟨x, hx, hx'⟩ | ⟨u, hu, hu'⟩⟩ := h
  · exact ⟨hb, ha, .inl (Ty.same_symm hsame)⟩
  · exact ⟨hb, ha, .inr (.inl ⟨x, hx', hx⟩)⟩
  · exact ⟨hb, ha, .inr (.inr ⟨u, hu', hu⟩)⟩

/-- Being alike does not depend on the order. -/
theorem alike_symm {s : Store} {D : Ty → Prop} {a b : Ty} (h : Alike s D a b) : Alike s D b a := by
  induction h with
  | refl => exact .refl
  | tail _ hone ih => exact .head hone.symm ih

section Settled

variable {s : Store} {D : Ty → Prop} (hD : Settled s D)

include hD

/-- The member type of a settled type is that of the first member with the name. -/
theorem Settled.memberType {n : Nat} {b u : Ty} {m : String} {l : Option Source.Location}
    (hb : D (.dot b m l)) (h : memberTypeWithin (n + 1) b m s = .ok u s) :
    ∃ ms l' x, resolveWithin n b s = .ok (.struct ms l') s ∧
      (ms.find? fun y => y.name = m) = some x ∧ x.type = u := by
  obtain ⟨ms, l', hshape, x, hx, hxm⟩ := hD.dot hb
  unfold memberTypeWithin at h
  obtain ⟨u', s₁, hu', hrest⟩ := bind_ok.1 h
  obtain ⟨rfl, hDu', -⟩ := (hD.follow n).1 (hD.mentions hb .base) hu'
  obtain rfl := hshape.unique ⟨n, hu'⟩
  obtain ⟨r, s₂, hr, hrest⟩ := bind_ok.1 hrest
  have hfirst := findMember_first hr
  cases r with
  | none => exact absurd hxm (findMember_none hr x hx)
  | some r =>
    obtain ⟨rfl, rfl⟩ := pure_ok.1 hrest
    exact ⟨ms, l', r.1, hu', hfirst.symm, rfl⟩

/-- The shape of a settled member type is that of the first member with the name. -/
theorem Settled.shape_dot {n : Nat} {b u : Ty} {m : String} {l : Option Source.Location}
    (hb : D (.dot b m l)) (h : resolveWithin (n + 1) (.dot b m l) s = .ok u s) :
    ∃ ms l' x, resolveWithin n b s = .ok (.struct ms l') s ∧
      (ms.find? fun y => y.name = m) = some x ∧ D x.type ∧ resolveWithin n x.type s = .ok u s := by
  unfold resolveWithin at h
  obtain ⟨u', s₁, hu', hrest⟩ := bind_ok.1 h
  obtain ⟨rfl, hDu'⟩ := (hD.follow n).2.1 hb hu'
  cases n with
  | zero => exact absurd hu' throw_ok
  | succ n =>
    obtain ⟨ms, l', x, hms, hx, rfl⟩ := hD.memberType hb hu'
    exact ⟨ms, l', x, resolveWithin_mono (Nat.le_succ n) hms, hx, hDu', hrest⟩

/-- Same trees have shapes of one form with the same trees as parts. -/
theorem Settled.form_of_same {n : Nat} {a b a' b' : Ty} (ha : D a) (hb : D b) (h : a.same b)
    (ha' : resolveWithin n a s = .ok a' s) (hb' : Shape s b b') :
    Form (fun x y => x.same y) a' b' := by
  induction n generalizing a b a' b' with
  | zero => exact absurd ha' throw_ok
  | succ n ih =>
    have hshape : Shape s a a' := ⟨n + 1, ha'⟩
    have hself : a' = b' → Form (fun x y => x.same y) a' b' := by
      rintro rfl
      exact .refl Ty.same_refl (hD.shape ha hshape).2
    cases a <;> cases b <;> simp only [Ty.same, Bool.false_eq_true, Bool.and_eq_true,
      beq_iff_eq] at h
    case builtin.builtin =>
      obtain rfl := hshape.unique (Ty.IsShape.self trivial)
      obtain rfl := hb'.unique (Ty.IsShape.self trivial)
      exact h.1 ▸ .builtin
    case pointer.pointer =>
      obtain rfl := hshape.unique (Ty.IsShape.self trivial)
      obtain rfl := hb'.unique (Ty.IsShape.self trivial)
      exact .pointer h.1
    case slice.slice =>
      obtain rfl := hshape.unique (Ty.IsShape.self trivial)
      obtain rfl := hb'.unique (Ty.IsShape.self trivial)
      exact .slice h.1
    case array.array =>
      obtain rfl := hshape.unique (Ty.IsShape.self trivial)
      obtain rfl := hb'.unique (Ty.IsShape.self trivial)
      exact h.1.2 ▸ .array h.1.1
    case struct.struct =>
      obtain rfl := hshape.unique (Ty.IsShape.self trivial)
      obtain rfl := hb'.unique (Ty.IsShape.self trivial)
      exact .struct (forall₂_of_sameMembers h.1)
    case function.function =>
      obtain rfl := hshape.unique (Ty.IsShape.self trivial)
      obtain rfl := hb'.unique (Ty.IsShape.self trivial)
      exact .function ((forall₂_of_sameList h.1.1).imp fun _ _ h => Ty.same_symm h) h.1.2
    case name.name id text l id' text' l' =>
      subst h
      obtain ⟨b, hbind⟩ := hD.name ha
      have hstands : ∀ text l, Stands s (.name id text l) b.type := fun text l =>
        .name (by simp [Store.target, hbind])
      exact hself (((hstands text l).shape_iff.1 hshape).unique ((hstands text' l').shape_iff.1 hb'))
    case apply.apply id head text as l id' head' text' as' l' =>
      subst h
      obtain ⟨u, hu⟩ := hD.apply ha
      have hstands : ∀ head text as l, Stands s (.apply id head text as l) u :=
        fun head text as l => .apply (by
          simp only [Types.applied, bind_ok, get_ok]
          exact ⟨s, s, ⟨rfl, rfl⟩, by rw [hu]; exact pure_ok.2 ⟨rfl, rfl⟩⟩)
      exact hself (((hstands _ _ _ _).shape_iff.1 hshape).unique
        ((hstands _ _ _ _).shape_iff.1 hb'))
    case dot.dot b₁ m l b₂ m' l' =>
      obtain ⟨⟨hsame, rfl⟩, -⟩ := h
      obtain ⟨ms, k, x, hms, hx, hDx, hresolve⟩ := hD.shape_dot ha ha'
      obtain ⟨_ | n', hn'⟩ := hb'
      · exact absurd hn' throw_ok
      obtain ⟨ms', k', y, hms', hy, hDy, hresolve'⟩ := hD.shape_dot hb hn'
      -- the bases are the same tree, so the members found are
      have hbases := ih (hD.mentions ha .base) (hD.mentions hb .base) hsame hms ⟨n', hms'⟩
      cases hbases with
      | struct hmembers =>
        have hxy : x.type.same y.type :=
          find_of_forall₂ (R := fun t u => t.same u) hmembers hx hy
        exact ih hDx hDy hxy hresolve ⟨n', hresolve'⟩
    case var.var v v' =>
      subst h
      exact hself (hshape.unique hb')
    case template.template => exact absurd ha hD.template

/-- Types that are one type have shapes of one form with parts that are alike. -/
theorem Settled.form_of_oneType (htext : TextTellsForm s D) {a b a' b' : Ty}
    (h : OneType s D a b) (ha' : Shape s a a') (hb' : Shape s b b') : Form (Alike s D) a' b' := by
  obtain ⟨ha, hb, h⟩ := h
  have hDa' := hD.shape ha ha'
  have hDb' := hD.shape hb hb'
  obtain hsame | hsame | ⟨u, hu, hu'⟩ := h
  · obtain ⟨n, hn⟩ := ha'
    refine ((hD.form_of_same ha hb hsame hn hb').within hD.mentions hDa'.1 hDb'.1).mono fun x y h => .single ?_
    exact ⟨h.1, h.2.1, .inl h.2.2⟩
  · refine ((htext ha hb hsame ha' hb').within hD.mentions hDa'.1 hDb'.1).mono fun x y h => .single ?_
    exact ⟨h.1, h.2.1, .inr (.inl h.2.2)⟩
  · obtain rfl := ha'.unique hu
    obtain rfl := hb'.unique hu'
    exact .refl (fun _ => .refl) hDa'.2

/-- Types that are alike have shapes of one form with parts that are alike. -/
theorem Settled.form_of_alike (htext : TextTellsForm s D) {a b a' b' : Ty} (ha : D a)
    (h : Alike s D a b) (ha' : Shape s a a') (hb' : Shape s b b') : Form (Alike s D) a' b' := by
  induction h generalizing b' with
  | refl =>
    obtain rfl := ha'.unique hb'
    exact .refl (fun _ => .refl) (hD.shape ha ha').2
  | tail _ hone ih =>
    obtain ⟨c', -, hc', -⟩ := hD.resolve_ok hone.1
    have htrans : ∀ x y z, Alike s D x y → Alike s D y z → Alike s D x z :=
      fun _ _ _ hxy hyz => hxy.trans hyz
    exact (ih hc').comp htrans htrans (hD.form_of_oneType htext hone hc' hb')

end Settled

/-! ## What a comparison relates -/

/-- Two types that are alike, or are alike to shapes one of which was found usable as the other. -/
def Related (s : Store) (D : Ty → Prop) (L : List (String × String)) (a b : Ty) : Prop :=
  Alike s D a b ∨ ∃ a' b', Alike s D a a' ∧ Alike s D b' b ∧ D a' ∧ D b' ∧ a'.IsShape ∧ b'.IsShape ∧
    (Changes s a' b' ∨ Form (Seen s D L) a' b')

section Settled

variable {s : Store} {D : Ty → Prop} (hD : Settled s D)

include hD

/-- A settled type is one with what it leads to. -/
theorem Settled.oneType_of_leads {a a' : Ty} (ha : D a) (h : Leads s a a') :
    OneType s D a a' ∧ OneType s D a' a := by
  have ha' := hD.leads ha h
  obtain ⟨u, -, hu, -⟩ := hD.resolve_ok ha
  have hu' := (shape_iff_of_leads h).1 hu
  exact ⟨⟨ha, ha', .inr (.inr ⟨u, hu, hu'⟩)⟩, ha', ha, .inr (.inr ⟨u, hu', hu⟩)⟩

/-- Shapes that were compared are one tree, of one form, or usable one as the other. -/
theorem Settled.changes_of_seen {L : List (String × String)} {a b : Ty} (ha : a.IsShape)
    (hb : b.IsShape) (h : Seen s D L a b) : a.same b ∨ Changes s a b ∨ Form (Seen s D L) a b := by
  obtain ⟨hDa, hDb, _ | n, L₁, L₂, hn, hL⟩ := h
  · exact absurd hn throw_ok
  obtain ⟨a', b', hleads, hleads', hcases⟩ := hD.unify_cases hDa hDb hn
  -- a shape leads to itself only
  obtain rfl := ha.eq_of_leads hleads
  obtain rfl := hb.eq_of_leads hleads'
  obtain ⟨hsame, -⟩ | ⟨hnamed, -⟩ | ⟨-, -, ⟨e, w, -, -, hchanges, -⟩ | hparts⟩ := hcases
  · exact .inl hsame
  · exact absurd hnamed (by simp [ha.isNamed, hb.isNamed])
  · exact .inr (.inl hchanges)
  · obtain ⟨-, -, hform⟩ := hD.partsAgree hD.unify_grows hDa hDb ha hparts
    exact .inr (.inr (hform.mono fun _ _ h => h.mono hL))

/-- Types alike to shapes that were compared are related. -/
theorem Settled.related_of_shapes {L : List (String × String)} {a b a' b' : Ty}
    (ha : Alike s D a a') (hb : Alike s D b' b) (ha' : a'.IsShape) (hb' : b'.IsShape)
    (h : Seen s D L a' b') : Related s D L a b := by
  obtain hsame | hchanges := hD.changes_of_seen ha' hb' h
  · exact .inl ((ha.tail ⟨h.1, h.2.1, .inl hsame⟩).trans hb)
  · exact .inr ⟨a', b', ha, hb, h.1, h.2.1, ha', hb', hchanges⟩

/-- What was seen is related, where the pairs written down are justified. -/
theorem Settled.related_of_seen {L : List (String × String)} (hL : ∀ p ∈ L, Justified s D L p)
    {a b : Ty} (h : Seen s D L a b) : Related s D L a b := by
  obtain ⟨ha, hb, _ | n, L₁, L₂, hn, hL₂⟩ := h
  · exact absurd hn throw_ok
  obtain ⟨a', b', hleads, hleads', hcases⟩ := hD.unify_cases ha hb hn
  have ha' := hD.leads ha hleads
  have hb' := hD.leads hb hleads'
  have halike : Alike s D a a' := .single (hD.oneType_of_leads ha hleads).1
  have halike' : Alike s D b' b := .single (hD.oneType_of_leads hb hleads').2
  obtain ⟨hsame, -⟩ | ⟨-, x, y, hx, hy, hnamed⟩ | ⟨hs, hs', hparts⟩ := hcases
  · exact .inl ((halike.tail ⟨ha', hb', .inl hsame⟩).trans halike')
  · obtain ⟨rfl, -⟩ | ⟨hmem, rfl, -⟩ | ⟨a'', b'', hname, hname', hs, hs', hrest⟩ := hnamed
    · exact .inl ((halike.tail ⟨ha', hb', .inr (.inl ⟨x, hx, hy⟩)⟩).trans halike')
    · -- other types with these names were compared in place of these
      obtain ⟨c, d, c', d', hc, hd, hcx, hdy, hcc', hdd', hsc, hsd, hseen⟩ := hL _ (hL₂ hmem)
      have hac : Alike s D a c := halike.tail ⟨ha', hc, .inr (.inl ⟨x, hx, hcx⟩)⟩
      have hdb : Alike s D d b := .head ⟨hd, hb', .inr (.inl ⟨y, hdy, hy⟩)⟩ halike'
      exact hD.related_of_shapes (hac.tail (hD.oneType_of_leads hc hcc').1)
        (.head (hD.oneType_of_leads hd hdd').2 hdb) hsc hsd hseen
    · exact hD.related_of_shapes (halike.tail (hD.oneType_of_leads ha' hname).1)
        (.head (hD.oneType_of_leads hb' hname').2 halike') hs hs'
        ⟨hD.leads ha' hname, hD.leads hb' hname', n, _, L₂, hrest, hL₂⟩
  · refine .inr ⟨a', b', halike, halike', ha', hb', hs, hs', ?_⟩
    obtain ⟨e, w, -, -, hchanges, -⟩ | hparts := hparts
    · exact .inl hchanges
    · obtain ⟨-, -, hform⟩ := hD.partsAgree hD.unify_grows ha' hb' hs hparts
      exact .inr (hform.mono fun _ _ h => h.mono hL₂)

/-- What is alike to a type has a shape of the same form. -/
theorem Settled.shape_of_alike (htext : TextTellsForm s D) {a b a' : Ty} (ha : D a) (hb : D b)
    (h : Alike s D a b) (ha' : Shape s a a') : ∃ b', Shape s b b' ∧ Form (Alike s D) a' b' := by
  obtain ⟨b', -, hb', -⟩ := hD.resolve_ok hb
  exact ⟨b', hb', hD.form_of_alike htext ha h ha' hb'⟩

/-- Members alike to those of a slice descriptor are laid out like one. -/
theorem Settled.sliceLike (htext : TextTellsForm s D) {ms ns : List (Member Ty)}
    (hms : ∀ m ∈ ms, D m.type) (hns : ∀ n ∈ ns, D n.type)
    (h : ms.Forall₂ (fun m n => m.name = n.name ∧ Alike s D m.type n.type) ns)
    (hlike : SliceLike s ms) : SliceLike s ns := by
  obtain @⟨x, y, z, e, l, l', l'', hnames, hx, hy, hz⟩ := hlike
  match ns, hns, h with
  | [x', y', z'], hns, .cons hxx' (.cons hyy' (.cons hzz' .nil)) =>
    obtain ⟨_, hx', hform⟩ := hD.shape_of_alike htext (hms x (by simp)) (hns x' (by simp)) hxx'.2 hx
    obtain ⟨_, hy', hform'⟩ := hD.shape_of_alike htext (hms y (by simp)) (hns y' (by simp)) hyy'.2 hy
    obtain ⟨_, hz', hform''⟩ :=
      hD.shape_of_alike htext (hms z (by simp)) (hns z' (by simp)) hzz'.2 hz
    cases hform
    cases hform'
    cases hform''
    exact .mk ⟨hxx'.1 ▸ hnames.1, hyy'.1 ▸ hnames.2.1, hzz'.1 ▸ hnames.2.2⟩ hx' hy' hz'

/-- Where a type decays, so does what is alike to it. -/
theorem Settled.wraps (htext : TextTellsForm s D) {a b a' b' : Ty} (ha : D a) (hb : D b)
    (ha' : D a') (hb' : D b') (haa' : Alike s D a a') (hbb' : Alike s D b b') (h : Wraps s a b) :
    Wraps s a' b' := by
  obtain ⟨⟨w, l, hw⟩, e, n, l', hn, hsource⟩ := h
  obtain ⟨_, hw', hform⟩ := hD.shape_of_alike htext hb hb' hbb' hw
  cases hform with
  | slice =>
    refine ⟨⟨_, _, hw'⟩, ?_⟩
    obtain harray | ⟨p, k, hpointer, harray⟩ := hsource
    · obtain ⟨_, harray', hform⟩ := hD.shape_of_alike htext ha ha' haa' harray
      cases hform with
      | array => exact ⟨_, n, _, hn, .inl harray'⟩
    · obtain ⟨_, hpointer', hform⟩ := hD.shape_of_alike htext ha ha' haa' hpointer
      cases hform with
      | pointer hpp' =>
        have hp := hD.mentions (hD.shape ha hpointer).1 .pointer
        have hp' := hD.mentions (hD.shape ha' hpointer').1 .pointer
        obtain ⟨_, harray', hform⟩ := hD.shape_of_alike htext hp hp' hpp' harray
        cases hform with
        | array => exact ⟨_, n, _, hn, .inr ⟨_, _, hpointer', harray'⟩⟩

/-- Where a type can be used as one of another form, so can what is alike to it. -/
theorem Settled.changes (htext : TextTellsForm s D) {a b a' b' : Ty} (ha : D a) (hb : D b)
    (ha' : D a') (hb' : D b') (haa' : Alike s D a a') (hbb' : Alike s D b b') (h : Changes s a b) :
    Changes s a' b' := by
  cases h with
  | decay h => exact .decay (hD.wraps htext ha hb ha' hb' haa' hbb' h)
  | descriptor hsource htarget hlike =>
    obtain ⟨_, hsource', hform⟩ := hD.shape_of_alike htext ha ha' haa' hsource
    obtain ⟨_, htarget', hform'⟩ := hD.shape_of_alike htext hb hb' hbb' htarget
    cases hform with
    | struct hmembers =>
      cases hform' with
      | slice =>
        exact .descriptor hsource' htarget' (hD.sliceLike htext
          (fun m hm => hD.mentions (hD.shape ha hsource).1 (.member hm))
          (fun m hm => hD.mentions (hD.shape ha' hsource').1 (.member hm)) hmembers hlike)
  | record hsource htarget hlike =>
    obtain ⟨_, hsource', hform⟩ := hD.shape_of_alike htext ha ha' haa' hsource
    obtain ⟨_, htarget', hform'⟩ := hD.shape_of_alike htext hb hb' hbb' htarget
    cases hform with
    | slice =>
      cases hform' with
      | struct hmembers =>
        exact .record hsource' htarget' (hD.sliceLike htext
          (fun m hm => hD.mentions (hD.shape hb htarget).1 (.member hm))
          (fun m hm => hD.mentions (hD.shape hb' htarget').1 (.member hm)) hmembers hlike)

/-- Related types have shapes of one form with related parts, or can be used as another form. -/
theorem Settled.form_of_related (htext : TextTellsForm s D) {L : List (String × String)}
    (hL : ∀ p ∈ L, Justified s D L p) {a b a' b' : Ty} (ha : D a) (hb : D b)
    (h : Related s D L a b) (ha' : Shape s a a') (hb' : Shape s b b') :
    Changes s a b ∨ Form (Related s D L) a' b' := by
  obtain halike | ⟨c, d, hac, hdb, hc, hd, hsc, hsd, hchanges | hform⟩ := h
  · exact .inr ((hD.form_of_alike htext ha halike ha' hb').mono fun _ _ h => .inl h)
  · exact .inl (hD.changes htext hc hd ha hb (alike_symm hac) hdb hchanges)
  · have hfirst := hD.form_of_alike htext ha hac ha' hsc.self
    have hlast := hD.form_of_alike htext hd hdb hsd.self hb'
    have hmiddle : Form (Related s D L) c d := hform.mono fun _ _ h => hD.related_of_seen hL h
    -- related types stay related when either is replaced by one that is alike
    have hleft : ∀ x y z, Alike s D x y → Related s D L y z → Related s D L x z := by
      rintro x y z hxy (hyz | ⟨e, f, hye, hfz, hrest⟩)
      · exact .inl (hxy.trans hyz)
      · exact .inr ⟨e, f, hxy.trans hye, hfz, hrest⟩
    have hright : ∀ x y z, Related s D L x y → Alike s D y z → Related s D L x z := by
      rintro x y z (hxy | ⟨e, f, hxe, hfy, hrest⟩) hyz
      · exact .inl (hxy.trans hyz)
      · exact .inr ⟨e, f, hxe, hfy.trans hyz, hrest⟩
    exact .inr ((hfirst.comp hleft hright hmiddle).comp hright hleft hlast)

end Settled

end Qll.Types
