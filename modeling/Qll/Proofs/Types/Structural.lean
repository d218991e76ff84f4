import Qll.Proofs.Types.Alike
import Qll.Proofs.Types.Comparing

/-!
# Structural conversion

One type can be used as another one if their shapes are of one form and their parts can be used as each
other, or if one becomes a slice of the other and the elements can. Recursive types make this a relation
that is as large as possible. A comparison without member types and errors answers whether two types are
in the relation: what it takes for granted was compared before, or is one type with one text.
-/

namespace Qll.Types

open Qll.Computation
open Source (Location)

/-! ## The relation -/

/-- Shapes of one form with related parts, or of which one becomes a slice of the other, with related
elements. -/
def Converts (T : Store) (R : Ty → Ty → Prop) (a b : Ty) : Prop :=
  Form R a b ∨ ∃ p, Decays T a b p ∧ R p.1 p.2

/-- Names are unfolded before shapes are compared. -/
def Unfolds (T : Store) (R : Ty → Ty → Prop) (a b : Ty) : Prop :=
  ∃ a' b', Bares T a a' ∧ Bares T b b' ∧ Converts T R a' b'

/-- One type can be used as another one: they are in a relation that holds of what they unfold to. -/
def Convertible (T : Store) (a b : Ty) : Prop :=
  ∃ R : Ty → Ty → Prop, (∀ x y, R x y → Unfolds T R x y) ∧ R a b

section Relation

variable {T : Store} {R R' : Ty → Ty → Prop} {a b : Ty}

/-- Parts may be related in a weaker way. -/
theorem Converts.mono (hR : ∀ x y, R x y → R' x y) (h : Converts T R a b) : Converts T R' a b :=
  h.imp (Form.mono hR) fun ⟨p, hp, hr⟩ => ⟨p, hp, hR _ _ hr⟩

/-- Unfolded types may be related in a weaker way. -/
theorem Unfolds.mono (hR : ∀ x y, R x y → R' x y) (h : Unfolds T R a b) : Unfolds T R' a b :=
  let ⟨a', b', ha, hb, hconverts⟩ := h
  ⟨a', b', ha, hb, hconverts.mono hR⟩

/-- What convertible types unfold to is convertible. -/
theorem Convertible.unfolds (h : Convertible T a b) : Unfolds T (Convertible T) a b := by
  obtain ⟨R, hR, hab⟩ := h
  exact (hR a b hab).mono fun x y hxy => ⟨R, hR, hxy⟩

/-- Types are convertible if what they unfold to is. -/
theorem convertible_of_unfolds (h : Unfolds T (Convertible T) a b) : Convertible T a b := by
  refine ⟨Unfolds T (Convertible T), fun x y hxy => ?_, h⟩
  exact hxy.mono fun _ _ h => h.unfolds

/-- Shapes of which one becomes a slice of the other are of different forms. -/
theorem Decays.not_form {p : Ty × Ty} (h : Decays T a b p) : ¬ Form R a b := by
  rintro hform
  cases h <;> cases hform

/-- Lists of one length, item by item. -/
theorem forall_zipWith {α β γ : Type} {g : α → β → γ} {P : γ → Prop} {xs : List α} {ys : List β}
    (hlength : xs.length = ys.length) :
    (∀ p ∈ List.zipWith g xs ys, P p) ↔ xs.Forall₂ (fun x y => P (g x y)) ys := by
  induction xs generalizing ys with
  | nil =>
    cases ys with
    | nil => simp
    | cons => cases hlength
  | cons x xs ih =>
    cases ys with
    | nil => cases hlength
    | cons y ys => simp [ih (Nat.succ.inj hlength)]

/-- Every pair that is compared is there, and is in a relation. -/
def AllRelated (R : Ty → Ty → Prop) (ps : List (Option (Ty × Ty))) : Prop :=
  ∀ p ∈ ps, ∃ q, p = some q ∧ R q.1 q.2

/-- The parts of two shapes are related if the shapes are of one form with related parts. -/
theorem allRelated_partsOf (ha : a.IsShape) (hb : b.IsShape) : AllRelated R (partsOf T a b) ↔ Form R a b := by
  have hnone : ¬ AllRelated R [none] := fun h => by simpa using h none
  have hsingle {x y : Ty} : AllRelated R [some (x, y)] ↔ R x y := by simp [AllRelated]
  have hmembers (ms ms' : List (Member Ty)) (l l' : Option Location) :
      AllRelated R (partsOf T (.struct ms l) (.struct ms' l')) ↔ Form R (.struct ms l) (.struct ms' l') := by
    by_cases hlength : ms.length = ms'.length
    · simp only [partsOf, if_pos hlength, AllRelated, forall_zipWith hlength]
      refine ⟨fun h => .struct (h.imp fun m m' hm => ?_), fun h => ?_⟩
      · split at hm
        · next hname =>
          obtain ⟨q, hq, hR⟩ := hm
          cases hq
          exact ⟨hname, hR⟩
        · simp at hm
      · cases h with
        | struct h => exact h.imp fun m m' hm => ⟨_, if_pos hm.1, hm.2⟩
    · simp only [partsOf, if_neg hlength]
      exact ⟨fun h => absurd h hnone, fun h => by cases h with | struct h => exact absurd h.length_eq hlength⟩
  have hfunction (as as' : List Ty) (r r' : Ty) (l l' : Option Location) :
      AllRelated R (partsOf T (.function as r l) (.function as' r' l')) ↔
        Form R (.function as r l) (.function as' r' l') := by
    by_cases hlength : as.length = as'.length
    · have happend (ps : List (Option (Ty × Ty))) :
          AllRelated R (ps ++ [some (r, r')]) ↔ AllRelated R ps ∧ R r r' := by
        simp [AllRelated, or_imp, forall_and]
      simp only [partsOf, if_pos hlength, happend]
      simp only [AllRelated, forall_zipWith hlength.symm]
      refine ⟨fun h => .function (h.1.flip.imp fun a a' haa' => ?_) h.2, fun h => ?_⟩
      · obtain ⟨q, hq, hR⟩ := haa'
        cases hq
        exact hR
      · cases h with
        | function h hr => exact ⟨h.flip.imp fun a' a h => ⟨_, rfl, h⟩, hr⟩
    · simp only [partsOf, if_neg hlength]
      exact ⟨fun h => absurd h hnone,
        fun h => by cases h with | function h => exact absurd h.length_eq hlength⟩
  cases a <;> cases b
  case struct.struct => exact hmembers ..
  case function.function => exact hfunction ..
  case pointer.pointer => exact hsingle.trans ⟨.pointer, fun h => by cases h; assumption⟩
  case slice.slice => exact hsingle.trans ⟨.slice, fun h => by cases h; assumption⟩
  case array.array e n l e' n' l' =>
    by_cases hn : n = n'
    · subst hn
      simp only [partsOf, if_pos, hsingle]
      exact ⟨.array, fun h => by cases h; assumption⟩
    · simp only [partsOf, if_neg hn]
      exact ⟨fun h => absurd h hnone, fun h => by cases h; exact absurd rfl hn⟩
  case builtin.builtin kind l kind' l' =>
    by_cases hkind : kind = kind'
    · subst hkind
      simp only [partsOf, if_pos, AllRelated]
      exact ⟨fun _ => .builtin, fun _ => by simp⟩
    · simp only [partsOf, if_neg hkind]
      exact ⟨fun h => absurd h hnone, fun h => by cases h; exact absurd rfl hkind⟩
  case name.name => exact absurd ha id
  all_goals exact ⟨fun h => absurd h hnone, fun h => by cases h⟩

end Relation

/-! ## Convertible types are found convertible -/

section Complete

variable {M : Prop} {T : Store} (hT : Definite M T) (hM : ¬ M) {a b : Ty}

include hM in
/-- Without member types every type but a name is a shape. -/
theorem isShape_of_not_named {t : Ty} (ht : Fixed M T t) (h : ¬ t.isNamed) : t.IsShape := by
  cases ht with
  | name => exact absurd rfl h
  | dot hdot => exact absurd hdot hM
  | _ => trivial

include hT hM

/-- What is left of convertible types once they are opened is convertible. -/
theorem Convertible.parts (ha : Fixed M T a) (hb : Fixed M T b) (h : Convertible T a b) {o : Opening}
    (ho : Opens T .conversion a b o) : AllRelated (Convertible T) o.parts := by
  obtain ⟨a'', b'', hbare, hbare', hconverts⟩ := h.unfolds
  -- Neither of two types that are not compared by their names is a name.
  have hshapes {a' b' : Ty} (hheads : Heads T a b a' b') (hnamed : ¬ (a'.isNamed || b'.isNamed)) :
      (a'.IsShape ∧ b'.IsShape) ∧ Converts T (Convertible T) a' b' := by
    obtain rfl := stripDot_self hM ha hheads.left
    obtain rfl := stripDot_self hM hb hheads.right
    simp only [Bool.or_eq_true, not_or] at hnamed
    have hshape := isShape_of_not_named hM ha hnamed.1
    have hshape' := isShape_of_not_named hM hb hnamed.2
    obtain rfl := hbare.unique (hT.bares_shape ha hshape)
    obtain rfl := hbare'.unique (hT.bares_shape hb hshape')
    exact ⟨⟨hshape, hshape'⟩, hconverts⟩
  cases ho with
  | same | error | wrongNames => simp [AllRelated]
  | nominal hmode => cases hmode
  | names _ hheads _ _ _ hleft hright =>
    obtain rfl := stripDot_self hM ha hheads.left
    obtain rfl := stripDot_self hM hb hheads.right
    obtain rfl := hbare.unique hleft
    obtain rfl := hbare'.unique hright
    have hself {t u : Ty} (ht : Fixed M T t) (h : Bares T t u) : Bares T u u := by
      obtain ⟨u', hu', hshape, -⟩ := hT.bares ht
      obtain rfl := h.unique hu'
      exact hT.bares_shape (hT.bares_gathered ht h hT.gathers ht) hshape
    have hrelated : Convertible T a'' b'' :=
      convertible_of_unfolds ⟨a'', b'', hself ha hleft, hself hb hright, hconverts⟩
    simpa [AllRelated] using hrelated
  | decay _ hheads hnamed hdecay =>
    obtain ⟨-, hform | ⟨p, hp, hrelated⟩⟩ := hshapes hheads hnamed
    · exact absurd hform hdecay.not_form
    · obtain rfl := hdecay.unique hp
      exact fun q hq => ⟨_, List.mem_singleton.1 hq, hrelated⟩
  | parts _ hheads hnamed hdecay =>
    obtain ⟨⟨hshape, hshape'⟩, hform | ⟨p, hp, -⟩⟩ := hshapes hheads hnamed
    · exact (allRelated_partsOf hshape hshape').2 hform
    · exact absurd hp (hdecay p)

/-- The answer on convertible types is that they are. -/
theorem Answers.complete {L L' : List (String × String)} {ps : List (Option (Ty × Ty))} {r : Bool}
    (h : Answers T .conversion L ps r L') (hfixed : ∀ p, some p ∈ ps → Fixed M T p.1 ∧ Fixed M T p.2)
    (hps : AllRelated (Convertible T) ps) : r = true := by
  have hparts {a b : Ty} {o : Opening} {ps : List (Option (Ty × Ty))}
      (hfixed : ∀ p, some p ∈ some (a, b) :: ps → Fixed M T p.1 ∧ Fixed M T p.2)
      (hps : AllRelated (Convertible T) (some (a, b) :: ps)) (ho : Opens T .conversion a b o) :
      (∀ p, some p ∈ o.parts → Fixed M T p.1 ∧ Fixed M T p.2) ∧ AllRelated (Convertible T) o.parts := by
    obtain ⟨ha, hb⟩ := hfixed (a, b) List.mem_cons_self
    have hab : Convertible T a b := by simpa using hps (some (a, b)) List.mem_cons_self
    exact ⟨fun p hp => ho.gathered hT ha hb hT.gathers ⟨ha, hb⟩ hp, hab.parts hT hM ha hb ho⟩
  have hrest {p : Option (Ty × Ty)} {ps : List (Option (Ty × Ty))}
      (hfixed : ∀ q, some q ∈ p :: ps → Fixed M T q.1 ∧ Fixed M T q.2)
      (hps : AllRelated (Convertible T) (p :: ps)) :
      (∀ q, some q ∈ ps → Fixed M T q.1 ∧ Fixed M T q.2) ∧ AllRelated (Convertible T) ps :=
    ⟨fun q hq => hfixed q (by simp [hq]), fun q hq => hps q (by simp [hq])⟩
  induction h with
  | nil => rfl
  | differ => simpa using hps none
  | opened _ _ _ _ ih | granted _ _ _ ih | noted _ _ _ _ _ ih =>
    exact ih (hrest hfixed hps).1 (hrest hfixed hps).2
  | openedFalse ho _ ih | notedFalse ho _ _ ih => exact ih (hparts hfixed hps ho).1 (hparts hfixed hps ho).2

end Complete

/-! ## Types with one text -/

/-- Two types have one mangled text. -/
def OneText (T : Store) (a b : Ty) : Prop := ∃ text, Mangles T a text ∧ Mangles T b text

section OneText

variable {M : Prop} {T : Store} {a b c : Ty}

/-- One text for two types is one for both orders of them. -/
theorem OneText.symm (h : OneText T a b) : OneText T b a := let ⟨x, ha, hb⟩ := h; ⟨x, hb, ha⟩

/-- One text is passed on from type to type. -/
theorem OneText.trans (h : OneText T a b) (h' : OneText T b c) : OneText T a c := by
  obtain ⟨x, ha, hb⟩ := h
  obtain ⟨y, hb', hc⟩ := h'
  obtain rfl := Tells.unique hb hb'
  exact ⟨x, ha, hc⟩

/-- A fixed type has one text. -/
theorem Definite.oneText_refl (hT : Definite M T) (ha : Fixed M T a) : OneText T a a :=
  let ⟨x, hx⟩ := hT.mangles ha; ⟨x, hx, hx⟩

/-- Readings of the items of two lists. -/
theorem mapM_congr_forall₂ {α β : Type} {f g : α → Except Fault β} {xs ys : List α}
    (h : xs.Forall₂ (fun x y => f x = g y) ys) : xs.mapM f = ys.mapM g := by
  induction h with
  | nil => rfl
  | cons hxy _ ih => simp only [List.mapM_cons, hxy, ih]

/-- Same trees have one text. -/
theorem render_of_same {S : Store} (hS : ∀ id, (T.binding? id).isSome → (S.binding? id).isSome)
    (ha : Fixed M T a) (h : a.same b) (n : Nat) : S.renderWithin true n a = S.renderWithin true n b := by
  induction ha generalizing b n with
  | builtin =>
    cases b <;> simp only [Ty.same, Bool.and_eq_true, beq_iff_eq, Bool.false_eq_true] at h
    obtain ⟨rfl, -⟩ := h
    cases n <;> rfl
  | name hid =>
    cases b <;> simp only [Ty.same, beq_iff_eq, Bool.false_eq_true] at h
    subst h
    obtain ⟨c, hc⟩ := Option.isSome_iff_exists.1 (hS _ hid)
    cases n with
    | zero => rfl
    | succ n =>
      simp only [Store.renderWithin, Store.nameText, if_pos, hc]
      obtain ⟨qualified, type, scope⟩ := c
      cases type <;> rfl
  | pointer _ ih | slice _ ih | array _ _ ih | dot _ _ ih =>
    cases b <;> simp only [Ty.same, Bool.and_eq_true, beq_iff_eq, Bool.false_eq_true] at h
    cases n with
    | zero => rfl
    | succ n => simp only [Store.renderWithin, ih (by tauto) n, h]
  | @struct ms l _ ih =>
    cases b <;> simp only [Ty.same, Bool.and_eq_true, beq_iff_eq, Bool.false_eq_true] at h
    cases n with
    | zero => rfl
    | succ n =>
      have hsame := (List.forall₂_and_left _ _).2 ⟨fun m hm b hb => ih m hm (b := b) hb, forall₂_of_sameMembers h.1⟩
      simp only [Store.renderWithin]
      rw [mapM_congr_forall₂ (hsame.imp fun m m' hm => by rw [hm.1 _ hm.2.2 n, hm.2.1])]
  | @function as r l _ _ iha ihr =>
    cases b <;> simp only [Ty.same, Bool.and_eq_true, beq_iff_eq, Bool.false_eq_true] at h
    cases n with
    | zero => rfl
    | succ n =>
      have hsame := (List.forall₂_and_left _ _).2 ⟨fun a ha b hb => iha a ha (b := b) hb, forall₂_of_sameList h.1.1⟩
      simp only [Store.renderWithin]
      rw [mapM_congr_forall₂ (hsame.imp fun a a' ha => ha.1 _ ha.2 n), ihr h.1.2 n]

/-- Types that are the same up to their places have one text. -/
theorem Definite.oneText_of_same (hT : Definite M T) (ha : Fixed M T a) (h : a.same b) : OneText T a b := by
  obtain ⟨x, hx⟩ := hT.mangles ha
  obtain ⟨N, hN⟩ := hx
  exact ⟨x, ⟨N, hN⟩, N, fun n m hn hm =>
    (render_of_same (S := T.withLimit m) (fun _ h => h) ha h _).symm.trans (hN n m hn hm)⟩

end OneText

/-! ## Types that are found convertible are convertible -/

/-- A family of types without member types, variables and templates, with what its members mention. None of
them leads to the error type. -/
structure Sound (T : Store) (D : Ty → Prop) : Prop where
  fixed : ∀ {t}, D t → Fixed False T t
  mentions : ∀ {t u}, D t → Mentions T t u → D u
  head : ∀ {t l}, D t → ¬ Bares T t (.builtin .error l)

/-- The text of a type in a family tells the form of its shape, and the texts of its parts. -/
def TextsTell (T : Store) (D : Ty → Prop) : Prop :=
  ∀ {a b a' b'}, D a → D b → OneText T a b → Bares T a a' → Bares T b b' → Form (OneText T) a' b'

/-- Two types of a family were found convertible, before the pairs in `L` were written down. -/
def Found (T : Store) (D : Ty → Prop) (L : List (String × String)) (a b : Ty) : Prop :=
  (D a ∧ D b) ∧ ∃ L₁ L₂, Answers T .conversion L₁ [some (a, b)] true L₂ ∧ L₂ ⊆ L

/-- What two types of a family lead to was found convertible when their texts were written down. -/
def Noted (T : Store) (D : Ty → Prop) (L : List (String × String)) (k : String × String) : Prop :=
  ∃ a b a' b', (D a ∧ D b) ∧ (Mangles T a k.1 ∧ Mangles T b k.2) ∧ (Bares T a a' ∧ Bares T b b') ∧
    Found T D L a' b'

/-- Types with the texts of types that were found convertible. -/
def Met (T : Store) (D : Ty → Prop) (L : List (String × String)) (a b : Ty) : Prop :=
  (D a ∧ D b) ∧ ∃ c d, OneText T a c ∧ OneText T d b ∧ Found T D L c d

section Sound

variable {T : Store} {D : Ty → Prop} {L : List (String × String)} {a b : Ty}

/-- More pairs may have been written down. -/
theorem Found.mono {L' : List (String × String)} (h : Found T D L a b) (hL : L ⊆ L') : Found T D L' a b :=
  let ⟨hD, L₁, L₂, hanswers, hsub⟩ := h
  ⟨hD, L₁, L₂, hanswers, fun _ hp => hL (hsub hp)⟩

/-- More pairs may have been written down. -/
theorem Noted.mono {L' : List (String × String)} {k : String × String} (h : Noted T D L k) (hL : L ⊆ L') :
    Noted T D L' k :=
  let ⟨a, b, a', b', hD, hk, hbares, hfound⟩ := h
  ⟨a, b, a', b', hD, hk, hbares, hfound.mono hL⟩

/-- A comparison that finds everything convertible finds each pair convertible. -/
theorem Answers.found {L L' : List (String × String)} {ps : List (Option (Ty × Ty))} {r : Bool}
    (h : Answers T .conversion L ps r L') (hr : r = true) (hps : ∀ p, some p ∈ ps → D p.1 ∧ D p.2) :
    AllRelated (Found T D L') ps := by
  have hcons {p : Ty × Ty} {ps : List (Option (Ty × Ty))} {L₁ L₂ L' : List (String × String)}
      (hp : D p.1 ∧ D p.2) (hfirst : Answers T .conversion L₁ [some p] true L₂) (hsub : L₂ ⊆ L')
      (hrest : AllRelated (Found T D L') ps) : AllRelated (Found T D L') (some p :: ps) :=
    List.forall_mem_cons.2 ⟨⟨p, rfl, hp, L₁, L₂, hfirst, hsub⟩, hrest⟩
  induction h with
  | nil => simp [AllRelated]
  | differ | openedFalse | notedFalse => cases hr
  | opened ho hparts hrest _ ih =>
    exact hcons (hps _ List.mem_cons_self) (.opened ho hparts .nil) hrest.subset
      (ih hr fun p hp => hps p (by simp [hp]))
  | granted ho hpair hrest ih =>
    exact hcons (hps _ List.mem_cons_self) (.granted ho hpair .nil) hrest.subset
      (ih hr fun p hp => hps p (by simp [hp]))
  | noted ho hpair hparts hrest _ ih =>
    exact hcons (hps _ List.mem_cons_self) (.noted ho hpair hparts .nil) hrest.subset
      (ih hr fun p hp => hps p (by simp [hp]))

variable (hT : Definite False T) (hD : Sound T D)

include hT hD

/-- What a type leads to is a shape of the family. -/
theorem Sound.bares {t u : Ty} (ht : D t) (h : Bares T t u) : D u ∧ u.IsShape := by
  have hfamily : Gathers T fun t => D t ∨ ∃ l, t = .builtin .error l := by
    refine ⟨fun {t u} ht hmention => ?_, .inr ⟨none, rfl⟩⟩
    obtain ht | ⟨l, rfl⟩ := ht
    · exact .inl (hD.mentions ht hmention)
    · cases hmention
  obtain ⟨u', hu', hshape, -⟩ := hT.bares (hD.fixed ht)
  obtain rfl := h.unique hu'
  obtain hu | ⟨l, rfl⟩ := hT.bares_gathered (hD.fixed ht) h hfamily (.inl ht)
  · exact ⟨hu, hshape⟩
  · exact absurd h (hD.head ht)

/-- No type of the family is, or names, the error type. -/
theorem Sound.faultless {t : Ty} (ht : D t) : ¬ Faulty T t true := by
  intro h
  obtain ⟨r, hr, hbares⟩ := hT.faulty (hD.fixed ht)
  obtain rfl := Tells.unique h hr
  obtain ⟨l, hl⟩ := hbares rfl
  exact hD.head ht hl

/-- How a pair of such types is opened: the types are one tree, or one is a name and what they lead to is
left, or they are shapes, which are convertible if what is left is. -/
theorem Sound.opens_cases (ha : D a) (hb : D b) {o : Opening} (ho : Opens T .conversion a b o) :
    (a.same b ∧ o = ⟨none, []⟩) ∨
    (∃ x y a' b', o = ⟨some (x, y), [some (a', b')]⟩ ∧ (Mangles T a x ∧ Mangles T b y) ∧
      Bares T a a' ∧ Bares T b b' ∧ (a.isNamed || b.isNamed)) ∨
    ((a.IsShape ∧ b.IsShape) ∧ o.key = none ∧
      (∀ p, some p ∈ o.parts → D p.1 ∧ D p.2) ∧ ∀ R, AllRelated R o.parts → Converts T R a b) := by
  have hheads {a' b' : Ty} (h : Heads T a b a' b') : a' = a ∧ b' = b :=
    ⟨stripDot_self id (hD.fixed ha) h.left, stripDot_self id (hD.fixed hb) h.right⟩
  have hshapes (hnamed : ¬ (a.isNamed || b.isNamed)) : a.IsShape ∧ b.IsShape := by
    simp only [Bool.or_eq_true, not_or] at hnamed
    exact ⟨isShape_of_not_named id (hD.fixed ha) hnamed.1, isShape_of_not_named id (hD.fixed hb) hnamed.2⟩
  cases ho with
  | same h => exact .inl ⟨h, rfl⟩
  | error _ h => exact h.elim (fun h => absurd h (hD.faultless hT ha)) fun h => absurd h.2 (hD.faultless hT hb)
  | nominal hmode => cases hmode
  | names _ h hnamed hx hy hbare hbare' =>
    obtain ⟨rfl, rfl⟩ := hheads h
    exact .inr (.inl ⟨_, _, _, _, rfl, ⟨hx, hy⟩, hbare, hbare', hnamed⟩)
  | wrongNames _ h _ _ _ hbare hbare' herror =>
    obtain ⟨rfl, rfl⟩ := hheads h
    exact herror.elim (fun h => absurd h (hD.faultless hT (hD.bares hT ha hbare).1))
      fun h => absurd h.2 (hD.faultless hT (hD.bares hT hb hbare').1)
  | @decay _ _ p _ h hnamed hdecay =>
    obtain ⟨rfl, rfl⟩ := hheads h
    refine .inr (.inr ⟨hshapes hnamed, rfl, fun q hq => ?_, fun R hR => ?_⟩)
    · obtain rfl : q = p := by simpa using hq
      exact hdecay.gathered hD.mentions (fun ht h => (hD.bares hT ht h).1) ⟨ha, hb⟩
    · obtain ⟨q, hq, hpq⟩ := hR _ List.mem_cons_self
      obtain rfl := Option.some.inj hq
      exact .inr ⟨p, hdecay, hpq⟩
  | parts _ h hnamed =>
    obtain ⟨rfl, rfl⟩ := hheads h
    obtain ⟨hshape, hshape'⟩ := hshapes hnamed
    exact .inr (.inr ⟨⟨hshape, hshape'⟩, rfl, fun q hq => partsOf_gathered hD.mentions ha hb hq,
      fun R hR => .inl ((allRelated_partsOf hshape hshape').1 hR)⟩)

/-- Whatever such a comparison writes down is justified. -/
theorem Answers.justified {L L' : List (String × String)} {ps : List (Option (Ty × Ty))} {r : Bool}
    (h : Answers T .conversion L ps r L') (hr : r = true) (hps : ∀ p, some p ∈ ps → D p.1 ∧ D p.2) :
    ∀ k ∈ L', k ∈ L ∨ Noted T D L' k := by
  induction h with
  | nil => exact fun k hk => .inl hk
  | differ | openedFalse | notedFalse => cases hr
  | granted _ _ _ ih => exact ih hr fun p hp => hps p (by simp [hp])
  | @opened L a b parts L₁ ps r L' ho hparts hrest ihparts ihrest =>
    obtain ⟨ha, hb⟩ := hps _ List.mem_cons_self
    have hmem : ∀ p, some p ∈ parts → D p.1 ∧ D p.2 := by
      obtain ⟨-, heq⟩ | ⟨_, _, _, _, heq, -⟩ | ⟨-, -, h, -⟩ := hD.opens_cases hT ha hb ho
      · cases heq
        simp
      · cases heq
      · exact h
    refine fun k hk => (ihrest hr (fun p hp => hps p (by simp [hp])) k hk).elim (fun hk => ?_) .inr
    exact (ihparts rfl hmem k hk).imp_right fun h => h.mono hrest.subset
  | @noted L a b pair parts L₁ ps r L' ho hpair hparts hrest ihparts ihrest =>
    obtain ⟨ha, hb⟩ := hps _ List.mem_cons_self
    obtain ⟨-, heq⟩ | ⟨x, y, a', b', heq, htexts, hbare, hbare', -⟩ | ⟨-, heq, -⟩ := hD.opens_cases hT ha hb ho
    · cases heq
    · cases heq
      have hmem : ∀ p, some p ∈ [some (a', b')] → D p.1 ∧ D p.2 := fun p hp => by
        obtain rfl : p = (a', b') := by simpa using hp
        exact ⟨(hD.bares hT ha hbare).1, (hD.bares hT hb hbare').1⟩
      refine fun k hk => (ihrest hr (fun p hp => hps p (by simp [hp])) k hk).elim (fun hk => ?_) .inr
      obtain hk | hk := ihparts rfl hmem k hk
      · obtain rfl | hk := List.mem_cons.1 hk
        · obtain ⟨q, hq, hfound⟩ := hparts.found rfl hmem _ List.mem_cons_self
          cases hq
          exact .inr ⟨a, b, a', b', ⟨ha, hb⟩, htexts, ⟨hbare, hbare'⟩, hfound.mono hrest.subset⟩
        · exact .inl hk
      · exact .inr (hk.mono hrest.subset)
    · cases heq

variable (htell : TextsTell T D)

/-- A type with the text of another one, and one that was found convertible. -/
theorem Found.met (h : Found T D L a b) : Met T D L a b :=
  ⟨h.1, a, b, hT.oneText_refl (hD.fixed h.1.1), hT.oneText_refl (hD.fixed h.1.2), h⟩

/-- Types with one text have met. -/
theorem OneText.met (ha : D a) (hb : D b) (h : OneText T a b) : Met T D L a b :=
  ⟨⟨ha, hb⟩, b, b, h, hT.oneText_refl (hD.fixed hb), ⟨hb, hb⟩, [], [],
    .opened (.same (Ty.same_refl b)) .nil .nil, by simp⟩

include htell

/-- Shapes with one text are convertible. -/
theorem OneText.converts (ha : D a) (hb : D b) (h : OneText T a b) {a' b' : Ty} (hbare : Bares T a a')
    (hbare' : Bares T b b') : Converts T (Met T D L) a' b' :=
  .inl (((htell ha hb h hbare hbare').within hD.mentions (hD.bares hT ha hbare).1
    (hD.bares hT hb hbare').1).mono fun _ _ h => h.2.2.met hT hD h.1 h.2.1)

/-- Shapes that were found convertible are of one form, or one becomes a slice of the other. -/
theorem Found.converts (h : Found T D L a b) (hshapes : a.IsShape ∧ b.IsShape) :
    Converts T (Met T D L) a b := by
  obtain ⟨⟨ha, hb⟩, L₁, L₂, hanswers, hsub⟩ := h
  have hnot : ¬ (a.isNamed || b.isNamed) := by simp [hshapes.1.isNamed, hshapes.2.isNamed]
  cases hanswers with
  | opened ho hparts hrest =>
    cases hrest
    obtain ⟨hsame, -⟩ | ⟨_, _, _, _, heq, -⟩ | ⟨-, -, hmem, hconverts⟩ := hD.opens_cases hT ha hb ho
    · exact (hT.oneText_of_same (hD.fixed ha) hsame).converts hT hD htell ha hb
        (hT.bares_shape (hD.fixed ha) hshapes.1) (hT.bares_shape (hD.fixed hb) hshapes.2)
    · cases heq
    · refine hconverts _ fun p hp => ?_
      obtain ⟨q, hq, hfound⟩ := hparts.found rfl hmem p hp
      exact ⟨q, hq, (hfound.mono hsub).met hT hD⟩
  | granted ho | noted ho =>
    obtain ⟨-, heq⟩ | ⟨_, _, _, _, -, -, -, -, hnamed⟩ | ⟨-, heq, -⟩ := hD.opens_cases hT ha hb ho
    · cases heq
    · exact absurd hnamed hnot
    · cases heq

/-- What was found convertible has the texts of types that unfold to what is convertible. -/
theorem Found.unfolds (hL : ∀ k ∈ L, Noted T D L k) (h : Found T D L a b) :
    ∃ c d c' d', (D c ∧ D d) ∧ (OneText T a c ∧ OneText T d b) ∧ (Bares T c c' ∧ Bares T d d') ∧
      Converts T (Met T D L) c' d' := by
  have hfound := h
  obtain ⟨⟨ha, hb⟩, L₁, L₂, hanswers, hsub⟩ := h
  have hself := hT.oneText_refl (hD.fixed ha)
  have hself' := hT.oneText_refl (hD.fixed hb)
  have hone (h : OneText T a b) : ∃ c d c' d', (D c ∧ D d) ∧ (OneText T a c ∧ OneText T d b) ∧
      (Bares T c c' ∧ Bares T d d') ∧ Converts T (Met T D L) c' d' := by
    obtain ⟨a', ha', -⟩ := hT.bares (hD.fixed ha)
    exact ⟨a, a, a', a', ⟨ha, ha⟩, ⟨hself, h⟩, ⟨ha', ha'⟩, hself.converts hT hD htell ha ha ha' ha'⟩
  have hleads {c d c' d' : Ty} (hcd : D c ∧ D d) (htexts : OneText T a c ∧ OneText T d b)
      (hbares : Bares T c c' ∧ Bares T d d') (hfound : Found T D L c' d') :
      ∃ c d c' d', (D c ∧ D d) ∧ (OneText T a c ∧ OneText T d b) ∧ (Bares T c c' ∧ Bares T d d') ∧
        Converts T (Met T D L) c' d' :=
    ⟨c, d, c', d', hcd, htexts, hbares, hfound.converts hT hD htell
      ⟨(hD.bares hT hcd.1 hbares.1).2, (hD.bares hT hcd.2 hbares.2).2⟩⟩
  cases hanswers with
  | opened ho =>
    obtain ⟨hsame, -⟩ | ⟨_, _, _, _, heq, -⟩ | ⟨hshapes, -, -, -⟩ := hD.opens_cases hT ha hb ho
    · exact hone (hT.oneText_of_same (hD.fixed ha) hsame)
    · cases heq
    · exact hleads ⟨ha, hb⟩ ⟨hself, hself'⟩
        ⟨hT.bares_shape (hD.fixed ha) hshapes.1, hT.bares_shape (hD.fixed hb) hshapes.2⟩ hfound
  | granted ho hpair hrest =>
    cases hrest
    obtain ⟨-, heq⟩ | ⟨x, y, a', b', heq, htexts, -⟩ | ⟨-, heq, -⟩ := hD.opens_cases hT ha hb ho
    · cases heq
    · cases heq
      obtain hsame | hmem := hpair
      · obtain rfl : x = y := hsame
        exact hone ⟨x, htexts.1, htexts.2⟩
      · -- Other types with these texts were compared in place of these.
        obtain ⟨c, d, c', d', hcd, hk, hbares, hfound⟩ := hL _ (hsub hmem)
        exact hleads hcd ⟨⟨x, htexts.1, hk.1⟩, ⟨y, hk.2, htexts.2⟩⟩ hbares hfound
    · cases heq
  | noted ho hpair hparts hrest =>
    cases hrest
    obtain ⟨-, heq⟩ | ⟨x, y, a', b', heq, -, hbare, hbare', -⟩ | ⟨-, heq, -⟩ := hD.opens_cases hT ha hb ho
    · cases heq
    · cases heq
      have hmem : ∀ p, some p ∈ [some (a', b')] → D p.1 ∧ D p.2 := fun p hp => by
        obtain rfl : p = (a', b') := by simpa using hp
        exact ⟨(hD.bares hT ha hbare).1, (hD.bares hT hb hbare').1⟩
      obtain ⟨q, hq, hfound⟩ := hparts.found rfl hmem _ List.mem_cons_self
      cases hq
      exact hleads ⟨ha, hb⟩ ⟨hself, hself'⟩ ⟨hbare, hbare'⟩ (hfound.mono hsub)
    · cases heq

/-- Members with the texts of those of a slice descriptor are laid out like one, with an element of the
same text. -/
theorem Describes.of_texts {ms ns : List (Member Ty)} (hms : ∀ m ∈ ms, D m.type) (hns : ∀ n ∈ ns, D n.type)
    (h : ms.Forall₂ (fun m n => m.name = n.name ∧ OneText T m.type n.type) ns) {e : Ty}
    (hdescribes : Describes T ms e) : ∃ e', Describes T ns e' ∧ OneText T e e' := by
  have hform {m n : Member Ty} {u : Ty} (hm : D m.type) (hn : D n.type) (hone : OneText T m.type n.type)
      (hu : Bares T m.type u) : ∃ v, Bares T n.type v ∧ Form (OneText T) u v := by
    obtain ⟨v, hv, -⟩ := hT.bares (hD.fixed hn)
    exact ⟨v, hv, htell hm hn hone hu hv⟩
  obtain @⟨x, y, z, e, l, l', l'', hnames, hx, hy, hz⟩ := hdescribes
  match ns, hns, h with
  | [x', y', z'], hns, .cons hxx' (.cons hyy' (.cons hzz' .nil)) =>
    obtain ⟨_, hx', hformx⟩ := hform (hms x (by simp)) (hns x' (by simp)) hxx'.2 hx
    obtain ⟨_, hy', hformy⟩ := hform (hms y (by simp)) (hns y' (by simp)) hyy'.2 hy
    obtain ⟨_, hz', hformz⟩ := hform (hms z (by simp)) (hns z' (by simp)) hzz'.2 hz
    cases hformx with
    | pointer hone =>
      cases hformy
      cases hformz
      exact ⟨_, .mk ⟨hxx'.1 ▸ hnames.1, hyy'.1 ▸ hnames.2.1, hzz'.1 ▸ hnames.2.2⟩ hx' hy' hz', hone⟩

/-- Where one shape becomes a slice of another one, so do shapes whose parts have the same texts. -/
theorem Decays.of_texts {a' b' : Ty} (ha : D a ∧ D a') (hb : D b ∧ D b') (hform : Form (OneText T) a a')
    (hform' : Form (OneText T) b b') {p : Ty × Ty} (h : Decays T a b p) :
    ∃ q, Decays T a' b' q ∧ OneText T p.1 q.1 ∧ OneText T p.2 q.2 := by
  have hmembers {ms : List (Member Ty)} {l : Option Location} (h : D (.struct ms l)) : ∀ m ∈ ms, D m.type :=
    fun m hm => hD.mentions h (.member hm)
  cases h with
  | pointer h hn =>
    cases hform with
    | pointer hone =>
      cases hform' with
      | slice hone' =>
        have hp := hD.mentions ha.1 .pointer
        have hp' := hD.mentions ha.2 .pointer
        obtain ⟨u, hu, -⟩ := hT.bares (hD.fixed hp')
        cases htell hp hp' hone h hu with
        | array hone => exact ⟨_, .pointer hu hn, hone, hone'⟩
  | array hn =>
    cases hform with
    | array hone =>
      cases hform' with
      | slice hone' => exact ⟨_, .array hn, hone, hone'⟩
  | descriptor h =>
    cases hform with
    | struct hone =>
      cases hform' with
      | slice hone' =>
        obtain ⟨e, he, hone⟩ := h.of_texts hT hD htell (hmembers ha.1) (hmembers ha.2) hone
        exact ⟨_, .descriptor he, hone, hone'⟩
  | record h =>
    cases hform with
    | slice hone =>
      cases hform' with
      | struct hone' =>
        obtain ⟨e, he, hone'⟩ := h.of_texts hT hD htell (hmembers hb.1) (hmembers hb.2) hone'
        exact ⟨_, .record he, hone, hone'⟩

/-- What was met unfolds to what was met. -/
theorem Met.unfolds (hL : ∀ k ∈ L, Noted T D L k) (h : Met T D L a b) : Unfolds T (Met T D L) a b := by
  obtain ⟨⟨ha, hb⟩, c₀, d₀, hac, hdb, hfound⟩ := h
  obtain ⟨c, d, c', d', ⟨hc, hd⟩, ⟨hcc, hdd⟩, ⟨hc', hd'⟩, hconverts⟩ := hfound.unfolds hT hD htell hL
  have hac := hac.trans hcc
  have hdb := hdd.trans hdb
  obtain ⟨a', ha', -⟩ := hT.bares (hD.fixed ha)
  obtain ⟨b', hb', -⟩ := hT.bares (hD.fixed hb)
  have hDa := (hD.bares hT ha ha').1
  have hDb := (hD.bares hT hb hb').1
  have hDc := (hD.bares hT hc hc').1
  have hDd := (hD.bares hT hd hd').1
  -- What was met stays so when either type is replaced by one with its text.
  have hleft : ∀ x y z, (D x ∧ D y ∧ OneText T x y) → Met T D L y z → Met T D L x z :=
    fun x y z hxy ⟨hyz, e, f, hye, hfz, hef⟩ => ⟨⟨hxy.1, hyz.2⟩, e, f, hxy.2.2.trans hye, hfz, hef⟩
  have hright : ∀ x y z, Met T D L x y → (D y ∧ D z ∧ OneText T y z) → Met T D L x z :=
    fun x y z ⟨hxy, e, f, hxe, hfy, hef⟩ hyz => ⟨⟨hxy.1, hyz.2.1⟩, e, f, hxe, hfy.trans hyz.2.2, hef⟩
  refine ⟨a', b', ha', hb', ?_⟩
  obtain hform | ⟨p, hp, hmet⟩ := hconverts
  · have hfirst := (htell ha hc hac ha' hc').within hD.mentions hDa hDc
    have hlast := (htell hd hb hdb hd' hb').within hD.mentions hDd hDb
    exact .inl ((hfirst.comp hleft hright hform).comp hright hleft hlast)
  · obtain ⟨q, hq, hone, hone'⟩ := hp.of_texts hT hD htell ⟨hDc, hDa⟩ ⟨hDd, hDb⟩
      (htell hc ha hac.symm hc' ha') (htell hd hb hdb hd' hb')
    obtain ⟨hq₁, hq₂⟩ := hq.gathered hD.mentions (fun ht h => (hD.bares hT ht h).1) ⟨hDa, hDb⟩
    exact .inr ⟨q, hq, hleft _ _ _ ⟨hq₁, hmet.1.1, hone.symm⟩ (hright _ _ _ hmet ⟨hmet.1.2, hq₂, hone'⟩)⟩

/-- What a comparison answers is whether one type is convertible to the other. -/
theorem Answers.convertible_iff (ha : D a) (hb : D b) {r : Bool}
    (h : Answers T .conversion [] [some (a, b)] r L) : r = true ↔ Convertible T a b := by
  have hpair {R : Ty × Ty → Prop} (hR : R (a, b)) : ∀ p, some p ∈ [some (a, b)] → R p := fun p hp => by
    obtain rfl : p = (a, b) := by simpa using hp
    exact hR
  constructor
  · rintro rfl
    have hL : ∀ k ∈ L, Noted T D L k := fun k hk =>
      (h.justified hT hD rfl (hpair (R := fun p => D p.1 ∧ D p.2) ⟨ha, hb⟩) k hk).resolve_left List.not_mem_nil
    have hfound : Found T D L a b := ⟨⟨ha, hb⟩, [], L, h, fun _ hk => hk⟩
    exact ⟨Met T D L, fun x y hxy => hxy.unfolds hT hD htell hL, hfound.met hT hD⟩
  · exact fun hconvertible => h.complete hT id
      (hpair (R := fun p => Fixed False T p.1 ∧ Fixed False T p.2) ⟨hD.fixed ha, hD.fixed hb⟩)
      fun p hp => ⟨(a, b), List.mem_singleton.1 hp, hconvertible⟩

end Sound

end Qll.Types
