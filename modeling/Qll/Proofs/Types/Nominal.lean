import Qll.Proofs.Types.Reading
import Qll.Proofs.Types.Structural

/-!
# Nominal equality

Where names are compared as names, a closed type is what its outline says: the tree of what it is made of,
in which variables are followed and names are replaced by the qualified ones. Two closed types are found
equal if they have one outline, and only then. So equality is an equivalence, and since types with one
outline have one mangled text, equal types can be used as each other.
-/

namespace Qll.Types

open Qll.Computation
open Source (Location)

/-! ## Outlines -/

/-- The outline of a type. Unlike in its constructor tree, a name stays a name where it stands for a builtin
type. -/
inductive Outlines (s : Store) : Ty → Tree → Prop
  | builtin {kind l} : Outlines s (.builtin kind l) (.builtin kind)
  | name {id text l b} (hb : s.binding? id = some b) (hvar : ∀ v, b.type ≠ .var v) :
      Outlines s (.name id text l) (.name b.qualified)
  | parameter {id text l b v k} (hb : s.binding? id = some b) (hv : b.type = .var v)
      (h : Outlines s (.var v) k) : Outlines s (.name id text l) k
  | pointer {e l k} (h : Outlines s e k) : Outlines s (.pointer e l) (.pointer k)
  | slice {e l k} (h : Outlines s e k) : Outlines s (.slice e l) (.slice k)
  | array {e n l k} (h : Outlines s e k) : Outlines s (.array e n l) (.array k n)
  | struct {ms l ks} (hlength : ms.length = ks.length) (hnames : ∀ p ∈ ms.zip ks, p.1.name = p.2.1)
      (h : ∀ p ∈ ms.zip ks, Outlines s p.1.type p.2.2) : Outlines s (.struct ms l) (.struct ks)
  | function {as r l ks k} (hlength : as.length = ks.length) (h : ∀ p ∈ as.zip ks, Outlines s p.1 p.2)
      (hr : Outlines s r k) : Outlines s (.function as r l) (.function ks k)
  | apply {id head text as l b ks} (hb : s.binding? head = some b) (hvar : ∀ v, b.type ≠ .var v)
      (hlength : as.length = ks.length) (h : ∀ p ∈ as.zip ks, Outlines s p.1 p.2) :
      Outlines s (.apply id head text as l) (.apply b.qualified ks)
  | var {v u k} (hu : s.bound? v = some u) (h : Outlines s u k) : Outlines s (.var v) k

/-- A family of closed types without projections, with what they carry: names are resolved, what is applied is
declared, and following variables comes to an end. No type in it is an error. -/
structure Equatable (s : Store) (D : Ty → Prop) : Prop where
  carries : ∀ {t u}, D t → Carries s t u → D u
  ends : ∀ {t}, D t → Acc (fun u t => Carries s t u) t
  name : ∀ {id text l}, D (.name id text l) → (s.binding? id).isSome
  apply : ∀ {id head text as l}, D (.apply id head text as l) →
    ∃ b, s.binding? head = some b ∧ ∀ v, b.type ≠ .var v
  var : ∀ {v}, D (.var v) → (s.bound? v).isSome
  dot : ∀ {b m l}, ¬ D (.dot b m l)
  template : ∀ {id}, ¬ D (.template id)
  sound : ∀ {t}, D t → Faulty s t false
  /-- An index stands for one application. -/
  node : ∀ {id head head' text text' as as' l l'}, D (.apply id head text as l) →
    D (.apply id head' text' as' l') → head = head' ∧ as = as'

/-- Two types have one outline. -/
def OneOutline (s : Store) (a b : Ty) : Prop := ∃ k, Outlines s a k ∧ Outlines s b k

section Outlines

variable {s : Store} {D : Ty → Prop} {a b t u : Ty} {k k' : Tree}

/-- Each item of a list has something to it. -/
theorem exists_forall₂ {α β : Type} {P : α → β → Prop} {as : List α} (h : ∀ a ∈ as, ∃ b, P a b) :
    ∃ bs, as.Forall₂ P bs := by
  induction as with
  | nil => exact ⟨[], .nil⟩
  | cons a as ih =>
    obtain ⟨b, hb⟩ := h a (by simp)
    obtain ⟨bs, hbs⟩ := ih fun a ha => h a (by simp [ha])
    exact ⟨b :: bs, .cons hb hbs⟩

/-- What there is to an item is in the list of these. -/
theorem exists_of_forall₂ {α β : Type} {P : α → β → Prop} {as : List α} {bs : List β} (h : as.Forall₂ P bs)
    {a : α} (ha : a ∈ as) : ∃ b ∈ bs, P a b := by
  induction h with
  | nil => cases ha
  | @cons c b _ _ hcb _ ih =>
    obtain rfl | ha := List.mem_cons.1 ha
    · exact ⟨b, by simp, hcb⟩
    · obtain ⟨b', hb', hP⟩ := ih ha
      exact ⟨b', by simp [hb'], hP⟩

/-- Where there is one thing to each item of a list, there is one list of things. -/
theorem forall₂_unique {α β : Type} {P : α → β → Prop} {as : List α} {bs bs' : List β}
    (h : as.Forall₂ (fun a b => ∀ b', P a b' → b = b') bs) (h' : as.Forall₂ P bs') : bs = bs' := by
  induction h generalizing bs' with
  | nil =>
    cases h'
    rfl
  | cons hab _ ih =>
    cases h' with
    | cons hab' h' => rw [hab _ hab', ih h']

/-- Two lists have the same things to their items if the items share theirs, one by one. -/
theorem forall₂_shared_iff {α β : Type} {P : α → β → Prop} {as as' : List α} {bs bs' : List β}
    (hunique : Relator.RightUnique P) (h : as.Forall₂ P bs) (h' : as'.Forall₂ P bs') :
    as.Forall₂ (fun a a' => ∃ b, P a b ∧ P a' b) as' ↔ bs = bs' := by
  induction h generalizing as' bs' with
  | nil => cases h' <;> simp
  | @cons a b as bs hab _ ih =>
    cases h' with
    | nil => simp
    | @cons a' b' as' bs' hab' h' =>
      rw [List.forall₂_cons, ih h', List.cons.injEq]
      refine and_congr_left fun _ => ⟨fun ⟨c, hc, hc'⟩ => ?_, fun hb => ⟨b, hab, hb ▸ hab'⟩⟩
      rw [hunique hab hc, hunique hab' hc']

/-- A type has one outline. -/
theorem Outlines.unique (h : Outlines s t k) (h' : Outlines s t k') : k = k' := by
  induction h generalizing k' with
  | builtin =>
    cases h'
    rfl
  | name hb hvar =>
    cases h' with
    | name hb' => rw [Option.some.inj (hb.symm.trans hb')]
    | parameter hb' hv => exact absurd (Option.some.inj (hb.symm.trans hb') ▸ hv) (hvar _)
  | parameter hb hv _ ih =>
    cases h' with
    | name hb' hvar => exact absurd hv (Option.some.inj (hb'.symm.trans hb) ▸ hvar _)
    | parameter hb' hv' h' =>
      obtain rfl := Option.some.inj (hb.symm.trans hb')
      obtain rfl := Ty.var.inj (hv.symm.trans hv')
      exact ih h'
  | pointer _ ih =>
    cases h' with
    | pointer h' => rw [ih h']
  | slice _ ih =>
    cases h' with
    | slice h' => rw [ih h']
  | array _ ih =>
    cases h' with
    | array h' => rw [ih h']
  | struct hlength hnames _ ih =>
    cases h' with
    | struct hlength' hnames' h' =>
      rw [forall₂_unique (P := fun m k => m.name = k.1 ∧ Outlines s m.type k.2)
        (List.forall₂_iff_zip.2 ⟨hlength, fun hp p h => Prod.ext ((hnames _ hp).symm.trans h.1) (ih _ hp h.2)⟩)
        (List.forall₂_iff_zip.2 ⟨hlength', fun hp => ⟨hnames' _ hp, h' _ hp⟩⟩)]
  | function hlength _ _ ih ihr =>
    cases h' with
    | function hlength' h' hr' =>
      rw [ihr hr', forall₂_unique (P := Outlines s) (List.forall₂_iff_zip.2 ⟨hlength, fun hp _ h => ih _ hp h⟩)
        (List.forall₂_iff_zip.2 ⟨hlength', fun hp => h' _ hp⟩)]
  | apply hb _ hlength _ ih =>
    cases h' with
    | apply hb' _ hlength' h' =>
      rw [Option.some.inj (hb.symm.trans hb'), forall₂_unique (P := Outlines s)
        (List.forall₂_iff_zip.2 ⟨hlength, fun hp _ h => ih _ hp h⟩)
        (List.forall₂_iff_zip.2 ⟨hlength', fun hp => h' _ hp⟩)]
  | var hu _ ih =>
    cases h' with
    | var hu' h' =>
      obtain rfl := Option.some.inj (hu.symm.trans hu')
      exact ih h'

/-- A type has one outline at most. -/
theorem rightUnique_outlines : Relator.RightUnique (Outlines s) := fun _ _ _ => Outlines.unique

/-- The outline of a struct has those of the members. -/
theorem outlines_struct {ms : List (Member Ty)} {l : Option Location} : Outlines s (.struct ms l) k ↔
    ∃ ks, k = .struct ks ∧ ms.Forall₂ (fun m k => m.name = k.1 ∧ Outlines s m.type k.2) ks := by
  constructor
  · rintro ⟨⟩
    exact ⟨_, rfl, List.forall₂_iff_zip.2 ⟨‹_›, fun hp => ⟨‹∀ p ∈ _, p.1.name = p.2.1› _ hp,
      ‹∀ p ∈ _, Outlines s p.1.type p.2.2› _ hp⟩⟩⟩
  · rintro ⟨ks, rfl, h⟩
    obtain ⟨hlength, h⟩ := List.forall₂_iff_zip.1 h
    exact .struct hlength (fun _ hp => (h hp).1) fun _ hp => (h hp).2

/-- The outline of a type of functions has those of the arguments and of the result. -/
theorem outlines_function {as : List Ty} {r : Ty} {l : Option Location} : Outlines s (.function as r l) k ↔
    ∃ ks k', k = .function ks k' ∧ as.Forall₂ (Outlines s) ks ∧ Outlines s r k' := by
  constructor
  · rintro ⟨⟩
    exact ⟨_, _, rfl, List.forall₂_iff_zip.2 ⟨‹_›, fun hp => ‹∀ p ∈ _, Outlines s p.1 p.2› _ hp⟩, ‹_›⟩
  · rintro ⟨ks, k', rfl, h, hr⟩
    obtain ⟨hlength, h⟩ := List.forall₂_iff_zip.1 h
    exact .function hlength (fun _ hp => h hp) hr

/-- The outline of an application has those of the type arguments. -/
theorem outlines_apply {id head : Nat} {text : String} {as : List Ty} {l : Option Location} :
    Outlines s (.apply id head text as l) k ↔ ∃ b ks, (s.binding? head = some b ∧ ∀ v, b.type ≠ .var v) ∧
      k = .apply b.qualified ks ∧ as.Forall₂ (Outlines s) ks := by
  constructor
  · rintro ⟨⟩
    exact ⟨_, _, ⟨‹_›, ‹_›⟩, rfl, List.forall₂_iff_zip.2 ⟨‹_›, fun hp => ‹∀ p ∈ _, Outlines s p.1 p.2› _ hp⟩⟩
  · rintro ⟨b, ks, ⟨hb, hvar⟩, rfl, h⟩
    obtain ⟨hlength, h⟩ := List.forall₂_iff_zip.1 h
    exact .apply hb hvar hlength fun _ hp => h hp

/-- A closed type has an outline. -/
theorem Equatable.outlined (hD : Equatable s D) (ht : D t) : ∃ k, Outlines s t k := by
  induction hD.ends ht with
  | intro t _ ih =>
    have hpart {u : Ty} (h : Carries s t u) : ∃ k, Outlines s u k := ih u h (hD.carries ht h)
    cases t with
    | builtin => exact ⟨_, .builtin⟩
    | name =>
      obtain ⟨b, hb⟩ := Option.isSome_iff_exists.1 (hD.name ht)
      by_cases hvar : ∃ v, b.type = .var v
      · obtain ⟨v, hv⟩ := hvar
        obtain ⟨k, hk⟩ := hpart (.parameter hb hv)
        exact ⟨k, .parameter hb hv hk⟩
      · exact ⟨_, .name hb (not_exists.1 hvar)⟩
    | pointer => exact (hpart .pointer).imp' _ fun _ => .pointer
    | slice => exact (hpart .slice).imp' _ fun _ => .slice
    | array => exact (hpart .array).imp' (Tree.array · _) fun _ => .array
    | struct =>
      obtain ⟨ks, hks⟩ := exists_forall₂ (P := fun m k => m.name = k.1 ∧ Outlines s m.type k.2) fun m hm =>
        (hpart (.member hm)).imp' (m.name, ·) fun _ h => ⟨rfl, h⟩
      exact ⟨_, outlines_struct.2 ⟨ks, rfl, hks⟩⟩
    | function =>
      obtain ⟨ks, hks⟩ := exists_forall₂ fun _ ha => hpart (.argument ha)
      obtain ⟨k, hk⟩ := hpart .result
      exact ⟨_, outlines_function.2 ⟨ks, k, rfl, hks, hk⟩⟩
    | apply =>
      obtain ⟨b, hb⟩ := hD.apply ht
      obtain ⟨ks, hks⟩ := exists_forall₂ fun _ ha => hpart (.typeArgument ha)
      exact ⟨_, outlines_apply.2 ⟨b, ks, hb, rfl, hks⟩⟩
    | dot => exact absurd ht hD.dot
    | var =>
      obtain ⟨u, hu⟩ := Option.isSome_iff_exists.1 (hD.var ht)
      exact (hpart (.bound hu)).imp fun _ => .var hu
    | template => exact absurd ht hD.template

/-! ### Texts -/

/-- Readings of the items of a list. -/
theorem Tells.forall₂ {α β γ : Type} {g : Nat → Store → α → Except Fault β} {P : γ → β → Prop} {as : List α}
    {cs : List γ} (h : as.Forall₂ (fun a c => ∃ b, Tells s (fun n S => g n S a) b ∧ P c b) cs) :
    ∃ bs, Tells s (fun n S => as.mapM (g n S)) bs ∧ cs.Forall₂ P bs := by
  induction h with
  | nil => exact ⟨[], .const fun _ _ => rfl, .nil⟩
  | cons hac _ ih =>
    obtain ⟨b, hb, hP⟩ := hac
    obtain ⟨bs, hbs, hrest⟩ := ih
    simp only [List.mapM_cons]
    exact ⟨b :: bs, hb.bind (hbs.map fun bs => b :: bs), .cons hP hrest⟩

/-- The text of a type is that of its outline. -/
theorem Outlines.renders (h : Outlines s t k) :
    ∃ x, Tells s (fun n S => S.renderWithin true n t) x ∧ k.text = x.toList := by
  have hlist {as : List Ty} {ks : List Tree} (hlength : as.length = ks.length) (h : ∀ p ∈ as.zip ks,
      ∃ x, Tells s (fun n S => S.renderWithin true n p.1) x ∧ p.2.text = x.toList) :
      ∃ xs, Tells s (fun n S => as.mapM (S.renderWithin true n)) xs ∧
        ks.Forall₂ (fun k x => k.text = x.toList) xs :=
    Tells.forall₂ (List.forall₂_iff_zip.2 ⟨hlength, fun hp => h _ hp⟩)
  induction h with
  | @builtin kind => exact ⟨kind.name, .succ (.const fun _ _ => rfl), rfl⟩
  | @name _ text _ b hb hvar =>
    exact ⟨b.qualified, .succ (.const fun n m => nameText_declared (T := s.withLimit m) hb hvar _ text), rfl⟩
  | @parameter _ text _ _ _ _ hb hv _ ih =>
    obtain ⟨x, ⟨N, hN⟩, htext⟩ := ih
    refine ⟨x, .succ ⟨N, fun n m hn hm => ?_⟩, htext⟩
    exact (nameText_parameter (T := s.withLimit m) hb hv _ text).trans (hN n m hn hm)
  | pointer _ ih =>
    obtain ⟨x, hx, htext⟩ := ih
    exact ⟨_, .succ (hx.map fun x => "*" ++ x), by simp [htext]⟩
  | slice _ ih =>
    obtain ⟨x, hx, htext⟩ := ih
    exact ⟨_, .succ (hx.map fun x => "[" ++ x ++ "]"), by simp [htext]⟩
  | @array _ n _ _ _ ih =>
    obtain ⟨x, hx, htext⟩ := ih
    exact ⟨_, .succ (hx.map fun x => "[" ++ x ++ "; " ++ Store.lengthText n ++ "]"), by simp [htext]⟩
  | @struct ms l ks hlength hnames _ ih =>
    have hmembers : ms.Forall₂ (fun m k => ∃ x, Tells s (fun n S => do
        return " " ++ m.name ++ ": " ++ (← S.renderWithin true n m.type) ++ ";") x ∧
          x.toList = ' ' :: (k.1.toList ++ ':' :: ' ' :: (k.2.text ++ [';']))) ks :=
      List.forall₂_iff_zip.2 ⟨hlength, fun {m k} hp => by
        obtain ⟨x, hx, htext⟩ := ih _ hp
        have hname : m.name = k.1 := hnames _ hp
        exact ⟨_, hx.map fun x => " " ++ m.name ++ ": " ++ x ++ ";", by simp [htext, hname]⟩⟩
    obtain ⟨xs, hxs, htexts⟩ := Tells.forall₂ hmembers
    refine ⟨_, .succ (hxs.map fun xs => "struct \x7b" ++ String.join xs ++ " \x7d"), ?_⟩
    rw [Tree.text_struct, memberTexts_eq htexts]
    simp [brace, closingBrace]
  | function hlength _ _ ih ihr =>
    obtain ⟨xs, hxs, htexts⟩ := hlist hlength ih
    obtain ⟨x, hx, htext⟩ := ihr
    refine ⟨_, .succ (hxs.bind (hx.map fun x => "(" ++ Text.join ", " xs ++ ") => " ++ x)), ?_⟩
    rw [Tree.text_function, listed_texts htexts, htext]
    simp [arrow]
  | @apply _ _ text _ _ b _ hb hvar hlength _ ih =>
    obtain ⟨xs, hxs, htexts⟩ := hlist hlength ih
    have hname : Tells s (fun n S => S.nameText true (S.renderWithin true n) _ text) b.qualified :=
      .const fun _ m => nameText_declared (T := s.withLimit m) hb hvar _ text
    refine ⟨_, .succ (hname.bind (hxs.map fun xs => b.qualified ++ Store.bracket xs)), ?_⟩
    rw [Tree.text_apply, listed_texts htexts]
    simp [Store.bracket]
  | @var _ _ _ hu _ ih =>
    obtain ⟨x, ⟨N, hN⟩, htext⟩ := ih
    refine ⟨x, .succ ⟨N, fun n m hn hm => ?_⟩, htext⟩
    simp only [Store.renderWithin, Store.withLimit_bound?, hu]
    exact hN n m hn hm

/-- Types with one outline have one mangled text. -/
theorem OneOutline.oneText (h : OneOutline s a b) : OneText s a b := by
  obtain ⟨k, ha, hb⟩ := h
  obtain ⟨x, hx, htext⟩ := ha.renders
  obtain ⟨y, hy, htext'⟩ := hb.renders
  obtain rfl := String.toList_inj.1 (htext.symm.trans htext')
  exact ⟨x, hx.mangles, hy.mangles⟩

/-! ### Trees that are one tree -/

/-- Trees that are the same have one outline. -/
theorem Equatable.outline_of_same (hD : Equatable s D) (ha : D a) (hb : D b) (h : Outlines s a k)
    (h' : Outlines s b k') (hsame : a.same b) : k = k' := by
  induction h generalizing b k' with
  | builtin =>
    cases b <;> simp only [Ty.same, Bool.and_eq_true, beq_iff_eq, Bool.false_eq_true] at hsame
    cases h'
    rw [hsame.1]
  | name hc hvar =>
    cases b <;> simp only [Ty.same, beq_iff_eq, Bool.false_eq_true] at hsame
    subst hsame
    exact (Outlines.name hc hvar).unique h'
  | parameter hc hv h =>
    cases b <;> simp only [Ty.same, beq_iff_eq, Bool.false_eq_true] at hsame
    subst hsame
    exact (Outlines.parameter hc hv h).unique h'
  | pointer _ ih =>
    cases b <;> simp only [Ty.same, Bool.and_eq_true, beq_iff_eq, Bool.false_eq_true] at hsame
    cases h' with
    | pointer h' => rw [ih (hD.carries ha .pointer) (hD.carries hb .pointer) h' hsame.1]
  | slice _ ih =>
    cases b <;> simp only [Ty.same, Bool.and_eq_true, beq_iff_eq, Bool.false_eq_true] at hsame
    cases h' with
    | slice h' => rw [ih (hD.carries ha .slice) (hD.carries hb .slice) h' hsame.1]
  | array _ ih =>
    cases b <;> simp only [Ty.same, Bool.and_eq_true, beq_iff_eq, Bool.false_eq_true] at hsame
    cases h' with
    | array h' => rw [ih (hD.carries ha .array) (hD.carries hb .array) h' hsame.1.1, hsame.1.2]
  | @struct ms l ks hlength hnames _ ih =>
    cases b <;> simp only [Ty.same, Bool.and_eq_true, beq_iff_eq, Bool.false_eq_true] at hsame
    obtain ⟨ks', rfl, hks⟩ := outlines_struct.1 h'
    have hmembers : ms.Forall₂ (fun m k => m.name = k.1 ∧ ∃ u, D u ∧ m.type.same u ∧ Outlines s u k.2) ks' :=
      forall₂_comp (fun m n k hmn hnk => ⟨hmn.1.trans hnk.2.1, n.type, hnk.1, hmn.2, hnk.2.2⟩)
        (forall₂_of_sameMembers hsame.1)
        ((List.forall₂_and_left _ _).2 ⟨fun n hn => hD.carries hb (.member hn), hks⟩)
    rw [forall₂_unique (List.forall₂_iff_zip.2 ⟨hlength, fun hp k' h => ?_⟩) hmembers]
    obtain ⟨hname, u, hu, hsame, hk⟩ := h
    exact Prod.ext ((hnames _ hp).symm.trans hname)
      (ih _ hp (hD.carries ha (.member (List.of_mem_zip hp).1)) hu hk hsame)
  | @function as r l ks _ hlength _ _ ih ihr =>
    cases b <;> simp only [Ty.same, Bool.and_eq_true, beq_iff_eq, Bool.false_eq_true] at hsame
    obtain ⟨ks', k', rfl, hks, hr'⟩ := outlines_function.1 h'
    have harguments : as.Forall₂ (fun a k => ∃ u, D u ∧ a.same u ∧ Outlines s u k) ks' :=
      forall₂_comp (fun _ u _ hau huk => ⟨u, huk.1, hau, huk.2⟩) (forall₂_of_sameList hsame.1.1)
        ((List.forall₂_and_left _ _).2 ⟨fun u hu => hD.carries hb (.argument hu), hks⟩)
    rw [ihr (hD.carries ha .result) (hD.carries hb .result) hr' hsame.1.2,
      forall₂_unique (List.forall₂_iff_zip.2 ⟨hlength, fun hp k' h => ?_⟩) harguments]
    obtain ⟨u, hu, hsame, hk⟩ := h
    exact ih _ hp (hD.carries ha (.argument (List.of_mem_zip hp).1)) hu hk hsame
  | apply hc hvar hlength h =>
    cases b <;> simp only [Ty.same, beq_iff_eq, Bool.false_eq_true] at hsame
    subst hsame
    obtain ⟨rfl, rfl⟩ := hD.node ha hb
    exact (Outlines.apply hc hvar hlength h).unique h'
  | var hu h =>
    cases b <;> simp only [Ty.same, beq_iff_eq, Bool.false_eq_true] at hsame
    subst hsame
    exact (Outlines.var hu h).unique h'

end Outlines

/-! ## Followed types -/

/-- Neither a variable nor the name of a parameter: what a comparison looks at first. -/
def Ty.Followed (s : Store) : Ty → Prop
  | .var _ => False
  | .name id _ _ => ∀ b v, s.binding? id = some b → b.type ≠ .var v
  | _ => True

section Followed

variable {s : Store} {D : Ty → Prop} {a b t u : Ty} {k k' : Tree}

/-- Following a type keeps its outline. -/
theorem Outlines.followed (h : Outlines s t k) : ∃ u, Tells s (fun n S => S.normalizeWithin n t) u ∧
    Relation.ReflTransGen (Carries s) t u ∧ Outlines s u k ∧ u.Followed s := by
  have hself {t : Ty} {k : Tree} (h : Outlines s t k) (ht : t.Followed s)
      (hnormalize : ∀ n m, (s.withLimit m).normalizeWithin (n + 1) t = .ok t) :
      ∃ u, Tells s (fun n S => S.normalizeWithin n t) u ∧ Relation.ReflTransGen (Carries s) t u ∧
        Outlines s u k ∧ u.Followed s := ⟨t, .succ (.const hnormalize), .refl, h, ht⟩
  induction h with
  | @name _ text l b hb hvar =>
    refine hself (.name hb hvar) (fun c v hc => ?_) fun n m => normalize_declared (T := s.withLimit m) hb hvar n text l
    exact Option.some.inj (hb.symm.trans hc) ▸ hvar v
  | @parameter _ text l _ _ _ hb hv _ ih =>
    obtain ⟨u, ⟨N, hN⟩, hreach, hu⟩ := ih
    refine ⟨u, .succ ⟨N, fun n m hn hm => ?_⟩, .head (.parameter hb hv) hreach, hu⟩
    exact (normalize_parameter (T := s.withLimit m) hb hv n text l).trans (hN n m hn hm)
  | var hu _ ih =>
    obtain ⟨u, ⟨N, hN⟩, hreach, hrest⟩ := ih
    refine ⟨u, .succ ⟨N, fun n m hn hm => ?_⟩, .head (.bound hu) hreach, hrest⟩
    simp only [Store.normalizeWithin, Store.withLimit_bound?, hu]
    exact hN n m hn hm
  | builtin => exact hself .builtin trivial fun _ _ => rfl
  | pointer h => exact hself (.pointer h) trivial fun _ _ => rfl
  | slice h => exact hself (.slice h) trivial fun _ _ => rfl
  | array h => exact hself (.array h) trivial fun _ _ => rfl
  | struct hlength hnames h => exact hself (.struct hlength hnames h) trivial fun _ _ => rfl
  | function hlength h hr => exact hself (.function hlength h hr) trivial fun _ _ => rfl
  | apply hb hvar hlength h => exact hself (.apply hb hvar hlength h) trivial fun _ _ => rfl

/-- What a followed type holds has a smaller outline. -/
theorem Outlines.part (h : Outlines s t k) (ht : t.Followed s) (hu : Carries s t u) :
    ∃ k', Outlines s u k' ∧ sizeOf k' < sizeOf k := by
  cases hu with
  | pointer | slice | array =>
    cases h
    exact ⟨_, ‹_›, by simp <;> omega⟩
  | member hm =>
    obtain ⟨ks, rfl, hks⟩ := outlines_struct.1 h
    obtain ⟨⟨name, k'⟩, hmem, -, hk'⟩ := exists_of_forall₂ hks hm
    have hlt := List.sizeOf_lt_of_mem hmem
    simp only [Prod.mk.sizeOf_spec] at hlt
    exact ⟨k', hk', by simp; omega⟩
  | argument ha =>
    obtain ⟨ks, r, rfl, hks, -⟩ := outlines_function.1 h
    obtain ⟨k', hmem, hk'⟩ := exists_of_forall₂ hks ha
    have hlt := List.sizeOf_lt_of_mem hmem
    exact ⟨k', hk', by simp; omega⟩
  | result =>
    obtain ⟨ks, r, rfl, -, hr⟩ := outlines_function.1 h
    exact ⟨r, hr, by simp⟩
  | typeArgument ha =>
    obtain ⟨b, ks, -, rfl, hks⟩ := outlines_apply.1 h
    obtain ⟨k', hmem, hk'⟩ := exists_of_forall₂ hks ha
    have hlt := List.sizeOf_lt_of_mem hmem
    exact ⟨k', hk', by simp; omega⟩
  | head hb hv =>
    obtain ⟨c, ks, ⟨hc, hvar⟩, -⟩ := outlines_apply.1 h
    exact absurd (Option.some.inj (hc.symm.trans hb) ▸ hv) (hvar _)
  | base => cases h
  | parameter hb hv => exact absurd hv (ht _ _ hb)
  | bound => exact ht.elim

/-- How a comparison of closed types goes on at what they are followed to. -/
theorem Equatable.unify_followed (hD : Equatable s D) (ha : D a) (hb : D b) (h : Outlines s a k)
    (h' : Outlines s b k') : ∃ a' b', (D a' ∧ D b') ∧ (Outlines s a' k ∧ Outlines s b' k') ∧
      (a'.Followed s ∧ b'.Followed s) ∧ ∃ N, ∀ mode n m L, N ≤ m →
        unifyWithin mode (n + 1) a b L (s.withLimit m) = if a'.same b' then .ok (true, L) (s.withLimit m)
          else agreeHeads (unifyWithin mode n) mode a' b' L (s.withLimit m) := by
  obtain ⟨a', hnormal, hreach, hk, hfollowed⟩ := h.followed
  obtain ⟨b', hnormal', hreach', hk', hfollowed'⟩ := h'.followed
  have ha' : D a' := reaches_closed hD.carries ha hreach
  have hb' : D b' := reaches_closed hD.carries hb hreach'
  obtain ⟨N₁, hN₁⟩ := hnormal.limited.settles.eventually
  obtain ⟨N₂, hN₂⟩ := hnormal'.limited.settles.eventually
  obtain ⟨N₃, hN₃⟩ := run_sound ⟨hD.sound ha', hD.sound hb'⟩
  refine ⟨a', b', ⟨ha', hb'⟩, ⟨hk, hk'⟩, ⟨hfollowed, hfollowed'⟩, N₁ + N₂ + N₃, fun mode n m L hm => ?_⟩
  refine (inner_lift_run (hN₁ m (by omega)) _ L).trans ?_
  refine (inner_lift_run (hN₂ m (by omega)) _ L).trans ?_
  by_cases hsame : a'.same b'
  · rw [if_pos hsame, if_pos hsame]
    rfl
  rw [if_neg hsame, if_neg hsame]
  refine (hN₃ m (by omega) _ L).trans ?_
  have hstrip {t : Ty} (ht : D t) (m : Nat) : stripDot t (s.withLimit m) = .ok t (s.withLimit m) := by
    cases t with
    | dot => exact absurd ht hD.dot
    | _ => rfl
  split
  · exact hfollowed.elim
  · exact hfollowed'.elim
  · refine (inner_lift_run (hstrip ha' m) _ L).trans ?_
    exact inner_lift_run (hstrip hb' m) _ L

end Followed

/-! ## Parts -/

/-- What is compared where two followed types meet: the type arguments of applications of one template, and of
other types what is compared of fixed ones. -/
def partsCompared (T : Store) : Ty → Ty → List (Option (Ty × Ty))
  | .apply _ head _ as _, .apply _ head' _ as' _ =>
    if (T.binding? head).map (·.qualified) = (T.binding? head').map (·.qualified) ∧ as.length = as'.length then
      List.zipWith (fun a a' => some (a, a')) as as'
    else [none]
  | a, b => partsOf T a b

section Parts

variable {s : Store} {D : Ty → Prop} {a b : Ty} {k k' : Tree}

/-- One outline for two types is one for both orders of them. -/
theorem OneOutline.symm (h : OneOutline s a b) : OneOutline s b a := h.imp fun _ => And.symm

/-- Types with outlines have one outline if these are equal, and only then. -/
theorem oneOutline_iff (h : Outlines s a k) (h' : Outlines s b k') : OneOutline s a b ↔ k = k' := by
  refine ⟨fun ⟨c, hc, hc'⟩ => ?_, fun hk => ⟨k, h, hk ▸ h'⟩⟩
  rw [h.unique hc, h'.unique hc']

/-- A followed type is a shape, the name of a declaration, or an application of one. -/
inductive Fronted (s : Store) : Ty → Tree → Prop
  | shape {t k} (ht : t.IsShape) (h : Outlines s t k) (hname : ∀ q, k ≠ .name q)
      (happly : ∀ q ks, k ≠ .apply q ks) : Fronted s t k
  | name {id text l b} (hb : s.binding? id = some b) (hvar : ∀ v, b.type ≠ .var v) :
      Fronted s (.name id text l) (.name b.qualified)
  | apply {id head text as l b ks} (hb : s.binding? head = some b) (hvar : ∀ v, b.type ≠ .var v)
      (has : as.Forall₂ (Outlines s) ks) : Fronted s (.apply id head text as l) (.apply b.qualified ks)

/-- A followed type with an outline has one of the forms in front. -/
theorem Outlines.fronted (h : Outlines s a k) (ha : a.Followed s) : Fronted s a k := by
  cases h with
  | name hb hvar => exact .name hb hvar
  | parameter hb hv => exact absurd hv (ha _ _ hb)
  | apply hb hvar hlength h => exact .apply hb hvar (List.forall₂_iff_zip.2 ⟨hlength, fun hp => h _ hp⟩)
  | var => exact ha.elim
  | builtin => exact .shape trivial .builtin nofun nofun
  | pointer h => exact .shape trivial (.pointer h) nofun nofun
  | slice h => exact .shape trivial (.slice h) nofun nofun
  | array h => exact .shape trivial (.array h) nofun nofun
  | struct hlength hnames h => exact .shape trivial (.struct hlength hnames h) nofun nofun
  | function hlength h hr => exact .shape trivial (.function hlength h hr) nofun nofun

/-- A followed type that is not named is a shape. -/
theorem Fronted.isShape (h : Fronted s a k) (hnamed : ¬ a.isNamed) : a.IsShape := by
  cases h with
  | shape ha => exact ha
  | name | apply => exact absurd rfl hnamed

/-- Shapes have one outline if they are of one form, and their parts have one outline. -/
theorem form_iff_outline (ha : a.IsShape) (hb : b.IsShape) (h : Outlines s a k) (h' : Outlines s b k') :
    Form (OneOutline s) a b ↔ k = k' := by
  let P (m : Member Ty) (k : String × Tree) : Prop := m.name = k.1 ∧ Outlines s m.type k.2
  have hmembers {ms ms' : List (Member Ty)} {ks ks' : List (String × Tree)} (hks : ms.Forall₂ P ks)
      (hks' : ms'.Forall₂ P ks') :
      ms.Forall₂ (fun m m' => m.name = m'.name ∧ OneOutline s m.type m'.type) ms' ↔ ks = ks' := by
    have hunique : Relator.RightUnique P :=
      fun _ _ _ h h' => Prod.ext (h.1.symm.trans h'.1) (h.2.unique h'.2)
    have hshared (m m' : Member Ty) :
        (m.name = m'.name ∧ OneOutline s m.type m'.type) ↔ ∃ k, P m k ∧ P m' k :=
      ⟨fun ⟨hname, k, hk, hk'⟩ => ⟨(m.name, k), ⟨rfl, hk⟩, hname.symm, hk'⟩,
        fun ⟨k, hk, hk'⟩ => ⟨hk.1.trans hk'.1.symm, k.2, hk.2, hk'.2⟩⟩
    simp only [hshared]
    exact forall₂_shared_iff hunique hks hks'
  have harguments {as as' : List Ty} {ks ks' : List Tree} (hks : as.Forall₂ (Outlines s) ks)
      (hks' : as'.Forall₂ (Outlines s) ks') : as.Forall₂ (fun a a' => OneOutline s a' a) as' ↔ ks = ks' := by
    have hiff := forall₂_shared_iff rightUnique_outlines hks hks'
    exact ⟨fun h => hiff.1 (h.imp fun _ _ => OneOutline.symm), fun hk => (hiff.2 hk).imp fun _ _ => OneOutline.symm⟩
  constructor
  · intro hform
    cases hform with
    | builtin =>
      cases h
      cases h'
      rfl
    | pointer hone =>
      cases h with
      | pointer h =>
        cases h' with
        | pointer h' => rw [(oneOutline_iff h h').1 hone]
    | slice hone =>
      cases h with
      | slice h =>
        cases h' with
        | slice h' => rw [(oneOutline_iff h h').1 hone]
    | array hone =>
      cases h with
      | array h =>
        cases h' with
        | array h' => rw [(oneOutline_iff h h').1 hone]
    | struct hms =>
      obtain ⟨ks, rfl, hks⟩ := outlines_struct.1 h
      obtain ⟨ks', rfl, hks'⟩ := outlines_struct.1 h'
      rw [(hmembers hks hks').1 hms]
    | function has hr =>
      obtain ⟨ks, k, rfl, hks, hk⟩ := outlines_function.1 h
      obtain ⟨ks', k', rfl, hks', hk'⟩ := outlines_function.1 h'
      rw [(harguments hks hks').1 has, (oneOutline_iff hk hk').1 hr]
  · rintro rfl
    cases a <;> try exact absurd ha id
    all_goals cases b <;> try exact absurd hb id
    case builtin.builtin =>
      cases h
      cases h'
      exact .builtin
    case pointer.pointer =>
      cases h with
      | pointer h =>
        cases h' with
        | pointer h' => exact .pointer ⟨_, h, h'⟩
    case slice.slice =>
      cases h with
      | slice h =>
        cases h' with
        | slice h' => exact .slice ⟨_, h, h'⟩
    case array.array =>
      cases h with
      | array h =>
        cases h' with
        | array h' => exact .array ⟨_, h, h'⟩
    case struct.struct =>
      obtain ⟨ks, rfl, hks⟩ := outlines_struct.1 h
      obtain ⟨ks', hk, hks'⟩ := outlines_struct.1 h'
      exact .struct ((hmembers hks hks').2 (Tree.struct.inj hk))
    case function.function =>
      obtain ⟨ks, k, rfl, hks, hr⟩ := outlines_function.1 h
      obtain ⟨ks', k', hk, hks', hr'⟩ := outlines_function.1 h'
      cases hk
      exact .function ((harguments hks hks').2 rfl) ⟨k, hr, hr'⟩
    all_goals
      cases h
      cases h'

/-- The parts that are compared have one outline, pair by pair, if the types have one. -/
theorem allRelated_partsCompared (ha : a.Followed s) (hb : b.Followed s) (h : Outlines s a k)
    (h' : Outlines s b k') : AllRelated (OneOutline s) (partsCompared s a b) ↔ k = k' := by
  have hdiffer (hparts : partsCompared s a b = [none]) (hk : k ≠ k') :
      AllRelated (OneOutline s) (partsCompared s a b) ↔ k = k' := by
    rw [hparts]
    exact ⟨fun h => by simpa using h none, fun h => absurd h hk⟩
  cases h.fronted ha with
  | shape ha h hname happly =>
    cases h'.fronted hb with
    | shape hb h' =>
      have hparts : partsCompared s a b = partsOf s a b := by
        cases a <;> first | rfl | exact absurd ha id
      rw [hparts, allRelated_partsOf ha hb, form_iff_outline ha hb h h']
    | name => exact hdiffer (by cases a <;> first | rfl | exact absurd ha id) (hname _)
    | apply => exact hdiffer (by cases a <;> first | rfl | exact absurd ha id) (happly _ _)
  | name hc =>
    cases h'.fronted hb with
    | shape hb _ hname => exact hdiffer (by cases b <;> first | rfl | exact absurd hb id) (hname _).symm
    | name hc' =>
      simp only [partsCompared, partsOf, hc, hc', Option.map_some, Option.some.injEq, Tree.name.injEq]
      split
      · simpa [AllRelated]
      · simpa [AllRelated]
    | apply => exact hdiffer rfl (by simp)
  | apply hc _ hks =>
    cases h'.fronted hb with
    | shape hb _ _ happly => exact hdiffer (by cases b <;> first | rfl | exact absurd hb id) (happly _ _).symm
    | name => exact hdiffer rfl (by simp)
    | apply hc' _ hks' =>
      simp only [partsCompared, hc, hc', Option.map_some, Option.some.injEq, Tree.apply.injEq]
      split
      · next hsame =>
        simp only [AllRelated, forall_zipWith hsame.2, Option.some.injEq, exists_eq_left', hsame.1, true_and]
        exact forall₂_shared_iff rightUnique_outlines hks hks'
      · next hdiff =>
        refine ⟨fun h => by simpa using h none, fun hk => absurd ⟨hk.1, ?_⟩ hdiff⟩
        rw [hks.length_eq, hks'.length_eq, hk.2]

/-- Whether closed types agree once they are followed is whether the pairs of parts agree. -/
theorem partsAgree_followed {agree : Ty → Ty → UnifyM Bool} (ha : a.Followed s) (hb : b.Followed s)
    (h : Outlines s a k) (h' : Outlines s b k') (L : List (String × String)) (m : Nat) :
    partsAgree agree a b L (s.withLimit m) = agreeEach agree (partsCompared s a b) L (s.withLimit m) := by
  cases h.fronted ha with
  | shape ha =>
    cases h'.fronted hb with
    | shape hb =>
      have hparts : partsCompared s a b = partsOf s a b := by
        cases a <;> first | rfl | exact absurd ha id
      rw [hparts, partsAgree_shapes ha hb s]
    | name | apply => cases a <;> first | rfl | exact absurd ha id
  | name hc hvar =>
    cases h'.fronted hb with
    | shape hb => cases b <;> first | rfl | exact absurd hb id
    | name hc' hvar' => exact partsAgree_names hc hvar hc' hvar' ..
    | apply => rfl
  | @apply _ _ text as _ c _ hc hvar =>
    cases h'.fronted hb with
    | shape hb => cases b <;> first | rfl | exact absurd hb id
    | name => rfl
    | @apply _ _ text' as' _ c' _ hc' hvar' =>
      have hname := nameText_declared (T := s.withLimit m) hc hvar ((s.withLimit m).mangle) text
      have hname' := nameText_declared (T := s.withLimit m) hc' hvar' ((s.withLimit m).mangle) text'
      refine (inner_lift_run (read_ok.2 ⟨hname, rfl⟩) _ L).trans ?_
      refine (inner_lift_run (read_ok.2 ⟨hname', rfl⟩) _ L).trans ?_
      simp only [partsCompared, hc, hc', Option.map_some, Option.some.injEq]
      by_cases hq : c.qualified = c'.qualified
      · rw [if_neg (not_not.2 hq)]
        by_cases hlength : as.length = as'.length
        · rw [if_neg (not_not.2 hlength), if_pos ⟨hq, hlength⟩, allAgree_eq hlength]
        · rw [if_pos hlength, if_neg fun h => hlength h.2]
          rfl
      · rw [if_pos hq, if_neg fun h => hq h.1]
        rfl

/-- What a type is made of is held by it. -/
theorem Mentions.carries {t u : Ty} (h : Mentions {} t u) (s : Store) : Carries s t u := by
  cases h with
  | pointer => exact .pointer
  | slice => exact .slice
  | array => exact .array
  | member hm => exact .member hm
  | argument ha => exact .argument ha
  | result => exact .result
  | base => exact .base
  | name h | «instance» h | bound h => simp [Store.binding?, Store.bound?] at h

/-- What is compared is held by the types, the other way round for arguments. -/
theorem carries_of_partsCompared {p : Ty × Ty} (hp : some p ∈ partsCompared s a b) :
    Carries s a p.1 ∧ Carries s b p.2 ∨ Carries s b p.1 ∧ Carries s a p.2 := by
  unfold partsCompared at hp
  split at hp
  · split at hp
    · rw [← List.map_uncurry_zip_eq_zipWith] at hp
      obtain ⟨⟨x, y⟩, hxy, heq⟩ := List.mem_map.1 hp
      cases heq
      exact .inl ⟨.typeArgument (List.of_mem_zip hxy).1, .typeArgument (List.of_mem_zip hxy).2⟩
    · simp at hp
  · exact (mentions_of_partsOf hp).imp (fun h => ⟨h.1.carries s, h.2.carries s⟩)
      fun h => ⟨h.1.carries s, h.2.carries s⟩

/-- What is compared has smaller outlines. -/
theorem Equatable.part_outlined (hD : Equatable s D) (hmem : D a ∧ D b)
    (hfollowed : a.Followed s ∧ b.Followed s) (h : Outlines s a k) (h' : Outlines s b k') {p : Ty × Ty}
    (hp : some p ∈ partsCompared s a b) : ∃ c c', (Outlines s p.1 c ∧ Outlines s p.2 c') ∧ (D p.1 ∧ D p.2) ∧
      sizeOf c + sizeOf c' < sizeOf k + sizeOf k' := by
  obtain ⟨hp, hp'⟩ | ⟨hp, hp'⟩ := carries_of_partsCompared hp
  · obtain ⟨c, hc, hlt⟩ := h.part hfollowed.1 hp
    obtain ⟨c', hc', hlt'⟩ := h'.part hfollowed.2 hp'
    exact ⟨c, c', ⟨hc, hc'⟩, ⟨hD.carries hmem.1 hp, hD.carries hmem.2 hp'⟩, by omega⟩
  · obtain ⟨c, hc, hlt⟩ := h'.part hfollowed.2 hp
    obtain ⟨c', hc', hlt'⟩ := h.part hfollowed.1 hp'
    exact ⟨c, c', ⟨hc, hc'⟩, ⟨hD.carries hmem.2 hp, hD.carries hmem.1 hp'⟩, by omega⟩

end Parts

/-! ## Comparisons -/

/-- Once enough steps are allowed a comparison has one answer, whatever pairs are written down. It writes down
none and leaves the store as it is. -/
def Answered (s : Store) (mode : Agreement) (a b : Ty) (r : Bool) : Prop :=
  ∃ N, ∀ n m L, N ≤ n → N ≤ m → unifyWithin mode n a b L (s.withLimit m) = .ok (r, L) (s.withLimit m)

section Comparisons

variable {s : Store} {D : Ty → Prop} {mode : Agreement} {a b : Ty} {k k' : Tree} {r : Bool}

/-- The answer of a comparison is that of the computation that starts with no pairs. -/
theorem Answered.settles (h : Answered s mode a b r) :
    Settles (fun _ => do return (← (unifyWithin mode (← limit) a b).run []).1) s (.ok r) := by
  obtain ⟨N, hN⟩ := h
  refine ⟨N, fun _ m _ hm => ?_⟩
  change EStateM.bind (unifyWithin mode m a b []) (fun p => pure p.1) (s.withLimit m) = _
  rw [EStateM.bind, hN m m [] hm hm]
  rfl

/-- Pairs of which each has an answer have one together. -/
theorem answered_each {R : Ty → Ty → Prop} {ps : List (Option (Ty × Ty))}
    (h : ∀ p, some p ∈ ps → ∃ r, (r = true ↔ R p.1 p.2) ∧ Answered s mode p.1 p.2 r) :
    ∃ r, (r = true ↔ AllRelated R ps) ∧ ∃ N, ∀ n m L, N ≤ n → N ≤ m →
      agreeEach (unifyWithin mode n) ps L (s.withLimit m) = .ok (r, L) (s.withLimit m) := by
  induction ps with
  | nil => exact ⟨true, by simp [AllRelated], 0, fun _ _ _ _ _ => rfl⟩
  | cons p ps ih =>
    cases p with
    | none => exact ⟨false, by simp [AllRelated], 0, fun _ _ _ _ _ => rfl⟩
    | some p =>
      obtain ⟨r, hr, N, hN⟩ := h p (by simp)
      have hall : AllRelated R (some p :: ps) ↔ R p.1 p.2 ∧ AllRelated R ps := by
        obtain ⟨x, y⟩ := p
        simp [AllRelated]
      cases r with
      | false =>
        refine ⟨false, by simp [hall, ← hr], N, fun n m L hn hm => agreeEach_false (hN n m L hn hm) ps⟩
      | true =>
        obtain ⟨r, hrest, N', hN'⟩ := ih fun q hq => h q (by simp [hq])
        refine ⟨r, by simp [hall, ← hr, hrest], N + N', fun n m L hn hm => ?_⟩
        exact (agreeEach_true (hN n m L (by omega) (by omega)) ps).trans (hN' n m L (by omega) (by omega))

/-- A comparison has the answer of one with a step less to go. -/
theorem Answered.of_step {N : Nat} (h : ∀ n m L, N ≤ n → N ≤ m →
    unifyWithin mode (n + 1) a b L (s.withLimit m) = .ok (r, L) (s.withLimit m)) : Answered s mode a b r := by
  refine ⟨N + 1, fun n m L hn hm => ?_⟩
  obtain ⟨n, rfl⟩ := Nat.exists_eq_add_of_le' (Nat.one_le_of_lt hn)
  exact h n m L (by omega) (by omega)

/-- Closed types are found equal if they have one outline, and only then. -/
theorem Equatable.equal_iff (hD : Equatable s D) (hmem : D a ∧ D b) (h : Outlines s a k)
    (h' : Outlines s b k') : ∃ r, (r = true ↔ k = k') ∧ Answered s .nominal a b r := by
  induction hsize : sizeOf k + sizeOf k' using Nat.strong_induction_on generalizing a b k k' with
  | _ size ih =>
    obtain ⟨a', b', hmem', ⟨hk, hk'⟩, hfollowed, N, hN⟩ := hD.unify_followed hmem.1 hmem.2 h h'
    by_cases hsame : a'.same b'
    · refine ⟨true, by simp [hD.outline_of_same hmem'.1 hmem'.2 hk hk' hsame], .of_step (N := N) fun n m L _ hm => ?_⟩
      rw [hN _ n m L hm, if_pos hsame]
    have hparts (p : Ty × Ty) (hp : some p ∈ partsCompared s a' b') :
        ∃ r, (r = true ↔ OneOutline s p.1 p.2) ∧ Answered s .nominal p.1 p.2 r := by
      obtain ⟨c, c', ⟨hc, hc'⟩, hpart, hlt⟩ := hD.part_outlined hmem' hfollowed hk hk' hp
      obtain ⟨r, hr, hanswered⟩ := ih _ (hsize ▸ hlt) hpart hc hc' rfl
      exact ⟨r, hr.trans (oneOutline_iff hc hc').symm, hanswered⟩
    obtain ⟨r, hr, N', hN'⟩ := answered_each hparts
    refine ⟨r, hr.trans (allRelated_partsCompared hfollowed.1 hfollowed.2 hk hk'),
      .of_step (N := N + N') fun n m L hn hm => ?_⟩
    rw [hN _ n m L (by omega), if_neg hsame, agreeHeads, if_pos rfl,
      partsAgree_followed hfollowed.1 hfollowed.2 hk hk', hN' n m L (by omega) (by omega)]

/-- Neither of two shapes with one outline becomes a slice of the other. -/
theorem decayElements_of_outline (ha : a.IsShape) (hb : b.IsShape) (h : Outlines s a k) (h' : Outlines s b k) :
    decayElements? a b = pure none := by
  cases (form_iff_outline ha hb h h').2 rfl <;> rfl

/-- Types with one mangled text can be used as each other if one of them is named. -/
theorem run_oneText (hnamed : a.isNamed || b.isNamed) (h : OneText s a b) : ∃ N, ∀ m ≥ N, ∀ agree L,
    agreeHeads agree .conversion a b L (s.withLimit m) = .ok (true, L) (s.withLimit m) := by
  obtain ⟨x, hx, hy⟩ := h
  obtain ⟨N, hN⟩ := hx.settles.eventually
  obtain ⟨N', hN'⟩ := hy.settles.eventually
  refine ⟨N + N', fun m hm agree L => ?_⟩
  rw [agreeHeads, if_neg (by simp), if_pos hnamed]
  refine (inner_lift_run (hN m (by omega)) _ L).trans ?_
  refine (inner_lift_run (hN' m (by omega)) _ L).trans ?_
  rw [if_pos rfl]
  rfl

/-- Closed types with one outline can be used as each other. -/
theorem Equatable.convertible_of_outline (hD : Equatable s D) (hmem : D a ∧ D b) (h : Outlines s a k)
    (h' : Outlines s b k) : Answered s .conversion a b true := by
  induction hsize : sizeOf k using Nat.strong_induction_on generalizing a b k with
  | _ size ih =>
    obtain ⟨a', b', hmem', ⟨hk, hk'⟩, hfollowed, N, hN⟩ := hD.unify_followed hmem.1 hmem.2 h h'
    by_cases hsame : a'.same b'
    · refine .of_step (N := N) fun n m L _ hm => ?_
      rw [hN _ n m L hm, if_pos hsame]
    by_cases hnamed : a'.isNamed || b'.isNamed
    · obtain ⟨N', hN'⟩ := run_oneText hnamed (OneOutline.oneText ⟨k, hk, hk'⟩)
      refine .of_step (N := N + N') fun n m L hn hm => ?_
      rw [hN _ n m L (by omega), if_neg hsame, hN' m (by omega)]
    have hall := (allRelated_partsCompared hfollowed.1 hfollowed.2 hk hk').2 rfl
    have hparts (p : Ty × Ty) (hp : some p ∈ partsCompared s a' b') :
        ∃ r, (r = true ↔ OneOutline s p.1 p.2) ∧ Answered s .conversion p.1 p.2 r := by
      obtain ⟨c, c', ⟨hc, hc'⟩, hpart, hlt⟩ := hD.part_outlined hmem' hfollowed hk hk' hp
      obtain ⟨q, hq, hone⟩ := hall _ hp
      obtain rfl := Option.some.inj hq
      obtain rfl := (oneOutline_iff hc hc').1 hone
      exact ⟨true, by simp [hone], ih _ (by omega) hpart hc hc' rfl⟩
    obtain ⟨r, hr, N', hN'⟩ := answered_each hparts
    obtain rfl := hr.2 hall
    refine .of_step (N := N + N') fun n m L hn hm => ?_
    simp only [Bool.or_eq_true, not_or] at hnamed
    have hshape := (hk.fronted hfollowed.1).isShape hnamed.1
    have hshape' := (hk'.fronted hfollowed.2).isShape hnamed.2
    rw [hN _ n m L (by omega), if_neg hsame, agreeHeads, if_neg (by simp),
      if_neg (by simp [hshape.isNamed, hshape'.isNamed]), decayElements_of_outline hshape hshape' hk hk']
    refine (inner_lift_run rfl _ L).trans ?_
    exact (partsAgree_followed hfollowed.1 hfollowed.2 hk hk' L m).trans (hN' n m L (by omega) (by omega))

/-- Closed types are told apart by comparisons of names, which always have an answer: equality is an
equivalence, and equal types can be used as each other. -/
theorem equality_within_convertibility (hD : Equatable s D) :
    (∀ {a b}, D a → D b → ∃ r, Settles (fun _ => isEqual a b) s (.ok r)) ∧
    Equivalence (fun a b : {t // D t} => Settles (fun _ => isEqual a b) s (.ok true)) ∧
    ∀ {a b}, D a → D b → Settles (fun _ => isEqual a b) s (.ok true) →
      Settles (fun _ => isConvertible a b) s (.ok true) ∧ Settles (fun _ => isConvertible b a) s (.ok true) := by
  have hanswer {a b : Ty} (ha : D a) (hb : D b) :
      ∃ r, (r = true ↔ OneOutline s a b) ∧ Settles (fun _ => isEqual a b) s (.ok r) := by
    obtain ⟨k, hk⟩ := hD.outlined ha
    obtain ⟨k', hk'⟩ := hD.outlined hb
    obtain ⟨r, hr, hanswered⟩ := hD.equal_iff ⟨ha, hb⟩ hk hk'
    exact ⟨r, hr.trans (oneOutline_iff hk hk').symm, hanswered.settles⟩
  have hequal {a b : Ty} (ha : D a) (hb : D b) :
      Settles (fun _ => isEqual a b) s (.ok true) ↔ OneOutline s a b := by
    obtain ⟨r, hr, hsettles⟩ := hanswer ha hb
    refine ⟨fun h => hr.1 (Except.ok.inj (hsettles.unique h)), fun h => ?_⟩
    exact hr.2 h ▸ hsettles
  refine ⟨fun ha hb => (hanswer ha hb).imp fun _ h => h.2, ⟨fun a => ?_, fun {a b} h => ?_, fun {a b c} h h' => ?_⟩,
    fun {a b} ha hb h => ?_⟩
  · obtain ⟨k, hk⟩ := hD.outlined a.2
    exact (hequal a.2 a.2).2 ⟨k, hk, hk⟩
  · exact (hequal b.2 a.2).2 ((hequal a.2 b.2).1 h).symm
  · obtain ⟨k, hk, hk'⟩ := (hequal a.2 b.2).1 h
    obtain ⟨k', hb, hc⟩ := (hequal b.2 c.2).1 h'
    obtain rfl := hk'.unique hb
    exact (hequal a.2 c.2).2 ⟨k, hk, hc⟩
  · obtain ⟨k, hk, hk'⟩ := (hequal ha hb).1 h
    exact ⟨(hD.convertible_of_outline ⟨ha, hb⟩ hk hk').settles, (hD.convertible_of_outline ⟨hb, ha⟩ hk' hk).settles⟩

end Comparisons

/-- A store with two applications of a template to the type of bytes, and a variable that stands for the second. -/
def boxStore : Store where
  names :=
    let box : NameEntry := { binding := some { qualified := "global::Box", type := .template 0 } }
    let byte : NameEntry := { binding := some { qualified := "byte", type := .byte } }
    #[box, byte, box, byte, { binding := some { qualified := "T", type := .var 1 } }]
  applies :=
    let record (id : Nat) : Ty := .struct [⟨"item", .name id "byte" none, none⟩] none
    #[{ result := some (record 1) }, { result := some (record 3) }]
  vars := #[{ name := "v", location := none, bound := some (.apply 1 2 "Box" [.name 3 "byte" none] none) },
    { name := "T", location := none }]
  templates := #[{ params := [1], body := .struct [⟨"item", .name 4 "T" none, none⟩] none, location := none }]

/-- One of the applications. -/
def box (id : Nat) : Ty := .apply id (2 * id) "Box" [.name (2 * id + 1) "byte" none] none

/-- The applications, their arguments, and the variable. -/
def IsBoxed (t : Ty) : Prop :=
  t = .var 0 ∨ ∃ id, (id = 0 ∨ id = 1) ∧ (t = box id ∨ t = .name (2 * id + 1) "byte" none)

/-- The variable holds the second application, and applications hold their arguments. -/
theorem carries_boxed {t u : Ty} (ht : IsBoxed t) (h : Carries boxStore t u) :
    t = .var 0 ∧ u = box 1 ∨ ∃ id, (id = 0 ∨ id = 1) ∧ t = box id ∧ u = .name (2 * id + 1) "byte" none := by
  obtain rfl | ⟨id, hid, rfl | rfl⟩ := ht
  · cases h with
    | bound hu =>
      cases hu
      exact .inl ⟨rfl, rfl⟩
  · cases h with
    | typeArgument ha => exact .inr ⟨id, hid, rfl, List.mem_singleton.1 ha⟩
    | head hb hv => obtain rfl | rfl := hid <;> cases hb <;> cases hv
  · cases h with
    | parameter hb hv => obtain rfl | rfl := hid <;> cases hb <;> cases hv

/-- The types that a box is made of come to an end. -/
theorem acc_boxed {t : Ty} (ht : IsBoxed t) : Acc (fun u t => Carries boxStore t u) t := by
  have hname (id : Nat) (hid : id = 0 ∨ id = 1) :
      Acc (fun u t => Carries boxStore t u) (.name (2 * id + 1) "byte" none) := ⟨_, fun u hu => by
    obtain ⟨h, -⟩ | ⟨i, -, h, -⟩ := carries_boxed (.inr ⟨id, hid, .inr rfl⟩) hu <;> cases h⟩
  have hbox (id : Nat) (hid : id = 0 ∨ id = 1) : Acc (fun u t => Carries boxStore t u) (box id) := ⟨_, fun u hu => by
    obtain ⟨h, -⟩ | ⟨i, hi, -, rfl⟩ := carries_boxed (.inr ⟨id, hid, .inl rfl⟩) hu
    · cases h
    · exact hname i hi⟩
  obtain rfl | ⟨id, hid, rfl | rfl⟩ := ht
  · refine ⟨_, fun u hu => ?_⟩
    obtain ⟨-, rfl⟩ | ⟨i, -, h, -⟩ := carries_boxed (.inl rfl) hu
    · exact hbox 1 (.inr rfl)
    · cases h
  · exact hbox id hid
  · exact hname id hid

/-- The boxes are a family of closed types without projections. -/
theorem equatable_boxed : Equatable boxStore IsBoxed where
  carries ht h := by
    obtain ⟨-, rfl⟩ | ⟨id, hid, -, rfl⟩ := carries_boxed ht h
    · exact .inr ⟨1, .inr rfl, .inl rfl⟩
    · exact .inr ⟨id, hid, .inr rfl⟩
  ends := acc_boxed
  name := by
    rintro id text l (h | ⟨i, rfl | rfl, h | h⟩) <;> cases h <;> rfl
  apply := by
    rintro id head text as l (h | ⟨i, rfl | rfl, h | h⟩) <;> cases h <;> exact ⟨_, rfl, nofun⟩
  var := by
    rintro v (h | ⟨i, rfl | rfl, h | h⟩) <;> cases h
    rfl
  dot := by
    rintro b m l (h | ⟨i, -, h | h⟩) <;> cases h
  template := by
    rintro id (h | ⟨i, -, h | h⟩) <;> cases h
  sound := by
    rintro t (rfl | ⟨i, rfl | rfl, rfl | rfl⟩) <;> exact .steps 5 fun _ _ => rfl
  node := by
    rintro id head head' text text' as as' l l' (h | ⟨i, rfl | rfl, h | h⟩) (h' | ⟨i', rfl | rfl, h' | h'⟩) <;>
      cases h <;> cases h' <;> exact ⟨rfl, rfl⟩

/-- An application is equal to a variable that stands for another application of the template, and they can be
used as each other. -/
theorem equality_within_convertibility_boxed : Equatable boxStore IsBoxed ∧
    Settles (fun _ => isEqual (box 0) (.var 0)) boxStore (.ok true) ∧
    Settles (fun _ => isConvertible (box 0) (.var 0)) boxStore (.ok true) ∧
    Settles (fun _ => isConvertible (.var 0) (box 0)) boxStore (.ok true) := by
  have hequal : Settles (fun _ => isEqual (box 0) (.var 0)) boxStore (.ok true) := .steps 5 fun _ _ => rfl
  obtain ⟨-, -, hconvertible⟩ := equality_within_convertibility equatable_boxed
  exact ⟨equatable_boxed, hequal, hconvertible (.inr ⟨0, .inl rfl, .inl rfl⟩) (.inl rfl) hequal⟩

end Qll.Types
