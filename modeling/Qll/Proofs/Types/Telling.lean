import Mathlib.Order.Filter.AtTopBot.Basic
import Mathlib.Order.Filter.Finite
import Qll.Proofs.Types.Reading
import Qll.Proofs.Types.Structural

/-!
# Texts that tell the forms of types

Where declared types have names of their own and members have plain names, the mangled text of a type
without member types tells its constructor tree. The form of the shape can be read off the tree, and so
can the texts of the parts.
-/

namespace Qll.Types

open Qll.Computation
open Source (Location)

/-- Names that are called the same stand for one type, unless one of them stands for the error type. -/
def Distinct (T : Store) : Prop :=
  ∀ {id id' b b'}, T.binding? id = some b → T.binding? id' = some b' →
    (∀ l, b.type ≠ .builtin .error l ∧ b'.type ≠ .builtin .error l) → b.qualified = b'.qualified →
      b.type = b'.type ∨ ∃ kind l l', b.type = .builtin kind l ∧ b'.type = .builtin kind l'

section Telling

variable {T : Store} {D : Ty → Prop} (hT : Definite False T) (hD : Sound T D)

include hT hD

/-- A name of the family closes no type of infinite size: it stands for its definition. -/
theorem Sound.target {id : Nat} {text : String} {l : Option Location} (ht : D (.name id text l)) {b : Binding}
    (hb : T.binding? id = some b) : T.target id text = .ok b.type := by
  refine (target_of_binding hb text).resolve_right fun herror => ?_
  exact hD.head ht (hT.bares_name (hD.fixed ht) herror .builtin (hT.bares_shape .builtin trivial))

/-- A name leads to what its definition leads to. -/
theorem Sound.bares_binding {id : Nat} {text : String} {l : Option Location} (ht : D (.name id text l))
    {b : Binding} (hb : T.binding? id = some b) {u : Ty} (h : Bares T b.type u) : Bares T (.name id text l) u :=
  hT.bares_name (hD.fixed ht) (hD.target hT ht hb) (hT.fixed hb) h

/-- The shape of a type of the family is what the type leads to. -/
theorem Sound.bares_of_shape {m : Nat} {t u : Ty} (ht : D t) (h : Shape (T.withLimit m) t u) : Bares T t u := by
  obtain ⟨n, hn⟩ := h
  induction n generalizing t with
  | zero => exact absurd hn throw_ok
  | succ n ih =>
    have hshape (hshape : t.IsShape) (h : u = t) : Bares T t u := by
      rw [h]
      exact hT.bares_shape (hD.fixed ht) hshape
    cases hD.fixed ht with
    | name hid =>
      obtain ⟨b, hb⟩ := Option.isSome_iff_exists.1 hid
      obtain ⟨w, s, hw, hrest⟩ := bind_ok.1 hn
      obtain ⟨htarget, rfl⟩ := read_ok.1 hw
      obtain rfl := Except.ok.inj ((hD.target hT ht hb).symm.trans htarget)
      exact hD.bares_binding hT ht hb (ih (hD.mentions ht (.name hb)) hrest)
    | dot h => exact h.elim
    | _ => exact hshape trivial (pure_ok.1 hn).1.symm

/-- Such a family can be spelled. -/
theorem Sound.spelled (hproper : ∀ {id b}, T.binding? id = some b → b.Proper)
    (hplain : ∀ {ms l}, D (.struct ms l) → ∀ m ∈ ms, IsPlain m.name) (m : Nat) : Spelled (T.withLimit m) D where
  carries ht hcarries := by
    cases hcarries with
    | pointer => exact hD.mentions ht .pointer
    | slice => exact hD.mentions ht .slice
    | array => exact hD.mentions ht .array
    | member hm => exact hD.mentions ht (.member hm)
    | argument ha => exact hD.mentions ht (.argument ha)
    | result => exact hD.mentions ht .result
    | base => exact hD.mentions ht .base
    | typeArgument | head | bound => nomatch hD.fixed ht
    | parameter hb hv =>
      have hfixed := hT.fixed hb
      rw [hv] at hfixed
      cases hfixed
  name ht := by
    cases hD.fixed ht with
    | name hid =>
      obtain ⟨b, hb⟩ := Option.isSome_iff_exists.1 hid
      exact ⟨b, hb, hproper hb⟩
  apply ht := nomatch hD.fixed ht
  var ht := nomatch hD.fixed ht
  template ht := nomatch hD.fixed ht
  member := hplain
  dot ht := by cases hD.fixed ht with | dot h => exact h.elim
  error ht h := hD.head ht (hD.bares_of_shape hT ht h)

/-! ### One tree -/

omit hT hD in
/-- Once enough steps are allowed two types have one constructor tree. -/
def OneTree (T : Store) (a b : Ty) : Prop :=
  ∃ N, ∀ n m, N ≤ n → N ≤ m →
    ∃ tree, (T.withLimit m).treeWithin n a = some tree ∧ (T.withLimit m).treeWithin n b = some tree

variable (hspelled : ∀ m, Spelled (T.withLimit m) D) {a b : Ty}

include hspelled

/-- Types with one text have one tree. -/
theorem OneText.oneTree (ha : D a) (hb : D b) (h : OneText T a b) : OneTree T a b := by
  obtain ⟨x, hx, hx'⟩ := h
  obtain ⟨y, hy⟩ := hT.renders (hD.fixed ha)
  obtain ⟨y', hy'⟩ := hT.renders (hD.fixed hb)
  obtain rfl := Tells.unique hx hy.mangles
  obtain rfl := Tells.unique hx' hy'.mangles
  obtain ⟨N, hN⟩ := hy
  obtain ⟨N', hN'⟩ := hy'
  refine ⟨N + N', fun n m hn hm => ?_⟩
  obtain ⟨tree, htree, ⟨hlegal, htext⟩, -⟩ := (hspelled m).tree_of_render ha (hN n m (by omega) (by omega))
  obtain ⟨tree', htree', ⟨hlegal', htext'⟩, -⟩ := (hspelled m).tree_of_render hb (hN' n m (by omega) (by omega))
  obtain rfl := Tree.text_inj hlegal hlegal' (htext.trans htext'.symm)
  exact ⟨tree, htree, htree'⟩

/-- Types with one tree have one text. -/
theorem OneTree.oneText (ha : D a) (hb : D b) (h : OneTree T a b) : OneText T a b := by
  obtain ⟨K, hK⟩ := h
  obtain ⟨x, hx⟩ := hT.renders (hD.fixed ha)
  obtain ⟨x', hx'⟩ := hT.renders (hD.fixed hb)
  have hmangles := hx.mangles
  have hmangles' := hx'.mangles
  obtain ⟨N, hN⟩ := hx
  obtain ⟨N', hN'⟩ := hx'
  let n := K + N + N'
  obtain ⟨tree, ha', hb'⟩ := hK n n (by omega) (by omega)
  obtain ⟨_, htree, ⟨-, htext⟩, -⟩ := (hspelled n).tree_of_render ha (hN n n (by omega) (by omega))
  obtain ⟨_, htree', ⟨-, htext'⟩, -⟩ := (hspelled n).tree_of_render hb (hN' n n (by omega) (by omega))
  obtain rfl := Option.some.inj (ha'.symm.trans htree)
  obtain rfl := Option.some.inj (hb'.symm.trans htree')
  obtain rfl := String.toList_inj.1 (htext.symm.trans htext')
  exact ⟨x, hmangles, hmangles'⟩

/-! ### Forms of shapes -/

omit hT hD hspelled in
/-- Lists that are read as one list are read as each other item by item. -/
theorem mapM_alike {α β γ : Type} {f : α → Option γ} {g : β → Option γ} {xs : List α} {ys : List β}
    {zs : List γ} (hxs : xs.mapM f = some zs) (hys : ys.mapM g = some zs) :
    xs.Forall₂ (fun x y => ∃ z, f x = some z ∧ g y = some z) ys := by
  induction xs generalizing ys zs with
  | nil =>
    obtain rfl : [] = zs := by simpa using hxs
    cases ys with
    | nil => exact .nil
    | cons => simp [List.mapM_cons, Option.bind_eq_some_iff] at hys
  | cons x xs ih =>
    simp only [List.mapM_cons, Option.bind_eq_bind, Option.bind_eq_some_iff] at hxs
    obtain ⟨z, hz, rest, hrest, h⟩ := hxs
    obtain rfl := Option.some.inj h
    cases ys with
    | nil => cases hys
    | cons y ys =>
      simp only [List.mapM_cons, Option.bind_eq_bind, Option.bind_eq_some_iff] at hys
      obtain ⟨z', hz', rest', hrest', h⟩ := hys
      cases h
      exact .cons ⟨z, hz, hz'⟩ (ih hrest hrest')

omit hT hD hspelled in
/-- Items of two lists are alike if they are once enough steps are allowed. -/
theorem forall₂_eventually {α : Type} {P : Nat → Nat → α → α → Prop} {xs ys : List α} {N : Nat}
    (h : ∀ n m, N ≤ n → N ≤ m → xs.Forall₂ (P n m) ys) :
    xs.Forall₂ (fun x y => ∀ n m, N ≤ n → N ≤ m → P n m x y) ys :=
  List.forall₂_iff_zip.2 ⟨(h N N le_rfl le_rfl).length_eq, fun hxy n m hn hm =>
    (List.forall₂_iff_zip.1 (h n m hn hm)).2 hxy⟩

omit hT hD hspelled in
/-- Shapes with one tree are of one form, and their parts have one tree. -/
theorem OneTree.form (ha : a.IsShape) (hb : b.IsShape) (h : OneTree T a b) : Form (OneTree T) a b := by
  obtain ⟨N, hN⟩ := h
  replace hN : ∀ n m, N ≤ n → N ≤ m → ∃ tree, (T.withLimit m).treeWithin (n + 1) a = some tree ∧
      (T.withLimit m).treeWithin (n + 1) b = some tree := fun n m hn hm => hN (n + 1) m (by omega) hm
  cases a <;> try exact absurd ha id
  all_goals cases b <;> try exact absurd hb id
  all_goals simp only [Store.treeWithin, Option.bind_eq_bind, Option.pure_def, Option.bind_eq_some_iff,
    Option.some.injEq] at hN
  case builtin.builtin =>
    obtain ⟨_, rfl, h⟩ := hN N N le_rfl le_rfl
    cases h
    exact .builtin
  case pointer.pointer =>
    refine .pointer ⟨N, fun n m hn hm => ?_⟩
    obtain ⟨_, ⟨x, hx, rfl⟩, y, hy, h⟩ := hN n m hn hm
    cases h
    exact ⟨x, hx, hy⟩
  case slice.slice =>
    refine .slice ⟨N, fun n m hn hm => ?_⟩
    obtain ⟨_, ⟨x, hx, rfl⟩, y, hy, h⟩ := hN n m hn hm
    cases h
    exact ⟨x, hx, hy⟩
  case array.array e k l e' k' l' =>
    obtain ⟨_, ⟨x, hx, rfl⟩, y, hy, h⟩ := hN N N le_rfl le_rfl
    cases h
    refine .array ⟨N, fun n m hn hm => ?_⟩
    obtain ⟨_, ⟨x, hx, rfl⟩, y, hy, h⟩ := hN n m hn hm
    cases h
    exact ⟨x, hx, hy⟩
  case struct.struct ms l ms' l' =>
    have hmembers : ms.Forall₂ (fun x y => ∀ n m, N ≤ n → N ≤ m → x.name = y.name ∧
        ∃ tree, (T.withLimit m).treeWithin n x.type = some tree ∧ (T.withLimit m).treeWithin n y.type = some tree)
        ms' := by
      refine forall₂_eventually fun n m hn hm => ?_
      obtain ⟨_, ⟨trees, hx, rfl⟩, trees', hy, h⟩ := hN n m hn hm
      cases h
      refine (mapM_alike hx hy).imp fun x y h => ?_
      obtain ⟨p, hx, hy⟩ := h
      obtain ⟨tree, hx', h⟩ := Option.bind_eq_some_iff.1 hx
      obtain rfl := Option.some.inj h
      obtain ⟨tree', hy', h⟩ := Option.bind_eq_some_iff.1 hy
      obtain ⟨hname, rfl⟩ := Prod.mk.inj (Option.some.inj h)
      exact ⟨hname.symm, tree', hx', hy'⟩
    exact .struct (hmembers.imp fun x y h =>
      ⟨(h N N le_rfl le_rfl).1, N, fun n m hn hm => (h n m hn hm).2⟩)
  case function.function as r l as' r' l' =>
    have hparts n m (hn : N ≤ n) (hm : N ≤ m) : as.Forall₂ (fun x y => ∃ tree,
        (T.withLimit m).treeWithin n x = some tree ∧ (T.withLimit m).treeWithin n y = some tree) as' ∧
        ∃ tree, (T.withLimit m).treeWithin n r = some tree ∧ (T.withLimit m).treeWithin n r' = some tree := by
      obtain ⟨_, ⟨trees, hx, tree, hr, rfl⟩, trees', hy, tree', hr', h⟩ := hN n m hn hm
      cases h
      exact ⟨mapM_alike hx hy, tree, hr, hr'⟩
    refine .function ?_ ⟨N, fun n m hn hm => (hparts n m hn hm).2⟩
    have h := forall₂_eventually fun n m hn hm => (hparts n m hn hm).1
    exact h.imp fun x y h => ⟨N, fun n m hn hm => (h n m hn hm).imp fun _ => And.symm⟩
  -- Trees of other shapes differ at their roots.
  all_goals
    obtain ⟨tree, h, h'⟩ := hN N N le_rfl le_rfl
    grind

omit hspelled in
/-- What the tree of a type is at its root: a builtin type that the type leads to, the name of what the type
stands for, or what a shape is made with. -/
theorem Sound.root (hproper : ∀ {id b}, T.binding? id = some b → b.Proper) (ha : D a) :
    (∃ kind l, Bares T a (.builtin kind l) ∧
      ∀ n m, (T.withLimit m).treeWithin (n + 1) a = some (.builtin kind)) ∨
    (∃ id b, T.binding? id = some b ∧ (∀ {u}, Bares T b.type u → Bares T a u) ∧
      ∀ n m, (T.withLimit m).treeWithin (n + 1) a = some (.name b.qualified)) ∨
    (a.IsShape ∧ ∀ n m tree, (T.withLimit m).treeWithin (n + 1) a = some tree →
      (∀ kind, tree ≠ .builtin kind) ∧ ∀ q, tree ≠ .name q) := by
  have hfixed := hD.fixed ha
  cases hfixed with
  | builtin => exact .inl ⟨_, _, hT.bares_shape .builtin trivial, fun _ _ => rfl⟩
  | @name id text l hid =>
    obtain ⟨b, hb⟩ := Option.isSome_iff_exists.1 hid
    have htype := hT.fixed hb
    have hbares {u : Ty} (hu : Bares T b.type u) : Bares T (.name id text l) u := hD.bares_binding hT ha hb hu
    have htree (n m : Nat) : (T.withLimit m).treeWithin (n + 1) (.name id text l) =
        (T.withLimit m).nameTree ((T.withLimit m).treeWithin n) id := rfl
    have hnamed {q : String} {t : Ty} {scope : Option Scope} (ht : Fixed False T t)
        (hq : ∀ kind : Builtin, q ≠ kind.name) (hb : T.binding? id = some { qualified := q, type := t, scope })
        (n m : Nat) : (T.withLimit m).nameTree ((T.withLimit m).treeWithin n) id = some (.name q) := by
      cases t with
      | var => cases ht
      | builtin => simp [Store.nameTree, hb, hq]
      | _ => simp [Store.nameTree, hb]
    cases hproper hb with
    | parameter => cases htype
    | builtin =>
      refine .inl ⟨_, _, hbares (hT.bares_shape .builtin trivial), fun n m => ?_⟩
      simp [htree, Store.nameTree, hb]
    | error => exact absurd (hbares (hT.bares_shape .builtin trivial)) (hD.head ha)
    | declared hq hspace => exact .inr (.inl ⟨id, _, hb, hbares, hnamed htype (ne_builtin_of_colon hspace) hb⟩)
  | dot hM => exact hM.elim
  | _ =>
    refine .inr (.inr ⟨trivial, fun n m tree h => ?_⟩)
    simp only [Store.treeWithin, Option.bind_eq_bind, Option.pure_def, Option.bind_eq_some_iff,
      Option.some.injEq] at h
    grind

/-- Texts tell the forms of types, and the texts of their parts, where names that are called the same stand
for one type. -/
theorem Sound.textsTell (hproper : ∀ {id b}, T.binding? id = some b → b.Proper) (hdistinct : Distinct T) :
    TextsTell T D := by
  intro a b a' b' ha hb hone ha' hb'
  have htree := hone.oneTree hT hD hspelled ha hb
  obtain ⟨N, hN⟩ := id htree
  obtain ⟨tree, hleft, hright⟩ := hN (N + 1) N (by omega) le_rfl
  have hequal {u : Ty} (hu : D u ∧ u.IsShape) : Form (OneText T) u u :=
    ((Form.refl (R := Eq) (fun _ => rfl) hu.2).within hD.mentions hu.1 hu.1).mono fun x y h => by
      obtain ⟨hx, -, rfl⟩ := h
      exact hT.oneText_refl (hD.fixed hx)
  have hbuiltin {kind : Builtin} {l l' : Option Location} (h : Bares T a (.builtin kind l))
      (h' : Bares T b (.builtin kind l')) : Form (OneText T) a' b' := by
    obtain rfl := ha'.unique h
    obtain rfl := hb'.unique h'
    exact .builtin
  obtain ⟨kind, l, h, hl⟩ | ⟨id, c, hc, h, hl⟩ | ⟨hshape, hl⟩ := hD.root hT hproper ha
  · rw [hl, Option.some.injEq] at hleft
    subst hleft
    obtain ⟨kind', l', h', hr⟩ | ⟨id', c', hc', h', hr⟩ | ⟨hshape', hr⟩ := hD.root hT hproper hb
    · obtain rfl : kind' = kind := by simpa [hr] using hright
      exact hbuiltin h h'
    · simp [hr] at hright
    · exact absurd rfl ((hr _ _ _ hright).1 kind)
  · rw [hl, Option.some.injEq] at hleft
    subst hleft
    obtain ⟨kind', l', h', hr⟩ | ⟨id', c', hc', h', hr⟩ | ⟨hshape', hr⟩ := hD.root hT hproper hb
    · simp [hr] at hright
    · obtain hq : c'.qualified = c.qualified := by simpa [hr] using hright
      have hself {t : Ty} {kind : Builtin} {l : Option Location} (ht : t = .builtin kind l) :
          Bares T t (.builtin kind l) := by
        rw [ht]
        exact hT.bares_shape .builtin trivial
      obtain htype | ⟨kind, l, l', hkind, hkind'⟩ := hdistinct hc hc'
        (fun l => ⟨fun herror => hD.head ha (h (hself herror)), fun herror => hD.head hb (h' (hself herror))⟩) hq.symm
      · -- Both names lead to what the one type leads to.
        obtain ⟨u, hu, -⟩ := hT.bares (hT.fixed hc)
        obtain rfl := ha'.unique (h hu)
        obtain rfl := hb'.unique (h' (htype ▸ hu))
        exact hequal (hD.bares hT ha ha')
      · exact hbuiltin (h (hself hkind)) (h' (hself hkind'))
    · exact absurd rfl ((hr _ _ _ hright).2 c.qualified)
  · obtain ⟨kind', l', h', hr⟩ | ⟨id', c', hc', h', hr⟩ | ⟨hshape', hr⟩ := hD.root hT hproper hb
    · rw [hr, Option.some.injEq] at hright
      exact absurd hright.symm ((hl _ _ _ hleft).1 kind')
    · rw [hr, Option.some.injEq] at hright
      exact absurd hright.symm ((hl _ _ _ hleft).2 c'.qualified)
    · obtain rfl := ha'.unique (hT.bares_shape (hD.fixed ha) hshape)
      obtain rfl := hb'.unique (hT.bares_shape (hD.fixed hb) hshape')
      exact ((htree.form hshape hshape').within hD.mentions ha hb).mono fun x y h =>
        h.2.2.oneText hT hD hspelled h.1 h.2.1

end Telling

/-! ## Finite families -/

/-- What holds of each type of a finite family from some number of steps on holds of all of them at once from
some number on. -/
theorem eventually_forall {D : Ty → Prop} {P : Nat → Ty → Prop} (hfinite : {t | D t}.Finite)
    (h : ∀ t, D t → ∃ N, ∀ m ≥ N, P m t) : ∃ N, ∀ m ≥ N, ∀ t, D t → P m t := by
  simp only [ge_iff_le, ← Filter.eventually_atTop] at h ⊢
  exact (Filter.eventually_all_finite hfinite).2 h

section Families

variable {T : Store} {D : Ty → Prop} (hT : Definite False T) (hD : Sound T D)

include hT hD

/-- A name of the family is resolved, and was not marked. -/
theorem Sound.unmarked {id : Nat} {text : String} {l : Option Location} (ht : D (.name id text l)) :
    ∃ b, T.names[id]? = some { binding := some b, cyclic := false } := by
  cases hD.fixed ht with
  | name hid =>
    obtain ⟨b, hb⟩ := Option.isSome_iff_exists.1 hid
    obtain ⟨⟨binding, cyclic⟩, he, rfl⟩ := Option.bind_eq_some_iff.1 hb
    cases cyclic with
    | false => exact ⟨b, he⟩
    | true =>
      -- A marked name stands for the error type.
      have htarget := hD.target hT ht hb
      simp only [Store.target, he, if_true, Except.ok.injEq] at htarget
      refine absurd ?_ (hD.head (l := none) (hD.mentions ht (.name hb)))
      rw [← htarget]
      exact hT.bares_shape .builtin trivial

/-- A finite family of such types is settled, once enough steps are allowed. -/
theorem Sound.settled (hfinite : {t | D t}.Finite) : ∃ N, ∀ m ≥ N, Settled (T.withLimit m) D := by
  have hsizes : ∃ N, ∀ m ≥ N, ∀ t, D t → ∃ k, size t (T.withLimit m) = .ok k (T.withLimit m) := by
    refine eventually_forall hfinite fun t ht => ?_
    have hlayout := hT.layout_of_fixed (hD.fixed ht)
    obtain ⟨r, hr, hsize⟩ := (hlayout.finishes (E := fun _ => False) fun hbare => hbare.elim).2
    obtain ⟨N, hN⟩ := hsize.limited
    cases r with
    | error e => exact (hr e rfl).elim
    | ok k => exact ⟨N, fun m hm => ⟨k, hN m m hm hm⟩⟩
  obtain ⟨N, hN⟩ := hsizes
  refine ⟨N, fun m hm => ⟨fun ht h => hD.mentions ht ?_, fun ht => hD.unmarked hT ht, fun ht => (nomatch hD.fixed ht),
    fun ht => (nomatch hD.fixed ht), fun ht => (nomatch hD.fixed ht),
    fun ht => hD.head ht (hT.bares_shape .builtin trivial), fun ht => ?_, fun ht => ?_⟩⟩
  · cases h with
    | pointer => exact .pointer
    | slice => exact .slice
    | array => exact .array
    | member hm => exact .member hm
    | argument ha => exact .argument ha
    | result => exact .result
    | base => exact .base
    | name h => exact .name h
    | «instance» h ht => exact .instance h ht
    | bound h => exact .bound h
  · cases hD.fixed ht with
    | dot hM => exact hM.elim
  · obtain ⟨k, hk⟩ := hN m hm _ ht
    exact ⟨k, _, hk⟩

/-- The texts of such a family tell the forms, once enough steps are allowed. -/
theorem Sound.textTellsForm (htell : TextsTell T D) (hfinite : {t | D t}.Finite) :
    ∃ N, ∀ m ≥ N, TextTellsForm (T.withLimit m) D := by
  have htexts : ∃ N, ∀ m ≥ N, ∀ t, D t → ∃ x, (T.withLimit m).mangle t = .ok x ∧ Mangles T t x := by
    refine eventually_forall hfinite fun t ht => ?_
    obtain ⟨x, N, hN⟩ := hT.mangles (hD.fixed ht)
    exact ⟨N, fun m hm => ⟨x, hN m m hm hm, N, hN⟩⟩
  obtain ⟨N, hN⟩ := htexts
  refine ⟨N, fun m hm a b a' b' ha hb ⟨x, hx, hx'⟩ hshape hshape' => ?_⟩
  have hbares := hD.bares_of_shape hT ha hshape
  have hbares' := hD.bares_of_shape hT hb hshape'
  have htext {t : Ty} {x : String} (ht : D t) (h : (T.withLimit m).mangle t = .ok x) : Mangles T t x := by
    obtain ⟨y, hy, hmangles⟩ := hN m hm t ht
    obtain rfl := Except.ok.inj (hy.symm.trans h)
    exact hmangles
  have hform := htell ha hb ⟨x, htext ha hx, htext hb hx'⟩ hbares hbares'
  refine (hform.within hD.mentions (hD.bares hT ha hbares).1 (hD.bares hT hb hbares').1).mono ?_
  rintro c d ⟨hc, hd, x, hx, hx'⟩
  obtain ⟨y, hy, hmangles⟩ := hN m hm c hc
  obtain ⟨z, hz, hmangles'⟩ := hN m hm d hd
  obtain rfl := hx.unique hmangles
  obtain rfl := hx'.unique hmangles'
  exact ⟨x, hy, hz⟩

end Families

end Qll.Types
