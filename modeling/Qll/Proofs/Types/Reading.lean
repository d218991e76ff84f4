import Mathlib.Data.List.Forall2
import Qll.Proofs.Types.Tree

/-!
# Mangled texts of types

The mangled text of a type is the text of its constructor tree, provided that its names stand for
what they are called after and that it has no errors in it. So two such types with one mangled text
have one tree.
-/

namespace Qll.Types

open Qll.Computation

/-- What names may stand for: a template parameter, a builtin type that is called so, the error type,
or a declared type, which has a namespace in its name. -/
inductive Binding.Proper : Binding → Prop
  | parameter {q v scope} : Proper { qualified := q, type := .var v, scope }
  | builtin {kind : Builtin} {l scope} : Proper { qualified := kind.name, type := .builtin kind l, scope }
  | error {q l scope} : Proper { qualified := q, type := .builtin .error l, scope }
  | declared {q t scope} (hq : IsQualified IsPlain q) (hspace : ':' ∈ q.toList) :
      Proper { qualified := q, type := t, scope }

/-- A family of types in which names are resolved, templates are applied, variables stand for types
and members have plain names. Nothing in it stands for the error type. -/
structure Spelled (s : Store) (D : Ty → Prop) : Prop where
  carries : ∀ {t u}, D t → Carries s t u → D u
  name : ∀ {id text l}, D (.name id text l) → ∃ b, s.binding? id = some b ∧ b.Proper
  apply : ∀ {id head text as l}, D (.apply id head text as l) →
    ∃ b template, s.binding? head = some b ∧ b.type = .template template ∧ b.Proper
  var : ∀ {v}, D (.var v) → ∃ t, s.bound? v = some t
  template : ∀ {id}, ¬ D (.template id)
  member : ∀ {ms l}, D (.struct ms l) → ∀ m ∈ ms, IsPlain m.name
  dot : ∀ {b m l}, D (.dot b m l) → IsPlain m
  error : ∀ {t l}, D t → ¬ Shape s t (.builtin .error l)

/-- The name of a declared type is no builtin name. -/
theorem ne_builtin_of_colon {q : String} (h : ':' ∈ q.toList) (kind : Builtin) : q ≠ kind.name := by
  rintro rfl
  revert h
  cases kind <;> decide

section Reading

variable {s : Store} {D : Ty → Prop}

/-- Types in a list have trees if each has. -/
theorem mapM_trees {α β γ : Type} {f : α → Except Fault β} {g : α → Option γ} {P : γ → β → Prop}
    {as : List α} {bs : List β} (h : ∀ a ∈ as, ∀ b, f a = .ok b → ∃ c, g a = some c ∧ P c b)
    (hrun : as.mapM f = .ok bs) : ∃ cs, as.mapM g = some cs ∧ List.Forall₂ P cs bs := by
  induction as generalizing bs with
  | nil =>
    rw [List.mapM_nil, except_pure_ok] at hrun
    subst hrun
    exact ⟨[], rfl, .nil⟩
  | cons a as ih =>
    simp only [List.mapM_cons, except_bind_ok, except_pure_ok] at hrun
    obtain ⟨b, hb, rest, hrest, rfl⟩ := hrun
    obtain ⟨c, hc, hP⟩ := h a (by simp) b hb
    obtain ⟨cs, hcs, hall⟩ := ih (fun a ha => h a (by simp [ha])) hrest
    exact ⟨c :: cs, by simp [List.mapM_cons, hc, hcs], .cons hP hall⟩

/-- A text is that of a tree. -/
def Spells (tree : Tree) (text : String) : Prop := tree.Legal ∧ tree.text = text.toList

/-- The text of a list of trees. -/
theorem listed_texts {trees : List Tree} {parts : List String}
    (h : List.Forall₂ (fun tree part => tree.text = part.toList) trees parts) (close : Char) :
    listed close (Tree.texts trees) = (Text.join ", " parts).toList ++ [close] := by
  induction h with
  | nil => rfl
  | @cons tree part trees parts hfirst hrest ih =>
    cases hrest with
    | nil => simp [Tree.texts, listed, Text.join, hfirst]
    | cons hnext hrest =>
      rw [Tree.texts, Tree.texts, listed, ← Tree.texts, ih, hfirst]
      · simp [Text.join]
      · simp

/-- The text of some members. -/
theorem memberTexts_eq {trees : List (String × Tree)} {parts : List String}
    (h : List.Forall₂ (fun m part =>
      part.toList = ' ' :: (m.1.toList ++ ':' :: ' ' :: (m.2.text ++ [';']))) trees parts) :
    Tree.memberTexts trees = (String.join parts).toList := by
  induction h with
  | nil => rfl
  | @cons m part trees parts hfirst _ ih =>
    rw [Tree.memberTexts, ih]
    simp [hfirst]

/-- The text of a legal tree has one of the forms of mangled texts. -/
theorem Tree.Legal.mangled {tree : Tree} (h : tree.Legal) {text : String} (htext : tree.text = text.toList) :
    Mangled IsPlain text := by
  -- The texts of some subtrees, as a list of strings.
  let spell (tree : Tree) : String := String.ofList tree.text
  have hlisted (trees : List Tree) (close : Char) :
      listed close (Tree.texts trees) = (Text.join ", " (trees.map spell)).toList ++ [close] :=
    listed_texts (List.forall₂_map_right_iff.2 (List.forall₂_same.2 fun tree _ => by simp [spell])) close
  induction h generalizing text with
  | @builtin kind =>
    obtain rfl : kind.name = text := String.toList_injective htext
    exact .name (.name (by cases kind <;> decide))
  | @name q hq =>
    obtain rfl : q = text := String.toList_injective htext
    exact .name hq
  | @pointer e _ ih =>
    obtain rfl : "*" ++ spell e = text := String.toList_injective (by simp [← htext, spell])
    exact .pointer (ih (by simp [spell]))
  | @slice e _ ih =>
    obtain rfl : "[" ++ spell e ++ "]" = text := String.toList_injective (by simp [← htext, spell])
    exact .slice (ih (by simp [spell]))
  | @array e n _ ih =>
    obtain rfl : "[" ++ spell e ++ "; " ++ Store.lengthText n ++ "]" = text :=
      String.toList_injective (by simp [← htext, spell])
    exact .array (ih (by simp [spell])) n
  | @struct ms hnames _ ih =>
    have hmembers : Tree.memberTexts ms = (String.join ((ms.map fun m => (m.1, spell m.2)).map
        fun m => " " ++ m.1 ++ ": " ++ m.2 ++ ";")).toList := by
      refine memberTexts_eq ?_
      rw [List.map_map, List.forall₂_map_right_iff, List.forall₂_same]
      intro m _
      simp [spell]
    obtain rfl : "struct \x7b" ++ String.join ((ms.map fun m => (m.1, spell m.2)).map
        fun m => " " ++ m.1 ++ ": " ++ m.2 ++ ";") ++ " \x7d" = text := by
      apply String.toList_injective
      rw [← htext, Tree.text_struct, hmembers]
      simp [brace, closingBrace]
    refine .struct (fun m hm => ?_) fun m hm => ?_
    all_goals obtain ⟨m, hmem, rfl⟩ := List.mem_map.1 hm
    · exact hnames m hmem
    · exact ih m hmem (by simp [spell])
  | @function as r _ _ iha ihr =>
    obtain rfl : "(" ++ Text.join ", " (as.map spell) ++ ") => " ++ spell r = text := by
      apply String.toList_injective
      rw [← htext, Tree.text_function, hlisted]
      simp [arrow, spell]
    refine .function (fun a ha => ?_) (ihr (by simp [spell]))
    obtain ⟨a, hmem, rfl⟩ := List.mem_map.1 ha
    exact iha a hmem (by simp [spell])
  | @apply head as hhead _ iha =>
    obtain rfl : head ++ Store.bracket (as.map spell) = text := by
      apply String.toList_injective
      rw [← htext, Tree.text_apply, hlisted]
      simp [Store.bracket]
    refine .apply (.name hhead) fun a ha => ?_
    obtain ⟨a, hmem, rfl⟩ := List.mem_map.1 ha
    exact iha a hmem (by simp [spell])
  | @dot b m _ _ hm ih =>
    obtain rfl : spell b ++ "." ++ m = text := String.toList_injective (by simp [← htext, spell])
    exact .dot (ih (by simp [spell])) hm

/-- Out of a type that is no struct, a member projects the error type. -/
theorem shape_dot_of_ne {t u : Ty} (h : Shape s t u) (hu : ∀ ms l, u ≠ .struct ms l) (m : String)
    (l : Option Source.Location) : Shape s (.dot t m l) .error := by
  obtain ⟨n, hn⟩ := h
  have hmember : memberTypeWithin (n + 1) t m s = .ok .error s := by
    unfold memberTypeWithin
    refine bind_ok.2 ⟨u, s, hn, ?_⟩
    cases u with
    | struct ms l => exact absurd rfl (hu ms l)
    | _ => rfl
  exact (Stands.dot hmember).shape_iff.2 (Ty.IsShape.self trivial)

/-- A type has a tree that is spelled by its text. A tree from which no member is projected is that of a type
without members. -/
def HasTree (s : Store) (n : Nat) (t : Ty) (text : String) : Prop :=
  ∃ tree, s.treeWithin n t = some tree ∧ Spells tree text ∧
    (tree.Projects ∨ ∃ u, Shape s t u ∧ ∀ ms l, u ≠ .struct ms l)

namespace HasTree

/-- The tree of a type is spelled by its text. -/
theorem spells {n : Nat} {t : Ty} {text : String} (h : HasTree s n t text) :
    ∃ tree, s.treeWithin n t = some tree ∧ Spells tree text :=
  h.imp fun _ h => ⟨h.1, h.2.1⟩

/-- What stands for another type has its tree. -/
theorem of_stands {n m : Nat} {t u : Ty} {text : String} (hstands : Stands s t u)
    (htree : s.treeWithin m t = s.treeWithin n u) (h : HasTree s n u text) : HasTree s m t text := by
  obtain ⟨tree, hu, hspells, hshape⟩ := h
  exact ⟨tree, htree.trans hu, hspells, hshape.imp_right fun h => h.imp fun _ h => ⟨hstands.shape_iff.2 h.1, h.2⟩⟩

end HasTree

namespace Spelled

variable (hD : Spelled s D)

include hD

/-- A name stands for its definition: it closes no type of infinite size. -/
theorem target {id : Nat} {text : String} {l : Option Source.Location} (h : D (.name id text l))
    {b : Binding} (hb : s.binding? id = some b) : s.target id text = .ok b.type := by
  obtain ⟨e, he, hbinding⟩ := Option.bind_eq_some_iff.1 hb
  obtain ⟨binding, cyclic⟩ := e
  obtain rfl : binding = some b := hbinding
  cases cyclic with
  | false => simp [Store.target, he]
  | true =>
    have htarget : s.target id text = .ok .error := by simp [Store.target, he]
    exact absurd ((Stands.name htarget).shape_iff.2 (Ty.IsShape.self trivial)) (hD.error h)

section Inner

variable {n : Nat} (ih : ∀ {t : Ty} {text : String}, D t → s.renderWithin true n t = .ok text → HasTree s n t text)

include ih

/-- What a name is called. -/
theorem tree_of_name {id : Nat} {written text : String} {l : Option Source.Location} (ht : D (.name id written l))
    (h : s.renderWithin true (n + 1) (.name id written l) = .ok text) :
    HasTree s (n + 1) (.name id written l) text := by
  obtain ⟨b, hb, hproper⟩ := hD.name ht
  have htarget := hD.target ht hb
  have htree : s.treeWithin (n + 1) (.name id written l) = s.nameTree (s.treeWithin n) id := rfl
  simp only [Store.renderWithin, Store.nameText, if_pos, hb] at h
  simp only [Store.nameTree, hb] at htree
  cases hproper with
  | @parameter q v scope =>
    exact .of_stands (.name htarget) htree (ih (hD.carries ht (.parameter hb rfl)) h)
  | @builtin kind l scope =>
    cases h
    exact ⟨.builtin kind, by simp [htree], ⟨.builtin, rfl⟩, .inl trivial⟩
  | error => exact absurd ((Stands.name htarget).shape_iff.2 (Ty.IsShape.self trivial)) (hD.error ht)
  | @declared q u scope hq hspace =>
    have hname : Spells (.name q) q := ⟨.name hq (ne_builtin_of_colon hspace), rfl⟩
    cases u with
    | var v => exact .of_stands (.name htarget) htree (ih (hD.carries ht (.parameter hb rfl)) h)
    | builtin kind l' =>
      cases h
      exact ⟨.name q, htree.trans (if_neg (ne_builtin_of_colon hspace kind)), hname, .inl trivial⟩
    | _ =>
      cases h
      exact ⟨.name q, htree, hname, .inl trivial⟩

/-- The text of a struct is put together from those of its members. -/
theorem tree_of_struct {ms : List (Member Ty)} {l : Option Source.Location} {text : String} (ht : D (.struct ms l))
    (h : s.renderWithin true (n + 1) (.struct ms l) = .ok text) : HasTree s (n + 1) (.struct ms l) text := by
  simp only [Store.renderWithin, except_bind_ok, except_pure_ok] at h
  obtain ⟨parts, hparts, rfl⟩ := h
  obtain ⟨trees, htrees, hall⟩ := mapM_trees (g := fun m : Member Ty => do
      return (m.name, ← s.treeWithin n m.type)) (P := fun m part => (IsPlain m.1 ∧ m.2.Legal) ∧
        part.toList = ' ' :: (m.1.toList ++ ':' :: ' ' :: (m.2.text ++ [';']))) (fun m hm part hpart => by
    simp only [except_bind_ok, except_pure_ok] at hpart
    obtain ⟨x, hx, rfl⟩ := hpart
    obtain ⟨tree, htree, ⟨hlegal, htext⟩, -⟩ := ih (hD.carries ht (.member hm)) hx
    exact ⟨(m.name, tree), by simp [htree], ⟨hD.member ht m hm, hlegal⟩, by simp [htext]⟩) hparts
  have hlegal := ((List.forall₂_and_left _ _).1 hall).1
  refine ⟨.struct trees, Option.bind_eq_some_iff.2 ⟨trees, htrees, rfl⟩, ⟨?_, ?_⟩, .inl trivial⟩
  · exact .struct (fun m hm => (hlegal m hm).1) fun m hm => (hlegal m hm).2
  · rw [Tree.text_struct, memberTexts_eq (hall.imp fun _ _ h => h.2)]
    simp [brace, closingBrace]

/-- The text of a function is put together from those of its arguments and its result. -/
theorem tree_of_function {as : List Ty} {r : Ty} {l : Option Source.Location} {text : String}
    (ht : D (.function as r l)) (h : s.renderWithin true (n + 1) (.function as r l) = .ok text) :
    HasTree s (n + 1) (.function as r l) text := by
  simp only [Store.renderWithin, except_bind_ok, except_pure_ok] at h
  obtain ⟨parts, hparts, x, hx, rfl⟩ := h
  obtain ⟨trees, htrees, hall⟩ :=
    mapM_trees (fun a ha y hy => (ih (hD.carries ht (.argument ha)) hy).spells) hparts
  obtain ⟨tree, htree, ⟨hlegal, htext⟩, -⟩ := ih (hD.carries ht .result) hx
  refine ⟨.function trees tree, by simp [Store.treeWithin, htrees, htree],
    ⟨.function ((List.forall₂_and_left _ _).1 hall).1 hlegal, ?_⟩, .inr ⟨_, Ty.IsShape.self trivial, by simp⟩⟩
  rw [Tree.text_function, listed_texts (hall.imp fun _ _ h => h.2), htext]
  simp [arrow]

/-- The text of an application is put together from the name of its template and those of its arguments. -/
theorem tree_of_apply {id head : Nat} {written text : String} {as : List Ty} {l : Option Source.Location}
    (ht : D (.apply id head written as l))
    (h : s.renderWithin true (n + 1) (.apply id head written as l) = .ok text) :
    HasTree s (n + 1) (.apply id head written as l) text := by
  obtain ⟨b, template, hb, htemplate, hproper⟩ := hD.apply ht
  simp only [Store.renderWithin, except_bind_ok, except_pure_ok, Store.nameText, if_pos, hb] at h
  obtain ⟨name, hname, parts, hparts, rfl⟩ := h
  obtain ⟨trees, htrees, hall⟩ :=
    mapM_trees (fun a ha y hy => (ih (hD.carries ht (.typeArgument ha)) hy).spells) hparts
  cases hproper with
  | parameter | builtin | error => cases htemplate
  | @declared q u scope hq hspace =>
    obtain rfl : u = .template template := htemplate
    cases hname
    refine ⟨.apply q trees, by simp [Store.treeWithin, hb, htrees],
      ⟨.apply hq ((List.forall₂_and_left _ _).1 hall).1, ?_⟩, .inl trivial⟩
    rw [Tree.text_apply, listed_texts (hall.imp fun _ _ h => h.2)]
    simp [Store.bracket]

/-- The text of a member type is put together from that of the type the member is taken from. -/
theorem tree_of_dot {b : Ty} {m text : String} {l : Option Source.Location} (ht : D (.dot b m l))
    (h : s.renderWithin true (n + 1) (.dot b m l) = .ok text) : HasTree s (n + 1) (.dot b m l) text := by
  simp only [Store.renderWithin, except_bind_ok, except_pure_ok] at h
  obtain ⟨x, hx, rfl⟩ := h
  obtain ⟨tree, htree, ⟨hlegal, htext⟩, hshape⟩ := ih (hD.carries ht .base) hx
  have hprojects : tree.Projects := by
    refine hshape.resolve_right ?_
    rintro ⟨u, hu, hne⟩
    exact hD.error ht (shape_dot_of_ne hu hne m l)
  exact ⟨.dot tree m, by simp [Store.treeWithin, htree],
    ⟨.dot hlegal hprojects (hD.dot ht), by simp [htext]⟩, .inl trivial⟩

end Inner

/-- The text of a type is that of its tree, and a tree from which no member is projected is that of a
type without members. -/
theorem tree_of_render {n : Nat} {t : Ty} {text : String} (ht : D t)
    (h : s.renderWithin true n t = .ok text) : HasTree s n t text := by
  induction n generalizing t text with
  | zero => cases h
  | succ n ih =>
    have hinner {u : Ty} (hu : Carries s t u) {x : String} (hx : s.renderWithin true n u = .ok x) :
        HasTree s n u x := ih (hD.carries ht hu) hx
    cases t with
    | name id written l => exact hD.tree_of_name ih ht h
    | struct ms l => exact hD.tree_of_struct ih ht h
    | function as r l => exact hD.tree_of_function ih ht h
    | apply id head written as l => exact hD.tree_of_apply ih ht h
    | dot b m l => exact hD.tree_of_dot ih ht h
    | template id => exact absurd ht hD.template
    | builtin kind l =>
      obtain rfl := except_pure_ok.1 h
      exact ⟨.builtin kind, rfl, ⟨.builtin, rfl⟩, .inl trivial⟩
    | pointer e l =>
      simp only [Store.renderWithin, except_bind_ok, except_pure_ok] at h
      obtain ⟨x, hx, rfl⟩ := h
      obtain ⟨tree, htree, hlegal, htext⟩ := (hinner .pointer hx).spells
      exact ⟨.pointer tree, by simp [Store.treeWithin, htree], ⟨.pointer hlegal, by simp [htext]⟩,
        .inr ⟨_, Ty.IsShape.self trivial, by simp⟩⟩
    | slice e l =>
      simp only [Store.renderWithin, except_bind_ok, except_pure_ok] at h
      obtain ⟨x, hx, rfl⟩ := h
      obtain ⟨tree, htree, hlegal, htext⟩ := (hinner .slice hx).spells
      exact ⟨.slice tree, by simp [Store.treeWithin, htree], ⟨.slice hlegal, by simp [htext]⟩,
        .inl trivial⟩
    | array e k l =>
      simp only [Store.renderWithin, except_bind_ok, except_pure_ok] at h
      obtain ⟨x, hx, rfl⟩ := h
      obtain ⟨tree, htree, hlegal, htext⟩ := (hinner .array hx).spells
      exact ⟨.array tree k, by simp [Store.treeWithin, htree], ⟨.array hlegal, by simp [htext]⟩,
        .inl trivial⟩
    | var v =>
      obtain ⟨u, hu⟩ := hD.var ht
      simp only [Store.renderWithin, hu] at h
      exact .of_stands (.var hu) (by simp [Store.treeWithin, hu]) (hinner (.bound hu) h)

/-- Two types with one mangled text have one tree. -/
theorem tree_eq {a b : Ty} (ha : D a) (hb : D b) {text : String} (htext : s.mangle a = .ok text)
    (htext' : s.mangle b = .ok text) : ∃ tree, s.tree a = some tree ∧ s.tree b = some tree := by
  obtain ⟨tree, htree, ⟨hlegal, hspells⟩, -⟩ := hD.tree_of_render ha htext
  obtain ⟨tree', htree', ⟨hlegal', hspells'⟩, -⟩ := hD.tree_of_render hb htext'
  obtain rfl := Tree.text_inj hlegal hlegal' (hspells.trans hspells'.symm)
  exact ⟨tree, htree, htree'⟩

end Spelled

end Reading

end Qll.Types
