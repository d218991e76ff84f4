import Qll.Proofs.Program.Compared
import Qll.Proofs.Types.Telling

/-!
# Conversions of accepted types

Where types are declared without templates and member types, one accepted type is found convertible to
another one if it is in the relation of structural conversion, and only then, provided that the members
have plain names and that the comparison comes to an end. It does not always: a name behind a slice
descriptor is followed without a note, so descriptors of one another are compared forever.
-/

namespace Qll.Program

open Qll.Computation
open Check (State Runs)
open Source (Decl Location TypeExpr)
open Qll.Types (Ty Store IsPlain Settles Definite Fixed Sound Bares Mentions)

section Converted

variable {decls : List Decl} {written : List (Nat × TypeExpr)} {types : List Ty} {s s₁ s₂ : State}

/-- Names that are called the same stand for one declared type, or for one builtin type. -/
theorem Stages.distinct {M : Prop} (h : Stages M decls written types s₁ s₂ s)
    (hwritten : ∀ w ∈ written, w.2.Projected M fun _ => True)
    (hnodup : (Source.declsTypeNames rootName decls).Nodup) : Types.Distinct s.types := by
  intro id id' b b' hb hb' herror hq
  have hholds := h.declared hwritten
  have hcolon {item : Check.TypeItem} {kind : Types.Builtin} (hitem : item ∈ s₁.typeItems) :
      item.qualified ≠ kind.name := Types.ne_builtin_of_colon (h.spaced item hitem) kind
  have hname {b : Types.Binding} {kind : Types.Builtin} {l : Option Location} (hb : b.type = .builtin kind l)
      (herror : ∀ l, b.type ≠ .builtin .error l) (h : kind ≠ .error → b.qualified = kind.name) :
      b.qualified = kind.name := h fun hkind => herror l (hkind ▸ hb)
  obtain ⟨⟨item, hitem, rfl⟩ | ⟨kind, l, hkind, -, hbname⟩, -⟩ := hholds.binding hb <;>
    obtain ⟨⟨item', hitem', rfl⟩ | ⟨kind', l', hkind', -, hbname'⟩, -⟩ := hholds.binding hb'
  · exact .inl (congrArg (·.type) (item_unique (h.names hnodup) hitem hitem' hq))
  · exact absurd (hq.trans (hname hkind' (fun l => (herror l).2) hbname')) (hcolon hitem)
  · exact absurd (hq.symm.trans (hname hkind (fun l => (herror l).1) hbname)) (hcolon hitem')
  · have hsame := (hname hkind (fun l => (herror l).1) hbname).symm.trans
      (hq.trans (hname hkind' (fun l => (herror l).2) hbname'))
    obtain rfl := Types.Builtin.name_inj hsame
    exact .inr ⟨kind, l, l', hkind, hkind'⟩

/-- What the components of some types are: the types themselves, and whatever these are made of. -/
def Components (T : Store) (roots : List Ty) (t : Ty) : Prop :=
  ∃ root ∈ roots, Relation.ReflTransGen (Mentions T) root t

/-- The components of accepted types are a sound family whose texts tell the forms of its types, where no type
is a member type, members have plain names and nothing stands for the error type. -/
theorem components_sound (hdecls : ∀ decl ∈ decls, decl.Projected False fun _ => True)
    (hwritten : ∀ w ∈ written, w.2.Projected False fun _ => True)
    (hnames : ∀ n ∈ Source.declsNames decls, IsPlain n)
    (hnodup : (Source.declsTypeNames rootName decls).Nodup)
    (hrun : Runs directory (fun _ => checkedTypes decls written) emptyState types s)
    (haccepted : s.failed = false) {roots : List Ty} (hroots : roots ⊆ types)
    (hcomponents : ∀ t, Components s.types roots t → t.PlainMembers ∧ ∀ l, ¬ Bares s.types t (.builtin .error l)) :
    Sound s.types (Components s.types roots) ∧ Types.TextsTell s.types (Components s.types roots) := by
  obtain ⟨hT, hfixed⟩ := definite_of_checked hdecls hwritten hrun haccepted
  obtain ⟨n, s₁, s₂, hstages⟩ := stages_of_checked hdecls hrun
  have hproper {id : Nat} {b : Types.Binding} (hb : s.types.binding? id = some b) : b.Proper := by
    obtain ⟨_, hkinds⟩ := hstages.kinds
    exact ((hstages.after hwritten (called_kinds hnames hkinds)).1.binding hb).1
  have hreaches {t u : Ty} (ht : Fixed False s.types t) (h : Relation.ReflTransGen (Mentions s.types) t u) :
      Fixed False s.types u := by
    induction h with
    | refl => exact ht
    | tail _ hstep ih => exact hT.gathers.mentions ih hstep
  have hD : Sound s.types (Components s.types roots) :=
    ⟨fun ⟨root, hroot, ht⟩ => hreaches (hfixed root (hroots hroot)) ht,
      fun ⟨root, hroot, ht⟩ hstep => ⟨root, hroot, ht.tail hstep⟩, fun ht => (hcomponents _ ht).2 _⟩
  have hspelled := hD.spelled hT hproper fun ht => (hcomponents _ ht).1
  exact ⟨hD, hD.textsTell hT hspelled hproper (hstages.distinct hwritten hnodup)⟩

/-- The components of accepted types are settled and their texts tell their forms, once enough steps are
allowed: this is what keeping the words of a converted value asks for. -/
theorem components_settled (hdecls : ∀ decl ∈ decls, decl.Projected False fun _ => True)
    (hwritten : ∀ w ∈ written, w.2.Projected False fun _ => True)
    (hnames : ∀ n ∈ Source.declsNames decls, IsPlain n)
    (hnodup : (Source.declsTypeNames rootName decls).Nodup)
    (hrun : Runs directory (fun _ => checkedTypes decls written) emptyState types s)
    (haccepted : s.failed = false) {roots : List Ty} (hroots : roots ⊆ types)
    (hcomponents : ∀ t, Components s.types roots t → t.PlainMembers ∧ ∀ l, ¬ Bares s.types t (.builtin .error l)) :
    ∃ n, ∀ m ≥ n, Types.Settled (s.types.withLimit m) (Components s.types roots) ∧
      Types.TextTellsForm (s.types.withLimit m) (Components s.types roots) := by
  obtain ⟨hT, hfixed⟩ := definite_of_checked hdecls hwritten hrun haccepted
  obtain ⟨hD, htell⟩ := components_sound hdecls hwritten hnames hnodup hrun haccepted hroots hcomponents
  obtain ⟨E, hE, hmem, hfinite⟩ := hT.finite_family fun t ht => hfixed t (hroots ht)
  have hsubset : {t | Components s.types roots t} ⊆ {t | E t} := by
    rintro t ⟨root, hroot, ht⟩
    induction ht with
    | refl => exact hmem root hroot
    | tail _ hstep ih => exact hE.mentions ih hstep
  obtain ⟨n, hsettled⟩ := hD.settled hT (hfinite.subset hsubset)
  obtain ⟨k, htells⟩ := hD.textTellsForm hT htell (hfinite.subset hsubset)
  exact ⟨max n k, fun m hm => ⟨hsettled m (le_of_max_le_left hm), htells m (le_of_max_le_right hm)⟩⟩

/-- Where no type is a member type, an accepted type is found convertible to another one if it is in the
relation of structural conversion, and only then. The components of the two types do not stand for the error
type and their members have plain names, and the comparison does not come to a pair that leads back to itself
through pairs that are not written down. -/
theorem conversion_structural (hdecls : ∀ decl ∈ decls, decl.Projected False fun _ => True)
    (hwritten : ∀ w ∈ written, w.2.Projected False fun _ => True)
    (hnames : ∀ n ∈ Source.declsNames decls, IsPlain n)
    (hnodup : (Source.declsTypeNames rootName decls).Nodup)
    (hrun : Runs directory (fun _ => checkedTypes decls written) emptyState types s)
    (haccepted : s.failed = false) {a b : Ty} (ha : a ∈ types) (hb : b ∈ types)
    (hcomponents : ∀ t, Relation.ReflTransGen (Mentions s.types) a t ∨
      Relation.ReflTransGen (Mentions s.types) b t → t.PlainMembers ∧ ∀ l, ¬ Bares s.types t (.builtin .error l))
    (hreturns : ¬ Types.Returns s.types .conversion a b) :
    ∃ r, Settles (fun _ => Types.isConvertible a b) s.types (.ok r) ∧
      (r = true ↔ Types.Convertible s.types a b) := by
  obtain ⟨hT, hfixed⟩ := definite_of_checked hdecls hwritten hrun haccepted
  have hroots : [a, b] ⊆ types := by simp [ha, hb]
  obtain ⟨hD, htell⟩ := components_sound hdecls hwritten hnames hnodup hrun haccepted hroots fun t ht =>
    hcomponents t (by simpa [Components] using ht)
  obtain ⟨r, L, hanswers⟩ := hT.answers (hfixed a ha) (hfixed b hb) hreturns
  exact ⟨r, hanswers.settles hT (hfixed a ha) (hfixed b hb),
    hanswers.convertible_iff hT hD htell ⟨a, by simp, .refl⟩ ⟨b, by simp, .refl⟩⟩

end Converted

/-- A list of bytes with a name of its own. -/
def listDecl (name : String) : Decl :=
  .type name [] (.struct [("x", .name "byte" somewhere, somewhere),
    ("next", .pointer (.name name somewhere) somewhere, somewhere)] somewhere) somewhere

/-- The types of lists under two names. -/
def listsWritten : List (Nat × TypeExpr) := [(root, .name "L" somewhere), (root, .name "R" somewhere)]

/-- What declares a list, with the numbers of the names in it. -/
def listItem (name : String) (byte self : Nat) : Check.TypeItem :=
  { qualified := "global::" ++ name, scope := scopeOf root
    type := .struct [⟨"x", .name byte "byte" (some somewhere), some somewhere⟩,
      ⟨"next", .pointer (.name self name (some somewhere)) (some somewhere), some somewhere⟩] (some somewhere) }

/-- The state once the types of lists were checked. -/
def listsState : State :=
  let first := listItem "L" 0 1
  let second := listItem "R" 2 3
  let byte : Types.Binding := { qualified := "byte", type := .builtin .byte none }
  { types := { names := #[{ binding := some byte }, { binding := some first.binding }, { binding := some byte },
      { binding := some second.binding }, { binding := some first.binding }, { binding := some second.binding }] }
    spaces := #[{ name := rootName, qualified := rootName, parent := none,
                  types := [("R", second.binding), ("L", first.binding)] }]
    typeItems := #[first, second] }

/-- The two lists are accepted whatever the limit. -/
theorem lists_checked (n : Nat) :
    checkedTypes [listDecl "L", listDecl "R"] listsWritten directory (emptyState.withLimit (n + 12)) =
      .ok [.name 4 "L" (some somewhere), .name 5 "R" (some somewhere)] (listsState.withLimit (n + 12)) := by cbv

/-- The names in the types of lists. -/
def listsNames : List Ty :=
  [(0, "byte"), (1, "L"), (2, "byte"), (3, "R"), (4, "L"), (5, "R")].map fun (id, text) =>
    .name id text (some somewhere)

/-- The types of lists, and the types in them. -/
def listsFamily : List Ty :=
  listsNames ++ [(listItem "L" 0 1).type, (listItem "R" 2 3).type] ++
    [.pointer (.name 1 "L" (some somewhere)) (some somewhere),
      .pointer (.name 3 "R" (some somewhere)) (some somewhere)] ++ [.builtin .byte none]

/-- The family of the lists has all types that its types mention. -/
theorem listsFamily_closed {t u : Ty} (ht : t ∈ listsFamily) (h : Mentions listsState.types t u) :
    u ∈ listsFamily := by
  simp only [listsFamily, List.mem_append] at ht
  obtain ((ht | ht) | ht) | ht := ht
  · simp only [listsNames, List.map_cons, List.map_nil, List.mem_cons, List.not_mem_nil, or_false] at ht
    obtain rfl | rfl | rfl | rfl | rfl | rfl := ht <;> cases h with
    | name hb => cases hb; simp [listsFamily, Check.TypeItem.binding]
  · obtain rfl | rfl := by simpa using ht
    all_goals cases h with
    | member hm =>
      obtain rfl | rfl := by simpa using hm
      all_goals simp [listsFamily, listsNames]
  · obtain rfl | rfl := by simpa using ht
    all_goals cases h with
    | pointer => simp [listsFamily, listsNames]
  · obtain rfl := by simpa using ht
    cases h

/-- Lists have plain members, and lead to no error. -/
theorem listsFamily_plain {t : Ty} (ht : t ∈ listsFamily) :
    t.PlainMembers ∧ (∀ l, ¬ Bares listsState.types t (.builtin .error l)) ∧ ∀ e l, t ≠ .slice e l := by
  simp only [listsFamily, List.mem_append] at ht
  have hbares {t u : Ty} (hu : ∀ l, u ≠ .builtin .error l)
      (h : ∀ m, Types.dealias t (listsState.types.withLimit (m + 8)) =
        Types.unchanged (.ok u) (listsState.types.withLimit (m + 8))) (l : Option Location) :
      ¬ Bares listsState.types t (.builtin .error l) := fun herror =>
    hu l (Types.Bares.unique (.steps 8 fun _ m => h m) herror)
  obtain ((ht | ht) | ht) | ht := ht
  · simp only [listsNames, List.map_cons, List.map_nil, List.mem_cons, List.not_mem_nil, or_false] at ht
    obtain rfl | rfl | rfl | rfl | rfl | rfl := ht
    all_goals refine ⟨trivial, ?_, by simp⟩
    · exact hbares (u := .builtin .byte none) (by simp) fun _ => by cbv
    · exact hbares (u := (listItem "L" 0 1).type) (by simp [listItem]) fun _ => by cbv
    · exact hbares (u := .builtin .byte none) (by simp) fun _ => by cbv
    · exact hbares (u := (listItem "R" 2 3).type) (by simp [listItem]) fun _ => by cbv
    · exact hbares (u := (listItem "L" 0 1).type) (by simp [listItem]) fun _ => by cbv
    · exact hbares (u := (listItem "R" 2 3).type) (by simp [listItem]) fun _ => by cbv
  · obtain rfl | rfl := by simpa using ht
    all_goals
      refine ⟨fun m hm => ?_, hbares (by simp [listItem]) fun _ => rfl, by simp [listItem]⟩
      obtain rfl | rfl := by simpa using hm
      all_goals decide
  · obtain rfl | rfl := by simpa using ht
    all_goals exact ⟨trivial, hbares (by simp) fun _ => rfl, by simp⟩
  · obtain rfl := by simpa using ht
    exact ⟨trivial, hbares (by simp) fun _ => rfl, by simp⟩

/-- The comparison of the two lists ends, and decides whether one converts to the other. -/
theorem conversion_structural_lists :
    ∃ r, Settles (fun _ => Types.isConvertible (.name 4 "L" (some somewhere)) (.name 5 "R" (some somewhere)))
        listsState.types (.ok r) ∧
      (r = true ↔ Types.Convertible listsState.types (.name 4 "L" (some somewhere))
        (.name 5 "R" (some somewhere))) := by
  have hdecls : ∀ decl ∈ [listDecl "L", listDecl "R"], decl.Projected False fun _ => True := by
    have hlist (name : String) : (listDecl name).Projected False fun _ => True := by
      refine .type (.struct ?_)
      rintro m hm
      obtain rfl | rfl : m = _ ∨ m = _ := by simpa using hm
      · exact .name
      · exact .pointer .name
    simp [hlist]
  have hwritten : ∀ w ∈ listsWritten, w.2.Projected False fun _ => True := by
    intro w hw
    obtain rfl | rfl : w = _ ∨ w = _ := by simpa [listsWritten] using hw
    all_goals exact .name
  have hrun : Check.Runs directory (fun _ => checkedTypes [listDecl "L", listDecl "R"] listsWritten) emptyState
      [.name 4 "L" (some somewhere), .name 5 "R" (some somewhere)] listsState := ⟨12, fun n m _ hm => by
    obtain ⟨k, rfl⟩ := Nat.exists_eq_add_of_le' hm
    exact lists_checked k⟩
  obtain ⟨hT, hfixed⟩ := definite_of_checked hdecls hwritten hrun rfl
  have hfamily {t u : Ty} (ht : t ∈ listsFamily)
      (h : Relation.ReflTransGen (Mentions listsState.types) t u) : u ∈ listsFamily := by
    induction h with
    | refl => exact ht
    | tail _ hstep ih => exact listsFamily_closed ih hstep
  have hfirst : (.name 4 "L" (some somewhere)) ∈ listsFamily := by simp [listsFamily, listsNames]
  have hsecond : (.name 5 "R" (some somewhere)) ∈ listsFamily := by simp [listsFamily, listsNames]
  have hgathers : Types.Gathers listsState.types fun t => t ∈ listsFamily ∨ t = .error :=
    { mentions := fun ht h => ht.imp (listsFamily_closed · h) fun ht => by subst ht; cases h
      error := .inr rfl }
  -- Nothing becomes a slice where there are no slices.
  have hdecay (p : Ty × Ty) (hp : Relation.ReflTransGen (Types.Leaves listsState.types .conversion)
      (.name 4 "L" (some somewhere), .name 5 "R" (some somewhere)) p) (q : Ty × Ty) :
      ¬ Types.Decays listsState.types p.1 p.2 q := by
    obtain ⟨-, hleft, hright⟩ := Types.reached_gathered hT hgathers
      ⟨⟨hfixed _ (by simp), hfixed _ (by simp)⟩, .inl hfirst, .inl hsecond⟩ hp
    have hslice {t : Ty} (ht : t ∈ listsFamily ∨ t = .error) (e : Ty) (l : Option Location) : t ≠ .slice e l :=
      ht.elim (fun ht => (listsFamily_plain ht).2.2 e l) fun ht => by simp [ht, Ty.error]
    generalize p.1 = x at *
    generalize p.2 = y at *
    rintro (_ | _ | _ | _)
    · exact hslice hright _ _ rfl
    · exact hslice hright _ _ rfl
    · exact hslice hright _ _ rfl
    · exact hslice hleft _ _ rfl
  have hplain (t : Ty) (ht : Relation.ReflTransGen (Mentions listsState.types) (.name 4 "L" (some somewhere)) t ∨
      Relation.ReflTransGen (Mentions listsState.types) (.name 5 "R" (some somewhere)) t) :
      t.PlainMembers ∧ ∀ l, ¬ Bares listsState.types t (.builtin .error l) :=
    let ⟨hmembers, herror, _⟩ := listsFamily_plain (ht.elim (hfamily hfirst) (hfamily hsecond))
    ⟨hmembers, herror⟩
  exact conversion_structural hdecls hwritten (by decide) (by decide) hrun rfl (by simp) (by simp) hplain
    (hT.not_returns id (hfixed _ (by simp)) (hfixed _ (by simp)) fun _ => hdecay)

/-- A pointer to a list of descriptors whose pointer leads back. -/
def descriptorDecl (name : String) : Decl :=
  .type name [] (.pointer (.slice (.struct [("pointer", .name name somewhere, somewhere),
    ("length", .name "byte" somewhere, somewhere), ("capacity", .name "byte" somewhere, somewhere)]
      somewhere) somewhere) somewhere) somewhere

/-- The members of a descriptor, with the numbers of the names in it. -/
def descriptorMembers (name : String) (self length capacity : Nat) : List (Types.Member Ty) :=
  [⟨"pointer", .name self name (some somewhere), some somewhere⟩,
    ⟨"length", .name length "byte" (some somewhere), some somewhere⟩,
    ⟨"capacity", .name capacity "byte" (some somewhere), some somewhere⟩]

/-- A descriptor. -/
def descriptor (name : String) (self length capacity : Nat) : Ty :=
  .struct (descriptorMembers name self length capacity) (some somewhere)

/-- What declares a pointer to a list of descriptors. -/
def descriptorItem (name : String) (self length capacity : Nat) : Check.TypeItem :=
  { qualified := "global::" ++ name, scope := scopeOf root
    type := .pointer (.slice (descriptor name self length capacity) (some somewhere)) (some somewhere) }

/-- A slice of descriptors, and a descriptor. -/
def descriptorsWritten : List (Nat × TypeExpr) :=
  let struct (name : String) : TypeExpr := .struct [("pointer", .name name somewhere, somewhere),
    ("length", .name "byte" somewhere, somewhere), ("capacity", .name "byte" somewhere, somewhere)] somewhere
  [(root, .slice (struct "P") somewhere), (root, struct "Q")]

/-- The state once the slice and the descriptor were checked. -/
def descriptorsState : State :=
  let first := descriptorItem "P" 0 1 2
  let second := descriptorItem "Q" 3 4 5
  let byte : Types.Binding := { qualified := "byte", type := .builtin .byte none }
  { types := { names := #[{ binding := some first.binding }, { binding := some byte }, { binding := some byte },
      { binding := some second.binding }, { binding := some byte }, { binding := some byte },
      { binding := some first.binding }, { binding := some byte }, { binding := some byte },
      { binding := some second.binding }, { binding := some byte }, { binding := some byte }] }
    spaces := #[{ name := rootName, qualified := rootName, parent := none,
                  types := [("Q", second.binding), ("P", first.binding)] }]
    typeItems := #[first, second] }

/-- The slice and the descriptor are accepted whatever the limit. -/
theorem descriptors_checked (n : Nat) : checkedTypes [descriptorDecl "P", descriptorDecl "Q"] descriptorsWritten
    directory (emptyState.withLimit (n + 16)) = .ok [.slice (descriptor "P" 6 7 8) (some somewhere),
      descriptor "Q" 9 10 11] (descriptorsState.withLimit (n + 16)) := by cbv

/-- A slice of descriptors and a descriptor lead to a descriptor and a slice, and these lead back. -/
theorem descriptors_compared (k n : Nat) (L : List (String × String)) :
    Types.unifyWithin .conversion k (.slice (descriptor "P" 0 1 2) (some somewhere)) (descriptor "Q" 3 4 5) L
        (descriptorsState.types.withLimit (n + 16)) =
          .error .endless (descriptorsState.types.withLimit (n + 16)) ∧
      Types.unifyWithin .conversion k (descriptor "P" 0 1 2) (.slice (descriptor "Q" 3 4 5) (some somewhere)) L
        (descriptorsState.types.withLimit (n + 16)) =
          .error .endless (descriptorsState.types.withLimit (n + 16)) := by
  induction k with
  | zero => exact ⟨rfl, rfl⟩
  | succ k ih => exact ⟨ih.2, ih.1⟩

/-- The written types lead to the declared ones. -/
theorem descriptors_started {k : Nat} (hk : 2 ≤ k) (n : Nat) : Types.unifyWithin .conversion k
    (.slice (descriptor "P" 6 7 8) (some somewhere)) (descriptor "Q" 9 10 11) []
      (descriptorsState.types.withLimit (n + 16)) =
        .error .endless (descriptorsState.types.withLimit (n + 16)) := by
  obtain ⟨k, rfl⟩ := Nat.exists_eq_add_of_le' hk
  exact (descriptors_compared k n []).1

/-- The pairs that the slice of descriptors and the descriptor lead to. -/
inductive DescriptorsMeet : Ty → Ty → Prop
  | written : DescriptorsMeet (.slice (descriptor "P" 6 7 8) (some somewhere)) (descriptor "Q" 9 10 11)
  | read : DescriptorsMeet (descriptor "P" 6 7 8) (.slice (descriptor "Q" 3 4 5) (some somewhere))
  | slice : DescriptorsMeet (.slice (descriptor "P" 0 1 2) (some somewhere)) (descriptor "Q" 3 4 5)
  | descriptor : DescriptorsMeet (descriptor "P" 0 1 2) (.slice (descriptor "Q" 3 4 5) (some somewhere))

/-- The slice of descriptors can be used as the descriptor: they lead to pairs of which one becomes a slice
of the other. -/
theorem descriptors_convertible : Types.Convertible descriptorsState.types
    (.slice (descriptor "P" 6 7 8) (some somewhere)) (descriptor "Q" 9 10 11) := by
  have hdescribes {name : String} {self length capacity : Nat} {e : Ty}
      (hpointer : ∀ m, Types.dealias (.name self name (some somewhere)) (descriptorsState.types.withLimit (m + 8)) =
        Types.unchanged (.ok (.pointer e (some somewhere))) (descriptorsState.types.withLimit (m + 8)))
      (hword : ∀ id, id = length ∨ id = capacity → ∀ m,
        Types.dealias (.name id "byte" (some somewhere)) (descriptorsState.types.withLimit (m + 8)) =
          Types.unchanged (.ok (.builtin .byte none)) (descriptorsState.types.withLimit (m + 8))) :
      Types.Describes descriptorsState.types (descriptorMembers name self length capacity) e :=
    .mk ⟨rfl, rfl, rfl⟩ (.steps 8 fun _ m => hpointer m) (.steps 8 fun _ m => hword _ (.inl rfl) m)
      (.steps 8 fun _ m => hword _ (.inr rfl) m)
  have hP : Types.Describes descriptorsState.types (descriptorMembers "P" 0 1 2)
      (.slice (descriptor "P" 0 1 2) (some somewhere)) :=
    hdescribes (fun _ => by cbv) (by rintro _ (rfl | rfl) _ <;> cbv)
  have hP' : Types.Describes descriptorsState.types (descriptorMembers "P" 6 7 8)
      (.slice (descriptor "P" 0 1 2) (some somewhere)) :=
    hdescribes (fun _ => by cbv) (by rintro _ (rfl | rfl) _ <;> cbv)
  have hQ : Types.Describes descriptorsState.types (descriptorMembers "Q" 3 4 5)
      (.slice (descriptor "Q" 3 4 5) (some somewhere)) :=
    hdescribes (fun _ => by cbv) (by rintro _ (rfl | rfl) _ <;> cbv)
  have hQ' : Types.Describes descriptorsState.types (descriptorMembers "Q" 9 10 11)
      (.slice (descriptor "Q" 3 4 5) (some somewhere)) :=
    hdescribes (fun _ => by cbv) (by rintro _ (rfl | rfl) _ <;> cbv)
  refine ⟨DescriptorsMeet, fun a b hab => ?_, .written⟩
  cases hab with
  | written => exact ⟨_, _, .steps 8 fun _ _ => rfl, .steps 8 fun _ _ => rfl, .inr ⟨_, .record hQ', .read⟩⟩
  | read => exact ⟨_, _, .steps 8 fun _ _ => rfl, .steps 8 fun _ _ => rfl, .inr ⟨_, .descriptor hP', .slice⟩⟩
  | slice => exact ⟨_, _, .steps 8 fun _ _ => rfl, .steps 8 fun _ _ => rfl, .inr ⟨_, .record hQ, .descriptor⟩⟩
  | descriptor =>
    exact ⟨_, _, .steps 8 fun _ _ => rfl, .steps 8 fun _ _ => rfl, .inr ⟨_, .descriptor hP, .slice⟩⟩

/-- A slice of descriptors and a descriptor are accepted, one can be used as the other, and the comparison
never comes to an end. -/
theorem descriptors_endless :
    Runs directory (fun _ => checkedTypes [descriptorDecl "P", descriptorDecl "Q"] descriptorsWritten) emptyState
      [.slice (descriptor "P" 6 7 8) (some somewhere), descriptor "Q" 9 10 11] descriptorsState ∧
    descriptorsState.failed = false ∧
    Types.Convertible descriptorsState.types (.slice (descriptor "P" 6 7 8) (some somewhere))
      (descriptor "Q" 9 10 11) ∧
    Settles (fun _ => Types.isConvertible (.slice (descriptor "P" 6 7 8) (some somewhere))
      (descriptor "Q" 9 10 11)) descriptorsState.types (.error .endless) := by
  refine ⟨⟨16, fun _ m _ hm => ?_⟩, rfl, descriptors_convertible, ⟨16, fun _ m _ hm => ?_⟩⟩
  all_goals obtain ⟨n, rfl⟩ := Nat.exists_eq_add_of_le' hm
  · exact descriptors_checked n
  · exact run_endless (descriptors_started (k := n + 16) (by omega) n)

end Qll.Program
