import Mathlib.Logic.Relation
import Mathlib.Data.List.Perm.Subperm
import Mathlib.Data.List.Forall2
import Qll.Proofs.Program.Liveness

/-!
# Live declarations are the reachable ones

Every name that a pass adds is referred to by a live node, so live names are reachable from the
roots and the extra names; and live names are closed under references, so all reachable ones are
live. Reachability does not mention the order of anything, and the list of live names is sorted.
-/

namespace Qll.Text

variable {s : String} {l : List String}

/-- A name is inserted without changing the others. -/
theorem perm_insertInOrder (s : String) (l : List String) : (insertInOrder s l).Perm (s :: l) := by
  induction l with
  | nil => exact .refl _
  | cons t rest ih =>
    simp only [insertInOrder]
    split
    · exact (ih.cons t).trans (.swap s t rest)
    · exact .refl _

/-- Sorting names neither loses nor adds any. -/
theorem perm_inOrder (l : List String) : (inOrder l).Perm l := by
  induction l with
  | nil => exact .refl _
  | cons t rest ih => exact (perm_insertInOrder t _).trans (ih.cons t)

/-- A sorted list stays sorted when a name is inserted. -/
theorem pairwise_insertInOrder (h : l.Pairwise (· ≤ ·)) : (insertInOrder s l).Pairwise (· ≤ ·) := by
  induction l with
  | nil => simp [insertInOrder]
  | cons t rest ih =>
    obtain ⟨ht, hrest⟩ := List.pairwise_cons.1 h
    simp only [insertInOrder]
    split
    · next hlt =>
      refine List.pairwise_cons.2 ⟨fun u hu => ?_, ih hrest⟩
      obtain rfl | hu := mem_insertInOrder.1 hu
      · exact String.not_lt.1 (String.lt_asymm hlt)
      · exact ht u hu
    · next hle =>
      have hst : s ≤ t := String.not_lt.1 hle
      refine List.pairwise_cons.2 ⟨fun u hu => ?_, h⟩
      obtain rfl | hu := List.mem_cons.1 hu
      · exact hst
      · exact String.le_trans hst (ht u hu)

/-- Sorted names are in order. -/
theorem pairwise_inOrder (l : List String) : (inOrder l).Pairwise (· ≤ ·) := by
  induction l with
  | nil => exact .nil
  | cons t rest ih => exact pairwise_insertInOrder ih

end Qll.Text

namespace Qll.Program

/-! ## Reachability -/

/-- A node refers to another one. -/
def Refers (nodes : List Node) (a b : String) : Prop :=
  ∃ n ∈ nodes, n.name = a ∧ b ∈ n.refs ∧ ∃ m ∈ nodes, m.name = b

/-- What is live to begin with: the root nodes, and the extra names that are nodes. -/
def Starts (nodes : List Node) (extra : List String) (a : String) : Prop :=
  ∃ n ∈ nodes, n.name = a ∧ (n.root = true ∨ a ∈ extra)

/-- A name is reached along references of nodes. -/
def Reached (nodes : List Node) (extra : List String) (a : String) : Prop :=
  ∃ b, Starts nodes extra b ∧ Relation.ReflTransGen (Refers nodes) b a

/-- Two nodes that differ in the order of their references only. -/
structure Node.Alike (n m : Node) : Prop where
  name : n.name = m.name
  root : n.root = m.root
  refs : n.refs.Perm m.refs

/-- The nodes in another order, the references of each in another order. -/
def Reordered (nodes nodes' : List Node) : Prop :=
  ∃ middle, nodes.Perm middle ∧ List.Forall₂ Node.Alike middle nodes'

variable {nodes nodes' : List Node} {extra extra' : List String} {a b : String}

/-- A node is like itself. -/
theorem Node.Alike.refl (n : Node) : n.Alike n := ⟨rfl, rfl, .refl _⟩

/-- Likeness of nodes is symmetric. -/
theorem Node.Alike.symm {n m : Node} (h : n.Alike m) : m.Alike n :=
  ⟨h.name.symm, h.root.symm, h.refs.symm⟩

/-- What a reached name refers to is reached. -/
theorem Reached.tail (ha : Reached nodes extra a) (h : Refers nodes a b) : Reached nodes extra b := by
  obtain ⟨c, hc, hpath⟩ := ha
  exact ⟨c, hc, hpath.tail h⟩

/-- What is reached is also reached among more nodes from more names. -/
theorem Reached.mono (hnodes : ∀ n ∈ nodes, ∃ m ∈ nodes', n.Alike m) (hextra : extra ⊆ extra')
    (h : Reached nodes extra a) : Reached nodes' extra' a := by
  obtain ⟨b, ⟨n, hn, rfl, hstart⟩, hpath⟩ := h
  have hrefers : ∀ {a b}, Refers nodes a b → Refers nodes' a b := by
    rintro a b ⟨n, hn, rfl, hr, m, hm, rfl⟩
    obtain ⟨n', hn', halike⟩ := hnodes n hn
    obtain ⟨m', hm', halike'⟩ := hnodes m hm
    exact ⟨n', hn', halike.name.symm, halike.refs.mem_iff.1 hr, m', hm', halike'.name.symm⟩
  obtain ⟨n', hn', halike⟩ := hnodes n hn
  refine ⟨n.name, ⟨n', hn', halike.name.symm, ?_⟩, hpath.lift id fun _ _ => hrefers⟩
  exact hstart.imp (fun h => halike.root ▸ h) fun h => hextra h

/-- Every node has one like it among the reordered ones. -/
theorem Reordered.forward (h : Reordered nodes nodes') : ∀ n ∈ nodes, ∃ m ∈ nodes', n.Alike m := by
  obtain ⟨middle, hperm, hall⟩ := h
  intro n hn
  obtain ⟨i, hi, rfl⟩ := List.getElem_of_mem (hperm.mem_iff.1 hn)
  have hi' : i < nodes'.length := hall.length_eq ▸ hi
  exact ⟨nodes'[i], List.getElem_mem hi', hall.get hi hi'⟩

/-- Every one of the reordered nodes has one like it. -/
theorem Reordered.backward (h : Reordered nodes nodes') : ∀ m ∈ nodes', ∃ n ∈ nodes, m.Alike n := by
  obtain ⟨middle, hperm, hall⟩ := h
  intro m hm
  obtain ⟨i, hi, rfl⟩ := List.getElem_of_mem hm
  have hi' : i < middle.length := hall.length_eq ▸ hi
  exact ⟨middle[i], hperm.mem_iff.2 (List.getElem_mem hi'), (hall.get hi' hi).symm⟩

/-- The order of nodes and references does not matter for what is reached. -/
theorem Reordered.reached (h : Reordered nodes nodes') (hextra : extra.Perm extra') :
    Reached nodes extra a ↔ Reached nodes' extra' a :=
  ⟨.mono h.forward hextra.subset, .mono h.backward hextra.symm.subset⟩

/-- Reordering keeps the names. -/
theorem Reordered.names (h : Reordered nodes nodes') :
    (nodes.map Node.name).Perm (nodes'.map Node.name) := by
  obtain ⟨middle, hperm, hall⟩ := h
  have hsame : middle.map Node.name = nodes'.map Node.name := by
    induction hall generalizing nodes with
    | nil => rfl
    | cons halike _ ih => rw [List.map_cons, List.map_cons, halike.name, ih (.refl _)]
  exact hsame ▸ hperm.map _

namespace Graph

variable {g : Graph} {live names : List String}

/-! ## The graph of distinct nodes -/

/-- Nodes with distinct names that are not in the graph can be added. -/
theorem foldlM_add_ok (h : ((g.nodes ++ nodes).map Node.name).Nodup) :
    nodes.foldlM add g = .ok ⟨g.nodes ++ nodes⟩ := by
  induction nodes generalizing g with
  | nil => simp [pure, Except.pure]
  | cons n rest ih =>
    have hnew : ¬ g.has n.name = true := fun hhas => by
      obtain ⟨m, hm, hname⟩ := has_iff.1 hhas
      rw [List.map_append, List.nodup_append] at h
      exact h.2.2 _ (List.mem_map_of_mem hm) _ (List.mem_map_of_mem List.mem_cons_self) hname
    have hadd : g.add n = .ok ⟨g.nodes ++ [n]⟩ := if_neg hnew
    rw [List.foldlM_cons, List.append_cons, hadd]
    exact ih (g := ⟨g.nodes ++ [n]⟩) (by simpa using h)

/-- Nodes with distinct names make a graph. -/
theorem ofNodes_of_nodup (h : (nodes.map Node.name).Nodup) : ofNodes nodes = .ok ⟨nodes⟩ := by
  have hrun : ofNodes nodes = .ok ⟨[] ++ nodes⟩ := foldlM_add_ok (g := {}) h
  exact hrun

/-! ## What is live is reached -/

/-- All live names are reached. -/
def Sound (g : Graph) (extra live : List String) : Prop := ∀ a ∈ live, Reached g.nodes extra a

/-- What is live to begin with is reached. -/
theorem sound_start : g.Sound extra (g.start extra) := by
  intro a ha
  obtain ha | ⟨ha, hnode⟩ := mem_enlarge.1 ha
  · obtain ha | ⟨ha, -⟩ := mem_enlarge.1 ha
    · exact absurd ha (by simp)
    · obtain ⟨n, hn, rfl⟩ := List.mem_map.1 ha
      obtain ⟨hn, hroot⟩ := List.mem_filter.1 hn
      exact ⟨n.name, ⟨n, hn, rfl, .inl hroot⟩, .refl⟩
  · obtain ⟨n, hn, rfl⟩ := has_iff.1 hnode
    exact ⟨n.name, ⟨n, hn, rfl, .inr ha⟩, .refl⟩

/-- What a live node refers to is reached as the node is. -/
theorem Sound.visit (h : g.Sound extra live) {n : Node} (hn : n ∈ g.nodes) :
    g.Sound extra (g.visit live n) := by
  unfold Graph.visit
  split
  · next hlive =>
    intro a ha
    obtain ha | ⟨hr, hnode⟩ := mem_enlarge.1 ha
    · exact h a ha
    · exact (h n.name (by simpa using hlive)).tail ⟨n, hn, rfl, hr, has_iff.1 hnode⟩
  · exact h

/-- Whatever is added on the way through some nodes is reached. -/
theorem Sound.visits (h : g.Sound extra live) (hnodes : nodes ⊆ g.nodes) :
    g.Sound extra (nodes.foldl g.visit live) := by
  induction nodes generalizing live with
  | nil => exact h
  | cons n rest ih =>
    obtain ⟨hn, hrest⟩ := List.cons_subset.1 hnodes
    exact ih (h.visit hn) hrest

/-- After any number of passes all live names are reached. -/
theorem Sound.saturate (h : g.Sound extra live) (passes : Nat) :
    g.Sound extra (g.saturate passes live) := by
  induction passes generalizing live with
  | zero => exact h
  | succ passes ih =>
    simp only [Graph.saturate]
    split
    · exact h
    · exact ih (pass_eq ▸ h.visits fun _ hn => hn)

/-! ## What is reached is live -/

/-- The names to begin with are live in the end. -/
theorem mem_solve_of_starts (h : Starts g.nodes extra a) : a ∈ g.solve extra := by
  obtain ⟨n, hn, rfl, hroot | hextra⟩ := h
  · have hroots : n.name ∈ (g.nodes.filter Node.root).map Node.name :=
      List.mem_map_of_mem (List.mem_filter.2 ⟨hn, hroot⟩)
    have hstart : n.name ∈ g.start extra :=
      mem_enlarge.2 (.inl (mem_enlarge.2 (.inr ⟨hroots, has_iff.2 ⟨n, hn, rfl⟩⟩)))
    exact Text.mem_inOrder.2 ((suffix_saturate _ _).subset hstart)
  · exact mem_solve_of_extra hextra (has_iff.2 ⟨n, hn, rfl⟩)

/-- Live are exactly the names that are reached. -/
theorem mem_solve : a ∈ g.solve extra ↔ Reached g.nodes extra a := by
  constructor
  · exact fun h => sound_start.saturate _ a (Text.mem_inOrder.1 h)
  · rintro ⟨b, hb, hpath⟩
    -- Along the path, a live node refers to the next name.
    induction hpath with
    | refl => exact mem_solve_of_starts hb
    | tail _ hrefers ih =>
      obtain ⟨n, hn, rfl, hr, hnode⟩ := hrefers
      exact closed_solve n hn ih _ hr (has_iff.2 hnode)

/-- No name is live twice. -/
theorem nodup_solve : (g.solve extra).Nodup :=
  (Text.perm_inOrder _).nodup_iff.2 (lists_start.saturate _).nodup

/-- The passes come to an end: allowing more of them changes nothing. -/
theorem saturate_eq {passes more : Nat} (h : g.Lists live) (hpasses : g.size < passes + live.length)
    (hmore : passes ≤ more) : g.saturate more live = g.saturate passes live := by
  induction passes generalizing live more with
  | zero =>
    have := h.length_le
    omega
  | succ passes ih =>
    obtain ⟨more, rfl⟩ := Nat.exists_eq_succ_of_ne_zero (by omega : more ≠ 0)
    simp only [Graph.saturate]
    split
    · rfl
    · next hlength =>
      have hgrows := (pass_eq (g := g) ▸ suffix_visits g.nodes live).length_le
      exact ih (pass_eq ▸ h.visits) (by omega) (by omega)

/-- Lists of live names are equal if the same names are reached. -/
theorem solve_eq {g' : Graph} (h : ∀ a, Reached g.nodes extra a ↔ Reached g'.nodes extra' a) :
    g.solve extra = g'.solve extra' := by
  have hperm : (g.solve extra).Perm (g'.solve extra') :=
    (List.perm_ext_iff_of_nodup nodup_solve nodup_solve).2 fun a => by rw [mem_solve, mem_solve, h]
  exact List.Perm.eq_of_pairwise (fun _ _ _ _ => String.le_antisymm) (Text.pairwise_inOrder _)
    (Text.pairwise_inOrder _) hperm

/-- Nodes with distinct names make a graph, in which live are exactly the names that are reached from
the roots and the extra names. The search comes to an end, its result is the same whatever the order
of nodes, references and extra names is, and it grows with the extra names. -/
theorem live_iff_reached (h : (nodes.map Node.name).Nodup) :
    ∃ g, ofNodes nodes = .ok g ∧
      (∀ extra, (g.solve extra).Nodup ∧ ∀ a, a ∈ g.solve extra ↔ Reached nodes extra a) ∧
      (∀ extra passes, g.size < passes → Text.inOrder (g.saturate passes (g.start extra)) = g.solve extra) ∧
      (∀ nodes' extra extra', Reordered nodes nodes' → extra.Perm extra' →
        ∃ g', ofNodes nodes' = .ok g' ∧ g'.solve extra' = g.solve extra) ∧
      ∀ extra extra', extra ⊆ extra' → g.solve extra ⊆ g.solve extra' := by
  refine ⟨_, ofNodes_of_nodup h, fun extra => ⟨nodup_solve, fun a => mem_solve⟩, fun extra passes hpasses => ?_,
    fun nodes' extra extra' hnodes hextra => ?_, fun extra extra' hextra a ha => ?_⟩
  · rw [saturate_eq lists_start (by omega) hpasses]
    rfl
  · have hdistinct : (nodes'.map Node.name).Nodup := hnodes.names.nodup_iff.1 h
    exact ⟨_, ofNodes_of_nodup hdistinct, solve_eq fun a => (hnodes.reached hextra).symm⟩
  · exact mem_solve.2 (.mono (fun n hn => ⟨n, hn, .refl n⟩) hextra (mem_solve.1 ha))

/-- Nodes that refer to each other, to a node that comes later and to a name that is none. -/
theorem live_iff_reached_cycle :
    (["c", "a", "b"] : List String).Nodup ∧ ∃ g,
      ofNodes [⟨"c", ["a"], false⟩, ⟨"a", ["b"], false⟩, ⟨"b", ["a", "c", "outside"], false⟩] = .ok g ∧
        "c" ∈ g.solve ["b", "missing"] ∧ "outside" ∉ g.solve ["b", "missing"] := by
  have hnames : (([⟨"c", ["a"], false⟩, ⟨"a", ["b"], false⟩, ⟨"b", ["a", "c", "outside"], false⟩] :
      List Node).map Node.name).Nodup := by decide
  obtain ⟨g, hg, hlive, -⟩ := live_iff_reached hnames
  refine ⟨hnames, g, hg, ((hlive _).2 _).2 ⟨"b", ?_, .single ?_⟩, fun h => ?_⟩
  · exact ⟨⟨"b", ["a", "c", "outside"], false⟩, by simp, rfl, .inr (by simp)⟩
  · exact ⟨⟨"b", ["a", "c", "outside"], false⟩, by simp, rfl, by simp, ⟨"c", ["a"], false⟩, by simp, rfl⟩
  · cases hg
    exact absurd (has_of_mem_solve h) (by decide)

end Graph

end Qll.Program
