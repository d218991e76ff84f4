import Mathlib.Data.List.Perm.Subperm
import Qll.Program.Liveness

/-!
# Live declarations are closed under references

A pass over the graph only adds names, and a pass that adds nothing leaves a list that is closed
under references. Live names are distinct names of nodes, so the passes come to an end before their
number runs out.
-/

namespace Qll.Text

/-- Inserting a name adds that name. -/
theorem mem_insertInOrder {s t : String} {l : List String} :
    s ∈ insertInOrder t l ↔ s = t ∨ s ∈ l := by
  induction l with
  | nil => simp [insertInOrder]
  | cons u rest ih =>
    simp only [insertInOrder]
    split
    · simp only [List.mem_cons, ih]
      tauto
    · simp

/-- Sorting keeps the texts. -/
@[simp] theorem mem_inOrder {s : String} {l : List String} : s ∈ inOrder l ↔ s ∈ l := by
  induction l with
  | nil => simp [inOrder]
  | cons t rest ih =>
    change s ∈ insertInOrder t (inOrder rest) ↔ _
    rw [mem_insertInOrder, ih, List.mem_cons]

end Qll.Text

namespace Qll.Program.Graph

variable {g : Graph} {live names extra : List String}

/-! ## The graph of a list of nodes -/

/-- A graph has a name if one of its nodes has. -/
@[simp] theorem has_iff {name : String} : g.has name = true ↔ ∃ n ∈ g.nodes, n.name = name := by
  simp [has]

/-- A graph is made of all nodes, and their names are distinct. -/
theorem foldlM_add {nodes : List Node} {h : Graph} (hrun : nodes.foldlM add g = .ok h)
    (hg : (g.nodes.map Node.name).Nodup) :
    h.nodes = g.nodes ++ nodes ∧ (h.nodes.map Node.name).Nodup := by
  induction nodes generalizing g with
  | nil =>
    cases hrun
    exact ⟨by simp, hg⟩
  | cons n rest ih =>
    rw [List.foldlM_cons] at hrun
    unfold add at hrun
    split at hrun
    · cases hrun
    · next hnew =>
      have hnodup : (((⟨g.nodes ++ [n]⟩ : Graph).nodes).map Node.name).Nodup := by
        simp only [List.map_append, List.map_cons, List.map_nil]
        refine List.nodup_append.2 ⟨hg, by simp, fun a ha b hb hab => hnew ?_⟩
        obtain ⟨m, hm, rfl⟩ := List.mem_map.1 ha
        exact has_iff.2 ⟨m, hm, hab.trans (by simpa using hb)⟩
      obtain ⟨hnodes, hdistinct⟩ := ih hrun hnodup
      exact ⟨by simp [hnodes], hdistinct⟩

/-- A graph is made of nodes with distinct names, and has just these. -/
theorem ofNodes_ok {nodes : List Node} (h : ofNodes nodes = .ok g) :
    g.nodes = nodes ∧ (nodes.map Node.name).Nodup := by
  obtain ⟨hnodes, hdistinct⟩ := foldlM_add (g := {}) h (by simp)
  simp only [List.nil_append] at hnodes
  exact ⟨hnodes, hnodes ▸ hdistinct⟩

/-! ## Passes -/

/-- A name is added if it is a node and not live yet. -/
theorem enlarge_cons {n : String} {rest : List String} : g.enlarge live (n :: rest) =
    g.enlarge (if g.has n && !live.contains n then n :: live else live) rest := rfl

/-- Names are added in front, once each, if they are nodes. -/
theorem mem_enlarge {name : String} :
    name ∈ g.enlarge live names ↔ name ∈ live ∨ name ∈ names ∧ g.has name = true := by
  induction names generalizing live with
  | nil => simp [enlarge]
  | cons n rest ih =>
    rw [enlarge_cons, ih]
    split
    · next h =>
      simp only [Bool.and_eq_true] at h
      simp only [List.mem_cons]
      constructor
      · rintro ((rfl | h') | h')
        · exact .inr ⟨.inl rfl, h.1⟩
        · exact .inl h'
        · exact .inr ⟨.inr h'.1, h'.2⟩
      · rintro (h' | ⟨rfl | h', hname⟩)
        · exact .inl (.inr h')
        · exact .inl (.inl rfl)
        · exact .inr ⟨h', hname⟩
    · next h =>
      simp only [List.mem_cons]
      constructor
      · rintro (h' | h')
        · exact .inl h'
        · exact .inr ⟨.inr h'.1, h'.2⟩
      · rintro (h' | ⟨rfl | h', hname⟩)
        · exact .inl h'
        · simp only [hname, Bool.true_and, Bool.not_eq_true', Bool.not_eq_false] at h
          exact .inl (by simpa using h)
        · exact .inr ⟨h', hname⟩

/-- New names are put in front of the live ones. -/
theorem suffix_enlarge (live names : List String) : live <:+ g.enlarge live names := by
  induction names generalizing live with
  | nil => exact List.suffix_refl _
  | cons n rest ih =>
    rw [enlarge_cons]
    split
    · exact (List.suffix_cons n live).trans (ih _)
    · exact ih _

/-- Live names stay distinct. -/
theorem nodup_enlarge (h : live.Nodup) : (g.enlarge live names).Nodup := by
  induction names generalizing live with
  | nil => exact h
  | cons n rest ih =>
    rw [enlarge_cons]
    split
    · next hn =>
      refine ih (List.nodup_cons.2 ⟨fun hmem => ?_, h⟩)
      simp [hmem] at hn
    · exact ih h

/-- A list of live names: distinct names of nodes. -/
structure Lists (g : Graph) (live : List String) : Prop where
  nodup : live.Nodup
  nodes : ∀ name ∈ live, g.has name = true

/-- Live names stay distinct names of nodes. -/
theorem Lists.enlarge (h : g.Lists live) : g.Lists (g.enlarge live names) :=
  ⟨nodup_enlarge h.nodup, fun name hname => (mem_enlarge.1 hname).elim (h.nodes name) And.right⟩

/-- There are at most as many live names as nodes. -/
theorem Lists.length_le (h : g.Lists live) : live.length ≤ g.size := by
  have hsub : live ⊆ g.nodes.map Node.name := fun name hname => by
    obtain ⟨n, hn, rfl⟩ := has_iff.1 (h.nodes name hname)
    exact List.mem_map_of_mem hn
  simpa [size] using (List.subperm_of_subset h.nodup hsub).length_le

/-- What one node adds to the live names. -/
def visit (g : Graph) (live : List String) (n : Node) : List String :=
  if live.contains n.name then g.enlarge live n.refs else live

/-- A pass visits one node after the other. -/
theorem pass_eq : g.pass live = g.nodes.foldl g.visit live := rfl

/-- A visit keeps the live names. -/
theorem suffix_visit (n : Node) : live <:+ g.visit live n := by
  unfold visit
  split
  · exact suffix_enlarge live _
  · exact List.suffix_refl _

/-- Visits keep the live names. -/
theorem suffix_visits (nodes : List Node) (live : List String) :
    live <:+ nodes.foldl g.visit live := by
  induction nodes generalizing live with
  | nil => exact List.suffix_refl _
  | cons n rest ih => exact (suffix_visit n).trans (ih _)

/-- Visits lead from a list of live names to another one. -/
theorem Lists.visits {nodes : List Node} (h : g.Lists live) :
    g.Lists (nodes.foldl g.visit live) := by
  induction nodes generalizing live with
  | nil => exact h
  | cons n rest ih =>
    refine ih ?_
    unfold visit
    split
    · exact h.enlarge
    · exact h

/-- Whatever the live nodes among some refer to is live. -/
def ClosedOn (g : Graph) (nodes : List Node) (live : List String) : Prop :=
  ∀ n ∈ nodes, n.name ∈ live → ∀ r ∈ n.refs, g.has r = true → r ∈ live

/-- When a pass adds nothing, no node did. -/
theorem closed_of_visits {nodes : List Node}
    (h : (nodes.foldl g.visit live).length = live.length) : g.ClosedOn nodes live := by
  induction nodes with
  | nil => exact fun n hn => absurd hn (by simp)
  | cons n rest ih =>
    have hvisit : g.visit live n = live := by
      refine ((suffix_visit n).eq_of_length_le ?_).symm
      exact Nat.le_trans (suffix_visits rest _).length_le (Nat.le_of_eq h)
    intro m hm hlive r hr hnode
    obtain rfl | hm := List.mem_cons.1 hm
    · rw [← hvisit]
      unfold visit
      rw [if_pos (by simpa using hlive)]
      exact mem_enlarge.2 (.inr ⟨hr, hnode⟩)
    · have hrest : (rest.foldl g.visit live).length = live.length := by
        rw [List.foldl_cons, hvisit] at h
        exact h
      exact ih hrest m hm hlive r hr hnode

/-! ## Saturation -/

/-- Passes keep the live names. -/
theorem suffix_saturate (passes : Nat) (live : List String) : live <:+ g.saturate passes live := by
  induction passes generalizing live with
  | zero => exact List.suffix_refl _
  | succ passes ih =>
    simp only [saturate]
    split
    · exact List.suffix_refl _
    · exact (pass_eq ▸ suffix_visits g.nodes live).trans (ih _)

/-- Passes lead from a list of live names to another one. -/
theorem Lists.saturate (h : g.Lists live) (passes : Nat) : g.Lists (g.saturate passes live) := by
  induction passes generalizing live with
  | zero => exact h
  | succ passes ih =>
    simp only [Graph.saturate]
    split
    · exact h
    · exact ih (pass_eq ▸ h.visits)

/-- Enough passes come to a list that is closed under references. -/
theorem closed_saturate {passes : Nat} (h : g.Lists live) (hpasses : g.size < passes + live.length) :
    g.ClosedOn g.nodes (g.saturate passes live) := by
  induction passes generalizing live with
  | zero =>
    have := h.length_le
    omega
  | succ passes ih =>
    simp only [Graph.saturate]
    split
    · next hlength => exact closed_of_visits (pass_eq ▸ hlength)
    · next hlength =>
      refine ih (pass_eq ▸ h.visits) ?_
      have hgrows := (pass_eq (g := g) ▸ suffix_visits g.nodes live).length_le
      omega

/-- The names to begin with are distinct names of nodes. -/
theorem lists_start : g.Lists (g.start extra) :=
  Lists.enlarge (Lists.enlarge ⟨List.nodup_nil, by simp⟩)

/-- Live names are those of nodes. -/
theorem has_of_mem_solve {name : String} (h : name ∈ g.solve extra) : g.has name = true :=
  (lists_start.saturate _).nodes name (Text.mem_inOrder.1 h)

/-- What live nodes refer to is live. -/
theorem closed_solve : g.ClosedOn g.nodes (g.solve extra) := by
  intro n hn hlive r hr hnode
  refine Text.mem_inOrder.2 (closed_saturate lists_start (by omega) n hn ?_ r hr hnode)
  exact Text.mem_inOrder.1 hlive

/-- The extra names are live, if they are nodes. -/
theorem mem_solve_of_extra {name : String} (h : name ∈ extra) (hnode : g.has name = true) :
    name ∈ g.solve extra := by
  refine Text.mem_inOrder.2 ((suffix_saturate _ _).subset ?_)
  exact mem_enlarge.2 (.inr ⟨h, hnode⟩)

end Qll.Program.Graph
