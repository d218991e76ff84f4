import Mathlib.Tactic.Common
import Qll.Interchange.Build

/-!
# The fields of a node

A node holds nodes in twelve of its fields. Induction over nodes goes by all of them at once, in the
order in which they are written. What is written of a node are its fields in this order, those with
their zero value left out, and a reader that takes them one after another goes from an empty node to
the same node through the nodes that have only the first few of its fields.
-/

namespace Qll.Interchange

open MessagePack (Value)

/-! ## Nodes of a node -/

/-- The lists of nodes of a node. -/
def Node.partLists (n : Node) : List (List (Option Node)) :=
  [n.args, n.types, n.members, n.body, n.otherwise]

/-- What a node holds in the fields for nodes; a field left out and an item that is null are
`none`. -/
def Node.parts (n : Node) : List (Option Node) :=
  [n.type, n.left, n.right, n.expr, n.cond, n.init, n.step] ++ n.partLists.flatten

mutual

/-- A node and all nodes below it. -/
def Node.all : Node → List Node
  | n@{ type, left, right, expr, cond, init, step, args, types, members, body, otherwise, .. } =>
    n :: (optionAll type ++ optionAll left ++ optionAll right ++ optionAll expr ++ optionAll cond ++
      optionAll init ++ optionAll step ++ listAll args ++ listAll types ++ listAll members ++
      listAll body ++ listAll otherwise)

/-- The nodes of a node that may be missing. -/
def optionAll : Option Node → List Node
  | none => []
  | some n => n.all

/-- The nodes of a list, all those below them included. -/
def listAll : List (Option Node) → List Node
  | [] => []
  | n :: rest => optionAll n ++ listAll rest

end

/-- Lists one behind the other are as high as the higher of them. -/
theorem listHeight_append (nodes more : List (Option Node)) :
    listHeight (nodes ++ more) = max (listHeight nodes) (listHeight more) := by
  induction nodes with
  | nil => simp [listHeight]
  | cons n nodes ih => rw [List.cons_append, listHeight, listHeight, ih, Nat.max_assoc]

/-- The nodes of lists one behind the other are those of both. -/
theorem listAll_append (nodes more : List (Option Node)) :
    listAll (nodes ++ more) = listAll nodes ++ listAll more := by
  induction nodes with
  | nil => rfl
  | cons n nodes ih => rw [List.cons_append, listAll, listAll, ih, List.append_assoc]

/-- A node is one higher than its parts. -/
theorem height_eq (n : Node) : n.height = 1 + listHeight n.parts := by
  cases n
  simp only [Node.height, Node.parts, Node.partLists, List.flatten_cons, List.flatten_nil,
    listHeight_append, listHeight, Nat.max_zero, Nat.max_assoc]

/-- The nodes of a node are itself and those of its parts. -/
theorem all_eq (n : Node) : n.all = n :: listAll n.parts := by
  cases n
  simp only [Node.all, Node.parts, Node.partLists, List.flatten_cons, List.flatten_nil,
    listAll_append, listAll, List.append_assoc, List.append_nil]

/-- No node of a list is higher than the list. -/
theorem height_le_listHeight {nodes : List (Option Node)} {n : Node} (h : some n ∈ nodes) :
    n.height ≤ listHeight nodes := by
  obtain ⟨before, after, rfl⟩ := List.append_of_mem h
  rw [listHeight_append, listHeight, optionHeight]
  omega

/-- A list is no higher than a bound of its nodes. -/
theorem listHeight_le {nodes : List (Option Node)} {k : Nat}
    (h : ∀ c, some c ∈ nodes → c.height ≤ k) : listHeight nodes ≤ k := by
  induction nodes with
  | nil => exact Nat.zero_le k
  | cons part nodes ih =>
    rw [listHeight]
    refine Nat.max_le.2 ⟨?_, ih fun c hc => h c (List.mem_cons_of_mem _ hc)⟩
    cases part with
    | none => exact Nat.zero_le k
    | some c => exact h c List.mem_cons_self

/-- A part is lower than its node. -/
theorem height_lt {n c : Node} (h : some c ∈ n.parts) : c.height < n.height := by
  have := height_le_listHeight h
  rw [height_eq n]
  omega

/-- What holds of a node when it holds of all it holds. -/
theorem Node.induction {motive : Node → Prop}
    (step : ∀ n : Node, (∀ c, some c ∈ n.parts → motive c) → motive n) (n : Node) : motive n := by
  induction hn : n.height using Nat.strongRecOn generalizing n with
  | ind k ih => exact step n fun c hc => ih c.height (hn ▸ height_lt hc) c rfl

/-- The nodes of an element are nodes of the list. -/
theorem all_subset_listAll {nodes : List (Option Node)} {n : Node} (h : some n ∈ nodes) :
    n.all ⊆ listAll nodes := by
  obtain ⟨before, after, rfl⟩ := List.append_of_mem h
  rw [listAll_append, listAll, optionAll]
  exact List.subset_append_of_subset_right _ (List.subset_append_left _ _)

/-- A node is one of its own nodes. -/
theorem self_mem_all (n : Node) : n ∈ n.all := all_eq n ▸ List.mem_cons_self

/-- The nodes of a part are nodes of the whole. -/
theorem all_subset {n c : Node} (h : some c ∈ n.parts) : c.all ⊆ n.all := by
  rw [all_eq n]
  exact List.subset_cons_of_subset _ (all_subset_listAll h)

/-! ## Fields -/

/-- The numbers of a node. -/
def Node.numbers (n : Node) : List Int := [n.value, n.length, n.line, n.column]

/-- The lists of texts of a node. -/
def Node.textLists (n : Node) : List (List String) := [n.flags, n.typeParams]

/-- The texts of a node. -/
def Node.texts (n : Node) : List String :=
  [n.kind, n.name, n.text, n.op, n.file] ++ n.textLists.flatten

/-- The texts in a list of a node are texts of the node. -/
theorem mem_texts {n : Node} {items : List String} {s : String} (hitems : items ∈ n.textLists)
    (hs : s ∈ items) : s ∈ n.texts :=
  List.mem_append_right _ (List.mem_flatten_of_mem hitems hs)

/-- The parts in a list of a node are parts of the node. -/
theorem mem_parts {n : Node} {nodes : List (Option Node)} {part : Option Node}
    (hnodes : nodes ∈ n.partLists) (hpart : part ∈ nodes) : part ∈ n.parts :=
  List.mem_append_right _ (List.mem_flatten_of_mem hnodes hpart)

/-- What is written of the node `n` for a field puts a value of `n` into an empty place. -/
inductive Put (n : Node) : Slot → Value → Node → Node → Prop
  | text {set : Node → String → Node} {r : Node} {s : String} (h : s ∈ n.texts) :
    Put n (.text set) (.string s) r (set r s)
  | int {set : Node → Int → Node} {r : Node} {i : Int} (h : i ∈ n.numbers) :
    Put n (.int set) (.int i) r (set r i)
  | int64 {set : Node → Int → Node} {r : Node} {i : Int} (h : i ∈ n.numbers) :
    Put n (.int set) (.int64 i) r (set r i)
  | texts {get : Node → List String} {set : Node → List String → Node} {r : Node}
    {items : List String} (h : items ∈ n.textLists) (hold : get r = []) :
    Put n (.texts get set) (.array (items.map .string)) r (set r items)
  | child {get : Node → Option Node} {set : Node → Option Node → Node} {r c : Node}
    (h : some c ∈ n.parts) (hold : get r = none) : Put n (.child get set) c.pack r (set r (some c))
  | children {get : Node → List (Option Node)} {set : Node → List (Option Node) → Node} {r : Node}
    {items : List (Option Node)} (h : items ∈ n.partLists) (hold : get r = []) :
    Put n (.children get set) (.array (packList items)) r (set r items)

/-- What is written of one field of the node `n` takes a node to another; a field with its zero
value is left out. -/
inductive Entry (n : Node) : Node → List (String × Value) → Node → Prop
  | none (r : Node) : Entry n r [] r
  | one {name : String} {slot : Slot} {v : Value} {r r' : Node}
    (hslot : slots.lookup name = some slot) (hput : Put n slot v r r') : Entry n r [(name, v)] r'

namespace Entry

variable {n r r' : Node} {name : String} {written : List (String × Value)}

/-- An entry writes one field at most. -/
theorem length_le (h : Entry n r written r') : written.length ≤ 1 := by
  cases h <;> simp

/-- A text is written unless it is empty. -/
theorem text {set : Node → String → Node} {s : String}
    (hslot : slots.lookup name = some (.text set)) (h : s ∈ n.texts) (hzero : set r "" = r)
    (hset : set r s = r') : Entry n r (textField name s) r' := by
  subst hset
  unfold textField
  split
  next hs => rw [hs, hzero]; exact .none r
  · exact .one hslot (.text h)

/-- A number is written unless it is zero. -/
theorem int {set : Node → Int → Node} {i : Int} (hslot : slots.lookup name = some (.int set))
    (h : i ∈ n.numbers) (hzero : set r 0 = r) (hset : set r i = r') :
    Entry n r (intField name i) r' := by
  subst hset
  unfold intField
  split
  next hi => rw [hi, hzero]; exact .none r
  · exact .one hslot (.int h)

/-- A number of 64 bits is written unless it is zero. -/
theorem int64 {set : Node → Int → Node} {i : Int} (hslot : slots.lookup name = some (.int set))
    (h : i ∈ n.numbers) (hzero : set r 0 = r) (hset : set r i = r') :
    Entry n r (if i = 0 then [] else [(name, .int64 i)]) r' := by
  subst hset
  split
  next hi => rw [hi, hzero]; exact .none r
  · exact .one hslot (.int64 h)

/-- A list of texts is written unless it is empty. -/
theorem texts {get : Node → List String} {set : Node → List String → Node} {items : List String}
    (hslot : slots.lookup name = some (.texts get set)) (h : items ∈ n.textLists)
    (hold : get r = []) (hzero : set r [] = r) (hset : set r items = r') :
    Entry n r (textsField name items) r' := by
  subst hset
  unfold textsField
  split
  next hi => rw [List.isEmpty_iff.1 hi, hzero]; exact .none r
  · exact .one hslot (.texts h hold)

/-- A child is written if it is there. -/
theorem child {get : Node → Option Node} {set : Node → Option Node → Node} {c : Option Node}
    (hslot : slots.lookup name = some (.child get set)) (h : c ∈ n.parts)
    (hold : get r = .none) (hzero : set r .none = r) (hset : set r c = r') :
    Entry n r (childField name c) r' := by
  subst hset
  cases c with
  | none => rw [childField, hzero]; exact .none r
  | some c => exact .one hslot (.child h hold)

/-- A list of children is written unless it is empty. -/
theorem children {get : Node → List (Option Node)} {set : Node → List (Option Node) → Node}
    {items : List (Option Node)} (hslot : slots.lookup name = some (.children get set))
    (h : items ∈ n.partLists) (hold : get r = []) (hzero : set r [] = r) (hset : set r items = r') :
    Entry n r (childrenField name items) r' := by
  subst hset
  cases items with
  | nil => rw [childrenField, hzero]; exact .none r
  | cons c items => exact .one hslot (.children h hold)

end Entry

/-- The node that has the first `k` fields of another one. -/
def Node.upTo (n : Node) (k : Nat) : Node where
  kind := if 0 < k then n.kind else ""
  name := if 1 < k then n.name else ""
  text := if 2 < k then n.text else ""
  op := if 3 < k then n.op else ""
  value := if 4 < k then n.value else 0
  length := if 5 < k then n.length else 0
  flags := if 6 < k then n.flags else []
  type := if 7 < k then n.type else none
  left := if 8 < k then n.left else none
  right := if 9 < k then n.right else none
  expr := if 10 < k then n.expr else none
  cond := if 11 < k then n.cond else none
  init := if 12 < k then n.init else none
  step := if 13 < k then n.step else none
  args := if 14 < k then n.args else []
  types := if 15 < k then n.types else []
  members := if 16 < k then n.members else []
  typeParams := if 17 < k then n.typeParams else []
  body := if 18 < k then n.body else []
  otherwise := if 19 < k then n.otherwise else []
  file := if 20 < k then n.file else ""
  line := if 21 < k then n.line else 0
  column := if 22 < k then n.column else 0

/-- What is written of the field with a number. -/
def Node.field (n : Node) : Nat → List (String × Value)
  | 0 => [("kind", .string n.kind)]
  | 1 => textField "name" n.name
  | 2 => textField "text" n.text
  | 3 => textField "op" n.op
  | 4 => if n.value = 0 then [] else [("value", .int64 n.value)]
  | 5 => intField "length" n.length
  | 6 => textsField "flags" n.flags
  | 7 => childField "type" n.type
  | 8 => childField "left" n.left
  | 9 => childField "right" n.right
  | 10 => childField "expr" n.expr
  | 11 => childField "cond" n.cond
  | 12 => childField "init" n.init
  | 13 => childField "step" n.step
  | 14 => childrenField "args" n.args
  | 15 => childrenField "types" n.types
  | 16 => childrenField "members" n.members
  | 17 => textsField "typeParams" n.typeParams
  | 18 => childrenField "body" n.body
  | 19 => childrenField "else" n.otherwise
  | 20 => textField "file" n.file
  | 21 => intField "line" n.line
  | 22 => intField "column" n.column
  | _ => []

/-- A field takes the node with the fields in front of it one further. -/
theorem entry_field (n : Node) : ∀ k, Entry n (n.upTo k) (n.field k) (n.upTo (k + 1))
  | 0 => .one rfl (.text (by simp [Node.texts]))
  | 1 => .text rfl (by simp [Node.texts]) rfl rfl
  | 2 => .text rfl (by simp [Node.texts]) rfl rfl
  | 3 => .text rfl (by simp [Node.texts]) rfl rfl
  | 4 => .int64 rfl (by simp [Node.numbers]) rfl rfl
  | 5 => .int rfl (by simp [Node.numbers]) rfl rfl
  | 6 => .texts rfl (by simp [Node.textLists]) rfl rfl rfl
  | 7 => .child rfl (by simp [Node.parts]) rfl rfl rfl
  | 8 => .child rfl (by simp [Node.parts]) rfl rfl rfl
  | 9 => .child rfl (by simp [Node.parts]) rfl rfl rfl
  | 10 => .child rfl (by simp [Node.parts]) rfl rfl rfl
  | 11 => .child rfl (by simp [Node.parts]) rfl rfl rfl
  | 12 => .child rfl (by simp [Node.parts]) rfl rfl rfl
  | 13 => .child rfl (by simp [Node.parts]) rfl rfl rfl
  | 14 => .children rfl (by simp [Node.partLists]) rfl rfl rfl
  | 15 => .children rfl (by simp [Node.partLists]) rfl rfl rfl
  | 16 => .children rfl (by simp [Node.partLists]) rfl rfl rfl
  | 17 => .texts rfl (by simp [Node.textLists]) rfl rfl rfl
  | 18 => .children rfl (by simp [Node.partLists]) rfl rfl rfl
  | 19 => .children rfl (by simp [Node.partLists]) rfl rfl rfl
  | 20 => .text rfl (by simp [Node.texts]) rfl rfl
  | 21 => .int rfl (by simp [Node.numbers]) rfl rfl
  | 22 => .int rfl (by simp [Node.numbers]) rfl rfl
  | k + 23 => .none _

/-- What is written of the first `k` fields of a node. -/
def Node.written (n : Node) (k : Nat) : List (String × Value) := (List.range k).flatMap n.field

/-- One field more is written behind the others. -/
theorem written_succ (n : Node) (k : Nat) : n.written (k + 1) = n.written k ++ n.field k := by
  rw [Node.written, List.range_succ, List.flatMap_append, List.flatMap_singleton, Node.written]

/-- No more is written than there are fields. -/
theorem length_written_le (n : Node) (k : Nat) : (n.written k).length ≤ k := by
  induction k with
  | zero => exact Nat.le_refl 0
  | succ k ih =>
    have := (entry_field n k).length_le
    rw [written_succ, List.length_append]
    omega

/-- A node is packed as the map of its written fields. -/
theorem pack_eq (n : Node) : n.pack = .map (n.written 23) := by
  cases n
  simp [Node.pack, Node.written, Node.field, List.range, List.range.loop]

/-- A node with all of its fields is the node. -/
theorem upTo_all (n : Node) : n.upTo 23 = n := by
  cases n
  rfl

end Qll.Interchange
