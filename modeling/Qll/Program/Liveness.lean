import Qll.Fault

/-!
# Live declarations

A node is a global or a function together with the static names it refers to. Live are the root
nodes, the extra names that are nodes, and whatever live nodes refer to; names outside the graph
are ignored.
-/

namespace Qll.Program

/-- A declaration and its references. -/
structure Node where
  name : String
  refs : List String
  /-- Set for exported declarations and interrupt handlers. -/
  root : Bool := false

/-- The reference graph of a program. -/
structure Graph where
  nodes : List Node := []

namespace Graph

/-- Whether a name is a node. -/
def has (g : Graph) (name : String) : Bool := g.nodes.any fun n => n.name == name

/-- The graph with one more node; names are unique. -/
def add (g : Graph) (n : Node) : Except Fault Graph :=
  if g.has n.name then .error (.nodeTwice n.name) else .ok { nodes := g.nodes ++ [n] }

/-- The graph of a list of nodes. -/
def ofNodes (nodes : List Node) : Except Fault Graph := nodes.foldlM add {}

/-- How many nodes there are. -/
def size (g : Graph) : Nat := g.nodes.length

/-- `live` with the nodes among `names` that it lacks. -/
def enlarge (g : Graph) (live names : List String) : List String :=
  names.foldl
    (fun live name => if g.has name && !live.contains name then name :: live else live) live

/-- The roots and the extra names. -/
def start (g : Graph) (extra : List String) : List String :=
  g.enlarge (g.enlarge [] ((g.nodes.filter Node.root).map Node.name)) extra

/-- One pass: what live nodes refer to becomes live. -/
def pass (g : Graph) (live : List String) : List String :=
  g.nodes.foldl (fun live n => if live.contains n.name then g.enlarge live n.refs else live) live

/-- Passes until nothing changes. Each pass that changes something adds a node, so there are at
most as many as nodes. -/
def saturate (g : Graph) : Nat → List String → List String
  | 0, live => live
  | passes + 1, live =>
    let next := g.pass live
    if next.length = live.length then live else g.saturate passes next

/-- The live names, in lexical order. -/
def solve (g : Graph) (extra : List String) : List String :=
  Text.inOrder (g.saturate (g.size + 1) (g.start extra))

end Graph

end Qll.Program
