import Mathlib.Data.List.Forall2
import Mathlib.Tactic.Common
import Qll.Proofs.Interchange.Nodes

/-!
# The grammar of nodes

Where a node stands decides which kinds it may have, and its kind decides which of its fields are
used, in which order, and what stands there. A node is malformed when its kind or its operator is
unknown or a child is missing that the kind requires; this is looked at before any child. What a
well-formed node means is a relation between nodes and trees that has one tree for each node.
-/

namespace Qll.Interchange

open Source (Location TypeExpr Expr Stmt Decl Parameter BinaryOp UnaryOp)

/-! ## Positions and their kinds -/

/-- Where a node stands. -/
inductive Position
  | declaration
  | statement
  | expression
  | type
  | param
  | member
  | field
  deriving DecidableEq

/-- A field for one node. -/
inductive Child
  | type
  | left
  | right
  | expr
  | cond
  | init
  | step
  deriving DecidableEq

/-- A field for a list of nodes. -/
inductive Row
  | args
  | types
  | members
  | body
  | otherwise
  deriving DecidableEq

/-- How a field is used, and where its nodes stand. -/
inductive Use
  /-- One node that has to be there. -/
  | one (child : Child) (position : Position)
  /-- A node that may be missing. -/
  | maybe (child : Child) (position : Position)
  /-- All nodes of a list, none of them missing. -/
  | each (row : Row) (position : Position)

/-- The node in a field. -/
def Node.child (n : Node) : Child → Option Node
  | .type => n.type
  | .left => n.left
  | .right => n.right
  | .expr => n.expr
  | .cond => n.cond
  | .init => n.init
  | .step => n.step

/-- The nodes in a field. -/
def Node.row (n : Node) : Row → List (Option Node)
  | .args => n.args
  | .types => n.types
  | .members => n.members
  | .body => n.body
  | .otherwise => n.otherwise

/-- The name of a field. -/
def Child.name : Child → String
  | type => "type"
  | left => "left"
  | right => "right"
  | expr => "expr"
  | cond => "cond"
  | init => "init"
  | step => "step"

/-- Where the nodes of a field stand. -/
def Use.position : Use → Position
  | one _ p | maybe _ p | each _ p => p

/-- The nodes that are visited in a field. -/
def Use.parts (n : Node) : Use → List (Option Node)
  | one c _ | maybe c _ => (n.child c).toList.map some
  | each r _ => n.row r

/-- The kinds of a position. Each uses its fields in the given order; the others are passed over. -/
def Position.rules : Position → List (String × List Use)
  | declaration => [
    ("type", [.one .type .type]),
    ("global", [.maybe .type .type, .maybe .expr .expression]),
    ("function", [.each .args .param, .maybe .type .type, .each .body .statement]),
    ("using", []),
    ("namespace", [.each .body .declaration])]
  | statement => [
    ("expression", [.one .expr .expression]),
    ("var", [.maybe .type .type, .maybe .expr .expression]),
    ("assign", [.one .left .expression, .one .right .expression]),
    ("if", [.one .cond .expression, .each .body .statement, .each .otherwise .statement]),
    ("while", [.one .cond .expression, .each .body .statement]),
    ("for", [.each .body .statement, .maybe .init .statement, .maybe .cond .expression,
      .maybe .step .statement]),
    ("break", []),
    ("return", [.maybe .expr .expression]),
    ("block", [.each .body .statement]),
    ("delete", [.one .expr .expression])]
  | expression => [
    ("integer", []),
    ("text", []),
    ("null", []),
    ("identifier", [.each .types .type]),
    ("binary", [.one .left .expression, .one .right .expression]),
    ("unary", [.one .expr .expression]),
    ("member", [.one .expr .expression]),
    ("arrow", [.one .expr .expression]),
    ("index", [.one .left .expression, .one .right .expression]),
    ("call", [.one .expr .expression, .each .args .expression]),
    ("cast", [.one .type .type, .one .expr .expression]),
    ("sizeof", [.one .type .type]),
    ("new", [.one .type .type, .maybe .expr .expression]),
    ("struct-literal", [.each .members .field, .one .type .type]),
    ("array-literal", [.each .args .expression])]
  | type => [
    ("name", []),
    ("pointer", [.one .type .type]),
    ("array", [.one .type .type]),
    ("slice", [.one .type .type]),
    ("struct", [.each .members .member]),
    ("function", [.maybe .type .type, .each .types .type]),
    ("instance", [.each .types .type]),
    ("dot", [.one .type .type])]
  | param => [("param", [.one .type .type])]
  | member => [("member", [.one .type .type])]
  | field => [("field", [.one .expr .expression])]

/-- How a kind uses its fields, if the position has the kind. -/
def Position.uses? (p : Position) (kind : String) : Option (List Use) := p.rules.lookup kind

/-- How a kind uses its fields; an unknown kind uses none. -/
def Position.uses (p : Position) (kind : String) : List Use := (p.uses? kind).getD []

/-- The fields that the rule of a kind is about are those of the rule. -/
theorem Position.uses_eq {p : Position} {kind : String} {uses : List Use}
    (h : p.uses? kind = some uses) : p.uses kind = uses := by
  unfold Position.uses
  rw [h, Option.getD_some]

/-! ## Malformed nodes -/

/-- What is wrong with a missing node. -/
def Position.missing : Position → Malformed
  | declaration => .nothing "declaration"
  | statement => .nothing "statement"
  | expression => .nothing "expression"
  | type => .nothing "type"
  | param => .param
  | member => .member
  | field => .field

/-- What is wrong with a node of an unknown kind. -/
def Position.unknown (kind : String) : Position → Malformed
  | declaration => .unknownKind "declaration" kind
  | statement => .unknownKind "statement" kind
  | expression => .unknownKind "expression" kind
  | type => .unknownKind "type" kind
  | param => .param
  | member => .member
  | field => .field

/-- What is wrong with a node that lacks a child. -/
def Position.lacking (kind part : String) : Position → Malformed
  | member => .member
  | field => .field
  | _ => .lacks kind part

/-- The arity of an operator that a node has to know, and whether it does. -/
def Node.operator? (n : Node) : Position → Option (String × Bool)
  | .expression =>
    if n.kind = "binary" then some ("binary", (BinaryOp.parse? n.op).isSome)
    else if n.kind = "unary" then some ("unary", (UnaryOp.parse? n.op).isSome)
    else none
  | _ => none

/-- The children that some uses require, with their names. -/
def Node.required (n : Node) (uses : List Use) : List (Option Node × String) :=
  uses.filterMap fun
    | .one c _ => some (n.child c, c.name)
    | _ => none

/-- The first child that is missing. -/
def firstMissing : List (Option Node × String) → Option String
  | [] => none
  | (none, part) :: _ => some part
  | (some _, _) :: rest => firstMissing rest

/-- What is wrong with what stands at a position, apart from what is below it. -/
def Position.defect (p : Position) : Option Node → Option Malformed
  | none => some p.missing
  | some n =>
    match p.uses? n.kind, n.operator? p with
    | none, _ => some (p.unknown n.kind)
    | some _, some (arity, false) => some (.unknownOperator arity n.op)
    | some uses, _ => (firstMissing (n.required uses)).map (p.lacking n.kind)

/-- A node whose position has its kind, with all required children and a known operator. -/
structure Node.WellFormed (n : Node) (p : Position) : Prop where
  kind : n.kind ∈ p.rules.map Prod.fst
  operator : ∀ operator ∈ n.operator? p, operator.2 = true
  children : ∀ c q, .one c q ∈ p.uses n.kind → n.child c ≠ none

/-- What stands at a position below some nodes. -/
inductive Reached (nodes : List (Option Node)) : Position → Option Node → Prop
  | top {part : Option Node} (h : part ∈ nodes) : Reached nodes .declaration part
  | used {p : Position} {n : Node} {use : Use} {part : Option Node}
    (h : Reached nodes p (some n)) (huse : use ∈ p.uses n.kind) (hpart : part ∈ use.parts n) :
    Reached nodes use.position part

/-! ## Visits -/

/-- A visit to a node, and what is wrong with it. A missing node is visited as an empty one. -/
structure Visit where
  node : Node
  cause : Option Malformed

/-- A child is a part of its node. -/
theorem child_mem_parts (n : Node) (c : Child) : n.child c ∈ n.parts := by
  cases c <;> simp [Node.child, Node.parts]

/-- A row of a node is one of its lists of parts. -/
theorem row_mem_partLists (n : Node) (r : Row) : n.row r ∈ n.partLists := by
  cases r <;> simp [Node.row, Node.partLists]

/-- The nodes of a field are parts of the node. -/
theorem mem_parts_of_use {n : Node} {use : Use} {part : Option Node} (h : part ∈ use.parts n) :
    part ∈ n.parts := by
  have hchild {c : Child} (h : part ∈ (n.child c).toList.map some) : part ∈ n.parts := by
    obtain ⟨m, hm, rfl⟩ := List.mem_map.1 h
    exact Option.mem_toList.1 hm ▸ child_mem_parts n c
  cases use with
  | one c p => exact hchild h
  | maybe c p => exact hchild h
  | each r p => exact mem_parts (row_mem_partLists n r) h

/-- A part is lower than its node. -/
theorem optionHeight_lt {n : Node} {part : Option Node} (h : part ∈ n.parts) :
    optionHeight part < n.height := by
  cases part with
  | none =>
    rw [height_eq, optionHeight]
    omega
  | some c => exact height_lt h

/-- Whether a node's place is noted before the nodes below it. -/
def Position.noted : Position → Bool
  | param | member | field => false
  | _ => true

/-- The visits to what stands at a position, in order. Nothing below a malformed node is visited. -/
def visits (p : Position) (part : Option Node) : List Visit :=
  match part with
  | none => [⟨{}, p.defect none⟩]
  | some n =>
    if p.defect (some n) = none then
      let below := (p.uses n.kind).flatMap fun use =>
        (use.parts n).attach.flatMap fun part => visits use.position part.1
      if p.noted then ⟨n, none⟩ :: below else below ++ [⟨n, none⟩]
    else [⟨n, p.defect (some n)⟩]
termination_by optionHeight part
decreasing_by
  rw [optionHeight]
  exact optionHeight_lt (mem_parts_of_use part.2)

/-- The visits to the nodes of a field. -/
def Use.visits (n : Node) (use : Use) : List Visit :=
  (use.parts n).flatMap (Interchange.visits use.position)

/-- A missing node is one visit, which finds that it is missing. -/
theorem visits_none (p : Position) : visits p none = [⟨{}, some p.missing⟩] := by
  rw [visits]
  rfl

/-- A malformed node is one visit, which finds what is wrong with it. -/
theorem visits_malformed {p : Position} {n : Node} {cause : Malformed}
    (h : p.defect (some n) = some cause) : visits p (some n) = [⟨n, some cause⟩] := by
  rw [visits, h, if_neg nofun]

/-- A well-formed node is visited before or behind its parts, depending on its position. -/
theorem visits_wellFormed {p : Position} {n : Node} (h : p.defect (some n) = none) :
    visits p (some n) =
      if p.noted then ⟨n, none⟩ :: (p.uses n.kind).flatMap (Use.visits n)
      else (p.uses n.kind).flatMap (Use.visits n) ++ [⟨n, none⟩] := by
  have hbelow (use : Use) :
      ((use.parts n).attach.flatMap fun part => visits use.position part.1) = use.visits n := by
    rw [Use.visits]
    conv_rhs => rw [← List.attach_map_subtype_val (use.parts n), List.flatMap_map]
  rw [visits, if_pos h]
  simp only [hbelow]

/-- The visits to a unit, in order. -/
def unitVisits (nodes : List (Option Node)) : List Visit := nodes.flatMap (visits .declaration)

/-- The file that is named last, behind the one that was named before. -/
def fileAfter (file : String) (n : Node) : String := if n.file ≠ "" then n.file else file

/-- The file that is named last in some visits. -/
def lastFile (visits : List Visit) : String :=
  visits.foldl (fun file v => fileAfter file v.node) ""

/-! ## Trees of nodes -/

/-- A location in the line and column of a node. -/
def At (n : Node) (l : Location) : Prop := l.line = n.line ∧ l.column = n.column

/-- A node that is there, and what it means. -/
inductive Present {α : Type} (R : Node → α → Prop) : Option Node → α → Prop
  | mk {n : Node} {a : α} (h : R n a) : Present R (some n) a

/-- A node of some kind, the name and the location it gives to what its child means. -/
inductive Named {α : Type} (kind : String) (c : Child) (R : Node → α → Prop) :
    Option Node → String × α × Location → Prop
  | mk {n m : Node} {a : α} {l : Location} (hkind : n.kind = kind) (hchild : n.child c = some m)
    (h : R m a) (hl : At n l) : Named kind c R (some n) (n.name, a, l)

/-- The type that a node means. -/
inductive TypeOf : Node → TypeExpr → Prop
  | name {n : Node} {l : Location} (hkind : n.kind = "name") (hl : At n l) :
    TypeOf n (.name n.name l)
  | pointer {n c : Node} {t : TypeExpr} {l : Location} (hkind : n.kind = "pointer")
    (htype : n.type = some c) (ht : TypeOf c t) (hl : At n l) : TypeOf n (.pointer t l)
  | array {n c : Node} {t : TypeExpr} {l : Location} (hkind : n.kind = "array")
    (htype : n.type = some c) (ht : TypeOf c t) (hl : At n l) :
    TypeOf n (.array t (if n.has "unsized" then Types.unsized else n.length) l)
  | slice {n c : Node} {t : TypeExpr} {l : Location} (hkind : n.kind = "slice")
    (htype : n.type = some c) (ht : TypeOf c t) (hl : At n l) : TypeOf n (.slice t l)
  | struct {n : Node} {members : List (String × TypeExpr × Location)} {l : Location}
    (hkind : n.kind = "struct")
    (hmembers : List.Forall₂ (Named "member" .type TypeOf) n.members members)
    (hl : At n l) : TypeOf n (.struct members l)
  | function {n : Node} {arguments : List TypeExpr} {result : Option TypeExpr} {l : Location}
    (hkind : n.kind = "function") (harguments : List.Forall₂ (Present TypeOf) n.types arguments)
    (hresult : Option.Rel TypeOf n.type result) (hl : At n l) :
    TypeOf n (.function arguments result l)
  | apply {n : Node} {arguments : List TypeExpr} {l : Location} (hkind : n.kind = "instance")
    (harguments : List.Forall₂ (Present TypeOf) n.types arguments) (hl : At n l) :
    TypeOf n (.apply n.name arguments l)
  | dot {n c : Node} {t : TypeExpr} {l : Location} (hkind : n.kind = "dot")
    (htype : n.type = some c) (ht : TypeOf c t) (hl : At n l) : TypeOf n (.dot t n.name l)

/-- The expression that a node means. -/
inductive ExprOf : Node → Expr → Prop
  | integer {n : Node} {l : Location} (hkind : n.kind = "integer") (hl : At n l) :
    ExprOf n (.integer n.value l)
  | text {n : Node} {l : Location} (hkind : n.kind = "text") (hl : At n l) :
    ExprOf n (.text n.text l)
  | null {n : Node} {l : Location} (hkind : n.kind = "null") (hl : At n l) : ExprOf n (.null l)
  | name {n : Node} {arguments : List TypeExpr} {l : Location} (hkind : n.kind = "identifier")
    (harguments : List.Forall₂ (Present TypeOf) n.types arguments) (hl : At n l) :
    ExprOf n (.name n.name arguments l)
  | binary {n a b : Node} {op : BinaryOp} {left right : Expr} {l : Location}
    (hkind : n.kind = "binary") (hop : BinaryOp.parse? n.op = some op) (ha : n.left = some a)
    (hleft : ExprOf a left) (hb : n.right = some b) (hright : ExprOf b right) (hl : At n l) :
    ExprOf n (.binary op left right l)
  | unary {n c : Node} {op : UnaryOp} {operand : Expr} {l : Location} (hkind : n.kind = "unary")
    (hop : UnaryOp.parse? n.op = some op) (hc : n.expr = some c) (h : ExprOf c operand)
    (hl : At n l) : ExprOf n (.unary op operand l)
  | member {n c : Node} {base : Expr} {l : Location} (hkind : n.kind = "member")
    (hc : n.expr = some c) (h : ExprOf c base) (hl : At n l) : ExprOf n (.member base n.name l)
  | arrow {n c : Node} {base : Expr} {l : Location} (hkind : n.kind = "arrow")
    (hc : n.expr = some c) (h : ExprOf c base) (hl : At n l) : ExprOf n (.arrow base n.name l)
  | index {n a b : Node} {base position : Expr} {l : Location} (hkind : n.kind = "index")
    (ha : n.left = some a) (hbase : ExprOf a base) (hb : n.right = some b)
    (hposition : ExprOf b position) (hl : At n l) :
    ExprOf n (.index base position (n.has "unsafe") l)
  | call {n c : Node} {callee : Expr} {arguments : List Expr} {l : Location}
    (hkind : n.kind = "call") (hc : n.expr = some c) (h : ExprOf c callee)
    (harguments : List.Forall₂ (Present ExprOf) n.args arguments) (hl : At n l) :
    ExprOf n (.call callee arguments l)
  | cast {n a b : Node} {target : TypeExpr} {operand : Expr} {l : Location}
    (hkind : n.kind = "cast") (ha : n.type = some a) (htarget : TypeOf a target)
    (hb : n.expr = some b) (hoperand : ExprOf b operand) (hl : At n l) :
    ExprOf n (.cast target operand l)
  | sizeOf {n c : Node} {target : TypeExpr} {l : Location} (hkind : n.kind = "sizeof")
    (hc : n.type = some c) (h : TypeOf c target) (hl : At n l) : ExprOf n (.sizeOf target l)
  | new {n c : Node} {target : TypeExpr} {count : Option Expr} {l : Location}
    (hkind : n.kind = "new") (hc : n.type = some c) (h : TypeOf c target)
    (hcount : Option.Rel ExprOf n.expr count) (hl : At n l) : ExprOf n (.new target count l)
  | struct {n c : Node} {target : TypeExpr} {fields : List (String × Expr × Location)}
    {l : Location} (hkind : n.kind = "struct-literal") (hc : n.type = some c)
    (h : TypeOf c target)
    (hfields : List.Forall₂ (Named "field" .expr ExprOf) n.members fields)
    (hl : At n l) : ExprOf n (.struct target fields l)
  | array {n : Node} {elements : List Expr} {l : Location} (hkind : n.kind = "array-literal")
    (helements : List.Forall₂ (Present ExprOf) n.args elements) (hl : At n l) :
    ExprOf n (.array elements l)

/-- The statement that a node means. -/
inductive StmtOf : Node → Stmt → Prop
  | expression {n c : Node} {value : Expr} {l : Location} (hkind : n.kind = "expression")
    (hc : n.expr = some c) (h : ExprOf c value) (hl : At n l) : StmtOf n (.expression value l)
  | var {n : Node} {type : Option TypeExpr} {init : Option Expr} {l : Location}
    (hkind : n.kind = "var") (htype : Option.Rel TypeOf n.type type)
    (hinit : Option.Rel ExprOf n.expr init) (hl : At n l) : StmtOf n (.var n.name type init l)
  | assign {n a b : Node} {target value : Expr} {l : Location} (hkind : n.kind = "assign")
    (ha : n.left = some a) (htarget : ExprOf a target) (hb : n.right = some b)
    (hvalue : ExprOf b value) (hl : At n l) : StmtOf n (.assign target value l)
  | cond {n c : Node} {condition : Expr} {yes no : List Stmt} {l : Location}
    (hkind : n.kind = "if") (hc : n.cond = some c) (h : ExprOf c condition)
    (hyes : List.Forall₂ (Present StmtOf) n.body yes)
    (hno : List.Forall₂ (Present StmtOf) n.otherwise no) (hl : At n l) :
    StmtOf n (.cond condition yes no l)
  | whileLoop {n c : Node} {condition : Expr} {body : List Stmt} {l : Location}
    (hkind : n.kind = "while") (hc : n.cond = some c) (h : ExprOf c condition)
    (hbody : List.Forall₂ (Present StmtOf) n.body body) (hl : At n l) :
    StmtOf n (.whileLoop condition body l)
  | forLoop {n : Node} {init : Option Stmt} {condition : Option Expr} {step : Option Stmt}
    {body : List Stmt} {l : Location} (hkind : n.kind = "for")
    (hinit : Option.Rel StmtOf n.init init) (hcondition : Option.Rel ExprOf n.cond condition)
    (hstep : Option.Rel StmtOf n.step step) (hbody : List.Forall₂ (Present StmtOf) n.body body)
    (hl : At n l) : StmtOf n (.forLoop init condition step body l)
  | breakLoop {n : Node} {l : Location} (hkind : n.kind = "break") (hl : At n l) :
    StmtOf n (.breakLoop l)
  | giveBack {n : Node} {value : Option Expr} {l : Location} (hkind : n.kind = "return")
    (hvalue : Option.Rel ExprOf n.expr value) (hl : At n l) : StmtOf n (.giveBack value l)
  | block {n : Node} {body : List Stmt} {l : Location} (hkind : n.kind = "block")
    (hbody : List.Forall₂ (Present StmtOf) n.body body) (hl : At n l) : StmtOf n (.block body l)
  | delete {n c : Node} {value : Expr} {l : Location} (hkind : n.kind = "delete")
    (hc : n.expr = some c) (h : ExprOf c value) (hl : At n l) : StmtOf n (.delete value l)

/-- The parameter that a node means. -/
inductive ParamOf : Node → Parameter → Prop
  | mk {n c : Node} {t : TypeExpr} {l : Location} (hkind : n.kind = "param")
    (hc : n.type = some c) (h : TypeOf c t) (hl : At n l) :
    ParamOf n { name := n.name, type := t, location := l }

/-- The declaration that a node means. -/
inductive DeclOf : Node → Decl → Prop
  | type {n c : Node} {definition : TypeExpr} {l : Location} (hkind : n.kind = "type")
    (hc : n.type = some c) (h : TypeOf c definition) (hl : At n l) :
    DeclOf n (.type n.name n.typeParams definition l)
  | global {n : Node} {type : Option TypeExpr} {init : Option Expr} {l : Location}
    (hkind : n.kind = "global") (htype : Option.Rel TypeOf n.type type)
    (hinit : Option.Rel ExprOf n.expr init) (hl : At n l) :
    DeclOf n (.global n.name type init (n.has "exported") l)
  | function {n : Node} {params : List Parameter} {result : Option TypeExpr} {body : List Stmt}
    {l : Location} (hkind : n.kind = "function")
    (hparams : List.Forall₂ (Present ParamOf) n.args params)
    (hresult : Option.Rel TypeOf n.type result)
    (hbody : List.Forall₂ (Present StmtOf) n.body body) (hl : At n l) :
    DeclOf n (.function n.name n.typeParams params result body (n.has "exported")
      (n.has "interrupt") l)
  | use {n : Node} {l : Location} (hkind : n.kind = "using") (hl : At n l) :
    DeclOf n (.use n.name l)
  | space {n : Node} {decls : List Decl} {l : Location} (hkind : n.kind = "namespace")
    (hdecls : List.Forall₂ (Present DeclOf) n.body decls) (hl : At n l) :
    DeclOf n (.space n.name decls l)

end Qll.Interchange
