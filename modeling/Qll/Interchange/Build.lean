import Qll.Interchange.Node
import Qll.Source.Tree
import Qll.Text.Quoted
import Qll.Types.Basic

/-!
# From nodes to trees

Nodes are turned into declarations in the order of their fields; the first malformed node ends the
unit. A node without a file belongs to the file that was named last.
-/

namespace Qll.Interchange

open Source (Location TypeExpr Expr Stmt Decl Parameter BinaryOp UnaryOp)

/-- What is wrong with a node. -/
inductive Malformed
  /-- A node is missing where a `what` is expected. -/
  | nothing (what : String)
  /-- A node of this kind lacks a field. -/
  | lacks (kind part : String)
  | unknownKind (what kind : String)
  | unknownOperator (arity op : String)
  | param
  | member
  | field
  /-- Nodes are nested deeper than the unit is tall. -/
  | tooDeep
  deriving Inhabited

/-- The wording of what is wrong. -/
def Malformed.message : Malformed → String
  | nothing what => "null " ++ what
  | lacks kind part => kind ++ " node without " ++ part
  | unknownKind what kind => "unknown " ++ what ++ " kind " ++ Text.quote kind
  | unknownOperator arity op => "unknown " ++ arity ++ " operator " ++ Text.quote op
  | param => "expected a param node"
  | member => "expected a member node with a type"
  | field => "expected a field node with an expr"
  | tooDeep => "nested too deep"

/-- A malformed node and its location. -/
structure BuildError where
  location : Location
  cause : Malformed
  deriving Inhabited

/-- The wording of an error. -/
def BuildError.message (e : BuildError) : String := e.location.text ++ ": " ++ e.cause.message

/-- Building remembers the file that was named last. -/
abbrev BuildM := StateT String (Except BuildError)

/-- The location of a node. -/
def locate (n : Node) : BuildM Location := do
  if n.file ≠ "" then set n.file
  return Location.make (← get) n.line n.column

/-- Ends building at a node. -/
def fail {α : Type} (n : Node) (cause : Malformed) : BuildM α := do
  throw { location := ← locate n, cause }

/-- A child that a node must have. -/
def require (n : Node) (child : Option Node) (field : String) : BuildM Node := do
  match child with
  | some c => return c
  | none => fail n (.lacks n.kind field)

/-- A node that must be there. -/
def present (what : String) : Option Node → BuildM Node
  | some n => return n
  | none => fail {} (.nothing what)

/-! ## Types -/

/-- Builds the members of a struct type. -/
def buildMembers (type : Node → BuildM TypeExpr) :
    List (Option Node) → BuildM (List (String × TypeExpr × Location))
  | [] => return []
  | m :: rest => do
    match m with
    | some ({ kind := "member", type := some t, .. } : Node) =>
      let m := m.getD {}
      let t ← type t
      let l ← locate m
      return (m.name, t, l) :: (← buildMembers type rest)
    | _ => fail (m.getD {}) .member

/-- Builds the types of a list. -/
def buildTypeList (type : Node → BuildM TypeExpr) (nodes : List (Option Node)) :
    BuildM (List TypeExpr) :=
  nodes.mapM fun n => do type (← present "type" n)

/-- Builds an optional part. -/
def buildOption {α : Type} (build : Node → BuildM α) : Option Node → BuildM (Option α)
  | none => return none
  | some n => return some (← build n)

/-- Builds a type. -/
def buildType : Nat → Node → BuildM TypeExpr
  | 0, n => fail n .tooDeep
  | depth + 1, n => do
    let l ← locate n
    let inner : BuildM TypeExpr := do buildType depth (← require n n.type "type")
    match n.kind with
    | "name" => return .name n.name l
    | "pointer" => return .pointer (← inner) l
    | "array" =>
      return .array (← inner) (if n.has "unsized" then Types.unsized else n.length) l
    | "slice" => return .slice (← inner) l
    | "struct" => return .struct (← buildMembers (buildType depth) n.members) l
    | "function" =>
      let result ← buildOption (buildType depth) n.type
      return .function (← buildTypeList (buildType depth) n.types) result l
    | "instance" => return .apply n.name (← buildTypeList (buildType depth) n.types) l
    | "dot" => return .dot (← inner) n.name l
    | kind => fail n (.unknownKind "type" kind)

/-! ## Expressions -/

/-- Builds the fields of a struct value. -/
def buildFields (expr : Node → BuildM Expr) :
    List (Option Node) → BuildM (List (String × Expr × Location))
  | [] => return []
  | f :: rest => do
    match f with
    | some ({ kind := "field", expr := some e, .. } : Node) =>
      let f := f.getD {}
      let e ← expr e
      let l ← locate f
      return (f.name, e, l) :: (← buildFields expr rest)
    | _ => fail (f.getD {}) .field

/-- Builds an expression. -/
def buildExpr : Nat → Node → BuildM Expr
  | 0, n => fail n .tooDeep
  | depth + 1, n => do
    let l ← locate n
    let expr := buildExpr depth
    let exprs (nodes : List (Option Node)) : BuildM (List Expr) :=
      nodes.mapM fun n => do expr (← present "expression" n)
    let both : BuildM (Expr × Expr) := do
      let a ← require n n.left "left"
      let b ← require n n.right "right"
      return (← expr a, ← expr b)
    let operand : BuildM Node := require n n.expr "expr"
    let target : BuildM Node := require n n.type "type"
    match n.kind with
    | "integer" => return .integer n.value l
    | "text" => return .text n.text l
    | "null" => return .null l
    | "identifier" => return .name n.name (← buildTypeList (buildType depth) n.types) l
    | "binary" =>
      match BinaryOp.parse? n.op with
      | none => fail n (.unknownOperator "binary" n.op)
      | some op =>
        let (a, b) ← both
        return .binary op a b l
    | "unary" =>
      match UnaryOp.parse? n.op with
      | none => fail n (.unknownOperator "unary" n.op)
      | some op => return .unary op (← expr (← operand)) l
    | "member" => return .member (← expr (← operand)) n.name l
    | "arrow" => return .arrow (← expr (← operand)) n.name l
    | "index" =>
      let (a, b) ← both
      return .index a b (n.has "unsafe") l
    | "call" =>
      let callee ← expr (← operand)
      return .call callee (← exprs n.args) l
    | "cast" =>
      let t ← target
      let e ← operand
      let t ← buildType depth t
      return .cast t (← expr e) l
    | "sizeof" => return .sizeOf (← buildType depth (← target)) l
    | "new" =>
      let t ← buildType depth (← target)
      return .new t (← buildOption expr n.expr) l
    | "struct-literal" =>
      let t ← target
      let fields ← buildFields expr n.members
      return .struct (← buildType depth t) fields l
    | "array-literal" => return .array (← exprs n.args) l
    | kind => fail n (.unknownKind "expression" kind)

/-! ## Statements -/

/-- Builds a statement. -/
def buildStmt : Nat → Node → BuildM Stmt
  | 0, n => fail n .tooDeep
  | depth + 1, n => do
    let l ← locate n
    let expr := buildExpr depth
    let stmts (nodes : List (Option Node)) : BuildM (List Stmt) :=
      nodes.mapM fun n => do buildStmt depth (← present "statement" n)
    match n.kind with
    | "expression" => return .expression (← expr (← require n n.expr "expr")) l
    | "var" =>
      let type ← buildOption (buildType depth) n.type
      return .var n.name type (← buildOption expr n.expr) l
    | "assign" =>
      let a ← require n n.left "left"
      let b ← require n n.right "right"
      let target ← expr a
      return .assign target (← expr b) l
    | "if" =>
      let condition ← expr (← require n n.cond "cond")
      let yes ← stmts n.body
      return .cond condition yes (← stmts n.otherwise) l
    | "while" =>
      let condition ← expr (← require n n.cond "cond")
      return .whileLoop condition (← stmts n.body) l
    | "for" =>
      let body ← stmts n.body
      let init ← buildOption (buildStmt depth) n.init
      let condition ← buildOption expr n.cond
      return .forLoop init condition (← buildOption (buildStmt depth) n.step) body l
    | "break" => return .breakLoop l
    | "return" => return .giveBack (← buildOption expr n.expr) l
    | "block" => return .block (← stmts n.body) l
    | "delete" => return .delete (← expr (← require n n.expr "expr")) l
    | kind => fail n (.unknownKind "statement" kind)

/-! ## Declarations -/

/-- Builds a parameter. -/
def buildParam (depth : Nat) (p : Option Node) : BuildM Parameter := do
  let n := p.getD {}
  if p.isNone || n.kind != "param" then fail n .param
  let t ← buildType depth (← require n n.type "type")
  return { name := n.name, type := t, location := ← locate n }

/-- Builds a declaration. -/
def buildDecl : Nat → Node → BuildM Decl
  | 0, n => fail n .tooDeep
  | depth + 1, n => do
    let l ← locate n
    match n.kind with
    | "type" =>
      return .type n.name n.typeParams (← buildType depth (← require n n.type "type")) l
    | "global" =>
      let type ← buildOption (buildType depth) n.type
      let init ← buildOption (buildExpr depth) n.expr
      return .global n.name type init (n.has "exported") l
    | "function" =>
      let params ← n.args.mapM (buildParam depth)
      let result ← buildOption (buildType depth) n.type
      let body ← n.body.mapM fun s => do buildStmt depth (← present "statement" s)
      return .function n.name n.typeParams params result body
        (n.has "exported") (n.has "interrupt") l
    | "using" => return .use n.name l
    | "namespace" =>
      let decls ← n.body.mapM fun d => do buildDecl depth (← present "declaration" d)
      return .space n.name decls l
    | kind => fail n (.unknownKind "declaration" kind)

/-! ## Units -/

mutual

/-- How deep the children of a node are nested. -/
def Node.height : Node → Nat
  | { type, left, right, expr, cond, init, step, args, types, members, body, otherwise, .. } =>
    1 + max (optionHeight type) (max (optionHeight left) (max (optionHeight right)
      (max (optionHeight expr) (max (optionHeight cond) (max (optionHeight init)
      (max (optionHeight step) (max (listHeight args) (max (listHeight types)
      (max (listHeight members) (max (listHeight body) (listHeight otherwise)))))))))))

/-- How deep a node that may be missing is nested. -/
def optionHeight : Option Node → Nat
  | none => 0
  | some n => n.height

/-- How deep the nodes of a list are nested. -/
def listHeight : List (Option Node) → Nat
  | [] => 0
  | n :: rest => max (optionHeight n) (listHeight rest)

end

/-- Builds the declarations of a unit. -/
def build (nodes : List (Option Node)) : Except BuildError (List Decl) :=
  let decls : BuildM (List Decl) :=
    nodes.mapM fun n => do buildDecl (listHeight nodes) (← present "declaration" n)
  (decls.run "").map (·.1)

end Qll.Interchange
