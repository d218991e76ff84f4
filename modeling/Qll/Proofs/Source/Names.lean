import Qll.Source.Tree

/-!
# The names of a program

`Decl.names` lists the names that a declaration gives to types, values, namespaces, type parameters
and members, and the members that it projects types to. Names of local variables never leave their
function and are left out.
-/

namespace Qll.Source

mutual

/-- The names of members that are written in a type. -/
def TypeExpr.names : TypeExpr → List String
  | .name .. => []
  | .pointer e _ | .slice e _ | .array e _ _ => e.names
  | .struct members _ => membersNames members
  | .function arguments result _ => typesNames arguments ++ resultNames result
  | .apply _ arguments _ => typesNames arguments
  | .dot base member _ => member :: base.names

/-- The names of members that are written in some types. -/
def typesNames : List TypeExpr → List String
  | [] => []
  | t :: rest => t.names ++ typesNames rest

/-- The names of members, and those written in their types. -/
def membersNames : List (String × TypeExpr × Location) → List String
  | [] => []
  | (name, t, _) :: rest => name :: (t.names ++ membersNames rest)

/-- The names of members that are written in a type, if there is one. -/
def resultNames : Option TypeExpr → List String
  | none => []
  | some t => t.names

end

mutual

/-- The names of members that are written in the types of an expression. -/
def Expr.names : Expr → List String
  | .integer .. | .text .. | .null _ => []
  | .struct target fields _ => target.names ++ fieldsNames fields
  | .array elements _ => exprsNames elements
  | .name _ arguments _ => typesNames arguments
  | .call callee arguments _ => callee.names ++ exprsNames arguments
  | .member base _ _ | .arrow base _ _ => base.names
  | .index base position _ _ => base.names ++ position.names
  | .cast target operand _ => target.names ++ operand.names
  | .sizeOf target _ => target.names
  | .new target none _ => target.names
  | .new target (some count) _ => target.names ++ count.names
  | .binary _ left right _ => left.names ++ right.names
  | .unary _ operand _ => operand.names

/-- The names of members that are written in the types of some expressions. -/
def exprsNames : List Expr → List String
  | [] => []
  | e :: rest => e.names ++ exprsNames rest

/-- The names of members that are written in the types of some fields. -/
def fieldsNames : List (String × Expr × Location) → List String
  | [] => []
  | (_, e, _) :: rest => e.names ++ fieldsNames rest

end

/-- The names of members that are written in an expression, if there is one. -/
def initNames : Option Expr → List String
  | none => []
  | some e => e.names

mutual

/-- The names of members that are written in the types of a statement. -/
def Stmt.names : Stmt → List String
  | .expression value _ | .delete value _ => value.names
  | .var _ type init _ => resultNames type ++ initNames init
  | .assign target value _ => target.names ++ value.names
  | .cond condition yes no _ => condition.names ++ stmtsNames yes ++ stmtsNames no
  | .whileLoop condition body _ => condition.names ++ stmtsNames body
  | .forLoop init condition step body _ =>
    stepNames init ++ initNames condition ++ stepNames step ++ stmtsNames body
  | .breakLoop _ => []
  | .giveBack value _ => initNames value
  | .block body _ => stmtsNames body

/-- The names of members that are written in the types of a statement, if there is one. -/
def stepNames : Option Stmt → List String
  | none => []
  | some s => s.names

/-- The names of members that are written in the types of some statements. -/
def stmtsNames : List Stmt → List String
  | [] => []
  | s :: rest => s.names ++ stmtsNames rest

end

/-- The names of members that are written in the types of some parameters. -/
def paramsNames : List Parameter → List String
  | [] => []
  | p :: rest => p.type.names ++ paramsNames rest

mutual

/-- The names that a declaration gives, and the members that it projects types to. -/
def Decl.names : Decl → List String
  | .type name params definition _ => name :: (params ++ definition.names)
  | .global name type init _ _ => name :: (resultNames type ++ initNames init)
  | .function name typeParams params result body _ _ _ =>
    name :: (typeParams ++ paramsNames params ++ resultNames result ++ stmtsNames body)
  | .use .. => []
  | .space name decls _ => name :: declsNames decls

/-- The names of some declarations. -/
def declsNames : List Decl → List String
  | [] => []
  | d :: rest => d.names ++ declsNames rest

end

end Qll.Source
