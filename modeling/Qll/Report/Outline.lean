import Qll.Json.Value
import Qll.Source.Tree
import Qll.Types.Text

/-!
# Outlines of units

The outline of a unit lists its declarations with their types as written, without the contents of
bodies and initial values.
-/

/-! ## Written types as text -/

namespace Qll.Source

mutual

/-- The text of a type as it is written. -/
def TypeExpr.text : TypeExpr → String
  | .name s _ => s
  | .pointer e _ => "*" ++ e.text
  | .slice e _ => "[" ++ e.text ++ "]"
  | .array e length _ => "[" ++ e.text ++ "; " ++ Types.Store.lengthText length ++ "]"
  | .struct members _ => "struct \x7b" ++ memberTexts members ++ " \x7d"
  | .function arguments result _ =>
    "(" ++ Text.join ", " (typeTexts arguments) ++ ") => " ++ resultText result
  | .apply s arguments _ => s ++ Types.Store.bracket (typeTexts arguments)
  | .dot base member _ => base.text ++ "." ++ member

/-- The texts of some types. -/
def typeTexts : List TypeExpr → List String
  | [] => []
  | t :: rest => t.text :: typeTexts rest

/-- The texts of the members of a struct type. -/
def memberTexts : List (String × TypeExpr × Location) → String
  | [] => ""
  | (name, t, _) :: rest => " " ++ name ++ ": " ++ t.text ++ ";" ++ memberTexts rest

/-- The text of a result type; a function without one returns no value. -/
def resultText : Option TypeExpr → String
  | none => Types.Builtin.void.name
  | some t => t.text

end

end Qll.Source

/-! ## Declarations -/

namespace Qll.Report

open Json (Value)
open Source (Decl Location Parameter)

/-- The outline of parameters: name, type and place of each. -/
def parameters (ps : List Parameter) : Value :=
  .array (ps.map fun p => .strings [p.name, p.type.text, p.location.text])

/-- The outline of a declaration of some kind: `more` follows its name and place. -/
def entry (kind name : String) (l : Location) (more : List (String × Value)) : Value :=
  .object ([("kind", .string kind), ("name", .string name), ("location", .string l.text)] ++ more)

mutual

/-- The outline of a declaration. -/
def outline : Decl → Value
  | .type name [] t l => entry "type" name l [("type", t.text)]
  | .type name params t l => entry "template-type" name l [("type", t.text), ("params", params)]
  | .global name t init exported l =>
    entry "global" name l
      ([("init", Value.bool init.isSome), ("exported", Value.bool exported)] ++
        t.toList.map fun t => ("type", Value.string t.text))
  | .function name [] params result body exported interrupt l =>
    entry "function" name l
      [("return", Source.resultText result), ("params", parameters params),
        ("body", body.map (·.location.text)), ("exported", exported), ("interrupt", interrupt)]
  | .function name typeParams params result body _ _ l =>
    entry "template-function" name l
      [("return", Source.resultText result), ("params", parameters params),
        ("body", body.map (·.location.text)), ("typeParams", typeParams)]
  | .use name l => entry "using" name l []
  | .space name decls l => entry "namespace" name l [("decls", outlines decls)]

/-- The outlines of declarations. -/
def outlines : List Decl → List Value
  | [] => []
  | d :: rest => outline d :: outlines rest

end

end Qll.Report
