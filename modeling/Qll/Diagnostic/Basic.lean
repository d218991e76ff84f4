import Qll.Source.Location
import Qll.Text.Basic

/-!
# Diagnostics

A diagnostic is a message with a severity, a code and, where one is known, a location. Notes point
to further places, one per frame of a template instantiation.
-/

/-! ## Codes and severities

A code is a number whose thousands name the family it belongs to. Severities are ranked; three of
them have names.
-/

namespace Qll.Diagnostic

/-- How serious a diagnostic is. -/
structure Severity where
  rank : Nat
  deriving DecidableEq, Inhabited

namespace Severity

/-- Told for information. -/
def info : Severity := ⟨0⟩

/-- Suspicious, yet accepted. -/
def warning : Severity := ⟨1⟩

/-- Refused. -/
def error : Severity := ⟨2⟩

/-- The name of a severity. -/
def name (s : Severity) : String :=
  match s.rank with
  | 0 => "info"
  | 1 => "warning"
  | 2 => "error"
  | _ => "unknown"

end Severity

/-- The number of a kind of diagnostic. -/
structure Code where
  number : Nat
  deriving DecidableEq, Inhabited

namespace Code

/-- Types of infinite size. -/
def recursiveType : Code := ⟨1001⟩
def invalidInterrupt : Code := ⟨1003⟩
def invalidLength : Code := ⟨1004⟩
def notTemplateType : Code := ⟨1005⟩
def templateTypeArity : Code := ⟨1006⟩
def duplicateMember : Code := ⟨1007⟩
def unknownMember : Code := ⟨1008⟩
def voidValue : Code := ⟨1009⟩
/-- Names without a declaration. -/
def unknownIdentifier : Code := ⟨2001⟩
def unknownType : Code := ⟨2002⟩
def ambiguous : Code := ⟨2003⟩
def duplicate : Code := ⟨2004⟩
def unknownNamespace : Code := ⟨2005⟩
/-- Values of the wrong type. -/
def mismatch : Code := ⟨3001⟩
def notNumeric : Code := ⟨3002⟩
def notIntegral : Code := ⟨3003⟩
def notCallable : Code := ⟨3004⟩
def argumentCount : Code := ⟨3005⟩
def noMember : Code := ⟨3006⟩
def notAssignable : Code := ⟨3007⟩
def notIndexable : Code := ⟨3008⟩
def breakOutsideLoop : Code := ⟨3009⟩
def invalidCast : Code := ⟨3010⟩
def cannotInfer : Code := ⟨3011⟩
def notPointer : Code := ⟨3012⟩
def invalidLiteral : Code := ⟨3013⟩
def returnOutside : Code := ⟨3015⟩
def notAddressable : Code := ⟨3016⟩
def invalidDeclaration : Code := ⟨3017⟩
/-- Template functions. -/
def depthExceeded : Code := ⟨4001⟩
def templateArity : Code := ⟨4002⟩
def cannotInferArgument : Code := ⟨4003⟩
def notTemplate : Code := ⟨4004⟩
/-- Checks that run after the whole program was checked. -/
def uninstantiated : Code := ⟨5001⟩
def unusedTemplate : Code := ⟨5002⟩
/-- The entry point and the inputs. -/
def noEntry : Code := ⟨6001⟩
def badEntry : Code := ⟨6002⟩
def badInput : Code := ⟨6003⟩

/-- The codes that have a title of their own. -/
def titles : List (Nat × String) :=
  [(0, "Unknown error"),
    (1000, "Kind information"),
    (1001, "recursive type has infinite size"),
    (1002, "unknown type"),
    (1003, "invalid interrupt handler signature"),
    (1004, "invalid array length"),
    (1005, "type is not a template"),
    (1006, "wrong number of template arguments"),
    (1007, "duplicate struct member"),
    (1008, "unknown member of type"),
    (1009, "void used as a value type"),
    (2000, "Resolution information"),
    (2001, "unknown identifier"),
    (2002, "unknown type identifier"),
    (2003, "ambiguous identifier"),
    (2004, "duplicate declaration"),
    (2005, "unknown namespace"),
    (3000, "Type information"),
    (3001, "type mismatch"),
    (3002, "expected a numeric type"),
    (3003, "expected an integral type"),
    (3004, "expression is not callable"),
    (3005, "wrong number of arguments"),
    (3006, "no such member"),
    (3007, "expression is not assignable"),
    (3008, "expression is not indexable"),
    (3009, "break outside of a loop"),
    (3010, "invalid cast"),
    (3011, "cannot infer type"),
    (3012, "expected a pointer type"),
    (3013, "invalid literal"),
    (3014, "storage for identifier is missing"),
    (3015, "return outside of a function"),
    (3016, "expression is not addressable"),
    (3017, "invalid declaration"),
    (4000, "Template information"),
    (4001, "template instantiation depth exceeded"),
    (4002, "wrong number of template arguments"),
    (4003, "cannot infer template arguments"),
    (4004, "identifier is not a template"),
    (4005, "error in template instantiation"),
    (5000, "Deferred check information"),
    (5001, "template used without instantiation"),
    (5002, "template function is never instantiated"),
    (6000, "Driver information"),
    (6001, "entry point not found"),
    (6002, "invalid entry point"),
    (6003, "cannot load input"),
    (6004, "invalid project manifest"),
    (6005, "Pipeline timings")]

/-- The three letters of a family, by the thousands of its codes. -/
def family? (thousands : Nat) : Option String :=
  match thousands with
  | 1 => some "KND"
  | 2 => some "RES"
  | 3 => some "TYP"
  | 4 => some "TPL"
  | 5 => some "DEF"
  | 6 => some "DRV"
  | _ => none

/-- The identifier of a code: its family and its number. -/
def id (c : Code) : String :=
  match family? (c.number / 1000) with
  | some letters => letters ++ Text.decimalPadded 4 c.number
  | none => "E0000"

/-- What a code is about. -/
def title (c : Code) : String :=
  (titles.lookup c.number).getD "Unknown error"

/-- A code as a heading. -/
def heading (c : Code) : String :=
  "[" ++ c.id ++ "]: " ++ c.title

end Code

end Qll.Diagnostic

/-! ## What is reported -/

namespace Qll

open Source (Location)

/-- A secondary remark. -/
structure Diagnostic.Note where
  location : Option Location
  message : String
  deriving DecidableEq, Inhabited

open Diagnostic (Severity Code Note)

/-- One report to the user. -/
structure Diagnostic where
  severity : Severity
  code : Code
  location : Option Location
  message : String
  notes : List Note := []
  deriving DecidableEq, Inhabited

namespace Diagnostic

/-- Whether this is an error. -/
def isError (d : Diagnostic) : Bool := Severity.error.rank ≤ d.severity.rank

/-- One line: severity, location if known, message. -/
def text (d : Diagnostic) : String :=
  match d.location with
  | none => d.severity.name ++ ": " ++ d.message
  | some l => d.severity.name ++ ": " ++ l.text ++ ": " ++ d.message

/-- The canonical order: by location, a missing one first, then the severer first, then the
smaller code first. -/
def before (a b : Diagnostic) : Bool :=
  if a.location ≠ b.location then Location.optionBefore a.location b.location
  else if a.severity ≠ b.severity then b.severity.rank < a.severity.rank
  else a.code.number < b.code.number

end Diagnostic

end Qll
