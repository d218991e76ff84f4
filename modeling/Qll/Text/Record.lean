import Qll.Text.Basic

/-!
# Comma-separated records

The fields of the first record of a text. A field may stand in double quotes; inside them a comma or
line break belongs to the field, and a quote is written twice.
-/

namespace Qll.Text

/-- What is wrong with a record. -/
inductive RecordProblem
  /-- A quote inside a field without quotes. -/
  | bareQuote
  /-- A quoted field that does not end, or goes on behind its quote. -/
  | unbalanced
  deriving DecidableEq, Inhabited

/-- Why there is no record. -/
inductive RecordError
  | nothing
  /-- The record starts on one line and is wrong on another. -/
  | broken (start line column : Nat) (problem : RecordProblem)
  deriving DecidableEq, Inhabited

/-- The wording of an error. -/
def RecordError.message : RecordError → String
  | nothing => "EOF"
  | broken start line column problem =>
    let what := match problem with
      | .bareQuote => "bare \" in non-quoted field"
      | .unbalanced => "extraneous or missing \" in quoted-field"
    if start = line then
      "parse error on line " ++ Nat.repr line ++ ", column " ++ Nat.repr column ++ ": " ++ what
    else
      "record on line " ++ Nat.repr start ++ "; parse error on line " ++ Nat.repr line ++
        ", column " ++ Nat.repr column ++ ": " ++ what

/-- Where reading stands. -/
structure RecordPlace where
  start : Nat := 1
  line : Nat := 1
  column : Nat := 1
  deriving Inhabited

/-- The place behind a character. Columns count bytes. -/
def RecordPlace.next (p : RecordPlace) (c : Char) : RecordPlace :=
  if c = '\n' then { p with line := p.line + 1, column := 1 }
  else { p with column := p.column + c.utf8Size }

/-- How the field under way began. -/
inductive FieldMode
  | start
  | plain
  | quoted
  /-- Behind a quote within a quoted field. -/
  | closed
  deriving DecidableEq, Inhabited

/-- Reads fields; `field` is the one under way and `done` holds those before it, both in reverse. -/
def recordFrom (p : RecordPlace) (mode : FieldMode) (field : List Char) (done : List String) :
    List Char → Except RecordError (List String)
  | [] =>
    if mode = .quoted then .error (.broken p.start p.line p.column .unbalanced)
    else .ok (String.ofList field.reverse :: done).reverse
  | c :: rest =>
    match mode, c with
    | .quoted, '"' => recordFrom (p.next c) .closed field done rest
    | .quoted, c => recordFrom (p.next c) .quoted (c :: field) done rest
    | .closed, '"' => recordFrom (p.next c) .quoted ('"' :: field) done rest
    | .start, '"' => recordFrom (p.next c) .quoted field done rest
    | _, ',' => recordFrom (p.next c) .start [] (String.ofList field.reverse :: done) rest
    | _, '\n' => .ok (String.ofList field.reverse :: done).reverse
    | .closed, _ => .error (.broken p.start p.line (p.column - 1) .unbalanced)
    | _, '"' => .error (.broken p.start p.line p.column .bareQuote)
    | _, c => recordFrom (p.next c) .plain (c :: field) done rest

/-- A carriage return in front of a line break does not count. -/
def plainBreaks : List Char → List Char
  | '\r' :: '\n' :: rest => '\n' :: plainBreaks rest
  | ['\r'] => []
  | c :: rest => c :: plainBreaks rest
  | [] => []

/-- The fields of the first line that is not empty. -/
def firstRecord (s : String) : Except RecordError (List String) :=
  let cs := plainBreaks s.toList
  let skipped := (cs.takeWhile (· = '\n')).length
  match cs.drop skipped with
  | [] => .error .nothing
  | cs => recordFrom { start := skipped + 1, line := skipped + 1 } .start [] [] cs

end Qll.Text
