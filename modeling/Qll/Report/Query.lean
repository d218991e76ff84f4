import Qll.Check.Context
import Qll.Json.Value
import Qll.Program.Compile

/-!
# Queries about a program

A query names something and the namespace from which it is looked for; the answer describes what
was found.
-/

namespace Qll.Report

open Check (State CheckM Storage onTypes textOf)
open Json (Value)

/-- What is looked for. -/
inductive Wanted
  | type
  | value
  | space
  /-- A function by its whole qualified name. -/
  | function
  /-- A template function by its whole qualified name. -/
  | template
  deriving DecidableEq, Inhabited

/-- Reads what is looked for. -/
def Wanted.parse? : String → Option Wanted
  | "type" => some type
  | "value" => some value
  | "namespace" => some space
  | "function" => some function
  | "template" => some template
  | _ => none

/-- Why a query has no answer. -/
inductive QueryError
  /-- The namespace to start from does not exist. -/
  | noSpace (name : String)
  /-- Several declarations are meant. -/
  | ambiguous (message : String)

/-- The description of storage. -/
def storage (st : Storage) : CheckM Value :=
  return .object
    [("name", st.name), ("qualified", st.qualified), ("type", ← textOf st.type),
      ("class", st.kind.name), ("static", st.kind.isStatic),
      ("location", Source.Location.optionText st.location)]

/-- The answer to a query from a namespace; null if nothing was found. -/
def answerFrom (s : State) (space : Nat) (name : String) :
    Wanted → CheckM (Except QueryError Value)
  | .type => do
    match Program.findType s space name with
    | .error message => return .error (.ambiguous message)
    | .ok none => return .ok .null
    | .ok (some b) =>
      return .ok (.object [("qualified", b.qualified), ("type", ← textOf b.type)])
  | .value => do
    match Program.findValue s space name with
    | .error message => return .error (.ambiguous message)
    | .ok none => return .ok .null
    | .ok (some st) => return .ok (← storage st)
  | .space =>
    return .ok (.optionString ((Program.findSpace s space name).map (Program.qualifiedName s)))
  | .function => do
    match Program.function? s name with
    | none => return .ok .null
    | some f =>
      let mangled ← onTypes (Types.read (·.mangle f.signature))
      return .ok (.object
        [("qualified", f.qualified), ("type", ← textOf f.signature), ("mangled", mangled)])
  | .template =>
    match Program.template? s name with
    | none => return .ok .null
    | some t => return .ok (.object [("qualified", t.qualified), ("instances", t.instances.length)])

/-- The answer to a query from the namespace with a name, the outermost one if it is empty. -/
def query (start : String) (wanted : Option Wanted) (name : String) :
    CheckM (Except QueryError Value) := do
  let s ← get
  let space :=
    if start = "" then some Program.root else Program.findSpace s Program.root start
  match space, wanted with
  | none, _ => return .error (.noSpace start)
  | some _, none => return .ok .null
  | some space, some wanted => answerFrom s space name wanted

/-- The report of a program: what was reported, the references of its declarations, and what is
live besides its roots from `extra`. -/
def program (extra : List String) : CheckM (List (String × Value)) := do
  let s ← get
  let nodes := Program.routines s
  match Program.Graph.ofNodes nodes with
  | .error e => throw e
  | .ok graph =>
    return [("diagnostics", s.reports.toList.map (·.text)), ("errors", s.errors),
      ("warnings", s.warnings), ("pending", s.postponed.size),
      ("routines", nodes.map fun n => Value.array [n.name, n.refs, n.root]),
      ("live", graph.solve extra)]

end Qll.Report
