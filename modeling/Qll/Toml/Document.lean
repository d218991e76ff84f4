import Qll.Toml.Parser

/-!
# Documents

The statements of a document are carried out one after the other. A table that was only mentioned on
the way to another may be opened once more; every other name is given once, arrays apart, which may
be given anew. The keys are kept in the order in which they are written.
-/

namespace Qll.Toml

/-- What a name stands for. -/
inductive Slot
  | table
  /-- A list of tables, of which the last one is open. -/
  | tables
  | value (v : Value)
  deriving Inhabited

/-- A document under way. -/
structure Document where
  slots : List (Key × Slot) := []
  /-- Tables that were only mentioned. -/
  implicit : List Key := []
  /-- Names of arrays. -/
  arrays : List Key := []
  /-- The keys written, in their order. -/
  keys : List Key := []
  deriving Inhabited

namespace Document

/-- What a key stands for. -/
def slot? (d : Document) (key : Key) : Option Slot := d.slots.lookup key

/-- Gives a key a new meaning; what was below it is gone. -/
def put (d : Document) (key : Key) (slot : Slot) : Document :=
  { d with slots := d.slots.filter (fun (k, _) => !key.isPrefixOf k) ++ [(key, slot)] }

/-- Marks a table as only mentioned. -/
def mention (d : Document) (key : Key) : Document :=
  { d with implicit := key :: d.implicit.erase key }

/-- Takes the mark away. -/
def settle (d : Document) (key : Key) : Document := { d with implicit := d.implicit.erase key }

/-- Notes a key that was written. -/
def note (d : Document) (key : Key) : Document := { d with keys := d.keys ++ [key] }

/-- Notes whether a key names an array. -/
def markArray (d : Document) (key : Key) (isArray : Bool) : Document :=
  let others := d.arrays.filter (· ≠ key)
  { d with arrays := if isArray then key :: others else others }

/-- Gives a key a meaning. A table that was only mentioned stays as it is, and is settled. -/
def define (d : Document) (key : Key) (slot : Slot) : Option Document :=
  match d.slot? key with
  | none => some (d.put key slot)
  | some _ =>
    if d.arrays.contains key then some ((d.settle key).put key slot)
    else if d.implicit.contains key then some (d.settle key)
    else none

/-- Makes sure that the tables on the way to a key are there. -/
def passThrough (d : Document) : Key → Key → Option Document
  | _, [] => some d
  | done, part :: rest =>
    let key := done ++ [part]
    match d.slot? key with
    | none => ((d.mention key).put key .table).passThrough key rest
    | some (.value _) => none
    | some _ => d.passThrough key rest

/-- Opens a table. -/
def openTable (d : Document) (key : Key) : Option Document := do
  (← d.passThrough [] key.dropLast).define key .table

/-- Appends a table to a list of tables and opens it. -/
def appendTable (d : Document) (key : Key) : Option Document := do
  let d ← d.passThrough [] key.dropLast
  match d.slot? key with
  | none | some .tables => return d.put key .tables
  | some _ => none

/-- Opens the tables that the parts of a dotted key lead through. -/
def openParts (d : Document) (context : Key) : Key → Option (Document × Key)
  | [] => some (d, context)
  | part :: rest => do
    let key := context ++ [part]
    (← (d.mention key).openTable key).openParts key rest

/-- Begins an assignment within a table; gives the full key. -/
def begin (d : Document) (context : Key) (key : Key) : Option (Document × Key) := do
  let (d, context) ← d.openParts context key.dropLast
  let key := context ++ key.getLast?.toList
  return (d.note key, key)

/-- Ends an assignment. -/
def finish (d : Document) (key : Key) (v : Value) : Option Document := do
  return (← d.define key (.value v)).markArray key (v matches .array _)

mutual

/-- Opens the tables within the value of a key. -/
def enter (key : Key) (inArray : Bool) (v : Value) (d : Document) : Option Document :=
  match v with
  | .array items => enterAll key items (d.markArray key true)
  | .inline fields => do
    let d := d.mention key
    let d ← if inArray then d.appendTable key else d.openTable key
    assignAll key fields d
  | _ => some d

/-- Opens the tables within the items of an array. -/
def enterAll (key : Key) (items : List Value) (d : Document) : Option Document :=
  match items with
  | [] => some d
  | v :: rest => do enterAll key rest (← enter key true v d)

/-- Carries out the assignments of an inline table. -/
def assignAll (context : Key) (fields : List (Key × Value)) (d : Document) : Option Document :=
  match fields with
  | [] => some d
  | (key, v) :: rest => do
    let (d, key) ← d.begin context key
    let d ← enter key false v d
    assignAll context rest (← d.finish key v)

end

/-- Carries out an assignment within a table. -/
def assign (d : Document) (context : Key) (key : Key) (v : Value) : Option Document :=
  assignAll context [(key, v)] d

/-- Carries out statements; `context` is the table that is open. -/
def carryOut (d : Document) : Key → List Statement → Option Document
  | _, [] => some d
  | _, .table key :: rest => do ((← d.openTable key).note key).carryOut key rest
  | _, .tables key :: rest => do ((← d.appendTable key).note key).carryOut key rest
  | context, .assign key v :: rest => do (← d.assign context key v).carryOut context rest

/-- Reads a document. -/
def parse? (bytes : List UInt8) : Option Document := do
  ({} : Document).carryOut [] (← Toml.parse? bytes)

/-- The names right below a key, with what they stand for. -/
def below (d : Document) (key : Key) : List (String × Slot) :=
  d.slots.filterMap fun (k, slot) =>
    if k.length = key.length + 1 ∧ key.isPrefixOf k then k.getLast?.map (·, slot) else none

end Document

end Qll.Toml
