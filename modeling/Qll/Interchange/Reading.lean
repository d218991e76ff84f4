import Qll.Interchange.Node
import Qll.Json.Parser
import Qll.MessagePack.Reader

/-!
# Reading units

A unit is read from JSON or from MessagePack. In JSON, field names match regardless of case,
unknown fields are passed over, and a missing value changes nothing. A field given twice is read
over its first value, so that the later one wins and what it leaves open stays.
-/

namespace Qll.Interchange

/-! ## JSON -/

/-- The field of a name: an exact match, or else one regardless of case. -/
def slotOfJson? (name : String) : Option Slot :=
  match slots.lookup name with
  | some slot => some slot
  | none => (slots.find? fun s => Text.equalFold name s.1).map (·.2)

/-- The number of a numeral without fraction and exponent, within 64 bits. -/
def wholeNumber? (numeral : String) : Option Int :=
  let digits := if Text.startsWith numeral "-" then numeral.toList.tail else numeral.toList
  if digits.all Char.isDigit then
    let magnitude : Nat := digits.foldl (fun n c => n * 10 + (c.toNat - 48)) 0
    let n : Int := if Text.startsWith numeral "-" then -magnitude else magnitude
    if Machine.wrap n = n then some n else none
  else none

/-- Reads texts over old ones. -/
def jsonTexts : List Json.Value → List String → Option (List String)
  | [], _ => some []
  | v :: rest, old => do
    let more ← jsonTexts rest old.tail
    match v with
    | .string s => some (s :: more)
    | .null => some (old.headD "" :: more)
    | _ => none

mutual

/-- Reads a node over an old one. -/
def jsonNode (old : Node) : Json.Value → Option Node
  | .object fields => jsonFields old fields
  | _ => none

/-- Reads a node, or nothing, over an old one. -/
def jsonOption (old : Option Node) : Json.Value → Option (Option Node)
  | .null => some none
  | .object fields => (jsonFields (old.getD {}) fields).map some
  | _ => none

/-- Reads fields over those of an old node. -/
def jsonFields (old : Node) : List (String × Json.Value) → Option Node
  | [] => some old
  | (name, v) :: rest => do
    match slotOfJson? name, v with
    | none, _ => jsonFields old rest
    | some (.text _), .null | some (.int _), .null => jsonFields old rest
    | some (.text set), .string s => jsonFields (set old s) rest
    | some (.int set), .number numeral => jsonFields (set old (← wholeNumber? numeral)) rest
    | some (.texts _ set), .null => jsonFields (set old []) rest
    | some (.texts get set), .array items =>
      jsonFields (set old (← jsonTexts items (get old))) rest
    | some (.child _ set), .null => jsonFields (set old none) rest
    | some (.child get set), .object fields =>
      jsonFields (set old (some (← jsonFields ((get old).getD {}) fields))) rest
    | some (.children _ set), .null => jsonFields (set old []) rest
    | some (.children get set), .array items =>
      jsonFields (set old (← jsonList (get old) items)) rest
    | _, _ => none

/-- Reads a list of nodes over an old one. -/
def jsonList (old : List (Option Node)) : List Json.Value → Option (List (Option Node))
  | [] => some []
  | v :: rest => do
    let n ← jsonOption (old.headD none) v
    return n :: (← jsonList old.tail rest)

end

/-- The nodes of a JSON value; a missing list is `none`. -/
def nodesOfJson : Json.Value → Option (Option (List (Option Node)))
  | .null => some none
  | .array items => (jsonList [] items).map some
  | _ => none

/-! ## MessagePack -/

open MessagePack (Reader)

/-- How a field is read, where `node` reads a node over an old one. -/
def slotReader (node : Node → Reader Node) : Slot → Node → Reader Node
  | .text set, n => return set n (← Reader.string)
  | .int set, n => return set n (← Reader.number)
  | .texts get set, n => do
    let bytes ← MonadState.get
    if bytes.head? = some 0xC0 then
      discard Reader.code
      return n
    return set n (← Reader.list "" (fun _ => Reader.string) (get n))
  | .child get set, n => return set n (← optional (get n))
  | .children get set, n => return set n (← Reader.list none optional (get n))
where
  /-- Reads a node, or nothing, over an old one. -/
  optional (old : Option Node) : Reader (Option Node) := do
    let bytes ← MonadState.get
    if bytes.head? = some 0xC0 then
      discard Reader.code
      return none
    return some (← node (old.getD {}))

/-- Reads a node, nested at most `depth` deep, over an old one. -/
def readNode : Nat → Node → Reader Node
  | 0, _ => throw .malformed
  | depth + 1, old =>
    Reader.record {} (slots.map fun (name, slot) => (name, slotReader (readNode depth) slot)) old

/-- The nodes of the unit at the front of some bytes; a missing list is `none`. -/
def nodesOfBytes (bytes : List UInt8) : Option (Option (List (Option Node))) :=
  if bytes.head? = some 0xC0 then some none
  else
    let reader := Reader.list none (slotReader.optional (readNode bytes.length)) []
    match reader.run bytes with
    | .ok (nodes, _) => some (some nodes)
    | .error _ => none

end Qll.Interchange
