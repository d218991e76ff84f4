import Qll.Files.Path
import Qll.Interchange.Build
import Qll.Interchange.Reading
import Qll.Json.Printer

/-!
# Units

A unit is stored as JSON or as MessagePack; the suffix of its file says which.
-/

namespace Qll.Interchange

open Source (Decl)

/-- The encoding of a unit. -/
inductive Format
  | json
  | messagePack
  deriving DecidableEq, Inhabited

namespace Format

/-- The name of an encoding. -/
def name : Format → String
  | json => "json"
  | messagePack => "msgpack"

/-- The encoding of a name, regardless of case. -/
def parse? (s : String) : Option Format :=
  match Text.lower s with
  | "json" => some json
  | "msgpack" | "mp" => some messagePack
  | _ => none

/-- What is said of a name that is no encoding. -/
def unknownName (s : String) : String :=
  "unknown unit format " ++ Text.quote s ++ " (want json or msgpack)"

/-- The encoding of a file: JSON by its suffix, otherwise MessagePack. -/
def ofPath (path : String) : Format :=
  if Text.equalFold (Files.Path.suffix path) ".json" then json else messagePack

end Format

/-- Why a unit cannot be read. -/
inductive UnitError
  /-- The content is not in the encoding. -/
  | encoding (format : Format)
  | malformed (error : BuildError)
  deriving Inhabited

/-- The wording of an error. -/
def UnitError.message : UnitError → String
  | encoding format => "decode " ++ format.name ++ " unit"
  | malformed error => error.message

/-- The nodes of a unit; a missing list is `none`. -/
def readNodes (format : Format) (bytes : List UInt8) : Option (Option (List (Option Node))) :=
  match format with
  | .json => (Json.parseFirst (Text.decodeFrom 0 bytes)).bind nodesOfJson
  | .messagePack => nodesOfBytes bytes

/-- The declarations of a unit. What follows the first value is ignored. -/
def readUnit (format : Format) (bytes : List UInt8) : Except UnitError (List Decl) :=
  match readNodes format bytes with
  | none => .error (.encoding format)
  | some nodes =>
    match build (nodes.getD []) with
    | .ok decls => .ok decls
    | .error e => .error (.malformed e)

/-- The text of a unit in JSON, a line of its own. -/
def unitText (nodes : Option (List (Option Node))) : String :=
  (packUnit nodes).toJson.compact ++ "\n"

/-- The bytes of a unit in MessagePack. -/
def unitBytes (nodes : Option (List (Option Node))) : List UInt8 := (packUnit nodes).encode

/-- A unit and the file it was read from. -/
structure LoadedUnit where
  path : String
  decls : List Decl
  deriving Inhabited

end Qll.Interchange
