import Qll.Assembly.Directive
import Qll.Fault
import Qll.MessagePack.Reader

/-!
# Binary streams

A binary stream is a header, which holds the version of the format and the number of directives,
followed by one record for each directive.
-/

namespace Qll.Assembly.Stream

open Machine (Register Opcode)
open MessagePack (Reader Cause)

/-- The version of the format. -/
def schema : Nat := 1

/-- The largest number of directives for which room can be made. -/
def maxCount : Int := 17592186044416

/-- The opening of a stream. -/
structure Header where
  schema : Nat := 0
  count : Int := 0
  deriving Inhabited

/-- A value as it stands in a stream. -/
structure PackedValue where
  kind : String := ""
  word : Nat := 0
  text : String := ""
  deriving Inhabited

/-- A directive as it stands in a stream. -/
structure Record where
  kind : String := ""
  name : String := ""
  op : String := ""
  registers : List UInt8 := []
  values : List PackedValue := []
  deriving Inhabited

/-- Why a stream cannot be read. -/
inductive Error
  | header
  | schema (found : Nat)
  /-- The stream ends after the `done`-th of `count` directives. -/
  | truncated (done : Nat) (count : Int)
  /-- The bytes of a record are not a record. -/
  | record (position : Nat)
  | valueKind (position : Nat) (kind : String)
  | directiveKind (position : Nat) (kind : String)
  | opcode (position : Nat) (name : String)
  | operands (position : Nat) (op : Opcode) (given : Nat)
  | register (position : Nat) (number : UInt8)
  | constant (position : Nat)
  | textConstant (position : Nat)
  /-- No room can be made for the announced directives. -/
  | room
  deriving Inhabited

/-- The wording of an error; those that concern the bytes alone name only the place. -/
def Error.message : Error → String
  | header => "decode header"
  | schema found => "unsupported stream schema " ++ Nat.repr found
  | truncated done count =>
    "stream truncated after " ++ Nat.repr done ++ " of " ++ Text.decimal count ++ " directives"
  | record i => "decode directive " ++ Nat.repr i
  | valueKind i kind => about i ("unknown value kind " ++ Text.quote kind)
  | directiveKind i kind => about i ("unknown directive kind " ++ Text.quote kind)
  | opcode i name => about i (Opcode.unknownName name)
  | operands i op given =>
    about i (op.name ++ " takes " ++ Nat.repr op.operands ++ " operands, got " ++ Nat.repr given)
  | register i number => about i ("register " ++ Nat.repr number.toNat ++ " out of range")
  | constant i => about i "malformed constant"
  | textConstant i => about i "constant cannot hold text"
  | room => Fault.missing.message
where
  /-- A message about the directive at a position. -/
  about (i : Nat) (text : String) : String := "directive " ++ Nat.repr i ++ ": " ++ text

/-! ## Writing -/

/-- A field, unless it has its zero value. -/
def given (isZero : Bool) (name : String) (v : MessagePack.Value) :
    List (String × MessagePack.Value) :=
  if isZero then [] else [(name, v)]

/-- The fields of a value. -/
def packValue : Value → MessagePack.Value
  | .immediate w => .map (("k", .string "imm") :: given (w == 0) "w" (.uint32 w.toNat))
  | .text s => .map (("k", .string "text") :: given (s == "") "t" (.string s))
  | .reference s => .map (("k", .string "ref") :: given (s == "") "t" (.string s))

/-- The numbers of some registers, a field that is left out when there is none. -/
def packRegisters (registers : List Register) : List (String × MessagePack.Value) :=
  given registers.isEmpty "r" (.bytes (registers.map (·.index)))

/-- The record of a directive. -/
def packDirective : Directive → MessagePack.Value
  | .label name => .map (("k", .string "label") :: given (name == "") "n" (.string name))
  | .data values =>
    .map (("k", .string "data") :: given values.isEmpty "v" (.array (values.map packValue)))
  | .instruction i =>
    .map (("k", .string "instruction") :: ("op", .string i.op.name) :: packRegisters i.registers)
  | .constant d v =>
    .map (("k", .string "constant") :: packRegisters [d] ++ [("v", .array [packValue v])])

/-- The header of a stream of `count` directives. -/
def packHeader (count : Nat) : MessagePack.Value :=
  .map [("schema", .uint16 schema), ("count", .int count)]

/-- The bytes of a stream. -/
def encode (ds : List Directive) : List UInt8 :=
  (packHeader ds.length).encode ++ ds.flatMap fun d => (packDirective d).encode

/-! ## Reading -/

/-- Reads a header. -/
def readHeader : Reader Header :=
  Reader.record {}
    [("schema", fun h => return { h with schema := ← Reader.word 2 }),
      ("count", fun h => return { h with count := ← Reader.number })] {}

/-- Reads a value. -/
def readValue : PackedValue → Reader PackedValue :=
  Reader.record {}
    [("k", fun v => return { v with kind := ← Reader.string }),
      ("w", fun v => return { v with word := ← Reader.word 4 }),
      ("t", fun v => return { v with text := ← Reader.string })]

/-- Reads a record. -/
def readRecord : Reader Record :=
  Reader.record {}
    [("k", fun r => return { r with kind := ← Reader.string }),
      ("n", fun r => return { r with name := ← Reader.string }),
      ("op", fun r => return { r with op := ← Reader.string }),
      ("r", fun r => return { r with registers := ← Reader.bytes }),
      ("v", fun r => return { r with values := ← Reader.list {} readValue r.values })] {}

/-- The value of a packed one. -/
def unpackValue (position : Nat) (v : PackedValue) : Except Error Value :=
  if v.kind = "imm" then .ok (.immediate (UInt32.ofNat v.word))
  else if v.kind = "text" then .ok (.text v.text)
  else if v.kind = "ref" then .ok (.reference v.text)
  else .error (.valueKind position v.kind)

/-- The instruction of a record. -/
def unpackInstruction (position : Nat) (r : Record) : Except Error Directive :=
  match Opcode.parse? r.op with
  | none => .error (.opcode position r.op)
  | some op =>
    if r.registers.length ≠ op.operands then
      .error (.operands position op r.registers.length)
    else
      match r.registers.find? fun n => Register.count ≤ n.toNat with
      | some n => .error (.register position n)
      | none => .ok (.instruction (.ofList op (r.registers.map Register.mk)))

/-- The constant of a record. -/
def unpackConstant (position : Nat) (r : Record) : Except Error Directive :=
  match r.registers, r.values with
  | [d], [v] => do
    match ← unpackValue position v with
    | .text _ => .error (.textConstant position)
    | value => .ok (.constant ⟨d⟩ value)
  | _, _ => .error (.constant position)

/-- The directive of a record. -/
def unpackDirective (position : Nat) (r : Record) : Except Error Directive :=
  if r.kind = "label" then .ok (.label r.name)
  else if r.kind = "data" then return .data (← r.values.mapM (unpackValue position))
  else if r.kind = "instruction" then unpackInstruction position r
  else if r.kind = "constant" then unpackConstant position r
  else .error (.directiveKind position r.kind)

/-- Reads the directives that are left; `done` holds those before them in reverse. -/
def readDirectives (count : Int) : Nat → List Directive → List UInt8 → Except Error (List Directive)
  | 0, done, _ => .ok done.reverse
  | left + 1, done, bytes =>
    match readRecord.run bytes with
    | .error .exhausted => .error (.truncated done.length count)
    | .error .malformed => .error (.record done.length)
    | .ok (r, rest) =>
      match unpackDirective done.length r with
      | .error e => .error e
      | .ok d => readDirectives count left (d :: done) rest

/-- Reads a stream; what follows it is ignored. -/
def decode (bytes : List UInt8) : Except Error (List Directive) :=
  match readHeader.run bytes with
  | .error _ => .error .header
  | .ok (h, rest) =>
    if h.schema ≠ schema then .error (.schema h.schema)
    else if h.count < 0 ∨ maxCount < h.count then .error .room
    else readDirectives h.count h.count.toNat [] rest

end Qll.Assembly.Stream
