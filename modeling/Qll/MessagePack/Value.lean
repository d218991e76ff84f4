import Qll.Bytes.BigEndian
import Qll.Json.Value
import Qll.Text.Utf8

/-!
# MessagePack values

A value to be written: the width of a number may be fixed, otherwise the shortest form is taken.
-/

namespace Qll.MessagePack

open Bytes (bigEndian)

/-- A value to be written. -/
inductive Value
  | null
  | string (text : String)
  | bytes (content : List UInt8)
  /-- A number in its shortest form. -/
  | int (number : Int)
  /-- A number in eight bytes. -/
  | int64 (number : Int)
  /-- A number in two bytes. -/
  | uint16 (number : Nat)
  /-- A number in four bytes. -/
  | uint32 (number : Nat)
  | array (items : List Value)
  | map (fields : List (String × Value))
  deriving Inhabited

/-- The bytes of a negative number in the two's complement of some width. -/
def twosComplement (width : Nat) (n : Int) : List UInt8 :=
  bigEndian width (n % Nat.pow 256 width).toNat

/-- The shortest form of a number. -/
def shortest (n : Int) : List UInt8 :=
  if 0 ≤ n then
    let m := n.toNat
    if m < 128 then [UInt8.ofNat m]
    else if m < 256 then 0xCC :: bigEndian 1 m
    else if m < 65536 then 0xCD :: bigEndian 2 m
    else if m < 4294967296 then 0xCE :: bigEndian 4 m
    else 0xCF :: bigEndian 8 m
  else if -32 ≤ n then twosComplement 1 n
  else if -128 ≤ n then 0xD0 :: twosComplement 1 n
  else if -32768 ≤ n then 0xD1 :: twosComplement 2 n
  else if -2147483648 ≤ n then 0xD2 :: twosComplement 4 n
  else 0xD3 :: twosComplement 8 n

/-- The head of a text of some length in bytes. -/
def stringHead (n : Nat) : List UInt8 :=
  if n < 32 then [UInt8.ofNat (0xA0 + n)]
  else if n < 256 then 0xD9 :: bigEndian 1 n
  else if n < 65536 then 0xDA :: bigEndian 2 n
  else 0xDB :: bigEndian 4 n

/-- The head of a list of bytes. -/
def bytesHead (n : Nat) : List UInt8 :=
  if n < 256 then 0xC4 :: bigEndian 1 n
  else if n < 65536 then 0xC5 :: bigEndian 2 n
  else 0xC6 :: bigEndian 4 n

/-- The head of a list. -/
def arrayHead (n : Nat) : List UInt8 :=
  if n < 16 then [UInt8.ofNat (0x90 + n)]
  else if n < 65536 then 0xDC :: bigEndian 2 n
  else 0xDD :: bigEndian 4 n

/-- The head of a map. -/
def mapHead (n : Nat) : List UInt8 :=
  if n < 16 then [UInt8.ofNat (0x80 + n)]
  else if n < 65536 then 0xDE :: bigEndian 2 n
  else 0xDF :: bigEndian 4 n

/-- A text with its head. -/
def stringBytes (s : String) : List UInt8 :=
  let content := Text.toBytes s
  stringHead content.length ++ content

mutual

/-- The bytes of a value. -/
def Value.encode : Value → List UInt8
  | .null => [0xC0]
  | .string s => stringBytes s
  | .bytes content => bytesHead content.length ++ content
  | .int n => shortest n
  | .int64 n => 0xD3 :: twosComplement 8 n
  | .uint16 n => 0xCD :: bigEndian 2 n
  | .uint32 n => 0xCE :: bigEndian 4 n
  | .array items => arrayHead items.length ++ encodeItems items
  | .map fields => mapHead fields.length ++ encodeFields fields

/-- The bytes of the items of a list. -/
def encodeItems : List Value → List UInt8
  | [] => []
  | v :: rest => v.encode ++ encodeItems rest

/-- The bytes of the fields of a map. -/
def encodeFields : List (String × Value) → List UInt8
  | [] => []
  | (name, v) :: rest => stringBytes name ++ (v.encode ++ encodeFields rest)

end

mutual

/-- The same value in JSON. Byte lists are lists of numbers. -/
def Value.toJson : Value → Json.Value
  | .null => .null
  | .string s => .string s
  | .bytes content => .array (content.map fun b => .nat b.toNat)
  | .int n | .int64 n => .int n
  | .uint16 n | .uint32 n => .nat n
  | .array items => .array (jsonItems items)
  | .map fields => .object (jsonFields fields)

/-- The items of a list in JSON. -/
def jsonItems : List Value → List Json.Value
  | [] => []
  | v :: rest => v.toJson :: jsonItems rest

/-- The fields of a map in JSON. -/
def jsonFields : List (String × Value) → List (String × Json.Value)
  | [] => []
  | (name, v) :: rest => (name, v.toJson) :: jsonFields rest

end

end Qll.MessagePack
