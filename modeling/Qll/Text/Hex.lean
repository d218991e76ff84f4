import Qll.Text.Basic
import Qll.Text.Ranges

/-!
# Bytes as hexadecimal text

Each byte is written with two lower-case digits.
-/

namespace Qll.Text

/-- The text of some bytes. -/
def hexOfBytes (bytes : List UInt8) : String :=
  String.join (bytes.map fun b => hexPadded 2 b.toNat)

/-- The bytes of a text; a digit without a partner is dropped. -/
def bytesOfHex : List Char → List UInt8
  | a :: b :: rest => UInt8.ofNat (hexNumber [a, b]) :: bytesOfHex rest
  | _ => []

end Qll.Text
