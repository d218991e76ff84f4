import Qll.Text.Basic

/-!
# UTF-8

Bytes are read as UTF-8 text; each byte that belongs to no well-formed sequence stands for one
replacement character.
-/

namespace Qll.Text

/-- The character that stands for what cannot be read. -/
def replacementChar : Char := Char.ofNat 0xFFFD

/-- Whether a byte continues a sequence, between the given bounds. -/
def continues (low high : UInt8) (b : UInt8) : Bool := low ≤ b && b ≤ high

/-- The bounds of the second byte after a leading one. -/
def secondBounds (b : UInt8) : UInt8 × UInt8 :=
  if b = 0xE0 then (0xA0, 0xBF)
  else if b = 0xED then (0x80, 0x9F)
  else if b = 0xF0 then (0x90, 0xBF)
  else if b = 0xF4 then (0x80, 0x8F)
  else (0x80, 0xBF)

/-- The character of some bits. -/
def charOfBits (parts : List Nat) : Char :=
  Char.ofNat (parts.foldl (fun n part => n * 64 + part) 0)

/-- The six bits of a continuing byte. -/
def lowBits (b : UInt8) : Nat := b.toNat % 64

/-- The first character of a sequence that starts with `b`, and how many further bytes it takes. -/
def leadingChar (b : UInt8) (rest : List UInt8) : Char × Nat :=
  let (low, high) := secondBounds b
  if b < 0x80 then (Char.ofNat b.toNat, 0)
  else if b < 0xC2 then (replacementChar, 0)
  else if b < 0xE0 then
    match rest with
    | c :: _ =>
      if continues low high c then (charOfBits [b.toNat % 32, lowBits c], 1)
      else (replacementChar, 0)
    | _ => (replacementChar, 0)
  else if b < 0xF0 then
    match rest with
    | c :: d :: _ =>
      if continues low high c && continues 0x80 0xBF d then
        (charOfBits [b.toNat % 16, lowBits c, lowBits d], 2)
      else (replacementChar, 0)
    | _ => (replacementChar, 0)
  else if b < 0xF5 then
    match rest with
    | c :: d :: e :: _ =>
      if continues low high c && continues 0x80 0xBF d && continues 0x80 0xBF e then
        (charOfBits [b.toNat % 8, lowBits c, lowBits d, lowBits e], 3)
      else (replacementChar, 0)
    | _ => (replacementChar, 0)
  else (replacementChar, 0)

/-- The characters of some bytes, where the first `skip` bytes were already read. -/
def decodeFrom : Nat → List UInt8 → List Char
  | _, [] => []
  | skip + 1, _ :: rest => decodeFrom skip rest
  | 0, b :: rest =>
    let (c, more) := leadingChar b rest
    c :: decodeFrom more rest

/-- The text of some bytes. -/
def ofBytes (bytes : List UInt8) : String := String.ofList (decodeFrom 0 bytes)

/-- The bytes of a text. -/
def toBytes (s : String) : List UInt8 := s.toUTF8.toList

/-- Whether some bytes are a text as they stand. -/
def isText (bytes : List UInt8) : Bool := toBytes (ofBytes bytes) == bytes

end Qll.Text
