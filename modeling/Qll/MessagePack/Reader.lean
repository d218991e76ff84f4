import Qll.Machine.Word
import Qll.MessagePack.Value

/-!
# Reading MessagePack

A reader takes a typed value off the front of the remaining bytes. It asks for one byte, the code,
or for several at once; that nothing at all is left when it asks is told apart from every other
failure.
-/

namespace Qll.MessagePack

/-- Why a value cannot be read. -/
inductive Cause
  /-- Bytes are asked for and none is left. -/
  | exhausted
  /-- The bytes left do not form a value of the type. -/
  | malformed
  deriving DecidableEq, Inhabited

/-- Takes a value off the front of the remaining bytes. -/
abbrev Reader := StateT (List UInt8) (Except Cause)

namespace Reader

/-- The next byte. -/
def code : Reader UInt8 := do
  match ← get with
  | [] => throw .exhausted
  | b :: rest =>
    set rest
    return b

/-- The next `n` bytes. -/
def take (n : Nat) : Reader (List UInt8) := do
  let bytes ← get
  if n = 0 then return []
  if bytes.isEmpty then throw .exhausted
  let front := bytes.take n
  if front.length < n then throw .malformed
  set (bytes.drop n)
  return front

/-- An unsigned number of some width. -/
def unsigned (width : Nat) : Reader Nat := return Bytes.ofBigEndian (← take width)

/-- A number of some width in two's complement. -/
def signed (width : Nat) : Reader Int := do
  let n ← unsigned width
  let limit := Nat.pow 256 width
  return if n * 2 < limit then (n : Int) else (n : Int) - limit

/-- Whether a code is a number by itself. -/
def isSmallNumber (c : UInt8) : Bool := c < 0x80 || 0xE0 ≤ c

/-- The number that follows a code, within 64 bits. A missing one is zero. -/
def numberAfter (c : UInt8) : Reader Int := do
  if isSmallNumber c then
    return if c < 0x80 then (c.toNat : Int) else (c.toNat : Int) - 256
  match c.toNat with
  | 0xC0 => return 0
  | 0xCC => return (← unsigned 1)
  | 0xCD => return (← unsigned 2)
  | 0xCE => return (← unsigned 4)
  | 0xCF => return Machine.wrap (← unsigned 8)
  | 0xD0 => signed 1
  | 0xD1 => signed 2
  | 0xD2 => signed 4
  | 0xD3 => signed 8
  | _ => throw .malformed

/-- A number within 64 bits. -/
def number : Reader Int := do numberAfter (← code)

/-- A number reduced to `width` bytes. -/
def word (width : Nat) : Reader Nat := return ((← number) % Nat.pow 256 width).toNat

/-- The length of the text or byte list that follows a code; nothing is `none`. -/
def contentLength (c : UInt8) : Reader (Option Nat) := do
  let n := c.toNat
  if 0xA0 ≤ n ∧ n ≤ 0xBF then return some (n - 0xA0)
  match n with
  | 0xC0 => return none
  | 0xC4 | 0xD9 => return some (← unsigned 1)
  | 0xC5 | 0xDA => return some (← unsigned 2)
  | 0xC6 | 0xDB => return some (← unsigned 4)
  | _ => throw .malformed

/-- A list of bytes, or a text as bytes. -/
def bytes : Reader (List UInt8) := do
  match ← contentLength (← code) with
  | none => return []
  | some n => take n

/-- A text. What is not UTF-8 in its bytes is read as U+FFFD, as it is wherever a text is written out. -/
def string : Reader String := return Text.ofBytes (← bytes)

/-- The length of the list that follows a code; nothing is `none`. -/
def arrayLength (c : UInt8) : Reader (Option Nat) := do
  let n := c.toNat
  if 0x90 ≤ n ∧ n ≤ 0x9F then return some (n - 0x90)
  match n with
  | 0xC0 => return none
  | 0xDC => return some (← unsigned 2)
  | 0xDD => return some (← unsigned 4)
  | _ => throw .malformed

/-- The length of the map that follows a code, if it is one. -/
def mapLength? (c : UInt8) : Reader (Option Nat) := do
  let n := c.toNat
  if 0x80 ≤ n ∧ n ≤ 0x8F then return some (n - 0x80)
  match n with
  | 0xDE => return some (← unsigned 2)
  | 0xDF => return some (← unsigned 4)
  | _ => return none

/-- Reads `n` items, each over the value already at its position; `done` holds the items before
them in reverse. -/
def itemsOver {α : Type} (fresh : α) (item : α → Reader α) : Nat → List α → List α → Reader (List α)
  | 0, _, done => return done.reverse
  | n + 1, old, done => do
    let a ← item (old.headD fresh)
    itemsOver fresh item n old.tail (a :: done)

/-- A list. Nothing is an empty one. -/
def list {α : Type} (fresh : α) (item : α → Reader α) (old : List α) : Reader (List α) := do
  match ← arrayLength (← code) with
  | none => return []
  | some n => itemsOver fresh item n old []

/-- How many bytes follow a code that stands for a plain value of fixed size. -/
def plainSize? (c : UInt8) : Option Nat :=
  if isSmallNumber c then some 0
  else
    match c.toNat with
    | 0xC0 | 0xC2 | 0xC3 => some 0
    | 0xCC | 0xD0 => some 1
    | 0xCD | 0xD1 => some 2
    | 0xCE | 0xD2 | 0xCA => some 4
    | 0xCF | 0xD3 | 0xCB => some 8
    | 0xD4 => some 2
    | 0xD5 => some 3
    | 0xD6 => some 5
    | 0xD7 => some 9
    | 0xD8 => some 17
    | _ => none

/-- How many bytes the length of an extension takes. -/
def extensionWidth? (c : UInt8) : Option Nat :=
  match c.toNat with
  | 0xC7 => some 1
  | 0xC8 => some 2
  | 0xC9 => some 4
  | _ => none

mutual

/-- Passes over one value, nested at most `depth` deep. -/
def skip : Nat → Reader Unit
  | 0 => throw .malformed
  | depth + 1 => do
    let c ← code
    match plainSize? c, extensionWidth? c, ← mapLength? c with
    | some n, _, _ => discard (take n)
    | none, some width, _ =>
      let n ← unsigned width
      discard (take (n + 1))
    | none, none, some n => skipMany depth (2 * n)
    | none, none, none =>
      if (0x90 ≤ c && c ≤ 0x9F) || c == 0xDC || c == 0xDD then
        skipMany depth ((← arrayLength c).getD 0)
      else
        discard (take ((← contentLength c).getD 0))

/-- Passes over `n` values. -/
def skipMany (depth : Nat) : Nat → Reader Unit
  | 0 => return
  | n + 1 => do
    skip depth
    skipMany depth n

end

/-- Reads the fields of a record in the order declared. -/
def fieldsInOrder {ρ : Type} (old : ρ) : List (String × (ρ → Reader ρ)) → Reader ρ
  | [] => return old
  | (_, field) :: rest => do fieldsInOrder (← field old) rest

/-- Reads `n` named fields of a record; unknown ones are passed over. -/
def fieldsByName {ρ : Type} (fields : List (String × (ρ → Reader ρ))) : Nat → ρ → Reader ρ
  | 0, old => return old
  | n + 1, old => do
    let name ← string
    match fields.lookup name with
    | some field => fieldsByName fields n (← field old)
    | none =>
      skip (← get).length.succ
      fieldsByName fields n old

/-- A record: a map by field names, or a list of all fields in order. Nothing, or an empty list, is
the record `zero`. -/
def record {ρ : Type} (zero : ρ) (fields : List (String × (ρ → Reader ρ))) (old : ρ) :
    Reader ρ := do
  let c ← code
  if c = 0xC0 then return zero
  match ← mapLength? c with
  | some n => fieldsByName fields n old
  | none =>
    match ← arrayLength c with
    | none | some 0 => return zero
    | some n =>
      if n = fields.length then fieldsInOrder old fields else throw .malformed

end Reader

end Qll.MessagePack
