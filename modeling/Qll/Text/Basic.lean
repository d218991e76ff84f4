/-!
# Small operations on text

Padding, hexadecimal numerals and the case rules that keyword matching needs. Widths are counted
in code points.
-/

namespace Qll.Text

/-- `n` copies of `c`. -/
def replicate (n : Nat) (c : Char) : String :=
  String.ofList (List.replicate n c)

/-- Blanks in front of `s` until it is `width` code points long. -/
def padLeft (width : Nat) (s : String) : String :=
  replicate (width - s.length) ' ' ++ s

/-- Blanks after `s` until it is `width` code points long. -/
def padRight (width : Nat) (s : String) : String :=
  s ++ replicate (width - s.length) ' '

/-- The lower-case hexadecimal digits of `n`, without leading zeros. -/
def hex (n : Nat) : String :=
  String.ofList (Nat.toDigits 16 n)

/-- The hexadecimal digits of `n`, at least `width` of them. -/
def hexPadded (width n : Nat) : String :=
  let digits := hex n
  replicate (width - digits.length) '0' ++ digits

/-- The decimal digits of `n`, at least `width` of them. -/
def decimalPadded (width n : Nat) : String :=
  let digits := Nat.repr n
  replicate (width - digits.length) '0' ++ digits

/-- The numeral of a signed number: a minus sign stands in front of a negative one. -/
def decimal (i : Int) : String :=
  match i with
  | .ofNat n => Nat.repr n
  | .negSucc n => "-" ++ Nat.repr (n + 1)

/-- The simple lower case of a letter, for letters whose lower case is ASCII: besides the ASCII
capitals these are the Kelvin sign and the dotted capital I. -/
def lowerChar (c : Char) : Char :=
  if c.val = 0x212A then 'k'
  else if c.val = 0x130 then 'i'
  else c.toLower

/-- A text in lower case, for comparing it with an ASCII keyword. -/
def lower (s : String) : String :=
  s.map lowerChar

/-- The representative of a letter under simple case folding, for letters that fold to an ASCII
letter: besides ASCII these are the long s and the Kelvin sign. -/
def foldChar (c : Char) : Char :=
  if c.val = 0x17F then 'S'
  else if c.val = 0x212A then 'K'
  else c.toUpper

/-- Equality up to simple case folding, for an ASCII right-hand side. -/
def equalFold (s t : String) : Bool :=
  s.map foldChar == t.map foldChar

/-- White space: the six ASCII blanks, next line, and the separators of Unicode. -/
def isSpace (c : Char) : Bool :=
  let n := c.val
  (9 ≤ n && n ≤ 13) || n == 0x20 || n == 0x85 || n == 0xA0 || n == 0x1680 ||
    (0x2000 ≤ n && n ≤ 0x200A) || n == 0x2028 || n == 0x2029 || n == 0x202F || n == 0x205F ||
    n == 0x3000

/-- The text without the white space at its two ends. -/
def trim (s : String) : String :=
  let front := s.toList.dropWhile isSpace
  String.ofList (front.reverse.dropWhile isSpace).reverse

/-- Whether `needle` is an initial part of `s`. -/
def startsWith (s needle : String) : Bool :=
  needle.toList.isPrefixOf s.toList

/-- Whether `needle` is a final part of `s`. -/
def endsWith (s needle : String) : Bool :=
  needle.toList.isSuffixOf s.toList

/-- The items with `separator` between them. -/
def join (separator : String) : List String → String
  | [] => ""
  | [s] => s
  | s :: rest => s ++ separator ++ join separator rest

/-- Puts a text into a list in lexical order, in front of those that do not come before it. -/
def insertInOrder (s : String) : List String → List String
  | [] => [s]
  | t :: rest => if t < s then t :: insertInOrder s rest else s :: t :: rest

/-- The texts of a list in lexical order. -/
def inOrder (texts : List String) : List String := texts.foldr insertInOrder []

/-- Cuts a list of characters at each occurrence of `separator`; there is always a first part. -/
def splitChars (separator : Char) : List Char → List (List Char)
  | [] => [[]]
  | c :: rest =>
    if c = separator then [] :: splitChars separator rest
    else
      match splitChars separator rest with
      | [] => [[c]]
      | part :: parts => (c :: part) :: parts

/-- The parts of `s` between the occurrences of `separator`. -/
def splitOn (separator : Char) (s : String) : List String :=
  (splitChars separator s.toList).map String.ofList

/-! ## How far two texts are apart

The distance of two sequences is the least number of items to insert, drop or replace on the way
from one to the other.
-/

/-- The next row of the table of distances: `corner` is the distance to the left of the old row's
head and `left` the one just found. -/
def distanceRow {α : Type} [BEq α] (a : α) : List α → List Nat → Nat → Nat → List Nat
  | b :: bs, up :: row, corner, left =>
    let here := if a == b then corner else 1 + min corner (min up left)
    here :: distanceRow a bs row up here
  | _, _, _, _ => []

/-- The last row of the table: the distances of all of `s` to the initial parts of `t`, given the
distances of the first `n` items. -/
def distanceRows {α : Type} [BEq α] (t : List α) : List α → Nat → List Nat → List Nat
  | [], _, row => row
  | a :: s, n, row => distanceRows t s (n + 1) ((n + 1) :: distanceRow a t (row.drop 1) n (n + 1))

/-- The distance of two sequences. -/
def distance {α : Type} [BEq α] (s t : List α) : Nat :=
  (distanceRows t s 0 (List.range (t.length + 1))).getLast?.getD 0

example : distance "kitten".toList "sitting".toList = 3 := by decide

end Qll.Text
