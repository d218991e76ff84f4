/-!
# Tables of code point ranges

A property of code points is stored as an ascending array of closed ranges. The array is written
as text: items are separated by single blanks or line breaks, and each item is one hexadecimal
number or two joined by a hyphen.
-/

namespace Qll.Text

/-- Closed ranges of numbers, ascending and disjoint. -/
abbrev Ranges := Array (Nat × Nat)

/-- The value of a hexadecimal digit; other characters count as zero. -/
def hexDigit (c : Char) : Nat :=
  if c.isDigit then c.toNat - 48
  else if 'a' ≤ c ∧ c ≤ 'f' then c.toNat - 87
  else if 'A' ≤ c ∧ c ≤ 'F' then c.toNat - 55
  else 0

/-- Whether a character is a hexadecimal digit. -/
def isHexDigit (c : Char) : Bool :=
  c.isDigit || ('a' ≤ c && c ≤ 'f') || ('A' ≤ c && c ≤ 'F')

/-- The number a row of hexadecimal digits stands for. -/
def hexNumber (digits : List Char) : Nat :=
  digits.foldl (fun n c => n * 16 + hexDigit c) 0

namespace Ranges

/-- One pass over the written table: the ranges so far, the lower end when a hyphen was read, and
the number being read. -/
def scan : List Char → Ranges → Option Nat → Nat → Ranges
  | [], done, low, n => done.push (low.getD n, n)
  | c :: rest, done, low, n =>
    if c = ' ' ∨ c = '\n' then scan rest (done.push (low.getD n, n)) none 0
    else if c = '-' then scan rest done (some n) 0
    else scan rest done low (n * 16 + hexDigit c)

/-- The table written in `text`. -/
def ofText (text : String) : Ranges :=
  scan text.toList #[] none 0

/-- Binary search between the positions `low` and `high`; each step halves the gap, so as many
steps as the table is long are enough. -/
def search (table : Ranges) (n : Nat) : Nat → Nat → Nat → Bool
  | 0, _, _ => false
  | steps + 1, low, high =>
    if low < high then
      let middle := (low + high) / 2
      match table[middle]? with
      | none => false
      | some (first, last) =>
        if n < first then search table n steps low middle
        else if last < n then search table n steps (middle + 1) high
        else true
    else false

/-- Whether some range holds `n`. -/
def contains (table : Ranges) (n : Nat) : Bool :=
  search table n (table.size + 1) 0 table.size

end Ranges

end Qll.Text
