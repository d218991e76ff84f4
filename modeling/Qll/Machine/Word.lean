import Qll.Text.Basic

/-!
# Machine words and word counts

Memory is addressed by 32-bit words. Sizes and offsets are counted in words with 64-bit signed
integers; they are kept as `Int` and brought back into that range after each operation.
-/

namespace Qll.Machine

/-- A machine word. -/
abbrev Word := UInt32

namespace Word

/-- The word with the value `n`, for a number that fits one. -/
def ofInt? (n : Int) : Option Word :=
  if 0 ≤ n ∧ n < 4294967296 then some (UInt32.ofNat n.toNat) else none

/-- What is said of a number that fits no word. -/
def misfit (n : Int) : String :=
  Text.decimal n ++ " does not fit in a machine word: out of range"

/-- A word as eight hexadecimal digits behind `0x`. -/
def fixedText (w : Word) : String :=
  "0x" ++ Text.hexPadded 8 w.toNat

/-- A word as hexadecimal digits behind `0x`, without leading zeros. -/
def shortText (w : Word) : String :=
  "0x" ++ Text.hex w.toNat

end Word

/-- The 64-bit signed integer congruent to `n`. -/
def wrap (n : Int) : Int :=
  Int.bmod n 18446744073709551616

/-- A number inside the 64-bit signed range is not changed by `wrap`. -/
theorem wrap_of_bounds {n : Int} (low : -9223372036854775808 ≤ n)
    (high : n < 9223372036854775808) : wrap n = n :=
  Int.bmod_eq_of_le (by omega) (by omega)

/-- Sums of word counts. -/
def addExtent (a b : Int) : Int := wrap (a + b)

/-- Products of word counts. -/
def mulExtent (a b : Int) : Int := wrap (a * b)

/-- Fault values left in the return register when a compiled-in check fails. -/
def faultNull : Word := 0xfffffff0

/-- Left in the return register by an index outside its bounds. -/
def faultBounds : Word := 0xfffffff1

/-- Left in the return register by a length above its capacity. -/
def faultCapacity : Word := 0xfffffff2

end Qll.Machine
