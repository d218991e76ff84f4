import Qll.Text.Basic

/-!
# Binary fractions

A finite floating-point number is exactly `± mantissa · 2 ^ exponent`. Its decimal text with a fixed
number of places is rounded from that exact value, so no digit depends on an intermediate rounding.
-/

namespace Qll.Number

/-! ## Rounding quotients

A quotient of natural numbers is rounded to the nearest whole number; a rule says which way an
exact half goes.
-/

/-- Which neighbour an exact half is rounded to. -/
inductive Tie
  | toEven
  | awayFromZero
  deriving DecidableEq, Inhabited

/-- Whether a half above `quotient` is rounded up. -/
def Tie.roundsUp : Tie → Nat → Bool
  | toEven, quotient => quotient % 2 == 1
  | awayFromZero, _ => true

/-- The whole number nearest to `num / den`. -/
def roundDiv (num den : Nat) (tie : Tie) : Nat :=
  let quotient := num / den
  let twice := 2 * (num % den)
  if den < twice ∨ (twice = den ∧ tie.roundsUp quotient) then quotient + 1 else quotient

/-! ## Exact values -/

/-- The number `± mantissa · 2 ^ exponent`; zero has a sign too. -/
structure Binary where
  negative : Bool
  mantissa : Nat
  exponent : Int
  deriving DecidableEq, Inhabited

namespace Binary

/-- The exact value of a finite floating-point number: one bit of sign, eleven of exponent, and 52
of the mantissa, whose leading bit is left out unless the exponent is zero. -/
def ofFloat (x : Float) : Binary :=
  let bits := x.toBits.toNat
  let leading := Nat.pow 2 52
  let field := bits / leading % 2048
  let fraction := bits % leading
  { negative := bits / Nat.pow 2 63 == 1,
    mantissa := if field = 0 then fraction else leading + fraction,
    exponent := (max field 1 : Nat) - 1075 }

/-- The magnitude of a number times `scale`, rounded to a whole number. -/
def scaled (b : Binary) (scale : Nat) (tie : Tie) : Nat :=
  match b.exponent with
  | .ofNat e => b.mantissa * Nat.pow 2 e * scale
  | .negSucc e => roundDiv (b.mantissa * scale) (Nat.pow 2 (e + 1)) tie

/-- The decimal text with the given number of places, a half going to the even neighbour. A
negative number keeps its sign even where all digits are zeros. -/
def fixed (places : Nat) (b : Binary) : String :=
  let unit := Nat.pow 10 places
  let n := b.scaled unit .toEven
  (if b.negative then "-" else "") ++ Nat.repr (n / unit) ++
    (if places = 0 then "" else "." ++ Text.decimalPadded places (n % unit))

end Binary

/-- The decimal text of a finite floating-point number with the given number of places. -/
def fixed (places : Nat) (x : Float) : String := (Binary.ofFloat x).fixed places

/-- The whole number nearest to a floating-point number, a half going away from zero; a negative
number gives zero. -/
def nearest (x : Float) : Nat :=
  let b := Binary.ofFloat x
  if b.negative then 0 else b.scaled 1 .awayFromZero

/-- The milliseconds of a number of nanoseconds. -/
def milliseconds (nanos : Int) : Float := Float.ofInt nanos / 1000000

end Qll.Number
