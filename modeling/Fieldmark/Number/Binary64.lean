/-!
# Binary floating point numbers of 64 bits

A finite number of the format is a sign, a mantissa below 2^53 and an exponent of two from -1074
to 971. Every operation here is exact on natural numbers and rounded once at its end, to the
nearest number of the format, a tie to the even mantissa. A result beyond the largest number is
none.
-/

namespace Fieldmark

/-- `numerator / denominator` to the nearest natural number, a half to the even one. -/
def divideNearest (numerator denominator : Nat) : Nat :=
  let q := numerator / denominator
  let r := numerator % denominator
  if 2 * r > denominator ∨ (2 * r = denominator ∧ q % 2 = 1) then q + 1 else q

/-- The number `mantissa * 2 ^ exponent`, negated if `negative`. Zeros have a sign too. -/
structure Binary64 where
  negative : Bool
  mantissa : Nat
  exponent : Int
  deriving DecidableEq, Repr

namespace Binary64

/-- The exponent of the smallest numbers. -/
def minExponent : Int := -1074

/-- The exponent of the largest numbers. -/
def maxExponent : Int := 971

/-- Numbers with more than the least exponent have at least this mantissa, and less than twice. -/
def leastNormal : Nat := Nat.pow 2 52

def zero (negative : Bool) : Binary64 := ⟨negative, 0, minExponent⟩

/-- The exponent of two for which `numerator / denominator` is from 1 up to 2 times its power. -/
def scaleOf (numerator denominator : Nat) : Int :=
  let guess : Int := (Nat.log2 numerator : Int) - (Nat.log2 denominator : Int)
  let reached :=
    if 0 ≤ guess then denominator * Nat.pow 2 guess.toNat ≤ numerator
    else denominator ≤ numerator * Nat.pow 2 (-guess).toNat
  if reached then guess else guess - 1

/-- The number of the format nearest to a fraction. -/
def ofFraction (negative : Bool) (numerator denominator : Nat) : Option Binary64 :=
  if numerator = 0 then some (zero negative)
  else
    let exponent := max (scaleOf numerator denominator - 52) minExponent
    let mantissa :=
      if 0 ≤ exponent then divideNearest numerator (denominator * Nat.pow 2 exponent.toNat)
      else divideNearest (numerator * Nat.pow 2 (-exponent).toNat) denominator
    let number : Binary64 :=
      if mantissa = 2 * leastNormal then ⟨negative, leastNormal, exponent + 1⟩
      else ⟨negative, mantissa, exponent⟩
    if maxExponent < number.exponent then none else some number

def ofNat (negative : Bool) (n : Nat) : Option Binary64 := ofFraction negative n 1

/-- The magnitude of a number as a fraction. -/
def fraction (x : Binary64) : Nat × Nat :=
  if 0 ≤ x.exponent then (x.mantissa * Nat.pow 2 x.exponent.toNat, 1)
  else (x.mantissa, Nat.pow 2 (-x.exponent).toNat)

def isZero (x : Binary64) : Bool := x.mantissa == 0

/-- The rounded product; the sign is that of the first factor. -/
def scaleUp (x factor : Binary64) : Option Binary64 :=
  let (a, b) := x.fraction
  let (c, d) := factor.fraction
  ofFraction x.negative (a * c) (b * d)

/-- The rounded quotient; the sign is that of the dividend. -/
def scaleDown (x divisor : Binary64) : Option Binary64 :=
  let (a, b) := x.fraction
  let (c, d) := divisor.fraction
  ofFraction x.negative (a * d) (b * c)

end Binary64

end Fieldmark
