import Fieldmark.Number.Decimal
import Fieldmark.Number.Word

/-!
# Numbers of JSON

An integer literal of up to 64 bits is kept as it is. Every other number is binary, made in two
roundings: that of its first digits, as many as fit into 64 bits, and that of the product or
quotient with a power of ten. A literal may thus come out one unit beside the nearest number.
-/

namespace Fieldmark

namespace Json

inductive Number where
  | integer (value : Int)
  | float (value : Binary64)
  deriving DecidableEq, Repr

/-- Numbers from 0.00001 up to below 10 ^ 16 are written without an exponent, whole ones with
`.0`. -/
def floatStyle : NumberStyle := ⟨some (-5, 16), true⟩

namespace Number

def text : Number → String
  | integer value => toString value
  | float value => floatStyle.text value

/-- The largest whole number that digits are gathered in. -/
def maxSignificand : Nat := Word.count 64 - 1

/-- The largest power of ten that is a binary number. -/
def maxPower : Nat := 308

/-- The binary number nearest to a power of ten. -/
def power (exponent : Nat) : Binary64 :=
  (Binary64.ofNat false (Nat.pow 10 exponent)).getD (.zero false)

/-- A number times `10 ^ (-exponent)`. Beyond the powers that are binary numbers it is divided
several times; that leaves zero before long, so `fuel` of a few rounds is plenty. -/
def divideByPower (x : Binary64) (exponent : Nat) : Nat → Option Binary64
  | 0 => some (.zero x.negative)
  | fuel + 1 =>
    if exponent ≤ maxPower then x.scaleDown (power exponent)
    else if x.isZero then some x
    else (x.scaleDown (power maxPower)).bind fun y => divideByPower y (exponent - maxPower) fuel

/-- The number `significand * 10 ^ exponent`, none if it is beyond the largest one. -/
def ofParts (negative : Bool) (significand : Nat) (exponent : Int) : Option Binary64 :=
  (Binary64.ofNat negative significand).bind fun x =>
    if exponent < 0 then divideByPower x exponent.natAbs 4
    else if exponent.natAbs ≤ maxPower then x.scaleUp (power exponent.natAbs)
    else if x.isZero then some x
    else none

/-- The number of an integer literal whose digits fit into 64 bits. A negative zero and what is
below the least integer of 64 bits are binary. -/
def ofDigits (negative : Bool) (significand : Nat) : Number :=
  if !negative then .integer significand
  else if 0 < significand ∧ significand ≤ Word.count 63 then .integer (-(significand : Int))
  else .float ((Binary64.ofNat true significand).getD (.zero true))

end Number

end Json

end Fieldmark
