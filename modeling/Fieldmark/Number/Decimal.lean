import Fieldmark.Number.Binary64

/-!
# Decimals of binary numbers

The decimal that stands for a binary number is the one with the fewest digits among those that
round to it, and of these the nearest one (`Decimal.shortest`). It is found by trial on coarser to
finer decimal grids: on each, only the two neighbours of the number can be near enough.
-/

namespace Fieldmark

/-- The number `digits * 10 ^ exponent`. -/
structure Decimal where
  digits : Nat
  exponent : Int
  deriving DecidableEq, Repr

namespace Decimal

/-- The digits of a natural number, the first one first. -/
def digitsOf (n : Nat) : List Char := Nat.toDigits 10 n

/-- The binary number nearest to a decimal. The two bounds spare the arithmetic on decimals beyond
all binary numbers, which lie between 10 ^ -400 and 10 ^ 400. -/
def toBinary64 (negative : Bool) (d : Decimal) : Option Binary64 :=
  if d.digits = 0 then some (.zero negative)
  else
    let point := (digitsOf d.digits).length + d.exponent
    if 400 < point then none
    else if point < -400 then some (.zero negative)
    else if 0 ≤ d.exponent then
      Binary64.ofFraction negative (d.digits * Nat.pow 10 d.exponent.toNat) 1
    else Binary64.ofFraction negative d.digits (Nat.pow 10 (-d.exponent).toNat)

/-- Without the zeros at the end of its digits; `fuel` bounds their number. -/
def trim (fuel : Nat) (d : Decimal) : Decimal :=
  match fuel with
  | 0 => d
  | fuel + 1 => if d.digits % 10 = 0 then trim fuel ⟨d.digits / 10, d.exponent + 1⟩ else d

/-- The decimals that round to a positive number, as an interval of multiples of
`1 / denominator`, with the number itself. -/
structure Neighbourhood where
  low : Nat
  middle : Nat
  high : Nat
  denominator : Nat
  /-- Whether the ends of the interval belong to it. -/
  closed : Bool

/-- Halfway to the number below and to the number above. Below a power of two numbers lie twice as
dense. -/
def neighbourhood (x : Binary64) : Neighbourhood :=
  let isPower := x.mantissa = Binary64.leastNormal ∧ x.exponent ≠ Binary64.minExponent
  let below := if isPower then 1 else 2
  let exponent := x.exponent - 2
  let unit := Nat.pow 2 exponent.toNat
  { low := (4 * x.mantissa - below) * unit
    middle := 4 * x.mantissa * unit
    high := (4 * x.mantissa + 2) * unit
    denominator := Nat.pow 2 (-exponent).toNat
    closed := x.mantissa % 2 = 0 }

/-- Whether `digits * 10 ^ exponent` lies in a neighbourhood. -/
def Neighbourhood.contains (n : Neighbourhood) (d : Decimal) : Bool :=
  let value := d.digits * Nat.pow 10 d.exponent.toNat * n.denominator
  let scale := Nat.pow 10 (-d.exponent).toNat
  if n.closed then n.low * scale ≤ value ∧ value ≤ n.high * scale
  else n.low * scale < value ∧ value < n.high * scale

/-- The multiple of `10 ^ exponent` that lies in a neighbourhood nearest to its middle, the even one
of two that are equally near. -/
def Neighbourhood.onGrid? (n : Neighbourhood) (exponent : Int) : Option Decimal :=
  let step := Nat.pow 10 exponent.toNat * n.denominator
  let value := n.middle * Nat.pow 10 (-exponent).toNat
  let lower : Decimal := ⟨value / step, exponent⟩
  let upper : Decimal := ⟨value / step + 1, exponent⟩
  match n.contains lower, n.contains upper with
  | true, true => some ⟨divideNearest value step, exponent⟩
  | true, false => some lower
  | false, true => some upper
  | false, false => none

/-- The first hit on `count` grids from `10 ^ exponent` down. -/
def Neighbourhood.search (n : Neighbourhood) (exponent : Int) : Nat → Option Decimal
  | 0 => none
  | count + 1 =>
    match n.onGrid? exponent with
    | some d => some d
    | none => n.search (exponent - 1) count

/-- The exponent of a power of ten above a number, by at most a few places. -/
def gridAbove (x : Binary64) : Int :=
  ((x.exponent + (Nat.log2 x.mantissa : Int)) * 30103) / 100000 + 2

/-- The shortest decimal that rounds to the magnitude of a number. Seventeen digits always do; were
no grid to have a hit, the exact decimal would stand. -/
def shortest (x : Binary64) : Decimal :=
  if x.isZero then ⟨0, 0⟩
  else
    let n := neighbourhood x
    match n.search (gridAbove x) 24 with
    | some d => trim 20 d
    | none =>
      let places := (-x.exponent).toNat
      ⟨x.mantissa * Nat.pow 2 x.exponent.toNat * Nat.pow 5 places, -places⟩

end Decimal

/-- How a format lays out the digits of a number. -/
structure NumberStyle where
  /-- Numbers from 10 ^ `lowest` up to below 10 ^ `highest` are written without an exponent; all
  are, if there are no bounds. -/
  bounds? : Option (Int × Int)
  /-- Whether a whole number without an exponent is written with `.0`. -/
  wholeFraction : Bool

namespace NumberStyle

/-- Digits with the decimal point behind the first `point` of them. -/
def positional (style : NumberStyle) (digits : List Char) (point : Int) : List Char :=
  let count : Int := digits.length
  if point ≤ 0 then '0' :: '.' :: (List.replicate (-point).toNat '0' ++ digits)
  else if point < count then digits.take point.toNat ++ '.' :: digits.drop point.toNat
  else digits ++ List.replicate (point - count).toNat '0' ++
    (if style.wholeFraction then ['.', '0'] else [])

/-- Digits with the decimal point behind the first of them, and the exponent with its sign. -/
def scientific (digits : List Char) (point : Int) : List Char :=
  let exponent := point - 1
  let fraction := match digits with
    | first :: second :: rest => first :: '.' :: second :: rest
    | short => short
  let sign := if 0 ≤ exponent then '+' else '-'
  fraction ++ 'e' :: sign :: Decimal.digitsOf exponent.natAbs

/-- The text of a number. -/
def text (style : NumberStyle) (x : Binary64) : String :=
  let d := Decimal.shortest x
  let digits := Decimal.digitsOf d.digits
  let point := digits.length + d.exponent
  let inside := match style.bounds? with
    | none => true
    | some (lowest, highest) => x.isZero || (lowest < point && point ≤ highest)
  let magnitude :=
    if inside then style.positional digits (if x.isZero then 1 else point)
    else scientific digits point
  String.ofList (if x.negative then '-' :: magnitude else magnitude)

end NumberStyle

end Fieldmark
