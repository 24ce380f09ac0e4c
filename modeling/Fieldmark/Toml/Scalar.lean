import Fieldmark.Toml

/-!
# Bare scalars of TOML

The scalars that stand without quotes: booleans, integers, reals, dates and times. Each is one
word, and `scalar?` reads the whole of it. An underscore may stand between two digits. A number
written with zeros in front is none, nor is one beyond the largest binary number.
-/

namespace Fieldmark

namespace Toml

/-- A run of digits of a kind without the underscores between them. -/
def digitRun? (isDigit : Char → Bool) : List Char → Option (List Char)
  | [] => none
  | [c] => if isDigit c then some [c] else none
  | c :: '_' :: rest => if isDigit c then (digitRun? isDigit rest).map (c :: ·) else none
  | c :: next :: rest =>
    if isDigit c then (digitRun? isDigit (next :: rest)).map (c :: ·) else none

def digitOf (c : Char) : Nat :=
  if c.isDigit then c.toNat - '0'.toNat else c.toLower.toNat - 'a'.toNat + 10

def numberOf (base : Nat) (digits : List Char) : Nat :=
  digits.foldl (fun n c => n * base + digitOf c) 0

/-- A whole number in digits of a base. -/
def inBase? (base : Nat) (isDigit : Char → Bool) (text : List Char) : Option Int :=
  (digitRun? isDigit text).map fun digits => numberOf base digits

def isHexDigit (c : Char) : Bool := c.isDigit || ('a' ≤ c && c ≤ 'f') || ('A' ≤ c && c ≤ 'F')

def isOctalDigit (c : Char) : Bool := '0' ≤ c && c ≤ '7'

def isBinaryDigit (c : Char) : Bool := c = '0' || c = '1'

/-- The sign in front of a number, if there is one: whether it is a minus, and the rest. -/
def signed : List Char → Bool × List Char
  | '-' :: rest => (true, rest)
  | '+' :: rest => (false, rest)
  | text => (false, text)

/-- Decimal digits without a zero in front of others. -/
def wholePart? (text : List Char) : Option (List Char) :=
  (digitRun? Char.isDigit text).bind fun
    | '0' :: _ :: _ => none
    | digits => some digits

def integer? (text : List Char) : Option Int :=
  match text with
  | '0' :: 'x' :: digits => inBase? 16 isHexDigit digits
  | '0' :: 'o' :: digits => inBase? 8 isOctalDigit digits
  | '0' :: 'b' :: digits => inBase? 2 isBinaryDigit digits
  | _ =>
    let (negative, magnitude) := signed text
    (wholePart? magnitude).map fun digits =>
      if negative then -(numberOf 10 digits : Int) else numberOf 10 digits

/-- What stands before and behind the first character of a kind. -/
def splitAt? (kind : Char → Bool) (text : List Char) : List Char × Option (List Char) :=
  match text.dropWhile (!kind ·) with
  | [] => (text, none)
  | _ :: behind => (text.takeWhile (!kind ·), some behind)

/-- The exponent of ten behind the `e` of a real, zero without one. -/
def exponent? : Option (List Char) → Option Int
  | none => some 0
  | some text =>
    let (negative, magnitude) := signed text
    (digitRun? Char.isDigit magnitude).map fun digits =>
      if negative then -(numberOf 10 digits : Int) else numberOf 10 digits

/-- The digits behind the point of a real, none without one. -/
def fraction? : Option (List Char) → Option (List Char)
  | none => some []
  | some text => digitRun? Char.isDigit text

def real? (text : List Char) : Option Real :=
  let (negative, magnitude) := signed text
  if magnitude = ['i', 'n', 'f'] then some (.infinite negative)
  else if magnitude = ['n', 'a', 'n'] then some .notANumber
  else do
    let (mantissa, exponentText) := splitAt? (fun c => c = 'e' || c = 'E') magnitude
    let (wholeText, fractionText) := splitAt? (· = '.') mantissa
    let whole ← wholePart? wholeText
    let fraction ← fraction? fractionText
    let exponent ← exponent? exponentText
    let decimal : Decimal := ⟨numberOf 10 (whole ++ fraction), exponent - fraction.length⟩
    (decimal.toBinary64 negative).map .finite

/-- Reads a bare scalar. -/
def scalar? (text : List Char) : Option Toml :=
  if text = ['t', 'r', 'u', 'e'] then some (.boolean true)
  else if text = ['f', 'a', 'l', 's', 'e'] then some (.boolean false)
  else
    match integer? text with
    | some value => some (.integer value)
    | none =>
      match DateTime.read? text with
      | some value => some (.dateTime value)
      | none => (real? text).map .real

end Toml

end Fieldmark
