/-!
# Dates and times

A date, a time of day, or both, with an offset from universal time if it has one. A literal is
read with a `T`, a `t` or a space in the middle and written with a `T`; the fraction of a second is
cut to nanoseconds and written without the zeros at its end.
-/

namespace Fieldmark

namespace Toml

structure Date where
  year : Nat
  month : Nat
  day : Nat
  deriving DecidableEq, Repr

structure Time where
  hour : Nat
  minute : Nat
  second? : Option Nat
  nanosecond? : Option Nat
  deriving DecidableEq, Repr

/-- A distance from universal time. -/
inductive Offset where
  | zulu
  | minutes (east : Int)
  deriving DecidableEq, Repr

inductive DateTime where
  | date (date : Date)
  | time (time : Time)
  | both (date : Date) (time : Time) (offset? : Option Offset)
  deriving DecidableEq, Repr

/-- A number in decimal digits, with zeros in front up to the given width. -/
def padded (width n : Nat) : String :=
  let digits := Nat.toDigits 10 n
  String.ofList (List.replicate (width - digits.length) '0' ++ digits)

def Date.text (d : Date) : String :=
  padded 4 d.year ++ "-" ++ padded 2 d.month ++ "-" ++ padded 2 d.day

/-- The digits of a fraction of a second, without zeros at the end but for the first digit. -/
def fractionText (nanosecond : Nat) : String :=
  let kept := ((padded 9 nanosecond).toList.reverse.dropWhile (· == '0')).reverse
  if kept.isEmpty then "0" else String.ofList kept

def Time.text (t : Time) : String :=
  padded 2 t.hour ++ ":" ++ padded 2 t.minute ++
    (t.second?.map fun second => ":" ++ padded 2 second).getD "" ++
    (t.nanosecond?.map fun nanosecond => "." ++ fractionText nanosecond).getD ""

def Offset.text : Offset → String
  | zulu => "Z"
  | minutes east =>
    (if east < 0 then "-" else "+") ++ padded 2 (east.natAbs / 60) ++ ":" ++
      padded 2 (east.natAbs % 60)

namespace DateTime

def text : DateTime → String
  | date d => d.text
  | time t => t.text
  | both d t offset? => d.text ++ "T" ++ t.text ++ (offset?.map Offset.text).getD ""

/-! ## Reading -/

def isLeap (year : Nat) : Bool := year % 4 = 0 && (year % 100 ≠ 0 || year % 400 = 0)

def daysIn (year month : Nat) : Nat :=
  if month = 2 then if isLeap year then 29 else 28
  else if month = 4 ∨ month = 6 ∨ month = 9 ∨ month = 11 then 30
  else 31

/-- The number that the first `width` characters spell, if all are digits, and the rest. -/
def digits? (width : Nat) (text : List Char) : Option (Nat × List Char) :=
  let front := text.take width
  if front.length = width ∧ front.all Char.isDigit then
    some (front.foldl (fun n c => n * 10 + (c.toNat - '0'.toNat)) 0, text.drop width)
  else none

/-- The rest behind a character that must stand here. -/
def behind? (expected : Char) : List Char → Option (List Char)
  | [] => none
  | c :: rest => if c = expected then some rest else none

def date? (text : List Char) : Option (Date × List Char) := do
  let (year, rest) ← digits? 4 text
  let (month, rest) ← digits? 2 (← behind? '-' rest)
  let (day, rest) ← digits? 2 (← behind? '-' rest)
  if 1 ≤ month ∧ month ≤ 12 ∧ 1 ≤ day ∧ day ≤ daysIn year month then
    some (⟨year, month, day⟩, rest)
  else none

/-- The nanoseconds of a fraction; digits beyond the ninth are left out. -/
def nanoseconds (digits : List Char) : Nat :=
  (digits ++ List.replicate 9 '0').take 9 |>.foldl (fun n c => n * 10 + (c.toNat - '0'.toNat)) 0

def time? (text : List Char) : Option (Time × List Char) := do
  let (hour, rest) ← digits? 2 text
  let (minute, rest) ← digits? 2 (← behind? ':' rest)
  if 23 < hour ∨ 59 < minute then none
  else
    match behind? ':' rest with
    | none => some (⟨hour, minute, none, none⟩, rest)
    | some seconds =>
      let (second, rest) ← digits? 2 seconds
      if 60 < second then none
      else
        match behind? '.' rest with
        | none => some (⟨hour, minute, some second, none⟩, rest)
        | some fraction =>
          let digits := fraction.takeWhile Char.isDigit
          if digits.isEmpty then none
          else some (⟨hour, minute, some second, some (nanoseconds digits)⟩,
            fraction.dropWhile Char.isDigit)

def offset? : List Char → Option Offset
  | ['Z'] => some .zulu
  | ['z'] => some .zulu
  | sign :: rest => do
    let (hours, rest) ← digits? 2 rest
    let (minutes, rest) ← digits? 2 (← behind? ':' rest)
    if 23 < hours ∨ 59 < minutes ∨ rest ≠ [] then none
    else
      let distance : Int := (hours * 60 + minutes : Nat)
      if sign = '+' then some (.minutes distance)
      else if sign = '-' then some (.minutes (-distance))
      else none
  | [] => none

def isSeparator (c : Char) : Bool := c = 'T' || c = 't' || c = ' '

/-- Reads a literal. -/
def read? (text : List Char) : Option DateTime :=
  match date? text with
  | none =>
    match time? text with
    | some (t, []) => some (.time t)
    | _ => none
  | some (d, []) => some (.date d)
  | some (d, separator :: rest) =>
    if !isSeparator separator then none
    else
      match time? rest with
      | none => none
      | some (t, []) => some (.both d t none)
      | some (t, rest) => (offset? rest).map fun offset => .both d t (some offset)

end DateTime

end Toml

end Fieldmark
