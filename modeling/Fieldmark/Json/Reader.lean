import Fieldmark.Json
import Fieldmark.Json.Flaw

/-!
# Reading JSON

`Json.read` reads a text that holds one document. A text that does not is refused with its first
flaw and the place of that: the line, and the number of bytes in this line up to and with the
offending one. Most flaws are found by looking at a byte before it is taken (`failLooking`), the
others in what has been taken (`failTaken`).
-/

namespace Fieldmark

namespace Json

/-- A flaw and its place. -/
structure Misreading where
  flaw : Flaw
  line : Nat
  column : Nat
  deriving DecidableEq, Repr

def Misreading.message (misreading : Misreading) : String :=
  s!"{misreading.flaw.message} at line {misreading.line} column {misreading.column}"

/-- The rest of a text and its place. -/
structure Cursor where
  rest : List Char
  line : Nat
  column : Nat

namespace Cursor

def ofText (text : List Char) : Cursor := ⟨text, 1, 0⟩

/-- Past a number of bytes of a text; a character that they cut counts with its bytes before the
cut. -/
def pastBytes (line column count : Nat) : List Char → Cursor
  | [] => ⟨[], line, column⟩
  | c :: rest =>
    if count = 0 then ⟨c :: rest, line, column⟩
    else if c = '\n' then pastBytes (line + 1) 0 (count - 1) rest
    else if c.utf8Size ≤ count then
      pastBytes line (column + c.utf8Size) (count - c.utf8Size) rest
    else ⟨rest, line, column + count⟩

def skipBytes (c : Cursor) (count : Nat) : Cursor := pastBytes c.line c.column count c.rest

/-- Past the text `front` that stands here. -/
def past (c : Cursor) (front : List Char) : Cursor :=
  c.skipBytes (front.foldl (fun sum char => sum + char.utf8Size) 0)

/-- A flaw of the text that has been taken. -/
def taken (c : Cursor) (flaw : Flaw) : Misreading := ⟨flaw, c.line, c.column⟩

/-- A flaw of the next byte. -/
def lookingAt (c : Cursor) (flaw : Flaw) : Misreading := (c.skipBytes 1).taken flaw

end Cursor

/-- A part of a document, read from the front of a text. -/
abbrev Reading := StateT Cursor (Except Misreading)

namespace Reading

/-- The next character, not taken. -/
def peek : Reading (Option Char) := fun c => .ok (c.rest.head?, c)

/-- The next character, taken. -/
def take : Reading (Option Char) := fun c => .ok (c.rest.head?, c.past (c.rest.take 1))

/-- All characters of a kind that stand here, not taken. -/
def peekWhile (kind : Char → Bool) : Reading (List Char) :=
  fun c => .ok (c.rest.takeWhile kind, c)

/-- Takes a text that stands here. -/
def skip (front : List Char) : Reading Unit := fun c => .ok ((), c.past front)

def failTaken {α : Type} (flaw : Flaw) : Reading α := fun c => .error (c.taken flaw)

def failLooking {α : Type} (flaw : Flaw) : Reading α := fun c => .error (c.lookingAt flaw)

/-- How much text there is left, which bounds every loop over it. -/
def left : Reading Nat := fun c => .ok (c.rest.length, c)

def isSpace (c : Char) : Bool := c = ' ' || c = '\n' || c = '\t' || c = '\r'

def skipSpace : Reading Unit := do skip (← peekWhile isSpace)

/-- Reads the rest of `true`, `false` or `null`. -/
def literal (value : Json) : List Char → Reading Json
  | [] => pure value
  | expected :: rest => do
    match ← peek with
    | none => failTaken .endInValue
    | some c =>
      if c = expected then
        let _ ← take
        literal value rest
      else failLooking .expectedLiteral

/-! ## Numbers -/

def digitValue (c : Char) : Nat := c.toNat - '0'.toNat

/-- A significand with more digits behind it, as many as it has room for, and those left over. -/
def gather (significand : Nat) : List Char → Nat × List Char
  | [] => (significand, [])
  | digit :: rest =>
    let more := significand * 10 + digitValue digit
    if more ≤ Number.maxSignificand then gather more rest else (significand, digit :: rest)

/-- The binary number of a significand and an exponent. -/
def float (negative : Bool) (significand : Nat) (exponent : Int) : Reading Json :=
  match Number.ofParts negative significand exponent with
  | some x => pure (.number (.float x))
  | none => failTaken .numberOutOfRange

/-- The largest exponent that is read digit by digit. -/
def maxExponent : Nat := Word.count 31 - 1

/-- The exponent with more digits behind it. If it becomes too large, the digits behind the one
that made it so. -/
def exponentOf (exponent : Nat) : List Char → Except (List Char) Nat
  | [] => .ok exponent
  | digit :: rest =>
    let more := exponent * 10 + digitValue digit
    if more ≤ maxExponent then exponentOf more rest else .error rest

/-- A number from its `e` on. An exponent that is too large makes a number out of range, but for
zeros and numbers next to zero. -/
def exponentPart (negative : Bool) (significand : Nat) (exponent : Int) : Reading Json := do
  let _ ← take
  let sign ← peek
  if sign = some '+' ∨ sign = some '-' then
    let _ ← take
  match ← peek with
  | none => failTaken .endInValue
  | some c =>
    if !c.isDigit then failLooking .invalidNumber
    else
      let _ ← take
      let digits ← peekWhile Char.isDigit
      match exponentOf (digitValue c) digits with
      | .ok more =>
        skip digits
        float negative significand (if sign = some '-' then exponent - more else exponent + more)
      | .error rest =>
        if significand ≠ 0 ∧ sign ≠ some '-' then
          skip (digits.take (digits.length - rest.length))
          failTaken .numberOutOfRange
        else
          skip digits
          return .number (.float (.zero negative))

/-- A number behind all its digits. -/
def exponentOrEnd (negative : Bool) (significand : Nat) (exponent : Int) : Reading Json := do
  let next ← peek
  if next = some 'e' ∨ next = some 'E' then exponentPart negative significand exponent
  else float negative significand exponent

/-- A number from its point on. Digits beyond the room of the significand are passed over. -/
def fractionPart (negative : Bool) (significand : Nat) (exponent : Int) : Reading Json := do
  let _ ← take
  let digits ← peekWhile Char.isDigit
  skip digits
  let (all, dropped) := gather significand digits
  if digits = [] then
    match ← peek with
    | some _ => failLooking .invalidNumber
    | none => failLooking .endInValue
  else exponentOrEnd negative all (exponent - (digits.length - dropped.length : Nat))

/-- A number behind its whole part. The digits of this beyond the room of the significand count as
an exponent. -/
def numberBehind (negative : Bool) (significand dropped : Nat) : Reading Json := do
  let next ← peek
  if next = some '.' then fractionPart negative significand dropped
  else if next = some 'e' ∨ next = some 'E' ∨ dropped ≠ 0 then
    exponentOrEnd negative significand dropped
  else return .number (Number.ofDigits negative significand)

/-- A number behind its sign. -/
def number (negative : Bool) : Reading Json := do
  match ← peek with
  | none => failTaken .endInValue
  | some c =>
    if c = '0' then
      let _ ← take
      match ← peek with
      | some next =>
        if next.isDigit then failLooking .invalidNumber else numberBehind negative 0 0
      | none => numberBehind negative 0 0
    else if c.isDigit then
      let _ ← take
      let digits ← peekWhile Char.isDigit
      skip digits
      let (significand, dropped) := gather (digitValue c) digits
      numberBehind negative significand dropped.length
    else failLooking .invalidNumber

/-! ## Strings -/

/-- The value of a hexadecimal digit. -/
def hexValue? (c : Char) : Option Nat :=
  if c.isDigit then some (c.toNat - '0'.toNat)
  else if 'a' ≤ c ∧ c ≤ 'f' then some (c.toNat - 'a'.toNat + 10)
  else if 'A' ≤ c ∧ c ≤ 'F' then some (c.toNat - 'A'.toNat + 10)
  else none

/-- The number of hexadecimal digits, none if another character is among them. -/
def hexNumber? (digits : List Char) : Option Nat :=
  digits.foldlM (fun value c => (hexValue? c).map (value * 16 + ·)) 0

/-- The four digits behind `\u`. They are taken as four bytes, whatever they are. -/
def hexEscape : Reading Nat := fun c =>
  let bytes := (c.rest.take 4).foldl (fun sum char => sum + char.utf8Size) 0
  let behind := c.skipBytes 4
  if bytes < 4 then .error (behind.taken .endInString)
  else
    match hexNumber? (c.rest.take 4) with
    | some n => .ok (n, behind)
    | none => .error (behind.taken .invalidEscape)

/-- Takes a character between the escapes of a surrogate pair. -/
def pairMark (expected : Char) : Reading Unit := do
  match ← peek with
  | none => failTaken .endInString
  | some c =>
    if c = expected then
      let _ ← take
    else failLooking .unpairedSurrogate

def isLeading (n : Nat) : Bool := 0xD800 ≤ n && n ≤ 0xDBFF

def isTrailing (n : Nat) : Bool := 0xDC00 ≤ n && n ≤ 0xDFFF

/-- The character of an escape behind `\u`: one escape, or two that form a surrogate pair. -/
def unicodeEscape : Reading Char := do
  let first ← hexEscape
  if isTrailing first then failTaken .loneSurrogate
  else if isLeading first then
    pairMark '\\'
    pairMark 'u'
    let second ← hexEscape
    if isTrailing second then
      return Char.ofNat (0x10000 + (first - 0xD800) * 0x400 + (second - 0xDC00))
    else failTaken .loneSurrogate
  else return Char.ofNat first

/-- The character that a letter behind a backslash stands for. -/
def escaped? : Char → Option Char
  | '"' => some '"'
  | '\\' => some '\\'
  | '/' => some '/'
  | 'b' => some '\x08'
  | 'f' => some '\x0c'
  | 'n' => some '\n'
  | 'r' => some '\r'
  | 't' => some '\t'
  | _ => none

/-- The character of an escape behind its backslash. -/
def escape : Reading Char := do
  match ← peek with
  | none => failTaken .endInString
  | some letter =>
    match escaped? letter with
    | some c =>
      let _ ← take
      return c
    | none =>
      if letter = 'u' then
        let _ ← take
        unicodeEscape
      else failLooking .invalidEscape

/-- A string behind its opening quote. -/
def stringBehind : Nat → Reading (List Char)
  | 0 => failTaken .endInString
  | fuel + 1 => do
    match ← take with
    | none => failTaken .endInString
    | some '"' => return []
    | some '\\' =>
      let c ← escape
      return c :: (← stringBehind fuel)
    | some c =>
      if c.toNat < 0x20 then failTaken .controlCharacter
      else return c :: (← stringBehind fuel)

def string : Reading String := do
  return String.ofList (← stringBehind ((← left) + 1))

/-! ## Lists, objects and documents -/

/-- The items of a list behind its bracket or behind an item. -/
def items (element : Reading Json) (first : Bool) : Nat → Reading (List Json)
  | 0 => failLooking .endInList
  | fuel + 1 => do
    skipSpace
    match ← peek with
    | none => failLooking .endInList
    | some ']' =>
      let _ ← take
      return []
    | some c =>
      if first then
        let item ← element
        return item :: (← items element false fuel)
      else if c = ',' then
        let _ ← take
        skipSpace
        match ← peek with
        | none => failLooking .endInValue
        | some ']' => failLooking .trailingComma
        | some _ =>
          let item ← element
          return item :: (← items element false fuel)
      else failLooking .expectedListCommaOrEnd

/-- A member of an object from the quote of its name on. -/
def member (element : Reading Json) : Reading (String × Json) := do
  let _ ← take
  let name ← string
  skipSpace
  match ← peek with
  | none => failLooking .endInObject
  | some ':' =>
    let _ ← take
    return (name, ← element)
  | some _ => failLooking .expectedColon

/-- The members of an object behind its brace or behind a member. -/
def members (element : Reading Json) (first : Bool) : Nat → Reading (List (String × Json))
  | 0 => failLooking .endInObject
  | fuel + 1 => do
    skipSpace
    match ← peek with
    | none => failLooking .endInObject
    | some '}' =>
      let _ ← take
      return []
    | some c =>
      if first then
        if c = '"' then
          let named ← member element
          return named :: (← members element false fuel)
        else failLooking .keyNotString
      else if c = ',' then
        let _ ← take
        skipSpace
        match ← peek with
        | none => failLooking .endInValue
        | some '}' => failLooking .trailingComma
        | some '"' =>
          let named ← member element
          return named :: (← members element false fuel)
        | some _ => failLooking .keyNotString
      else failLooking .expectedObjectCommaOrEnd

/-- A document with at most `depth` lists and objects inside each other. -/
def document (depth : Nat) : Reading Json := do
  skipSpace
  match ← peek with
  | none => failLooking .endInValue
  | some 'n' => let _ ← take; literal .null ['u', 'l', 'l']
  | some 't' => let _ ← take; literal (.bool true) ['r', 'u', 'e']
  | some 'f' => let _ ← take; literal (.bool false) ['a', 'l', 's', 'e']
  | some '"' => let _ ← take; return .string (← string)
  | some '-' => let _ ← take; number true
  | some '[' =>
    match depth with
    | 0 => failLooking .tooDeep
    | depth + 1 =>
      let _ ← take
      return .array (← items (document depth) true ((← left) + 1))
  | some '{' =>
    match depth with
    | 0 => failLooking .tooDeep
    | depth + 1 =>
      let _ ← take
      return .object (← members (document depth) true ((← left) + 1))
  | some c => if c.isDigit then number false else failLooking .expectedValue

/-- A document and nothing but space around it. -/
def whole (depth : Nat) : Reading Json := do
  let json ← document depth
  skipSpace
  match ← peek with
  | none => return json
  | some _ => failLooking .trailingCharacters

end Reading

/-- Lists and objects may be inside each other this deep. -/
def maxDepth : Nat := 127

/-- Reads a text as a document. -/
def read (text : List Char) (depth : Nat) : Except Misreading Json :=
  match Reading.whole depth (.ofText text) with
  | .ok (json, _) => .ok json
  | .error misreading => .error misreading

end Json

end Fieldmark
