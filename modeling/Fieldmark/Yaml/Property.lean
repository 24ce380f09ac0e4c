import Fieldmark.Yaml.Folding
import Fieldmark.Yaml.Token

/-!
# Anchors, aliases, tags and directives

The names that stand before a node or above a document.
-/

namespace Fieldmark

namespace Yaml

namespace Reading

/-- Characters that may follow a name directly. -/
def endsName (next : Option Char) : Bool :=
  endsWord next || (next.map fun c =>
    c = '?' || c = ':' || c = ',' || c = ']' || c = '}' || c = '%' || c = '@' || c = '`').getD false

/-- The name of an anchor or alias behind its mark. -/
def anchorName : Reading String := do
  skip 1
  let name ← takeWhile isNameChar
  if name.isEmpty ∨ !endsName (← peek) then failure
  return String.ofList name

/-! ## Tags -/

/-- A character of a tag that stands for itself. The last three may stand in a tag between angle
brackets only. -/
def isTagChar (inBrackets : Bool) (c : Char) : Bool :=
  isNameChar c || c = ';' || c = '/' || c = '?' || c = ':' || c = '@' || c = '&' || c = '=' ||
    c = '+' || c = '$' || c = '.' || c = '!' || c = '~' || c = '*' || c = '\'' || c = '(' ||
    c = ')' || (inBrackets && (c = ',' || c = '[' || c = ']'))

/-- The number of bytes of a character, by its first one. -/
def widthOf? (byte : Nat) : Option Nat :=
  if byte < 0x80 then some 1
  else if byte / 0x20 = 0x6 then some 2
  else if byte / 0x10 = 0xE then some 3
  else if byte / 0x08 = 0x1E then some 4
  else none

/-- One byte as `%` and two digits. -/
def escapedByte : Reading Nat := do
  if ← takeChar '%' then hexNumber 2 else failure

/-- Further bytes of an escaped character. -/
def escapedRest (value : Nat) : Nat → Reading Nat
  | 0 => pure value
  | count + 1 => do
    let byte ← escapedByte
    if byte / 0x40 ≠ 2 then failure
    escapedRest (value * 0x40 + byte % 0x40) count

/-- A character written as the bytes of its encoding. -/
def escapedChar : Reading Char := do
  let byte ← escapedByte
  let width ← (widthOf? byte : Option Nat)
  let value := if width = 1 then byte else byte % Nat.pow 2 (7 - width)
  return Char.ofNat (← escapedRest value (width - 1))

/-- Characters of a tag. -/
def tagChars (inBrackets : Bool) : Nat → Reading (List Char)
  | 0 => pure []
  | fuel + 1 => do
    match ← peek with
    | none => return []
    | some c =>
      if c = '%' then
        let char ← escapedChar
        return char :: (← tagChars inBrackets fuel)
      else if isTagChar inBrackets c then
        skip 1
        return c :: (← tagChars inBrackets fuel)
      else return []

/-- The suffix of a tag, which is not empty. -/
def tagSuffix (inBrackets : Bool) : Reading String := do
  let chars ← tagChars inBrackets (← left)
  if chars.isEmpty then failure
  return String.ofList chars

/-- An exclamation mark, a name, and another mark if one stands there. -/
def tagHandle : Reading (List Char) := do
  if !(← takeChar '!') then failure
  let name ← takeWhile isNameChar
  if ← takeChar '!' then return '!' :: name ++ ['!']
  return '!' :: name

/-- A tag in angle brackets, from its exclamation mark on. -/
def fullTag : Reading TagName := do
  skip 2
  let suffix ← tagSuffix true
  if ← takeChar '>' then return ⟨"", suffix⟩ else failure

/-- A tag with a handle. What looks like one and has no second mark is the beginning of a suffix. -/
def shortTag : Reading TagName := do
  let handle ← tagHandle
  if 1 < handle.length ∧ handle.getLast? = some '!' then
    return ⟨String.ofList handle, ← tagSuffix false⟩
  else
    let suffix := handle.tail ++ (← tagChars false (← left))
    if suffix.isEmpty then return ⟨"", "!"⟩ else return ⟨"!", String.ofList suffix⟩

def tag (inFlow : Bool) : Reading TagName := do
  let name ← if (← place).rest[1]? = some '<' then fullTag else shortTag
  let next ← peek
  if endsWord next ∨ (inFlow ∧ next = some ',') then return name else failure

/-! ## Directives -/

/-- A part of a version: up to nine digits. -/
def versionNumber : Reading Nat := do
  let digits ← takeWhile Char.isDigit
  if digits.isEmpty ∨ 9 < digits.length then failure
  return digits.foldl (fun n c => n * 10 + (c.toNat - '0'.toNat)) 0

def versionDirective : Reading Token := do
  skipBlanks
  let major ← versionNumber
  if !(← takeChar '.') then failure
  return .versionDirective major (← versionNumber)

def tagDirective : Reading Token := do
  skipBlanks
  let handle ← tagHandle
  if handle ≠ ['!'] ∧ (handle.length < 2 ∨ handle.getLast? ≠ some '!') then failure
  if !((← peek).map isBlank).getD false then failure
  skipBlanks
  let expansion ← tagSuffix true
  if !endsWord (← peek) then failure
  return .tagDirective (String.ofList handle) expansion

/-- A line that begins with `%`. -/
def directive : Reading Token := do
  skip 1
  let name ← takeWhile isNameChar
  if !endsWord (← peek) then failure
  let token ←
    if name = ['Y', 'A', 'M', 'L'] then versionDirective
    else if name = ['T', 'A', 'G'] then tagDirective
    else failure
  skipLineEnd
  return token

end Reading

end Yaml

end Fieldmark
