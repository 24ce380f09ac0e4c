/-!
# Moving through a YAML text

The place in a text counts lines and columns, which carry meaning in this format, and characters.
Five characters or pairs of them end a line; all but the two rare separators are read as a line
feed.
-/

namespace Fieldmark

namespace Yaml

/-- The rest of a text and its place, counted from zero. -/
structure Cursor where
  rest : List Char
  index : Nat
  line : Nat
  column : Nat

/-- A part of a text, read from its front; a text that breaks the rules has none. -/
abbrev Reading := StateT Cursor Option

def isBlank (c : Char) : Bool := c = ' ' || c = '\t'

def isBreak (c : Char) : Bool :=
  c = '\n' || c = '\r' || c = '\u0085' || c = '\u2028' || c = '\u2029'

def isBlankOrBreak (c : Char) : Bool := isBlank c || isBreak c

/-- Whether a word ends before this character; none is the end of the text. -/
def endsWord (next : Option Char) : Bool := (next.map isBlankOrBreak).getD true

/-- Whether a character may stand in a text at all. -/
def isAllowed (c : Char) : Bool :=
  let n := c.toNat
  n = 0x09 || n = 0x0A || n = 0x0D || (0x20 ≤ n && n ≤ 0x7E) || n = 0x85 ||
    (0xA0 ≤ n && n ≤ 0xFFFD && n ≠ 0xFEFF) || 0x10000 ≤ n

/-- A letter, a digit, or one of the two marks that names are also made of. -/
def isNameChar (c : Char) : Bool := c.isAlphanum || c = '_' || c = '-'

namespace Cursor

def ofText (text : List Char) : Cursor := ⟨text, 0, 0, 0⟩

/-- Past characters of one line. -/
def advance (c : Cursor) (count : Nat) : Cursor :=
  ⟨c.rest.drop count, c.index + count, c.line, c.column + count⟩

end Cursor

namespace Reading

def place : Reading Cursor := fun c => some (c, c)

/-- The next character, not taken. -/
def peek : Reading (Option Char) := fun c => some (c.rest.head?, c)

/-- How much text there is left, which bounds every loop over it. -/
def left : Reading Nat := fun c => some (c.rest.length, c)

/-- Takes characters of one line. -/
def skip (count : Nat) : Reading Unit := fun c => some ((), c.advance count)

/-- Takes a character if it stands here, and tells whether it does. -/
def takeChar (char : Char) : Reading Bool := fun c =>
  if c.rest.head? = some char then some (true, c.advance 1) else some (false, c)

/-- Takes all characters of a kind that stand here; no line ends among them. -/
def takeWhile (kind : Char → Bool) : Reading (List Char) := fun c =>
  let front := c.rest.takeWhile kind
  some (front, c.advance front.length)

def skipBlanks : Reading Unit := do
  let _ ← takeWhile isBlank

/-- Takes the end of a line: the text it stands for, nothing at the end of the whole text. -/
def takeBreak : Reading (List Char) := fun c =>
  match c.rest with
  | '\r' :: '\n' :: rest => some (['\n'], ⟨rest, c.index + 2, c.line + 1, 0⟩)
  | char :: rest =>
    if !isBreak char then some ([], c)
    else
      let text := if char = '\u2028' ∨ char = '\u2029' then char else '\n'
      some ([text], ⟨rest, c.index + 1, c.line + 1, 0⟩)
  | [] => some ([], c)

/-- Takes a comment that stands here, up to the end of its line. -/
def skipComment : Reading Unit := do
  if (← peek) = some '#' then
    let _ ← takeWhile (!isBreak ·)

/-- Blanks and a comment and the end of a line, with nothing else before that. -/
def skipLineEnd : Reading Unit := do
  skipBlanks
  skipComment
  match ← peek with
  | none => pure ()
  | some c =>
    if isBreak c then
      let _ ← takeBreak
    else failure

/-- Whether a mark of three characters stands alone at the beginning of a line. -/
def atMark (mark : Char) : Reading Bool := fun c =>
  some (c.column = 0 && c.rest.take 3 = [mark, mark, mark] && endsWord c.rest[3]?, c)

/-- Whether the beginning or the end of a document is marked here. -/
def atDocumentMark : Reading Bool := do
  return (← atMark '-') || (← atMark '.')

end Reading

end Yaml

end Fieldmark
