import Fieldmark.Toml.Draft
import Fieldmark.Toml.Scalar

/-!
# Reading TOML

`Toml.read?` reads a text as the statements on its lines and makes a document of these. Version 1.1
of the format holds: seconds may be left out of times, a basic string knows `\e` and `\xHH`, and an
inline table may take several lines and end with a comma.
-/

namespace Fieldmark

namespace Toml

/-- A part of a document, read from the front of a text. -/
abbrev Reading := StateT (List Char) Option

namespace Reading

def peek : Reading (Option Char) := fun text => some (text.head?, text)

def take : Reading Char
  | [] => none
  | c :: rest => some (c, rest)

def takeWhile (kind : Char → Bool) : Reading (List Char) :=
  fun text => some (text.takeWhile kind, text.dropWhile kind)

def expect (expected : Char) : Reading Unit := do
  if (← take) = expected then pure () else failure

/-- Takes a text if it stands here, and tells whether it does. -/
def takeText (front : List Char) : Reading Bool := fun text =>
  if front.isPrefixOf text then some (true, text.drop front.length) else some (false, text)

/-- How much text there is left, which bounds every loop over it. -/
def left : Reading Nat := fun text => some (text.length, text)

/-! ## Between the words -/

def isBlank (c : Char) : Bool := c = ' ' || c = '\t'

def skipBlanks : Reading Unit := do
  let _ ← takeWhile isBlank

/-- Whether a character may stand in a comment or, as itself, in a string. -/
def isPlain (c : Char) : Bool := c = '\t' || (0x20 ≤ c.toNat && c.toNat ≠ 0x7F)

/-- A line feed, with a carriage return before it or without. -/
def takeNewline : Reading Bool := do
  if ← takeText ['\n'] then return true
  takeText ['\r', '\n']

/-- Blanks and a comment, up to the end of the line. -/
def skipToLineEnd : Reading Unit := do
  skipBlanks
  if (← peek) = some '#' then
    let _ ← takeWhile isPlain

/-- Blanks, comments and ends of lines. -/
def skipLines : Nat → Reading Unit
  | 0 => pure ()
  | fuel + 1 => do
    skipToLineEnd
    if ← takeNewline then skipLines fuel

def skipSpace : Reading Unit := do skipLines (← left)

/-! ## Strings -/

def isScalarValue (n : Nat) : Bool := n < 0xD800 || (0xE000 ≤ n && n < 0x110000)

/-- The character of an escape in a number of hexadecimal digits. -/
def hexEscape (width : Nat) : Reading Char := fun text =>
  let digits := text.take width
  let n := numberOf 16 digits
  if digits.length = width ∧ digits.all isHexDigit ∧ isScalarValue n then
    some (Char.ofNat n, text.drop width)
  else none

/-- The character of an escape behind its backslash. -/
def escape : Reading Char := do
  match ← take with
  | 'b' => return '\x08'
  | 't' => return '\t'
  | 'n' => return '\n'
  | 'f' => return '\x0c'
  | 'r' => return '\r'
  | 'e' => return '\x1b'
  | '"' => return '"'
  | '\\' => return '\\'
  | 'x' => hexEscape 2
  | 'u' => hexEscape 4
  | 'U' => hexEscape 8
  | _ => failure

/-- A string on one line, behind its opening quote. Only the double quote has escapes. -/
def lineString (quote : Char) : Nat → Reading (List Char)
  | 0 => failure
  | fuel + 1 => do
    let c ← take
    if c = quote then return []
    else if c = '\\' ∧ quote = '"' then return (← escape) :: (← lineString quote fuel)
    else if isPlain c then return c :: (← lineString quote fuel)
    else failure

/-- A text without the blanks and ends of lines at its front. -/
def dropSpace : List Char → List Char
  | [] => []
  | '\r' :: '\n' :: rest => dropSpace rest
  | c :: rest => if isBlank c ∨ c = '\n' then dropSpace rest else c :: rest

/-- The blank end of a line behind a backslash, with all blanks and ends of lines that follow. -/
def takeLineJoin : Reading Bool := fun text =>
  match (do skipBlanks; takeNewline : Reading Bool) text with
  | some (true, rest) => some (true, dropSpace rest)
  | _ => some (false, text)

/-- Up to two quotes that stand before the closing ones. -/
def lastQuotes (quote : Char) : Reading (List Char) := do
  if ← takeText [quote, quote] then return [quote, quote]
  if ← takeText [quote] then return [quote]
  return []

/-- A string on several lines, behind its opening quotes. Its ends of lines stay as they are. -/
def longString (quote : Char) : Nat → Reading (List Char)
  | 0 => failure
  | fuel + 1 => do
    if ← takeText [quote, quote, quote] then lastQuotes quote
    else if ← takeText ['\r', '\n'] then return '\r' :: '\n' :: (← longString quote fuel)
    else
      let c ← take
      if c = '\\' ∧ quote = '"' then
        if ← takeLineJoin then longString quote fuel
        else return (← escape) :: (← longString quote fuel)
      else if c = '\n' ∨ isPlain c then return c :: (← longString quote fuel)
      else failure

/-- A string with one quote or three at each end. A line feed right behind three quotes is no part
of it. -/
def quoted (quote : Char) : Reading String := do
  let fuel := (← left) + 1
  if ← takeText [quote, quote, quote] then
    let _ ← takeNewline
    return String.ofList (← longString quote fuel)
  else
    expect quote
    return String.ofList (← lineString quote fuel)

/-! ## Keys -/

def isKeyChar (c : Char) : Bool := c.isAlphanum || c = '_' || c = '-'

/-- One name of a key. -/
def keyName : Reading String := do
  match ← peek with
  | some '"' => expect '"'; return String.ofList (← lineString '"' ((← left) + 1))
  | some '\'' => expect '\''; return String.ofList (← lineString '\'' ((← left) + 1))
  | _ =>
    let name ← takeWhile isKeyChar
    if name.isEmpty then failure else return String.ofList name

/-- The names of a key behind its first one, with the dots between them. -/
def keyRest : Nat → Reading (List String)
  | 0 => failure
  | fuel + 1 => do
    skipBlanks
    if ← takeText ['.'] then
      skipBlanks
      let name ← keyName
      return name :: (← keyRest fuel)
    else return []

/-- Tables may be inside each other this deep. -/
def maxDepth : Nat := 80

/-- A key with the blanks behind it. -/
def key : Reading Key := do
  let first ← keyName
  let names := first :: (← keyRest ((← left) + 1))
  if maxDepth < names.length then failure
  else return ⟨names.dropLast, names.getLast?.getD first⟩

/-! ## Values -/

def isScalarChar (c : Char) : Bool :=
  c.isAlphanum || c = '_' || c = '-' || c = '+' || c = '.' || c = ':'

/-- The word of a bare scalar. A date goes on behind a space if a digit stands there. -/
def scalarWord : Reading (List Char) := do
  let word ← takeWhile isScalarChar
  fun text =>
    match DateTime.date? word, text with
    | some (_, []), ' ' :: c :: rest =>
      if c.isDigit then
        some (word ++ ' ' :: (c :: rest).takeWhile isScalarChar, (c :: rest).dropWhile isScalarChar)
      else some (word, text)
    | _, _ => some (word, text)

/-- The items of an array behind its bracket or behind a comma. -/
def items (element : Reading Toml) : Nat → Reading (List Toml)
  | 0 => failure
  | fuel + 1 => do
    skipSpace
    if ← takeText [']'] then return []
    let item ← element
    skipSpace
    if ← takeText [','] then return item :: (← items element fuel)
    expect ']'
    return [item]

/-- A key with its value. -/
def keyValue (element : Reading Toml) : Reading (Key × Toml) := do
  let key ← key
  expect '='
  skipBlanks
  return (key, ← element)

/-- The entries of an inline table behind its brace or behind a comma. -/
def entries (element : Reading Toml) : Nat → Reading (List (Key × Toml))
  | 0 => failure
  | fuel + 1 => do
    skipSpace
    if ← takeText ['}'] then return []
    let entry ← keyValue element
    skipSpace
    if ← takeText [','] then return entry :: (← entries element fuel)
    expect '}'
    return [entry]

/-- A value with at most `depth` arrays and inline tables inside each other. -/
def value (depth : Nat) : Reading Toml := do
  match ← peek with
  | some '"' => return .string (← quoted '"')
  | some '\'' => return .string (← quoted '\'')
  | some '[' =>
    match depth with
    | 0 => failure
    | depth + 1 =>
      expect '['
      return .array (← items (value depth) ((← left) + 1))
  | some '{' =>
    match depth with
    | 0 => failure
    | depth + 1 =>
      expect '{'
      let read ← entries (value depth) ((← left) + 1)
      (inlineTable? read : Option Toml)
  | _ =>
    (scalar? (← scalarWord) : Option Toml)

/-! ## Lines -/

/-- A header behind its first bracket. -/
def header : Reading Statement := do
  let isElement ← takeText ['[']
  skipBlanks
  let key ← key
  expect ']'
  if isElement then
    expect ']'
    return .openElement key
  else return .openTable key

/-- What the line says that begins here. -/
def statement : Reading Statement := do
  if ← takeText ['['] then header
  else
    let (key, value) ← keyValue (value maxDepth)
    return .entry key value

/-- The statements of all lines. -/
def statements : Nat → Reading (List Statement)
  | 0 => pure []
  | fuel + 1 => do
    skipSpace
    match ← peek with
    | none => return []
    | some _ =>
      let statement ← statement
      skipToLineEnd
      match ← peek with
      | none => return [statement]
      | some _ =>
        if ← takeNewline then return statement :: (← statements fuel)
        else failure

end Reading

/-- Reads a text as a document. A byte order mark in front is no part of it. -/
def read? (text : List Char) : Option Toml := do
  let text := if text.head? = some '\uFEFF' then text.tail else text
  let (statements, _) ← Reading.statements (text.length + 1) text
  document? statements

end Toml

end Fieldmark
