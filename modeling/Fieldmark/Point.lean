/-!
# Points and spans

A point says where a text stands: line and column for a reader, offset in UTF-8 bytes for a
machine. Moving past a text is moving past its characters one by one, so it distributes over
concatenation (`Point.after_append`). A span is cut out of a text by its byte offsets, and a cut
inside a character is no cut (`slice?`).
-/

namespace Fieldmark

/-- A place in a text. Lines and columns count from 1, columns in characters; the offset counts
UTF-8 bytes from 0. -/
structure Point where
  line : Nat
  column : Nat
  offset : Nat
  deriving DecidableEq, Repr

namespace Point

/-- Before the first character. -/
def start : Point := ⟨1, 1, 0⟩

instance : Inhabited Point := ⟨start⟩

/-- Past one character: a line feed begins the next line, any other character takes a column. -/
def advance (p : Point) (c : Char) : Point :=
  if c = '\n' then ⟨p.line + 1, 1, p.offset + c.utf8Size⟩
  else ⟨p.line, p.column + 1, p.offset + c.utf8Size⟩

/-- Past a whole text. -/
def after (p : Point) (text : List Char) : Point := text.foldl advance p

@[simp] theorem after_nil (p : Point) : p.after [] = p := rfl

@[simp] theorem after_cons (p : Point) (c : Char) (text : List Char) :
    p.after (c :: text) = (p.advance c).after text := rfl

theorem after_append (p : Point) (a b : List Char) : p.after (a ++ b) = (p.after a).after b := by
  simp [after]

end Point

/-- The half-open stretch of a text from `start` up to `stop`. -/
structure Span where
  start : Point
  stop : Point
  deriving DecidableEq, Repr

/-! ## Cutting by bytes -/

/-- What is left of a text after its first `n` bytes, if these are whole characters. -/
def dropBytes? : List Char → Nat → Option (List Char)
  | text, 0 => some text
  | [], _ + 1 => none
  | c :: text, n + 1 =>
    if c.utf8Size ≤ n + 1 then dropBytes? text (n + 1 - c.utf8Size) else none

/-- The first `n` bytes of a text, if these are whole characters. -/
def takeBytes? : List Char → Nat → Option (List Char)
  | _, 0 => some []
  | [], _ + 1 => none
  | c :: text, n + 1 =>
    if c.utf8Size ≤ n + 1 then (takeBytes? text (n + 1 - c.utf8Size)).map (c :: ·) else none

/-- The bytes from `lo` up to `hi`, if both are character boundaries of the text in this order. -/
def slice? (text : List Char) (lo hi : Nat) : Option (List Char) :=
  if lo ≤ hi then (dropBytes? text lo).bind (takeBytes? · (hi - lo)) else none

/-- The text that a span covers. -/
def Span.slice? (s : Span) (text : List Char) : Option (List Char) :=
  Fieldmark.slice? text s.start.offset s.stop.offset

end Fieldmark
