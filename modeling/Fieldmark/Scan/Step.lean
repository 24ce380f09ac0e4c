import Fieldmark.Blank
import Fieldmark.Problem

/-!
# One step of the tag scanner

A page is read one character at a time with one character of foresight. `step` takes the state,
the character and its successor to the next state and to what the character means there. Blanks
in the header of a tag carry no meaning, save that they end the words of a loop header and tell
the keyword `for` from a reference that begins with it.
-/

namespace Fieldmark

/-- The word that begins a loop header. -/
def loopKeyword : String := "for"

namespace Scan

/-- What the scanner is reading, with what it has gathered of the open tag. -/
inductive State where
  /-- Outside of any tag. -/
  | out
  /-- Behind `<:`. -/
  | tagOpen
  /-- In the first word of a tag: a reference or `for`. -/
  | name (token : String)
  /-- In the dotted path behind a reference. -/
  | field (reference : String) (fields : List String) (segment : String)
  /-- Behind the `:` that ends a path. -/
  | tagEnd (reference : String) (fields : List String)
  | loopVariable (item : String)
  /-- In the word between loop variable and collection, which carries no meaning. -/
  | loopSeparator (item separator : String)
  | loopCollection (item collection : String)
  /-- Behind the `:` of a loop header, and in the body once its `>` is read. -/
  | loopBody (item collection body : String) (opened : Bool)
  deriving DecidableEq, Repr

/-- Whether the header of a tag is being read. -/
def State.inHeader : State → Bool
  | out => false
  | loopBody _ _ _ opened => !opened
  | _ => true

/-- What a character means to the reader of a page. -/
inductive Action where
  /-- Literal text. -/
  | emit
  /-- Part of the open tag. -/
  | consume
  /-- The `<` of a `<:` that begins a tag. -/
  | openTag
  /-- The `<` of a `<:` in the header of a tag. -/
  | nestedOpen
  /-- The `>` before the body of a loop. -/
  | beginBody
  | completeField (reference : String) (fields : List String)
  | completeLoop (item collection body : String)
  /-- A character that cannot stand here. -/
  | invalid (fault : Fault)
  deriving DecidableEq, Repr

/-- The content of a loop body that is complete but for its last `>`: the text before a final `</:`
and the blanks behind that. -/
def closedBody? (body : List Char) : Option (List Char) :=
  match body.reverse.dropWhile isBlank with
  | ':' :: '/' :: '<' :: content => some content.reverse
  | _ => none

/-- A `<` with a `:` behind it. -/
def opensTag (c : Char) (next : Option Char) : Bool := c == '<' && next == some ':'

/-- The next state for a character outside of tag openings, and what the character means. -/
def read (state : State) (c : Char) : State × Action :=
  match state with
  | .out => (.out, .emit)
  | .tagOpen =>
    if isBlank c then (.tagOpen, .consume)
    else if c = '.' then (.out, .invalid .nameBeforeDot)
    else if c = ':' then (.out, .invalid .emptyTag)
    else (.name (String.singleton c), .consume)
  | .name token =>
    if isBlank c then
      if token = loopKeyword then (.loopVariable "", .consume) else (.name token, .consume)
    else if c = '.' then (.field token [] "", .consume)
    else if c = ':' then (.out, .invalid (.fieldAfter token))
    else (.name (token.push c), .consume)
  | .field reference fields segment =>
    if isBlank c then (.field reference fields segment, .consume)
    else if c = '.' then
      if segment = "" then (.out, .invalid (.fieldNameAfter reference))
      else (.field reference (fields ++ [segment]) "", .consume)
    else if c = ':' then
      if segment = "" then (.out, .invalid (.fieldNameAfter reference))
      else (.tagEnd reference (fields ++ [segment]), .consume)
    else (.field reference fields (segment.push c), .consume)
  | .tagEnd reference fields =>
    if c = '>' then (.out, .completeField reference fields)
    else if isBlank c then (.tagEnd reference fields, .consume)
    else (.out, .invalid .closeOfTag)
  | .loopVariable item =>
    if isBlank c then
      if item = "" then (.loopVariable item, .consume) else (.loopSeparator item "", .consume)
    else if c = ':' ∨ c = '.' then (.out, .invalid .loopVariable)
    else (.loopVariable (item.push c), .consume)
  | .loopSeparator item separator =>
    if isBlank c then
      if separator = "" then (.loopSeparator item separator, .consume)
      else (.loopCollection item "", .consume)
    else (.loopSeparator item (separator.push c), .consume)
  | .loopCollection item collection =>
    if isBlank c then (.loopCollection item collection, .consume)
    else if c = ':' then
      if collection = "" then (.out, .invalid (.loopCollection item))
      else (.loopBody item collection "" false, .consume)
    else (.loopCollection item (collection.push c), .consume)
  | .loopBody item collection body false =>
    if c = '>' then (.loopBody item collection body true, .beginBody)
    else if isBlank c then (.loopBody item collection body false, .consume)
    else (.out, .invalid (.closeOfHeader collection))
  | .loopBody item collection body true =>
    match if c = '>' then closedBody? body.toList else none with
    | some content => (.out, .completeLoop item collection (String.ofList content))
    | none => (.loopBody item collection (body.push c) true, .consume)

/-- The scanner's transition. A `<:` opens a tag outside of tags, is a nested opening in a header
and is text in the body of a loop. -/
def step (state : State) (c : Char) (next : Option Char) : State × Action :=
  if opensTag c next ∧ state.inHeader then (state, .nestedOpen)
  else if opensTag c next ∧ state = .out then (.tagOpen, .openTag)
  else read state c

end Scan

end Fieldmark
