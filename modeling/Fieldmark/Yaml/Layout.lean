import Fieldmark.Yaml.BlockText
import Fieldmark.Yaml.Property

/-!
# The tokens of a YAML text

Outside of flow collections, columns tell where collections begin and end, and the tokens say so:
deeper columns open block collections, and a return to a column closes all that are deeper. A
mapping may begin with its first key, which is recognised only by the `:` behind it. Whatever could
be such a key is remembered (`Candidate`), and the tokens for it are put before it once the `:`
comes; that must happen on the same line and within 1024 characters.
-/

namespace Fieldmark

namespace Yaml

/-- Something that is a key if a `:` follows. -/
structure Candidate where
  /-- Whether nothing but a key may stand here, because the column is that of a block mapping. -/
  required : Bool
  /-- How many tokens stand before it. -/
  tokensBefore : Nat
  index : Nat
  line : Nat
  column : Nat

/-- The tokens so far, latest first, and what decides on the next ones. -/
structure Layout where
  tokens : List Token
  count : Nat
  /-- The column of the innermost block collection, if there is one. -/
  indent? : Option Nat
  /-- The columns of the block collections around it, innermost first. -/
  outer : List (Option Nat)
  /-- Whether a key without a mark may begin here. -/
  keyAllowed : Bool
  /-- The latest candidate in the innermost flow collection, or outside of all. -/
  candidate? : Option Candidate
  /-- The latest candidates around the flow collections that are open, innermost first. -/
  around : List (Option Candidate)

namespace Layout

def start : Layout := ⟨[], 0, none, [], true, none, []⟩

def inFlow (l : Layout) : Bool := !l.around.isEmpty

def push (l : Layout) (token : Token) : Layout :=
  { l with tokens := token :: l.tokens, count := l.count + 1 }

/-- Puts a token behind the first `number` of all tokens. -/
def insert (l : Layout) (number : Nat) (token : Token) : Layout :=
  let (later, earlier) := l.tokens.splitAt (l.count - number)
  { l with tokens := later ++ token :: earlier, count := l.count + 1 }

/-- Whether a column is deeper than the innermost block collection. -/
def isDeeper (l : Layout) (column : Nat) : Bool := (l.indent?.map (decide <| · < column)).getD true

/-- Opens a block collection at a column that is deeper than those of all others. The token for its
beginning goes behind the first `number` tokens. -/
def openBlock (l : Layout) (column number : Nat) (token : Token) : Layout :=
  if l.inFlow ∨ !l.isDeeper column then l
  else { l.insert number token with indent? := some column, outer := l.indent? :: l.outer }

/-- Closes the block collections that are deeper than a column, or all if there is none. -/
def closeBlocks (column? : Option Nat) (l : Layout) : List (Option Nat) → Layout
  | [] => l
  | enclosing :: outer =>
    let isOver := match l.indent?, column? with
      | none, _ => false
      | some _, none => true
      | some indent, some column => decide (column < indent)
    if isOver then
      closeBlocks column? { l.push .blockEnd with indent? := enclosing, outer := outer } outer
    else l

/-- Closes the block collections that are deeper than a column, or all if there is none. In flow
collections columns mean nothing. -/
def unindent (l : Layout) (column? : Option Nat) : Layout :=
  if l.inFlow then l else l.closeBlocks column? l.outer

/-- A candidate without the `:` that would make it a key. That is a fault where only a key may
stand. -/
def dropCandidate (l : Layout) : Option Layout :=
  match l.candidate? with
  | some ⟨true, _, _, _, _⟩ => none
  | _ => some { l with candidate? := none }

/-- Remembers that a key may begin at a place. -/
def addCandidate (l : Layout) (here : Cursor) : Option Layout :=
  if !l.keyAllowed then some l
  else
    let required := !l.inFlow && l.indent? == some here.column
    l.dropCandidate.map fun l =>
      { l with candidate? := some ⟨required, l.count, here.index, here.line, here.column⟩ }

/-- Whether a candidate is too far back to be a key. -/
def isStale (here : Cursor) (candidate : Candidate) : Bool :=
  candidate.line < here.line || candidate.index + 1024 < here.index

/-- A candidate, if it is not stale. -/
def fresh (here : Cursor) : Option Candidate → Option (Option Candidate)
  | none => some none
  | some candidate =>
    if !isStale here candidate then some (some candidate)
    else if candidate.required then none
    else some none

/-- Forgets all candidates that are stale. -/
def dropStale (l : Layout) (here : Cursor) : Option Layout := do
  let candidate? ← fresh here l.candidate?
  let around ← l.around.mapM (fresh here)
  return { l with candidate? := candidate?, around := around }

end Layout

/-- A part of a text, read together with its layout. -/
abbrev LayoutReading := StateT Layout Reading

namespace LayoutReading

def layout : LayoutReading Layout := get

def change (f : Layout → Layout) : LayoutReading Unit := modify f

/-- A change that may break the rules. -/
def attempt (f : Layout → Option Layout) : LayoutReading Unit := do
  match f (← layout) with
  | some l => set l
  | none => failure

def push (token : Token) : LayoutReading Unit := change (·.push token)

def allowKey (allowed : Bool) : LayoutReading Unit := change ({ · with keyAllowed := allowed })

/-- Blanks, comments and ends of lines. A tab counts as a blank only where no key can begin. -/
def skipToToken : Nat → LayoutReading Unit
  | 0 => pure ()
  | fuel + 1 => do
    let l ← layout
    let tabs := l.inFlow || !l.keyAllowed
    let _ ← Reading.takeWhile fun c => c = ' ' || (tabs && c = '\t')
    Reading.skipComment
    match ← Reading.peek with
    | none => pure ()
    | some c =>
      if isBreak c then
        let _ ← Reading.takeBreak
        if !l.inFlow then allowKey true
        skipToToken fuel

/-- Something that stands alone at the beginning of a line and ends all collections. -/
def endBlocks : LayoutReading Unit := do
  change (·.unindent none)
  attempt Layout.dropCandidate
  allowKey false

def beginFlow (token : Token) : LayoutReading Unit := do
  let here ← Reading.place
  attempt (·.addCandidate here)
  change fun l => { l with candidate? := none, around := l.candidate? :: l.around }
  allowKey true
  Reading.skip 1
  push token

/-- The end of a flow collection. Outside of all it is left to the grammar to complain. -/
def endFlow (token : Token) : LayoutReading Unit := do
  attempt Layout.dropCandidate
  change fun l =>
    match l.around with
    | [] => l
    | candidate? :: around => { l with candidate? := candidate?, around := around }
  allowKey false
  Reading.skip 1
  push token

def comma : LayoutReading Unit := do
  attempt Layout.dropCandidate
  allowKey true
  Reading.skip 1
  push .comma

/-- Opens a block collection at the column of a mark that stands here. -/
def openAtMark (token : Token) : LayoutReading Unit := do
  let l ← layout
  if !l.inFlow then
    if !l.keyAllowed then failure
    let here ← Reading.place
    change fun l => l.openBlock here.column l.count token

def item : LayoutReading Unit := do
  openAtMark .blockSequence
  attempt Layout.dropCandidate
  allowKey true
  Reading.skip 1
  push .item

def key : LayoutReading Unit := do
  openAtMark .blockMapping
  attempt Layout.dropCandidate
  allowKey !(← layout).inFlow
  Reading.skip 1
  push .key

def value : LayoutReading Unit := do
  match (← layout).candidate? with
  | some candidate =>
    change fun l =>
      { (l.insert candidate.tokensBefore .key).openBlock candidate.column candidate.tokensBefore
          .blockMapping with
        candidate? := none }
    allowKey false
  | none =>
    openAtMark .blockMapping
    allowKey !(← layout).inFlow
  Reading.skip 1
  push .value

/-- A token that may be the beginning of a key. -/
def possibleKey (read : Reading Token) : LayoutReading Unit := do
  let here ← Reading.place
  attempt (·.addCandidate here)
  allowKey false
  push (← read)

def blockScalar (folded : Bool) : LayoutReading Unit := do
  attempt Layout.dropCandidate
  allowKey true
  let parent := (← layout).indent?
  push (.scalar false (String.ofList (← Reading.block folded parent)))

def quotedScalar (quote : Char) : LayoutReading Unit :=
  possibleKey do return .scalar false (String.ofList (← Reading.quoted quote))

def plainScalar : LayoutReading Unit := do
  let l ← layout
  let here ← Reading.place
  attempt (·.addCandidate here)
  allowKey false
  let (text, broken) ← Reading.plain l.inFlow ((l.indent?.map (· + 1)).getD 0)
  push (.scalar true (String.ofList text))
  if broken then allowKey true

/-- Characters that no plain scalar begins with, unless a word goes on behind one of the first
three. -/
def isMark (c : Char) : Bool :=
  c = '-' || c = '?' || c = ':' || c = ',' || c = '[' || c = ']' || c = '{' || c = '}' || c = '#' ||
    c = '&' || c = '*' || c = '!' || c = '|' || c = '>' || c = '\'' || c = '"' || c = '%' ||
    c = '@' || c = '`'

/-- Whether a plain scalar begins with a character that has another one behind it. -/
def beginsPlain (inFlow : Bool) (c : Char) (next : Option Char) : Bool :=
  (!isMark c && !isBlankOrBreak c) || (c = '-' && !(next.map isBlank).getD false) ||
    (!inFlow && (c = '?' || c = ':') && !endsWord next)

/-- The token that begins with a character. -/
def tokenAt (c : Char) : LayoutReading Unit := do
  let here ← Reading.place
  let inFlow := (← layout).inFlow
  let next := here.rest[1]?
  let alone := endsWord next
  if here.column = 0 ∧ c = '%' then
    endBlocks
    push (← Reading.directive)
  else if ← Reading.atMark '-' then
    endBlocks
    Reading.skip 3
    push .documentStart
  else if ← Reading.atMark '.' then
    endBlocks
    Reading.skip 3
    push .documentEnd
  else if c = '[' then beginFlow .flowSequence
  else if c = '{' then beginFlow .flowMapping
  else if c = ']' then endFlow .flowSequenceEnd
  else if c = '}' then endFlow .flowMappingEnd
  else if c = ',' then comma
  else if c = '-' ∧ alone then item
  else if c = '?' ∧ (inFlow ∨ alone) then key
  else if c = ':' ∧ (inFlow ∨ alone) then value
  else if c = '*' then possibleKey do return .aliasOf (← Reading.anchorName)
  else if c = '&' then possibleKey do return .anchor (← Reading.anchorName)
  else if c = '!' then possibleKey do return .tag (← Reading.tag inFlow)
  else if c = '|' ∧ !inFlow then blockScalar false
  else if c = '>' ∧ !inFlow then blockScalar true
  else if c = '\'' ∨ c = '"' then quotedScalar c
  else if beginsPlain inFlow c next then plainScalar
  else failure

/-- All tokens up to the end of the text. -/
def tokens : Nat → LayoutReading Unit
  | 0 => failure
  | fuel + 1 => do
    skipToToken ((← Reading.left) + 1)
    let here ← Reading.place
    attempt (·.dropStale here)
    change (·.unindent (some here.column))
    match here.rest.head? with
    | none => endBlocks
    | some c =>
      tokenAt c
      tokens fuel

end LayoutReading

/-- The tokens of a text. -/
def tokens? (text : List Char) : Option (List Token) :=
  (((LayoutReading.tokens (text.length + 1)).run .start).run (.ofText text)).map
    fun ((_, layout), _) => layout.tokens.reverse

end Yaml

end Fieldmark
