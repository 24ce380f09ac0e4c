import Fieldmark.Point
import Fieldmark.Scan.Step

/-!
# Scanning a page

`scan` takes a page apart, once and from left to right, into literal text and tags, each tag with
the place where it stands. What a tag says is resolved later, so that no inserted text is ever
scanned. A `<:` in the header of an open tag is skipped with a warning or refused, as the policy
says.
-/

namespace Fieldmark

/-- A tag of a page. -/
inductive Tag.Content where
  /-- A tag `<: reference.field :>`, with one field or more. -/
  | field (reference : String) (fields : List String)
  /-- A loop `<: for item : collection: > body </: >`. -/
  | loop (item collection body : String) (bodySpan : Span)
  deriving DecidableEq, Repr

/-- A tag and the stretch of the page from its `<` to just behind its last `>`. -/
structure Tag where
  content : Tag.Content
  span : Span
  deriving DecidableEq, Repr

/-- A piece of a scanned page. -/
inductive Segment where
  | literal (text : String)
  | tag (tag : Tag)
  deriving DecidableEq, Repr

/-- What to do with a `<:` in the header of an open tag. -/
inductive NestedOpenPolicy where
  /-- Skip it and warn. -/
  | warn
  /-- Refuse the page. -/
  | error
  deriving DecidableEq, Repr, Inhabited

/-- A `<:` that was skipped in the header of an open tag. -/
structure Warning where
  line : Nat
  column : Nat
  deriving DecidableEq, Repr

def Warning.message (_ : Warning) : String := "found an extra `<:` inside an open tag"

/-- A page that was scanned to its end. -/
structure Scan where
  segments : List Segment
  warnings : List Warning
  deriving DecidableEq, Repr

/-- The tags of a scanned page, in order. -/
def Scan.tags (scan : Scan) : List Tag :=
  scan.segments.filterMap fun
    | .tag tag => some tag
    | .literal _ => none

namespace Scan

/-- The scanner in the middle of a page: its state, the place it has come to, the literal text
since the last tag, where the open tag and its body began, and what is complete, latest first. -/
structure Progress where
  state : State
  place : Point
  literal : String
  tagStart : Point
  bodyStart : Point
  segments : List Segment
  warnings : List Warning

namespace Progress

/-- At the beginning of a page. -/
def start : Progress := ⟨.out, .start, "", .start, .start, [], []⟩

/-- The segments so far, with the literal text since the last of them. -/
def flushed (p : Progress) : List Segment :=
  if p.literal = "" then p.segments else .literal p.literal :: p.segments

/-- Past a character that belongs to no event. -/
def move (p : Progress) (state : State) (c : Char) : Progress :=
  { p with state := state, place := p.place.advance c }

/-- Past a character of literal text. -/
def emit (p : Progress) (state : State) (c : Char) : Progress :=
  { p.move state c with literal := p.literal.push c }

/-- Past the `<:` that begins a tag. -/
def openTag (p : Progress) (state : State) : Progress :=
  { p with
    state := state
    place := p.place.after ['<', ':']
    literal := ""
    tagStart := p.place
    segments := p.flushed }

/-- Past a `<:` in the header of a tag. -/
def skipOpen (p : Progress) (state : State) : Progress :=
  { p with
    state := state
    place := p.place.after ['<', ':']
    warnings := ⟨p.place.line, p.place.column⟩ :: p.warnings }

/-- Past the `>` before the body of a loop. -/
def beginBody (p : Progress) (state : State) (c : Char) : Progress :=
  { p.move state c with bodyStart := p.place.advance c }

/-- Past the last `>` of a tag. -/
def complete (p : Progress) (state : State) (c : Char) (content : Tag.Content) : Progress :=
  let stop := p.place.advance c
  { p.move state c with segments := .tag ⟨content, ⟨p.tagStart, stop⟩⟩ :: p.segments }

/-- The loop whose body is complete. -/
def loop (p : Progress) (item collection body : String) : Tag.Content :=
  .loop item collection body ⟨p.bodyStart, p.bodyStart.after body.toList⟩

end Progress

/-- What is wrong with a page that ends in this state. -/
def State.unfinished? : State → Option Fault
  | out => none
  | loopBody _ _ _ true => some .unterminatedLoop
  | _ => some .unterminatedTag

/-- A problem with the text at a place. -/
def problemAt (place : Point) (fault : Fault) : Problem := .parse place.line place.column fault

/-- Reads the rest of a page: how far the scanner came, and why it stopped there if that is before
the end. -/
def run (policy : NestedOpenPolicy) (p : Progress) : List Char → Progress × Option Problem
  | [] => (p, p.state.unfinished?.map (problemAt p.tagStart))
  | c :: rest =>
    let (state, action) := step p.state c rest.head?
    match action with
    | .emit => run policy (p.emit state c) rest
    | .consume => run policy (p.move state c) rest
    | .openTag => run policy (p.openTag state) rest.tail
    | .nestedOpen =>
      match policy with
      | .error => (p, some (problemAt p.place .nestedOpen))
      | .warn => run policy (p.skipOpen state) rest.tail
    | .beginBody => run policy (p.beginBody state c) rest
    | .completeField reference fields =>
      run policy (p.complete state c (.field reference fields)) rest
    | .completeLoop item collection body =>
      run policy (p.complete state c (p.loop item collection body)) rest
    | .invalid fault => (p, some (problemAt p.place fault))
termination_by text => text.length
decreasing_by all_goals simp_wf; try omega

end Scan

/-- The warnings of a page, including those before a problem that ends the scan. -/
def scanWarnings (policy : NestedOpenPolicy) (page : List Char) : List Warning :=
  (Scan.run policy .start page).1.warnings.reverse

/-- Takes a page apart into literal text and tags. Bindings are not known here: they are stripped
beforehand. -/
def scan (policy : NestedOpenPolicy) (page : List Char) : Except Problem Scan :=
  match Scan.run policy .start page with
  | (p, none) => .ok ⟨p.flushed.reverse, p.warnings.reverse⟩
  | (_, some problem) => .error problem

end Fieldmark
