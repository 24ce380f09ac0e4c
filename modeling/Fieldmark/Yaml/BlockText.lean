import Fieldmark.Yaml.Cursor

/-!
# Block scalars

A scalar behind `|` or `>` is the lines indented below it. Behind `|` the lines stay as they are,
behind `>` they are folded, but for those that begin with a blank. What happens to the ends of
lines at its end is said behind the mark, as may be the indentation; otherwise this is that of the
first line with text in it.
-/

namespace Fieldmark

namespace Yaml

/-- What becomes of the ends of lines at the end of a block scalar. -/
inductive Chomping where
  | strip
  | clip
  | keep
  deriving DecidableEq, Repr

/-- What is written behind the mark of a block scalar. -/
structure BlockHeader where
  chomping : Chomping
  /-- The columns between the lines and what they are indented below. -/
  increment? : Option Nat

/-- The ends of lines read behind the last text of a block scalar. -/
structure LineEnds where
  first : List Char
  more : List Char

namespace Reading

def chompingMark : Reading (Option Chomping) := do
  if ← takeChar '+' then return some .keep
  if ← takeChar '-' then return some .strip
  return none

def incrementMark : Reading (Option Nat) := do
  match ← peek with
  | none => return none
  | some c =>
    if !c.isDigit then return none
    else if c = '0' then failure
    else
      skip 1
      return some (c.toNat - '0'.toNat)

/-- The two marks in either order. -/
def blockHeader : Reading BlockHeader := do
  match ← chompingMark with
  | some chomping => return ⟨chomping, ← incrementMark⟩
  | none =>
    let increment? ← incrementMark
    match increment? with
    | none => return ⟨.clip, none⟩
    | some _ => return ⟨(← chompingMark).getD .clip, increment?⟩

/-- Ends of lines and the indentation behind them, which stops at column `indent` if that is
known. The second answer is the last column reached on any line. -/
def indentation (indent? : Option Nat) (reached : Nat) : Nat → Reading (List Char × Nat)
  | 0 => pure ([], reached)
  | fuel + 1 => do
    let here ← place
    let spaces := here.rest.takeWhile (· = ' ')
    skip ((indent?.map fun indent => min (indent - here.column) spaces.length).getD spaces.length)
    let column := (← place).column
    let next ← peek
    let isBefore := (indent?.map fun indent => decide (column < indent)).getD true
    if next = some '\t' ∧ isBefore then failure
    let reached := max reached column
    if (next.map isBreak).getD false then
      let text ← takeBreak
      let (more, furthest) ← indentation indent? reached fuel
      return (text ++ more, furthest)
    else return ([], reached)

/-- The lines of a block scalar from here on, each with the ends of lines before it. -/
def blockLines (folded : Bool) (indent : Nat) (afterBlank : Bool) (ends : LineEnds) :
    Nat → Reading (List Char × LineEnds)
  | 0 => pure ([], ends)
  | fuel + 1 => do
    let here ← place
    match here.rest.head? with
    | none => return ([], ends)
    | some c =>
      if here.column ≠ indent then return ([], ends)
      else
        let joins := folded && ends.first == ['\n'] && !afterBlank && !isBlank c
        let before :=
          if !joins then ends.first ++ ends.more
          else if ends.more.isEmpty then [' ']
          else ends.more
        let line ← takeWhile (!isBreak ·)
        let first ← takeBreak
        let (more, _) ← indentation (some indent) 0 ((← left) + 1)
        let (rest, last) ← blockLines folded indent (isBlank c) ⟨first, more⟩ fuel
        return (before ++ line ++ rest, last)

/-- A block scalar from its mark on, in lines below something at column `parent`. -/
def block (folded : Bool) (parent : Option Nat) : Reading (List Char) := do
  skip 1
  let header ← blockHeader
  skipLineEnd
  let given? := header.increment?.map fun increment => parent.getD 0 + increment
  let (leading, reached) ← indentation given? 0 ((← left) + 1)
  let indent := given?.getD (max reached (max ((parent.map (· + 1)).getD 0) 1))
  let (text, ends) ← blockLines folded indent false ⟨[], leading⟩ ((← left) + 1)
  match header.chomping with
  | .strip => return text
  | .clip => return text ++ ends.first
  | .keep => return text ++ ends.first ++ ends.more

end Reading

end Yaml

end Fieldmark
