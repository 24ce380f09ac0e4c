/-!
# Runs of lines

How one text becomes another, as runs of lines that are kept, deleted and inserted. The kept and
deleted lines in order are the old text (`before`), the kept and inserted ones the new text
(`after`).
-/

namespace Fieldmark

namespace Diff

inductive Kind where
  | keep
  | delete
  | insert
  deriving DecidableEq, Repr

/-- Lines with one fate. -/
structure Run where
  kind : Kind
  lines : List String
  deriving DecidableEq, Repr

/-- The lines of the old text. -/
def before (runs : List Run) : List String :=
  runs.flatMap fun run => if run.kind = .insert then [] else run.lines

/-- The lines of the new text. -/
def after (runs : List Run) : List String :=
  runs.flatMap fun run => if run.kind = .delete then [] else run.lines

/-- The lines of a text, each with the line feed, the carriage return or both that end it. -/
def splitLines : List Char → List (List Char)
  | [] => []
  | '\r' :: '\n' :: rest => ['\r', '\n'] :: splitLines rest
  | c :: rest =>
    if c = '\n' ∨ c = '\r' then [c] :: splitLines rest
    else
      match rest, splitLines rest with
      | _ :: _, line :: lines => (c :: line) :: lines
      | _, lines => [c] :: lines

def linesOf (text : String) : List String := (splitLines text.toList).map String.ofList

/-- The lines that two lists begin with. -/
def commonFront : List String → List String → List String
  | a :: as, b :: bs => if a = b then a :: commonFront as bs else []
  | _, _ => []

/-- The lines that two lists end with. -/
def commonBack (a b : List String) : List String := (commonFront a.reverse b.reverse).reverse

/-- A run, or none if it has no lines. -/
def runOf (kind : Kind) (lines : List String) : List Run :=
  if lines.isEmpty then [] else [⟨kind, lines⟩]

end Diff

end Fieldmark
