import Fieldmark.Diff.Snake

/-!
# Compact differences

A difference can often be moved along lines that are the same. Inserted lines are moved up as far
as they go and then down as far as they go, and become one with others that they meet on the way;
deleted lines stay where they are, but change places with inserted ones. In the end what is deleted
between two kept lines stands before what is inserted there.
-/

namespace Fieldmark

namespace Diff

/-- Runs around one of them: those before it, nearest first, and those behind it. -/
structure Focus where
  earlier : List Run
  run : Run
  later : List Run

namespace Focus

/-- All runs, in order. -/
def close (f : Focus) : List Run := f.earlier.reverse ++ f.run :: f.later

/-- Puts kept lines in front of runs. -/
def keepFirst (lines : List String) : List Run → List Run
  | ⟨.keep, more⟩ :: rest => ⟨.keep, lines ++ more⟩ :: rest
  | rest => ⟨.keep, lines⟩ :: rest

/-- Puts kept lines behind runs, of which the last one stands first. -/
def keepLast (lines : List String) : List Run → List Run
  | ⟨.keep, more⟩ :: rest => ⟨.keep, more ++ lines⟩ :: rest
  | rest => ⟨.keep, lines⟩ :: rest

/-- One step upwards, if there is any. -/
def up? (f : Focus) : Option Focus :=
  match f.earlier with
  | [] => none
  | ⟨.keep, kept⟩ :: earlier =>
    let shared := if f.run.kind = .insert then commonBack kept f.run.lines else []
    if shared.isEmpty then
      if kept.isEmpty then some { f with earlier := earlier } else none
    else
      let left := kept.take (kept.length - shared.length)
      some
        { earlier := runOf .keep left ++ earlier
          run := ⟨.insert, shared ++ f.run.lines.take (f.run.lines.length - shared.length)⟩
          later := keepFirst shared f.later }
  | ⟨kind, lines⟩ :: earlier =>
    if kind = f.run.kind then some ⟨earlier, ⟨kind, lines ++ f.run.lines⟩, f.later⟩
    else some ⟨earlier, f.run, ⟨kind, lines⟩ :: f.later⟩

/-- One step downwards, if there is any. -/
def down? (f : Focus) : Option Focus :=
  match f.later with
  | [] => none
  | ⟨.keep, kept⟩ :: later =>
    let shared := if f.run.kind = .insert then commonFront kept f.run.lines else []
    if shared.isEmpty then
      if kept.isEmpty then some { f with later := later } else none
    else
      some
        { earlier := keepLast shared f.earlier
          run := ⟨.insert, f.run.lines.drop shared.length ++ shared⟩
          later := runOf .keep (kept.drop shared.length) ++ later }
  | ⟨kind, lines⟩ :: later =>
    if kind = f.run.kind then some ⟨f.earlier, ⟨kind, f.run.lines ++ lines⟩, later⟩
    else some ⟨⟨kind, lines⟩ :: f.earlier, f.run, later⟩

/-- As many steps as there are, up to a bound. -/
def repeated (step : Focus → Option Focus) (f : Focus) : Nat → Focus
  | 0 => f
  | fuel + 1 =>
    match step f with
    | some f => repeated step f fuel
    | none => f

/-- As far up and then as far down as it goes. -/
def shift (f : Focus) (fuel : Nat) : Focus := ((f.repeated up? fuel).repeated down? fuel)

end Focus

/-- Shifts all runs of a kind, from the first to the last. -/
def shiftAll (kind : Kind) (bound : Nat) (earlier : List Run) : List Run → Nat → List Run
  | [], _ => earlier.reverse
  | later, 0 => earlier.reverse ++ later
  | run :: later, fuel + 1 =>
    if run.kind = kind then
      let f := (Focus.mk earlier run later).shift bound
      shiftAll kind bound (f.run :: f.earlier) f.later fuel
    else shiftAll kind bound (run :: earlier) later fuel

/-- Puts deleted lines before inserted ones. `deleted` and `inserted` are the lines since the last
kept one. -/
def grouped (deleted inserted : List String) : List Run → List Run
  | [] => runOf .delete deleted ++ runOf .insert inserted
  | ⟨.keep, lines⟩ :: rest =>
    runOf .delete deleted ++ runOf .insert inserted ++ ⟨.keep, lines⟩ :: grouped [] [] rest
  | ⟨.delete, lines⟩ :: rest => grouped (deleted ++ lines) inserted rest
  | ⟨.insert, lines⟩ :: rest => grouped deleted (inserted ++ lines) rest

/-- The runs that lead from one text to another. -/
def ofTexts (old new : String) : List Run :=
  let oldLines := linesOf old
  let newLines := linesOf new
  let bound := 2 * (oldLines.length + newLines.length) + 4
  let runs := shortest oldLines newLines bound
  grouped [] [] (shiftAll .insert bound [] (shiftAll .delete bound [] runs bound) bound)

end Diff

end Fieldmark
