import Fieldmark.Diff

/-!
# Shortest ways from one text to another

A way through the grid of two texts goes right for a line deleted, down for a line inserted, and
along a diagonal for a line kept. Ways with few deletions and insertions are followed from both
corners at once, by as many as possible on each diagonal, until two of them meet; there the texts
are split and both halves done the same way. Where there is a choice, the order in which the
diagonals are followed decides.
-/

namespace Fieldmark

namespace Diff

/-- How far the ways with a number of deletions and insertions have come on each diagonal, on the
side of the old text. -/
structure Frontier where
  offset : Nat
  reached : Array Nat

namespace Frontier

def ofSize (size : Nat) : Frontier := ⟨size, Array.replicate (2 * size + 3) 0⟩

def get (f : Frontier) (diagonal : Int) : Nat :=
  f.reached.getD (diagonal + f.offset + 1).toNat 0

def set (f : Frontier) (diagonal : Int) (x : Nat) : Frontier :=
  { f with reached := f.reached.setIfInBounds (diagonal + f.offset + 1).toNat x }

/-- How far a way comes on a diagonal with one more deletion or insertion, before lines are kept.
`cost` is the number of these with that one. -/
def step (f : Frontier) (cost : Nat) (diagonal : Int) : Nat :=
  if diagonal = -cost ∨ (diagonal ≠ cost ∧ f.get (diagonal - 1) < f.get (diagonal + 1)) then
    f.get (diagonal + 1)
  else f.get (diagonal - 1) + 1

end Frontier

/-- The two texts that are compared, as arrays of lines. -/
structure Grid where
  old : Array String
  new : Array String

namespace Grid

/-- How many lines are the same from a point of the grid on; `fuel` bounds their number. -/
def sameFrom (g : Grid) (x y : Nat) : Nat → Nat
  | 0 => 0
  | fuel + 1 =>
    match g.old[x]?, g.new[y]? with
    | some a, some b => if a = b then sameFrom g (x + 1) (y + 1) fuel + 1 else 0
    | _, _ => 0

/-- The grid seen from its other corner. -/
def flip (g : Grid) : Grid := ⟨g.old.reverse, g.new.reverse⟩

/-- Follows the ways of a cost on the diagonals given. `meets` says of a diagonal and how far the
way on it has come, now and before it kept lines, whether and where the search ends. -/
def follow (g : Grid) (cost : Nat) (meets : Int → Nat → Nat → Option (Nat × Nat)) (f : Frontier) :
    List Int → Frontier × Option (Nat × Nat)
  | [] => (f, none)
  | diagonal :: rest =>
    let x := f.step cost diagonal
    let y := x - diagonal
    let kept := if y < 0 then 0 else g.sameFrom x y.toNat (g.old.size + 1)
    let f := f.set diagonal (x + kept)
    match meets diagonal x (x + kept) with
    | some point => (f, some point)
    | none => follow g cost meets f rest

/-- The diagonals that ways of a cost end on, from the upper right to the lower left. -/
def diagonals (cost : Nat) : List Int :=
  (List.range (cost + 1)).map fun (i : Nat) => (cost : Int) - 2 * (i : Int)

/-- A point where two ways meet, one from each corner. `cost` is what both may cost at the next
step. -/
def meeting (g : Grid) (forward backward : Frontier) (cost : Nat) : Nat → Option (Nat × Nat)
  | 0 => none
  | fuel + 1 =>
    let n := g.old.size
    let delta : Int := (n : Int) - g.new.size
    let isOdd := delta % 2 ≠ 0
    let meetsForward (diagonal : Int) (x reached : Nat) : Option (Nat × Nat) :=
      if isOdd ∧ (diagonal - delta).natAbs + 1 ≤ cost ∧
          n ≤ reached + backward.get (-(diagonal - delta)) then
        some (x, (x - diagonal).toNat)
      else none
    let (forward, met?) := g.follow cost meetsForward forward (diagonals cost)
    match met? with
    | some point => some point
    | none =>
      let meetsBackward (diagonal : Int) (_ reached : Nat) : Option (Nat × Nat) :=
        if !isOdd ∧ (diagonal - delta).natAbs ≤ cost ∧
            n ≤ reached + forward.get (-(diagonal - delta)) then
          some (n - reached, g.new.size - (reached - diagonal).toNat)
        else none
      let (backward, met?) := g.flip.follow cost meetsBackward backward (diagonals cost)
      match met? with
      | some point => some point
      | none => meeting g forward backward (cost + 1) fuel

/-- Half the cost of the longest way, and some more. -/
def maxCost (g : Grid) : Nat := (g.old.size + g.new.size + 1) / 2 + 1

/-- A point on a shortest way that splits it in two. -/
def middle (g : Grid) : Option (Nat × Nat) :=
  g.meeting (.ofSize g.maxCost) (.ofSize g.maxCost) 0 g.maxCost

end Grid

/-- The runs of a shortest way from `old` to `new`; `fuel` bounds how often it is split. -/
def shortest (old new : List String) : Nat → List Run
  | 0 => runOf .delete old ++ runOf .insert new
  | fuel + 1 =>
    let front := commonFront old new
    let old := old.drop front.length
    let new := new.drop front.length
    let back := commonBack old new
    let old := old.take (old.length - back.length)
    let new := new.take (new.length - back.length)
    let between :=
      if old.isEmpty ∨ new.isEmpty then runOf .delete old ++ runOf .insert new
      else
        match (Grid.mk old.toArray new.toArray).middle with
        | some (x, y) =>
          shortest (old.take x) (new.take y) fuel ++ shortest (old.drop x) (new.drop y) fuel
        | none => runOf .delete old ++ runOf .insert new
    runOf .keep front ++ between ++ runOf .keep back

end Diff

end Fieldmark
