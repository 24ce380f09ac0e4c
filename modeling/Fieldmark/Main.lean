import Fieldmark.Outcome

/-!
# The command line program

Reads the part of the file system that a command line can be about into a file tree, works on that
tree, and carries its changes back. In the tree it takes no time to look something up.
-/

namespace Fieldmark

/-- The place of a path from the root of the file system. -/
def Place.ofPath (path : String) : Place :=
  ((Path.parts path.toList).filter fun part => !Path.isVoid part).map String.ofList

/-- Adds what stands at a place. -/
def observe (tree : FileTree) (place : Place) : IO FileTree := do
  try
    let real ← IO.FS.realPath place.path
    if ← real.isDir then return tree.put place .directory
    else return tree.put place (.file (← IO.FS.readBinFile real))
  catch _ => return tree

/-- Adds what stands at a path and on the way to it. -/
def observePath (tree : FileTree) (directory : Place) (path : String) : IO FileTree := do
  let mut tree := tree
  let mut place := FileTree.origin directory path
  for part in Path.parts path.toList do
    if !Path.isVoid part then
      place := if part = ['.', '.'] then place.dropLast else place ++ [String.ofList part]
      tree ← observe tree place
  return tree

/-- Adds all that stands below a place. A directory that a link makes appear below itself is left
out; `around` are the directories on the way. -/
partial def observeBelow (tree : FileTree) (place : Place) (around : List String) :
    IO FileTree := do
  let mut tree ← observe tree place
  if tree.isDirectoryAt place then
    let real ← IO.FS.realPath place.path
    if !around.contains real.toString then
      for entry in ← real.readDir do
        tree ← observeBelow tree (place ++ [entry.fileName]) (real.toString :: around)
  return tree

/-- The file tree as far as an invocation can look at it. -/
def observeFor (invocation : Invocation) (directory : Place) : IO FileTree := do
  let mut tree ← observePath .empty [] directory.path
  for candidate in Settings.candidates do
    tree ← observePath tree directory (Path.join (invocation.root directory) candidate)
  match invocation.project tree directory with
  | .error _ => return tree
  | .ok project =>
    tree ← observePath tree directory project.template
    tree ← observePath tree directory project.destination
    tree ← observePath tree directory project.dataRoot
    match invocation.command, tree.locate directory project.dataRoot with
    | .refs _, _ => return tree
    | _, .error _ => return tree
    | _, .ok place => observeBelow tree place []

/-- Carries a change over to the file system. -/
def carryOut (place : Place) : FileEntry → IO Unit
  | .directory => IO.FS.createDirAll place.path
  | .file content => IO.FS.writeBinFile place.path content

end Fieldmark

open Fieldmark in
def main (arguments : List String) : IO UInt32 := do
  let started ← IO.monoNanosNow
  let directory := Place.ofPath (← IO.currentDir).toString
  let tree ← match Arguments.read arguments with
    | .error _ => pure FileTree.empty
    | .ok invocation => observeFor invocation directory
  let outcome := runArguments arguments tree (fun _ => ⟨0⟩) directory
  let colored := wantsColor arguments && (← IO.getEnv "NO_COLOR").isNone
  for event in outcome.events do
    IO.eprintln event.line
  try
    for (place, entry) in outcome.tree.changesFrom tree do
      carryOut place entry
    let elapsed := Duration.mk ((← IO.monoNanosNow) - started)
    IO.eprint (outcome.complaints colored)
    IO.print (outcome.output colored elapsed.secondsText)
    return outcome.ending.exitCode.toUInt32
  catch fault =>
    IO.eprint (Notice.errorText colored (toString fault))
    return 2
