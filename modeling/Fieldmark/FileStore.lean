import Fieldmark.DataFile
import Fieldmark.FileTree
import Fieldmark.Load

/-!
# Documents in files

A store of the data files below a directory. A path becomes a path below this root: that of a
directory stands for the collection of the documents in it, any other one for a data file, whose
extension may be left out. What a lookup touches is part of its answer (`Lookup`), and it stays
below the root: a path that could lead out of it is answered without touching anything.

A lookup takes the time that it takes to touch these paths, one after the other but for the
documents of a collection: these are read at once, each to its end whatever comes of the others.
Which of them is blamed if several cannot be read is decided as in a load (`Load.Join`).
-/

namespace Fieldmark

/-- An answer from files: the paths touched on the way, what was told, how long it took and what
came of it. -/
structure Lookup (α : Type) where
  touched : List String
  events : List Event
  time : Duration
  result : Except Problem α

namespace Lookup

def ofExcept {α : Type} (result : Except Problem α) : Lookup α := ⟨[], [], ⟨0⟩, result⟩

def fail {α : Type} (problem : Problem) : Lookup α := ofExcept (.error problem)

def tell (event : Event) : Lookup Unit := ⟨[], [event], ⟨0⟩, .ok ()⟩

/-- Touches a path. A fault is a problem with this path. -/
def touch {α : Type} (path : String) (time : Duration) (answer : Except FileFault α) : Lookup α :=
  ⟨[path], [], time, answer.mapError fun fault => .transport path fault.message⟩

instance : Monad Lookup where
  pure a := ⟨[], [], ⟨0⟩, .ok a⟩
  bind l next :=
    match l.result with
    | .error problem => ⟨l.touched, l.events, l.time, .error problem⟩
    | .ok a =>
      let l' := next a
      ⟨l.touched ++ l'.touched, l.events ++ l'.events, l.time + l'.time, l'.result⟩

/-- When a lookup and others made at the same time are over, and how. A problem may have to wait for
what stands in front of it. -/
def ending {α : Type} (join : Load.Join) (l : Lookup α) (others : Lookup (List α)) :
    Duration × Except Problem (List α) :=
  match l.result, others.result, join with
  | .ok a, .ok rest, _ => (max l.time others.time, .ok (a :: rest))
  | .ok _, .error problem, .eager => (others.time, .error problem)
  | .ok _, .error problem, .ordered => (max l.time others.time, .error problem)
  | .error problem, .error other, .eager =>
    if l.time.nanoseconds ≤ others.time.nanoseconds then (l.time, .error problem)
    else (others.time, .error other)
  | .error problem, _, _ => (l.time, .error problem)

/-- Lookups that are made at once. -/
def all {α : Type} (join : Load.Join) : List (Lookup α) → Lookup (List α)
  | [] => pure []
  | l :: rest =>
    let others := all join rest
    let (time, result) := l.ending join others
    ⟨l.touched ++ others.touched, l.events ++ others.events, time, result⟩

end Lookup

/-- How long it takes to touch a path. -/
abbrev Delays := String → Duration

/-- The data files of a tree below `root`, a path from `directory`. -/
structure FileStore where
  tree : FileTree
  directory : Place
  root : String
  delays : Delays

namespace FileStore

/-- The name of the format of a data file, by its extension in any case. -/
def formatName? (path : String) : Option String :=
  ((Path.extension? path).map String.toLower).filter DataFormat.names.contains

/-- Whether something stands at a path and is of a kind. What is missing is not. -/
def isKind (store : FileStore) (kind : FileEntry → Bool) (path : String) : Lookup Bool :=
  .touch path (store.delays path) <|
    match store.tree.stat store.directory path with
    | .ok entry => .ok (kind entry)
    | .error .notFound => .ok false
    | .error fault => .error fault

/-- The document of a data file. -/
def readDocument (store : FileStore) (path : String) : Lookup Value := do
  let text ← Lookup.touch path (store.delays path) (store.tree.readText store.directory path)
  .ofExcept (readDataFile text.toList ((formatName? path).getD "") path)

/-- The names of data files among those of a directory, in their order. -/
def documentNames (names : List (String × FileEntry)) : List String :=
  let documents := names.filter fun (name, entry) => entry.isFile && (formatName? name).isSome
  (documents.map (·.1)).mergeSort (· ≤ ·)

/-- The documents of all data files in a directory, in the order of the files' names. `path` is
what was asked for. -/
def readCollection (store : FileStore) (base path : String) : Lookup Value := do
  let names ← Lookup.touch base (store.delays base) (store.tree.list store.directory base)
  let documents := documentNames names
  .tell (.readingCollection path documents.length)
  let reads := documents.map fun name => store.readDocument (Path.join base name)
  return .collection (← Lookup.all (.ofCount documents.length) reads)

/-- Whether a path could lead out of the directory where it is followed. -/
def escapes (path : String) : Bool :=
  (Path.components path).any fun
    | .parent => true
    | .root => true
    | _ => false

/-- The first data file among those that a path names with the extensions still to try. -/
def firstDocument (store : FileStore) (base path : String) : List String → Lookup Value
  | [] => .fail (.notFound path)
  | extension :: rest => do
    let candidate := base ++ "." ++ extension
    if ← store.isKind FileEntry.isFile candidate then store.readDocument candidate
    else store.firstDocument base path rest

/-- Looks a path up. -/
def lookup (store : FileStore) (path : String) : Lookup Value :=
  let relative := Path.trimSlashes path
  if escapes relative then .fail (.notFound path)
  else do
    let base := Path.join store.root relative
    if ← store.isKind FileEntry.isDirectory base then store.readCollection base path
    else
      let isDocument ←
        if (formatName? base).isSome then store.isKind FileEntry.isFile base else pure false
      if isDocument then store.readDocument base
      else store.firstDocument base path DataFormat.names

/-- The store as the source of a load. What a lookup tells counts as told when it is over. -/
def source (store : FileStore) : Source := fun path =>
  let lookup := store.lookup path
  ⟨lookup.time, lookup.events, lookup.result⟩

end FileStore

end Fieldmark
