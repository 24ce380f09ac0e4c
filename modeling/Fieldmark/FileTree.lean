import Fieldmark.Path

/-!
# Trees of files

A file system as a map from places to files and directories. A path is followed from a directory
part by part; each way in which that can fail is a `FileFault`. Changes give a new tree: `write`
changes one file, `createDirectories` adds the directories that are missing on a path.
-/

namespace Fieldmark

/-- Why a file cannot be reached, read or made. -/
inductive FileFault where
  | notFound
  | exists
  | notDirectory
  | isDirectory
  | nameTooLong
  | zeroCharacter
  | notText
  deriving DecidableEq, Repr

def FileFault.message : FileFault → String
  | notFound => "No such file or directory (os error 2)"
  | .exists => "File exists (os error 17)"
  | notDirectory => "Not a directory (os error 20)"
  | isDirectory => "Is a directory (os error 21)"
  | nameTooLong => "File name too long (os error 36)"
  | zeroCharacter => "file name contained an unexpected NUL byte"
  | notText => "stream did not contain valid UTF-8"

inductive FileEntry where
  | file (content : ByteArray)
  | directory

instance : BEq FileEntry where
  beq
    | .file content, .file other => content.data == other.data
    | .directory, .directory => true
    | _, _ => false

def FileEntry.isFile : FileEntry → Bool
  | file _ => true
  | directory => false

def FileEntry.isDirectory (entry : FileEntry) : Bool := !entry.isFile

/-- The names from the root down to a file or directory. -/
abbrev Place := List String

/-- What stands where, in no particular order. The root is a directory. -/
structure FileTree where
  entries : List (Place × FileEntry)

namespace FileTree

def empty : FileTree := ⟨[]⟩

def entry? (tree : FileTree) (place : Place) : Option FileEntry :=
  if place = [] then some .directory else tree.entries.lookup place

def isDirectoryAt (tree : FileTree) (place : Place) : Bool :=
  ((tree.entry? place).map FileEntry.isDirectory).getD false

/-- Puts something at a place, instead of what is there. -/
def put (tree : FileTree) (place : Place) (entry : FileEntry) : FileTree :=
  if tree.entries.any (·.1 == place) then
    ⟨tree.entries.map fun old => if old.1 == place then (place, entry) else old⟩
  else ⟨tree.entries ++ [(place, entry)]⟩

/-- What is not in another tree, or is there as something else. -/
def changesFrom (tree before : FileTree) : List (Place × FileEntry) :=
  tree.entries.filter fun (place, entry) => before.entries.lookup place != some entry

/-! ## Following paths -/

/-- A name has at most this many bytes. -/
def maxName : Nat := 255

/-- A path has less than this many bytes. -/
def maxPath : Nat := 4096

/-- Follows parts of a path from a place. Whatever is followed by a part, be it empty, must be a
directory. -/
def follow (tree : FileTree) (place : Place) : List (List Char) → Except FileFault Place
  | [] => .ok place
  | part :: rest =>
    if !tree.isDirectoryAt place then .error .notDirectory
    else if Path.isVoid part then follow tree place rest
    else if part = ['.', '.'] then follow tree place.dropLast rest
    else
      let name := String.ofList part
      if maxName < name.utf8ByteSize then .error .nameTooLong
      else
        match tree.entry? (place ++ [name]) with
        | none => .error .notFound
        | some _ => follow tree (place ++ [name]) rest

/-- Refuses texts that are no paths. -/
def checkPath (path : String) : Except FileFault Unit :=
  if path.toList.contains '\x00' then .error .zeroCharacter
  else if path = "" then .error .notFound
  else if maxPath ≤ path.utf8ByteSize then .error .nameTooLong
  else .ok ()

/-- Where a path begins that is followed from a directory. -/
def origin (directory : Place) (path : String) : Place :=
  if path.startsWith "/" then [] else directory

/-- The place of what a path names. -/
def locate (tree : FileTree) (directory : Place) (path : String) : Except FileFault Place := do
  checkPath path
  tree.follow (origin directory path) (Path.parts path.toList)

/-- What a path names. -/
def stat (tree : FileTree) (directory : Place) (path : String) : Except FileFault FileEntry := do
  let place ← tree.locate directory path
  match tree.entry? place with
  | some entry => .ok entry
  | none => .error .notFound

def isFile (tree : FileTree) (directory : Place) (path : String) : Bool :=
  match tree.stat directory path with
  | .ok entry => entry.isFile
  | .error _ => false

def isDirectory (tree : FileTree) (directory : Place) (path : String) : Bool :=
  match tree.stat directory path with
  | .ok entry => entry.isDirectory
  | .error _ => false

/-- The text of a file. -/
def readText (tree : FileTree) (directory : Place) (path : String) : Except FileFault String := do
  match ← tree.stat directory path with
  | .directory => .error .isDirectory
  | .file content =>
    match String.fromUTF8? content with
    | some text => .ok text
    | none => .error .notText

/-- The names in a directory, in no particular order, with what they name. -/
def list (tree : FileTree) (directory : Place) (path : String) :
    Except FileFault (List (String × FileEntry)) := do
  let place ← tree.locate directory path
  if !tree.isDirectoryAt place then .error .notDirectory
  else .ok (tree.entries.filterMap fun (other, entry) =>
    match other.getLast? with
    | some name => if other.dropLast = place then some (name, entry) else none
    | none => none)

/-! ## Changes -/

/-- The directory around what a path names, and the last part of the path; a slash may follow. -/
def locateLast (tree : FileTree) (directory : Place) (path : String) :
    Except FileFault (Place × List Char) := do
  checkPath path
  let parts := ((Path.parts path.toList).reverse.dropWhile (· == [])).reverse
  let place ← tree.follow (origin directory path) parts.dropLast
  if !tree.isDirectoryAt place then .error .notDirectory
  else .ok (place, parts.getLast?.getD [])

/-- Whether a part is the name of something in the directory where it stands. -/
def isName (part : List Char) : Bool := !Path.isVoid part && part != ['.', '.']

/-- Makes a directory. -/
def createDirectory (tree : FileTree) (directory : Place) (path : String) :
    Except FileFault FileTree := do
  let (place, last) ← tree.locateLast directory path
  let name := String.ofList last
  if !isName last then .error .exists
  else if maxName < name.utf8ByteSize then .error .nameTooLong
  else if (tree.entry? (place ++ [name])).isSome then .error .exists
  else .ok (tree.put (place ++ [name]) .directory)

/-- A tree after an attempt to change it, and the fault that put an end to the attempt, if one
did. What was changed before a fault stays changed. -/
structure Attempt where
  tree : FileTree
  fault? : Option FileFault

/-- Makes a directory, which may be there already. -/
def ensureDirectory (tree : FileTree) (directory : Place) (path : String) : Attempt :=
  match tree.createDirectory directory path with
  | .ok created => ⟨created, none⟩
  | .error fault => ⟨tree, if tree.isDirectory directory path then none else some fault⟩

/-- Makes a directory where none is, behind those around it as far as they are missing; `fuel`
bounds how many these are. -/
def ensureAround (tree : FileTree) (directory : Place) (path : String) : Nat → Attempt
  | 0 => ⟨tree, some .notFound⟩
  | fuel + 1 =>
    if path = "" then ⟨tree, none⟩
    else
      match tree.createDirectory directory path, Path.parent? path with
      | .error .notFound, some outer =>
        let around := ensureAround tree directory outer fuel
        if around.fault?.isSome then around else around.tree.ensureDirectory directory path
      | _, _ => tree.ensureDirectory directory path

/-- Makes a directory where none is, behind those around it as far as they are missing. -/
def createDirectories (tree : FileTree) (directory : Place) (path : String) : Attempt :=
  tree.ensureAround directory path (path.length + 1)

/-- Writes a file, in a directory that is there. -/
def write (tree : FileTree) (directory : Place) (path : String) (content : ByteArray) :
    Except FileFault FileTree := do
  let (place, last) ← tree.locateLast directory path
  let name := String.ofList last
  if path.endsWith "/" ∨ !isName last then .error .isDirectory
  else if maxName < name.utf8ByteSize then .error .nameTooLong
  else
    match tree.entry? (place ++ [name]) with
    | some .directory => .error .isDirectory
    | _ => .ok (tree.put (place ++ [name]) (.file content))

end FileTree

end Fieldmark
