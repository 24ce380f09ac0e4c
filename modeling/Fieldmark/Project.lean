import Fieldmark.Arguments
import Fieldmark.FileStore
import Fieldmark.Fill
import Fieldmark.Settings

/-!
# Projects

The files that belong together in a project, found from its settings and from the paths that a
command line gives in their place. All paths are followed from the project's root. Filling a project
reads its page and its data files and changes nothing; a reference that is missing, an odd tag or a
page that cannot be read is a `Failure`. So are documents that take too long: how long it takes to
touch a file is given along with the tree.
-/

namespace Fieldmark

/-- The text of the path from the root of a file tree to a place. -/
def Place.path (place : Place) : String := "/" ++ "/".intercalate place

/-- A project in a file tree. The paths are followed from `directory`. -/
structure Project where
  directory : Place
  root : String
  settings : Settings
  /-- The page that is filled. -/
  template : String
  /-- Where the filled page is written. -/
  destination : String
  /-- The directory of the data files. -/
  dataRoot : String

/-- Why a command cannot do its work. -/
inductive Failure where
  | usage (fault : UsageFault)
  | problem (problem : Problem)
  | template (path : String) (fault : FileFault)
  | destination (fault : FileFault)
  deriving DecidableEq, Repr

namespace Project

/-- The project at `root`. A path that is chosen goes before the one in the settings. -/
def find (tree : FileTree) (directory : Place) (root : String) (chosen : PathChoices) :
    Except Problem Project :=
  (Settings.loadOrStandard tree directory root).map fun settings =>
    { directory := directory
      root := root
      settings := settings
      template := Path.join root (chosen.template?.getD settings.template)
      destination := Path.join root (chosen.destination?.getD settings.destination)
      dataRoot := Path.join root (chosen.dataRoot?.getD settings.dataRoot) }

/-- A path as a message shows it. -/
def relative (project : Project) (path : String) : String := Path.relativeTo project.root path

/-- The page as it is before it is filled. -/
def readTemplate (project : Project) (tree : FileTree) : Except Failure String :=
  (tree.readText project.directory project.template).mapError
    (.template (project.relative project.template))

/-- The data files. -/
def store (project : Project) (tree : FileTree) (delays : Delays) : FileStore :=
  ⟨tree, project.directory, project.dataRoot, delays⟩

/-- The filled page, or why there is none, and what was told on the way. -/
def fill (project : Project) (tree : FileTree) (delays : Delays) :
    List Event × Except Failure Substitution :=
  match project.readTemplate tree with
  | .error failure => ([], .error failure)
  | .ok page =>
    let report := Fieldmark.fill (project.store tree delays).source project.settings.loadOptions
      project.settings.nestedOpen page.toList
    (report.events, report.result.mapError .problem)

/-- The text of the destination, if there is one. -/
def current? (project : Project) (tree : FileTree) : Option String :=
  (tree.readText project.directory project.destination).toOption

/-- Writes the filled page to its destination, and makes the directories that this takes. -/
def write (project : Project) (tree : FileTree) (output : String) : FileTree.Attempt :=
  let around := match Path.parent? project.destination with
    | none => ⟨tree, none⟩
    | some outer => tree.createDirectories project.directory outer
  if around.fault?.isSome then around
  else
    match around.tree.write project.directory project.destination output.toUTF8 with
    | .ok written => ⟨written, none⟩
    | .error fault => ⟨around.tree, some fault⟩

end Project

end Fieldmark
