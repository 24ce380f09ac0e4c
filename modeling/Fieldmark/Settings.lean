import Fieldmark.FileTree
import Fieldmark.Load
import Fieldmark.Number.Word
import Fieldmark.Scan
import Fieldmark.Toml.Reader

/-!
# Project settings

What a project says about itself in its settings file, with the values that hold where it says
nothing. Names it does not know are passed over. A section may be written as an array of its values
in order, and a word that stands for a choice as a table with this one name and nothing under it. A
date is a section that says nothing.
-/

namespace Fieldmark

/-- Which files a project is made of and how it is filled. -/
structure Settings where
  /-- The page that is filled. -/
  template : String
  /-- Where the filled page is written. -/
  destination : String
  /-- The directory of the data files. -/
  dataRoot : String
  /-- The time limit of a load in seconds; there is none if it is zero. -/
  timeoutSeconds : Nat
  duplicates : DuplicatePolicy
  nestedOpen : NestedOpenPolicy
  deriving DecidableEq, Repr

namespace Settings

def standard : Settings :=
  { template := "src/index.html"
    destination := "dist/index.html"
    dataRoot := "data"
    timeoutSeconds := 30
    duplicates := .lastWins
    nestedOpen := .warn }

instance : Inhabited Settings := ⟨standard⟩

def timeout? (settings : Settings) : Option Duration :=
  if settings.timeoutSeconds = 0 then none else some (.ofSeconds settings.timeoutSeconds)

def loadOptions (settings : Settings) : LoadOptions := ⟨settings.timeout?, settings.duplicates⟩

/-! ## Reading -/

/-- A value where one is given, else the one that holds otherwise. -/
def orElse {α : Type} (read : Toml → Option α) (otherwise : α) : Option Toml → Option α
  | none => some otherwise
  | some value => read value

def path? : Toml → Option String
  | .string path => some path
  | _ => none

/-- A count in 64 bits. -/
def count? : Toml → Option Nat
  | .integer value => if Word.isUnsigned 64 value then some value.toNat else none
  | _ => none

/-- A word that stands for a choice. -/
def word? : Toml → Option String
  | .string word => some word
  | .table [(word, .table [])] => some word
  | .table [(word, .array [])] => some word
  | _ => none

def duplicates? (value : Toml) : Option DuplicatePolicy :=
  (word? value).bind fun
    | "last-wins" => some .lastWins
    | "reject" => some .reject
    | _ => none

def nestedOpen? (value : Toml) : Option NestedOpenPolicy :=
  (word? value).bind fun
    | "warn" => some .warn
    | "error" => some .error
    | _ => none

/-- Whether an integer that means nothing here can be passed over. -/
def passes (n : Int) : Bool := Word.fits 128 n

/-- The values of a section under some names, whether it is a table or an array in their order.
What a table holds under other names must be readable too. -/
def section? (names : List String) : Option Toml → Option (String → Option Toml)
  | none => some fun _ => none
  | some (.table entries) =>
    let others := entries.filter fun entry => !names.contains entry.1
    if others.all fun entry => entry.2.everyInteger passes then some fun name => entries.lookup name
    else none
  | some (.array items) => some fun name => (names.zip items).lookup name
  | some (.dateTime _) => some fun _ => none
  | some _ => none

/-- The settings that a document holds. -/
def ofToml? (document : Toml) : Option Settings := do
  let field ← section? ["src", "dest", "data", "scan"] (some document)
  let data ← section? ["root", "timeout_secs", "duplicates"] (field "data")
  let scan ← section? ["nested_open"] (field "scan")
  return {
    template := ← orElse path? standard.template (field "src")
    destination := ← orElse path? standard.destination (field "dest")
    dataRoot := ← orElse path? standard.dataRoot (data "root")
    timeoutSeconds := ← orElse count? standard.timeoutSeconds (data "timeout_secs")
    duplicates := ← orElse duplicates? standard.duplicates (data "duplicates")
    nestedOpen := ← orElse nestedOpen? standard.nestedOpen (scan "nested_open") }

/-- The settings in the text of a settings file, or why there are none. -/
def read (text : List Char) : Except String Settings :=
  match Toml.read? text with
  | none => .error "invalid TOML"
  | some document =>
    match ofToml? document with
    | none => .error "invalid settings"
    | some settings => .ok settings

/-! ## In a project -/

/-- Where a project may keep its settings, the place that is asked first in front. -/
def candidates : List String := ["birdchirp.toml", ".birdchirp.toml", ".config/birdchirp.toml"]

/-- The settings file of the project at `root`. -/
def file? (tree : FileTree) (directory : Place) (root : String) : Option String :=
  (candidates.map (Path.join root)).find? (tree.isFile directory)

/-- The settings in the settings file of the project at `root`, if it has one. -/
def load (tree : FileTree) (directory : Place) (root : String) :
    Except Problem (Option Settings) :=
  match file? tree directory root with
  | none => .ok none
  | some path =>
    match tree.readText directory path with
    | .error fault => .error (.io fault.message)
    | .ok text =>
      match read text.toList with
      | .error reason => .error (.configParse reason)
      | .ok settings => .ok (some settings)

/-- The settings of the project at `root`, standard ones without a settings file. -/
def loadOrStandard (tree : FileTree) (directory : Place) (root : String) :
    Except Problem Settings :=
  (load tree directory root).map (·.getD standard)

end Settings

end Fieldmark
