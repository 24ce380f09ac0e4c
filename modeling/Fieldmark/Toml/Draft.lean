import Fieldmark.Toml

/-!
# TOML tables under construction

A document names its tables piece by piece, and what a piece may add depends on how the table came
to be. `Draft` remembers that: a table is opened by its own header once, and before that only
implied by headers of tables in it; dotted keys make tables of their own, which only dotted keys of
the same table add to. Values, inline tables among them, are closed. Every step that the rules
forbid is none.
-/

namespace Fieldmark

namespace Toml

/-- How a table came to be. -/
inductive Origin where
  /-- By its own header, or as the whole document. -/
  | header
  /-- By the header of a table inside it. -/
  | implied
  /-- By a dotted key. -/
  | dotted
  deriving DecidableEq, Repr

/-- A part of a document under construction. The tables of an array that headers build stand
latest first. -/
inductive Draft where
  | closed (value : Toml)
  | table (origin : Origin) (entries : List (String × Draft))
  | tables (latestFirst : List (List (String × Draft)))

namespace Draft

/-- The entries of a table under construction. -/
abbrev Entries := List (String × Draft)

/-- Puts another value under a name that is there, or a new entry at the end. -/
def put (name : String) (draft : Draft) : Entries → Entries
  | [] => [(name, draft)]
  | (other, old) :: rest =>
    if other = name then (name, draft) :: rest else (other, old) :: put name draft rest

/-- Changes the table at the end of a path, which the steps on the way make if it is missing.
`byKey` tells a dotted key from a header: a key does not add to a table with a header of its
own. -/
def modify (byKey : Bool) (change : Origin → Entries → Option Entries) :
    List String → Origin → Entries → Option Entries
  | [], origin, entries => change origin entries
  | name :: path, _, entries =>
    match entries.lookup name with
    | none =>
      let origin : Origin := if byKey then .dotted else .implied
      (modify byKey change path origin []).map fun inner => entries ++ [(name, .table origin inner)]
    | some (.table origin inner) =>
      if byKey ∧ origin = .header then none
      else (modify byKey change path origin inner).map fun inner' =>
        put name (.table origin inner') entries
    | some (.tables (latest :: earlier)) =>
      (modify byKey change path .header latest).map fun latest' =>
        put name (.tables (latest' :: earlier)) entries
    | some _ => none

/-- A new entry. A plain key belongs into a table with a header, a dotted one into a table that
dotted keys made. -/
def addEntry (isDotted : Bool) (name : String) (value : Toml) (origin : Origin)
    (entries : Entries) : Option Entries :=
  if (origin == .dotted) ≠ isDotted then none
  else
    match entries.lookup name with
    | some _ => none
    | none => some (entries ++ [(name, .closed value)])

/-- Opens a table. -/
def openTable (name : String) (entries : Entries) : Option Entries :=
  match entries.lookup name with
  | none => some (entries ++ [(name, .table .header [])])
  | some (.table .implied inner) => some (put name (.table .header inner) entries)
  | some _ => none

/-- Opens one more table of an array. -/
def openElement (name : String) (entries : Entries) : Option Entries :=
  match entries.lookup name with
  | none => some (entries ++ [(name, .tables [[]])])
  | some (.tables latestFirst) => some (put name (.tables ([] :: latestFirst)) entries)
  | some _ => none

mutual

/-- What the construction has come to. -/
def finish : Draft → Toml
  | closed value => value
  | table _ entries => .table (finishEntries entries)
  | tables latestFirst => .array (finishTables latestFirst [])

def finishEntries : List (String × Draft) → List (String × Toml)
  | [] => []
  | (name, draft) :: rest => (name, draft.finish) :: finishEntries rest

/-- The finished tables, earliest first, in front of those in `later`. -/
def finishTables : List (List (String × Draft)) → List Toml → List Toml
  | [], later => later
  | entries :: earlier, later => finishTables earlier (.table (finishEntries entries) :: later)

end

end Draft

/-- A key: the names before its last dot, and the last name. -/
structure Key where
  path : List String
  name : String
  deriving DecidableEq, Repr

/-- Adds an entry under a key to a table. -/
def Draft.addKey (key : Key) (value : Toml) (origin : Origin) (entries : Entries) :
    Option Entries :=
  modify true (addEntry (!key.path.isEmpty) key.name value) key.path origin entries

/-- The inline table of a list of entries. -/
def inlineTable? (entries : List (Key × Toml)) : Option Toml :=
  (entries.foldlM (fun sofar (key, value) => Draft.addKey key value .header sofar) []).map
    fun built => .table (Draft.finishEntries built)

/-- What a line of a document says. -/
inductive Statement where
  | openTable (key : Key)
  | openElement (key : Key)
  | entry (key : Key) (value : Toml)

/-- A document under construction: its entries, and the path of the table opened last. -/
structure Draft.Progress where
  current : List String
  entries : Draft.Entries

/-- Follows a statement. -/
def Draft.Progress.follow (p : Draft.Progress) : Statement → Option Draft.Progress
  | .openTable key =>
    (Draft.modify false (fun _ => Draft.openTable key.name) key.path .header p.entries).map
      fun entries => ⟨key.path ++ [key.name], entries⟩
  | .openElement key =>
    (Draft.modify false (fun _ => Draft.openElement key.name) key.path .header p.entries).map
      fun entries => ⟨key.path ++ [key.name], entries⟩
  | .entry key value =>
    (Draft.modify false (Draft.addKey key value) p.current .header p.entries).map
      fun entries => ⟨p.current, entries⟩

/-- The document that statements make, if each of them is allowed where it stands. -/
def document? (statements : List Statement) : Option Toml :=
  (statements.foldlM Draft.Progress.follow ⟨[], []⟩).map
    fun p => .table (Draft.finishEntries p.entries)

end Toml

end Fieldmark
