import Fieldmark.Problem
import Fieldmark.Quoted

/-!
# Events

What the library tells of its work besides its answers, in the order in which it happens. A
`Report` is an answer, or the problem that stood in its way, with the events up to then.
-/

namespace Fieldmark

/-- Something worth telling while a page is filled. -/
inductive Event where
  | skippedOpen (line column : Nat)
  | resolvedField (reference : String) (fields : List String) (line : Nat)
  | renderedLoop (collection : String) (items line : Nat)
  | reboundName (name : String) (line previousLine : Nat)
  | fetching (name path : String)
  | loadedTree (bindings references : Nat)
  | readingCollection (path : String) (documents : Nat)
  deriving DecidableEq, Repr

namespace Event

/-- How much an event matters. -/
inductive Level where
  | debug
  | info
  | warn
  deriving DecidableEq, Repr

def Level.word : Level → String
  | debug => "DEBUG"
  | info => "INFO"
  | warn => "WARN"

def level : Event → Level
  | skippedOpen .. | reboundName .. => .warn
  | loadedTree .. => .info
  | _ => .debug

def message : Event → String
  | skippedOpen .. => "found an extra `<:` inside an open tag, skipping it"
  | resolvedField .. => "resolved variable tag"
  | renderedLoop .. => "rendered loop"
  | reboundName .. => "reference is bound more than once, the last binding wins"
  | fetching .. => "fetching reference"
  | loadedTree .. => "loaded data tree"
  | readingCollection .. => "reading collection"

/-- The data of an event as named texts. -/
def details : Event → List (String × String)
  | skippedOpen line column => [("line", toString line), ("column", toString column)]
  | resolvedField reference fields line =>
    [("reference", reference), ("fields", quotedList fields), ("line", toString line)]
  | renderedLoop collection items line =>
    [("collection", collection), ("items", toString items), ("line", toString line)]
  | reboundName name line previousLine =>
    [("name", name), ("line", toString line), ("previous_line", toString previousLine)]
  | fetching name path => [("name", name), ("path", path)]
  | loadedTree bindings references =>
    [("bindings", toString bindings), ("references", toString references)]
  | readingCollection path documents => [("path", path), ("documents", toString documents)]

/-- An event on one line. -/
def line (event : Event) : String :=
  let data := event.details.map fun (name, text) => name ++ "=" ++ text
  " ".intercalate (event.level.word :: event.message :: data)

end Event

/-- An answer or a problem, and the events on the way to it. -/
structure Report (α : Type) where
  events : List Event
  result : Except Problem α

namespace Report

/-- One event and nothing to answer. -/
def tell (event : Event) : Report Unit := ⟨[event], .ok ()⟩

/-- An answer without events. -/
def ofExcept {α : Type} (result : Except Problem α) : Report α := ⟨[], result⟩

instance : Monad Report where
  pure a := ⟨[], .ok a⟩
  bind r next :=
    match r.result with
    | .error problem => ⟨r.events, .error problem⟩
    | .ok a => let r' := next a; ⟨r.events ++ r'.events, r'.result⟩

end Report

end Fieldmark
