import Fieldmark.Binding
import Fieldmark.Event
import Fieldmark.Value

/-!
# Loading

Fetches the document of every binding of a page, all at once and under one time limit, into a
tree. A source says of each path how long a fetch takes and what comes of it, so a load is a
function: starts happen in binding order at time zero, completions in order of time, those of one
moment in binding order. The load ends with the first problem it sees, with all documents, or
with the time limit, and no fetch completes after that.

How a problem is seen depends on the number of bindings (`Join`): up to thirty, at once; beyond,
results are looked at in binding order, and a problem waits for the fetches bound before it.
-/

namespace Fieldmark

/-- What to do with two bindings of one name. -/
inductive DuplicatePolicy where
  /-- Let the later one stand, with a warning. -/
  | lastWins
  /-- Refuse the page. -/
  | reject
  deriving DecidableEq, Repr, Inhabited

/-- How a load goes about its fetches. -/
structure LoadOptions where
  /-- The time that all fetches together may take, if it is limited. -/
  timeout? : Option Duration
  duplicates : DuplicatePolicy
  deriving DecidableEq, Repr

/-- The time limit of a load that sets none of its own. -/
def defaultTimeout : Duration := .ofSeconds 30

instance : Inhabited LoadOptions := ⟨⟨some defaultTimeout, .lastWins⟩⟩

/-- What a source does when asked for a path: how long it takes, what it tells meanwhile and what
it answers. -/
structure Response where
  delay : Duration
  events : List Event
  answer : Except Problem Value

/-- A store of documents, seen from the load. -/
abbrev Source := String → Response

namespace Load

/-! ## Repeated names -/

/-- Every binding whose name was bound before, behind the nearest earlier binding of that name.
`seen` holds the bindings so far, latest first. -/
def repeats (seen : List Binding) : List Binding → List (Binding × Binding)
  | [] => []
  | binding :: rest =>
    match seen.find? (·.name == binding.name) with
    | some earlier => (earlier, binding) :: repeats (binding :: seen) rest
    | none => repeats (binding :: seen) rest

/-- Refuses repeated names or tells of each, as the policy says. -/
def checkDuplicates (policy : DuplicatePolicy) (bindings : List Binding) : Report Unit :=
  let pairs := repeats [] bindings
  match policy with
  | .lastWins =>
    ⟨pairs.map fun (earlier, later) =>
      .reboundName later.name later.span.start.line earlier.span.start.line, .ok ()⟩
  | .reject =>
    match pairs with
    | [] => ⟨[], .ok ()⟩
    | (earlier, later) :: _ =>
      ⟨[], .error (.duplicateReference later.name earlier.span.start.line later.span.start.line)⟩

/-! ## Fetching -/

/-- How the outcomes of fetches are looked at. -/
inductive Join where
  /-- Each as it comes. -/
  | eager
  /-- In binding order. -/
  | ordered
  deriving DecidableEq, Repr

/-- Up to this many fetches are joined eagerly. -/
def eagerLimit : Nat := 30

def Join.ofCount (count : Nat) : Join := if count ≤ eagerLimit then .eager else .ordered

/-- The outcomes of all fetches in binding order; those under way have none. -/
abbrev Outcomes := List (Option (Except Problem Value))

/-- The problem that ends a load with these outcomes, if one is seen. -/
def Join.problem? : Join → Outcomes → Option Problem
  | eager, outcomes =>
    outcomes.findSome? fun
      | some (.error problem) => some problem
      | _ => none
  | ordered, [] => none
  | ordered, some (.ok _) :: rest => Join.problem? ordered rest
  | ordered, some (.error problem) :: _ => some problem
  | ordered, none :: _ => none

/-- All documents in binding order, once there are no others to wait for. -/
def allFetched? : Outcomes → Option (List Value)
  | [] => some []
  | some (.ok value) :: rest => (allFetched? rest).map (value :: ·)
  | _ => none

/-- A fetch: its place among the bindings, what it is for and how the source responds. -/
structure Fetch where
  index : Nat
  binding : Binding
  response : Response

/-- What comes of a fetch, with the reference it was for. -/
def Fetch.outcome (fetch : Fetch) : Except Problem Value :=
  fetch.response.answer.mapError (.dataFetch fetch.binding.name fetch.binding.path)

/-- A load under way: outcomes so far, paths fetched so far, and all that was told. -/
structure Progress where
  outcomes : Outcomes
  finished : List String
  events : List Event

/-- How a load ended. -/
structure Result where
  events : List Event
  /-- The paths fetched with success, in order of completion. -/
  finished : List String
  /-- When the load ended. -/
  ended : Duration
  result : Except Problem Tree

namespace Progress

def begin (count : Nat) : Progress := ⟨List.replicate count none, [], []⟩

/-- A fetch begins. -/
def start (p : Progress) (fetch : Fetch) : Progress :=
  { p with events := p.events ++ [.fetching fetch.binding.name fetch.binding.path] }

/-- A fetch completes. -/
def complete (p : Progress) (fetch : Fetch) : Progress :=
  { outcomes := p.outcomes.set fetch.index (some fetch.outcome)
    finished :=
      match fetch.response.answer with
      | .ok _ => p.finished ++ [fetch.binding.path]
      | .error _ => p.finished
    events := p.events ++ fetch.response.events }

/-- The load is over. -/
def stop (p : Progress) (ended : Duration) (problem : Problem) : Result :=
  ⟨p.events, p.finished, ended, .error problem⟩

end Progress

/-- The starts, in binding order; a fetch that takes no time completes before the next one starts.
The result is that of a load which ends here, or the progress of one that goes on. -/
def startAll (join : Join) (p : Progress) : List Fetch → Result ⊕ Progress
  | [] => .inr p
  | fetch :: rest =>
    let started := p.start fetch
    if fetch.response.delay.nanoseconds = 0 then
      let completed := started.complete fetch
      match join.problem? completed.outcomes with
      | some problem => .inl (completed.stop ⟨0⟩ problem)
      | none => startAll join completed rest
    else startAll join started rest

/-- The tree of bindings and their documents, in binding order. -/
def treeOf (bindings : List Binding) (values : List Value) : Tree :=
  .ofPairs ((bindings.map (·.name)).zip values)

/-- The end of a load with nothing left to wait for, at the time `now`. -/
def finish (bindings : List Binding) (p : Progress) (now : Duration) : Result :=
  let tree := treeOf bindings ((allFetched? p.outcomes).getD [])
  ⟨p.events ++ [.loadedTree bindings.length tree.size], p.finished, now, .ok tree⟩

/-- The completions that are still to come, in order of time. -/
def await (join : Join) (timeout? : Option Duration) (bindings : List Binding) (p : Progress)
    (now : Duration) : List Fetch → Result
  | [] => finish bindings p now
  | fetch :: rest =>
    let due := fetch.response.delay
    match timeout?.filter (·.nanoseconds < due.nanoseconds) with
    | some timeout => p.stop timeout (.fetchTimeout bindings.length timeout)
    | none =>
      let completed := p.complete fetch
      match join.problem? completed.outcomes with
      | some problem => completed.stop due problem
      | none => await join timeout? bindings completed due rest

/-- The fetches of bindings from a source. -/
def fetches (source : Source) (bindings : List Binding) : List Fetch :=
  bindings.zipIdx.map fun (binding, index) => ⟨index, binding, source binding.path⟩

/-- Fetches that take time, by the time they take, those of one time in binding order. -/
def delayed (all : List Fetch) : List Fetch :=
  (all.filter (·.response.delay.nanoseconds ≠ 0)).mergeSort
    fun a b => a.response.delay.nanoseconds ≤ b.response.delay.nanoseconds

/-- Runs the fetches of bindings to the end of the load. -/
def run (source : Source) (timeout? : Option Duration) (bindings : List Binding) : Result :=
  let all := fetches source bindings
  let join := Join.ofCount bindings.length
  match startAll join (.begin bindings.length) all with
  | .inl result => result
  | .inr p => await join timeout? bindings p ⟨0⟩ (delayed all)

end Load

/-- Fetches everything that a page binds. -/
def load (source : Source) (options : LoadOptions) (page : List Char) : Load.Result :=
  let bindings := Binding.find page
  let checked := Load.checkDuplicates options.duplicates bindings
  match checked.result with
  | .error problem => ⟨checked.events, [], ⟨0⟩, .error problem⟩
  | .ok () =>
    let result := Load.run source options.timeout? bindings
    { result with events := checked.events ++ result.events }

end Fieldmark
