import Fieldmark.Diff.Compaction
import Fieldmark.Notice

/-!
# Outcomes of commands

What comes of a command in a file tree: the tree as it is afterwards, what was said, and how it
ended. Only a build without a dry run changes the tree, and only once the page is filled, so a build
that fails before leaves everything as it was.
-/

namespace Fieldmark

/-- How a command ended. -/
inductive Ending where
  | done
  /-- A check found the destination missing or out of date. -/
  | stale
  | failed (failure : Failure)
  deriving DecidableEq, Repr

/-- The number that a command ends with. -/
def Ending.exitCode : Ending → UInt8
  | done => 0
  | stale => 1
  | failed _ => 2

/-- What comes of a command. -/
structure Outcome where
  tree : FileTree
  /-- What is shown of the work's events. -/
  events : List Event
  /-- What the command says, in order. -/
  notices : List Notice
  ending : Ending

namespace Outcome

/-- Nothing was done. -/
def failed (tree : FileTree) (events : List Event) (failure : Failure) : Outcome :=
  ⟨tree, events, [.failure failure], .failed failure⟩

/-- What a command prints, less its complaints. -/
def output (outcome : Outcome) (colored : Bool) (elapsed : String) : String :=
  String.join ((outcome.notices.filter (!·.isComplaint)).map (·.text colored elapsed))

/-- What a command complains of. -/
def complaints (outcome : Outcome) (colored : Bool) : String :=
  String.join ((outcome.notices.filter (·.isComplaint)).map (·.text colored ""))

end Outcome

namespace Project

/-- The odd tags of the page as notices. -/
def warnings (project : Project) (warnings : List Warning) : List Notice :=
  warnings.map (.warning (project.relative project.template))

/-- Fills the page and goes on with it. -/
def withFilled (project : Project) (tree : FileTree) (delays : Delays)
    (next : Substitution → FileTree × List Notice × Ending) : Outcome :=
  match project.fill tree delays with
  | (events, .error failure) => .failed tree events failure
  | (events, .ok filled) =>
    let (tree, notices, ending) := next filled
    ⟨tree, events, project.warnings filled.warnings ++ notices, ending⟩

/-- Fills the page and writes it, or only prints it in a dry run. -/
def build (project : Project) (tree : FileTree) (delays : Delays) (dryRun : Bool) : Outcome :=
  project.withFilled tree delays fun filled =>
    if dryRun then (tree, [.page filled.output], .done)
    else
      let attempt := project.write tree filled.output
      match attempt.fault? with
      | some fault =>
        (attempt.tree, [.failure (.destination fault)], .failed (.destination fault))
      | none =>
        let name := project.relative project.destination
        (attempt.tree, [.built name (project.relative project.template)], .done)

/-- Compares the destination with the filled page. -/
def check (project : Project) (tree : FileTree) (delays : Delays) (showDiff : Bool) : Outcome :=
  project.withFilled tree delays fun filled =>
    let name := project.relative project.destination
    match project.current? tree with
    | none => (tree, [.missing name], .stale)
    | some current =>
      if current = filled.output then (tree, [.upToDate name], .done)
      else
        let difference :=
          if showDiff then [Notice.difference (Diff.ofTexts current filled.output)] else []
        (tree, .outOfDate name :: difference, .stale)

/-- Lists the bindings and tags of the page. No data is looked at. -/
def refs (project : Project) (tree : FileTree) : Outcome :=
  match project.readTemplate tree with
  | .error failure => .failed tree [] failure
  | .ok page =>
    let stripped := Binding.strip page.toList
    let policy := project.settings.nestedOpen
    let events := (scanWarnings policy stripped).map Warning.event
    match scan policy stripped with
    | .error problem => .failed tree events (.problem problem)
    | .ok scanned =>
      ⟨tree, events,
        project.warnings scanned.warnings ++ [.listing (Binding.find page.toList) scanned.tags],
        .done⟩

end Project

namespace Command

/-- The paths that a command gives. -/
def chosen : Command → PathChoices
  | build paths _ => paths
  | check paths _ => paths
  | refs template? => ⟨template?, none, none⟩

/-- Runs a command in a project. -/
def run (command : Command) (project : Project) (tree : FileTree) (delays : Delays) : Outcome :=
  match command with
  | build _ dryRun => project.build tree delays dryRun
  | check _ showDiff => project.check tree delays showDiff
  | refs _ => project.refs tree

end Command

namespace Invocation

/-- The command that is meant: a build, where none is named. -/
def command (invocation : Invocation) : Command :=
  invocation.command?.getD (.build ⟨none, none, none⟩ false)

/-- Whether an event is worth showing. -/
def shows (invocation : Invocation) (event : Event) : Bool :=
  invocation.isVerbose || event.level == .warn

/-- The root of the project: the directory where the command line was given, unless it names
another one. -/
def root (invocation : Invocation) (directory : Place) : String :=
  invocation.root?.getD directory.path

/-- The project that is meant. -/
def project (invocation : Invocation) (tree : FileTree) (directory : Place) :
    Except Problem Project :=
  Project.find tree directory (invocation.root directory) invocation.command.chosen

/-- Does what a command line asks for, given in `directory`. -/
def run (invocation : Invocation) (tree : FileTree) (delays : Delays) (directory : Place) :
    Outcome :=
  match invocation.project tree directory with
  | .error problem => .failed tree [] (.problem problem)
  | .ok project =>
    let outcome := invocation.command.run project tree delays
    { outcome with events := outcome.events.filter invocation.shows }

end Invocation

/-- Answers a command line that asks for no work. -/
def UsageFault.outcome (fault : UsageFault) (tree : FileTree) : Outcome :=
  match fault with
  | .help => ⟨tree, [], [.help], .done⟩
  | .version => ⟨tree, [], [.version], .done⟩
  | fault => .failed tree [] (.usage fault)

/-- Whether what a command line leads to is shown in colors, where the surroundings allow them. -/
def wantsColor (arguments : List String) : Bool :=
  match Arguments.read arguments with
  | .ok invocation => !invocation.noColor
  | .error _ => false

/-- Does what a command line says. -/
def runArguments (arguments : List String) (tree : FileTree) (delays : Delays) (directory : Place) :
    Outcome :=
  match Arguments.read arguments with
  | .error fault => fault.outcome tree
  | .ok invocation => invocation.run tree delays directory

end Fieldmark
