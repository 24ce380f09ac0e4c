/-!
# Command line arguments

What a command line asks for. It names at most one command, with the switches of this command
behind it; three switches are understood before a command and behind one. A switch with a value
takes it from the text attached to it or from the next argument. That value is looked at only when
the next switch comes or the arguments of its command end, and those of a command end before those
around it: so of two faults the one that is reported need not be the first.
-/

namespace Fieldmark

/-- The paths that a command line gives, which go before those of the settings. -/
structure PathChoices where
  template? : Option String
  destination? : Option String
  dataRoot? : Option String
  deriving DecidableEq, Repr, Inhabited

inductive Command where
  | build (paths : PathChoices) (dryRun : Bool)
  | check (paths : PathChoices) (showDiff : Bool)
  | refs (template? : Option String)
  deriving DecidableEq, Repr

/-- All that a command line asks for. Without a command the page is built. -/
structure Invocation where
  command? : Option Command
  root? : Option String
  isVerbose : Bool
  noColor : Bool
  deriving DecidableEq, Repr

/-- Why a command line cannot be followed, or what it asks for instead of work. -/
inductive UsageFault where
  | help
  | version
  | unknownArgument (argument : String)
  | unknownCommand (name : String)
  | missingValue (switch : String)
  | repeated (switch : String)
  | unneededValue (value switch : String)
  deriving DecidableEq, Repr

/-- The wording of a fault; help and version have none. -/
def UsageFault.message : UsageFault → String
  | help => ""
  | version => ""
  | unknownArgument argument => s!"unexpected argument '{argument}' found"
  | unknownCommand name => s!"unrecognized subcommand '{name}'"
  | missingValue switch => s!"a value is required for '{switch}' but none was supplied"
  | repeated switch => s!"the argument '{switch}' cannot be used multiple times"
  | unneededValue value switch =>
    s!"unexpected value '{value}' for '{switch}' found; no more were expected"

namespace Arguments

/-- What a switch is for. -/
inductive Switch where
  | root
  | verbose
  | noColor
  | template
  | destination
  | dataRoot
  | dryRun
  | showDiff
  | help
  | version
  deriving DecidableEq, Repr

namespace Switch

/-- The word of a switch, written behind two dashes. -/
def word : Switch → String
  | root => "path"
  | verbose => "verbose"
  | noColor => "no-color"
  | template => "src"
  | destination => "dest"
  | dataRoot => "data"
  | dryRun => "dry-run"
  | showDiff => "diff"
  | help => "help"
  | version => "version"

/-- The letter of a switch, written behind one dash. -/
def letter? : Switch → Option Char
  | root => some 'p'
  | verbose => some 'v'
  | help => some 'h'
  | version => some 'V'
  | _ => none

/-- What the value of a switch is called, if it takes one. -/
def value? : Switch → Option String
  | root => some "PATH"
  | template => some "SRC"
  | destination => some "DEST"
  | dataRoot => some "DATA"
  | _ => none

def takesValue (switch : Switch) : Bool := switch.value?.isSome

/-- A switch in messages. -/
def text (switch : Switch) : String :=
  "--" ++ switch.word ++ ((switch.value?.map fun value => s!" <{value}>").getD "")

end Switch

/-- Where arguments stand: before a command, or behind one. -/
inductive Level where
  | top
  | build
  | check
  | refs
  deriving DecidableEq, Repr

namespace Level

def switches : Level → List Switch
  | top => [.root, .verbose, .noColor, .help, .version]
  | build => [.template, .destination, .dataRoot, .dryRun, .root, .verbose, .noColor, .help]
  | check => [.template, .destination, .dataRoot, .showDiff, .root, .verbose, .noColor, .help]
  | refs => [.template, .root, .verbose, .noColor, .help]

/-- The level behind the name of a command. -/
def ofName? : String → Option Level
  | "build" => some build
  | "check" => some check
  | "refs" => some refs
  | _ => none

def byWord? (level : Level) (word : String) : Option Switch :=
  level.switches.find? (·.word == word)

def byLetter? (level : Level) (letter : Char) : Option Switch :=
  level.switches.find? (·.letter? == some letter)

end Level

/-- What has been read at one level: the switches with their values, and the one whose value has
not been looked at, with this value if it has come. -/
structure Progress where
  settled : List (Switch × String)
  pending? : Option (Switch × Option String)

namespace Progress

def start : Progress := ⟨[], none⟩

def has (p : Progress) (switch : Switch) : Bool := p.settled.any (·.1 == switch)

/-- Whether a switch waits for the next argument as its value. -/
def isWaiting (p : Progress) : Bool :=
  match p.pending? with
  | some (_, none) => true
  | _ => false

/-- A value for a switch. -/
def setValue (p : Progress) (switch : Switch) (value : String) : Except UsageFault Progress :=
  if p.has switch then .error (.repeated switch.text)
  else if value = "" then .error (.missingValue switch.text)
  else .ok { p with settled := p.settled ++ [(switch, value)] }

/-- Looks at the value of the last switch. -/
def settle (p : Progress) : Except UsageFault Progress :=
  match p.pending? with
  | none => .ok p
  | some (switch, none) => .error (.missingValue switch.text)
  | some (switch, some value) => setValue ⟨p.settled, none⟩ switch value

/-- A switch with the value attached to it, or without one. -/
def addValued (p : Progress) (switch : Switch) (value? : Option String) :
    Except UsageFault Progress := do
  let p ← p.settle
  match value? with
  | some value => p.setValue switch value
  | none => .ok { p with pending? := some (switch, none) }

/-- A switch that takes no value. -/
def addPlain (p : Progress) (switch : Switch) : Except UsageFault Progress := do
  let p ← p.settle
  match switch with
  | .help => .error .help
  | .version => .error .version
  | _ =>
    if p.has switch then .error (.repeated switch.text)
    else .ok { p with settled := p.settled ++ [(switch, "")] }

/-- The next argument as the value that the last switch waits for. -/
def giveValue (p : Progress) (value : String) : Progress :=
  { p with pending? := p.pending?.map fun (switch, _) => (switch, some value) }

end Progress

/-- An argument behind its two dashes: a word, and a value behind `=`. -/
def readWord (level : Level) (p : Progress) (text : List Char) : Except UsageFault Progress :=
  let word := String.ofList (text.takeWhile (· != '='))
  let value? := match text.dropWhile (· != '=') with
    | [] => none
    | _ :: value => some (String.ofList value)
  match level.byWord? word, value? with
  | none, _ => .error (.unknownArgument ("--" ++ word))
  | some switch, value? =>
    if switch.takesValue then p.addValued switch value?
    else
      match value? with
      | some value => .error (.unneededValue value switch.text)
      | none => p.addPlain switch

/-- An argument behind its dash: letters, of which the last may have a value behind it. -/
def readLetters (level : Level) (p : Progress) : List Char → Except UsageFault Progress
  | [] => .ok p
  | letter :: rest =>
    match level.byLetter? letter with
    | none => .error (.unknownArgument (String.ofList ['-', letter]))
    | some switch =>
      if switch.takesValue then
        match rest with
        | [] => p.addValued switch none
        | '=' :: value => p.addValued switch (some (String.ofList value))
        | value => p.addValued switch (some (String.ofList value))
      else do readLetters level (← p.addPlain switch) rest

/-- An argument that is no switch, nor the value of one. -/
def stray (level : Level) (isEscaped : Bool) (argument : String) : UsageFault :=
  if level ≠ .top then .unknownArgument argument
  else if isEscaped ∧ (argument = "help" ∨ (Level.ofName? argument).isSome) then
    .unknownArgument argument
  else .unknownCommand argument

/-- What `help` answers for the arguments behind it. -/
def helpOn : List String → UsageFault
  | [] => .help
  | [name] =>
    if name = "help" ∨ (Level.ofName? name).isSome then .help else .unknownCommand name
  | name :: next :: _ =>
    if name = "help" ∨ (Level.ofName? name).isSome then .unknownCommand next
    else .unknownCommand name

/-- Arguments of one level: what was read, and the command that ends the level with the arguments
behind it. -/
def readLevel (level : Level) (p : Progress) :
    List String → Except UsageFault (Progress × Option (Level × List String))
  | [] => .ok (p, none)
  | argument :: rest =>
    let command? :=
      if level = .top ∧ !p.isWaiting then
        if argument = "help" then some (.error (helpOn rest))
        else (Level.ofName? argument).map Except.ok
      else none
    match command?, argument.toList with
    | some (.error fault), _ => .error fault
    | some (.ok inner), _ => .ok (p, some (inner, rest))
    | none, ['-', '-'] =>
      match rest with
      | [] => .ok (p, none)
      | next :: _ => .error (stray level true next)
    | none, '-' :: '-' :: text => do readLevel level (← readWord level p text) rest
    | none, '-' :: letter :: text => do
      readLevel level (← readLetters level p (letter :: text)) rest
    | none, _ =>
      if p.isWaiting then readLevel level (p.giveValue argument) rest
      else .error (stray level false argument)

def value? (p : Progress) (switch : Switch) : Option String := p.settled.lookup switch

def pathsOf (p : Progress) : PathChoices :=
  ⟨value? p .template, value? p .destination, value? p .dataRoot⟩

/-- The command of a level with the switches behind it. -/
def commandOf (level : Level) (p : Progress) : Option Command :=
  match level with
  | .top => none
  | .build => some (.build (pathsOf p) (p.has .dryRun))
  | .check => some (.check (pathsOf p) (p.has .showDiff))
  | .refs => some (.refs (value? p .template))

/-- What two levels ask for together. A path behind the command goes before one in front of it. -/
def combine (level : Level) (top inner : Progress) : Invocation :=
  { command? := commandOf level inner
    root? := (value? inner .root).or (value? top .root)
    isVerbose := top.has .verbose || inner.has .verbose
    noColor := top.has .noColor || inner.has .noColor }

/-- Reads the arguments behind the name of the program. -/
def read (arguments : List String) : Except UsageFault Invocation := do
  let (top, command?) ← readLevel .top .start arguments
  match command? with
  | none => return combine .top (← top.settle) .start
  | some (level, rest) =>
    let (inner, _) ← readLevel level .start rest
    let inner ← inner.settle
    return combine level (← top.settle) inner

end Arguments

end Fieldmark
