import Fieldmark.Diff
import Fieldmark.Project

/-!
# Notices

What a command has to say, kept apart from how it is said. A notice has one wording
(`Notice.text`), with or without colors, and belongs either to the output of the command or to its
complaints.
-/

namespace Fieldmark

/-- How a stretch of text stands out. -/
inductive Style where
  | red
  | green
  | yellow
  | bold
  deriving DecidableEq, Repr

namespace Style

/-- The terminal's codes that begin a style and end it. -/
def codes : Style → String × String
  | red => ("31", "39")
  | green => ("32", "39")
  | yellow => ("33", "39")
  | bold => ("1", "0")

/-- A text in a style, plain where colors are not wanted. -/
def paint (style : Style) (colored : Bool) (text : String) : String :=
  if colored then "\x1b[" ++ style.codes.1 ++ "m" ++ text ++ "\x1b[" ++ style.codes.2 ++ "m"
  else text

end Style

/-- Something that a command says. -/
inductive Notice where
  | help
  | version
  /-- A filled page itself. -/
  | page (text : String)
  | built (destination template : String)
  | upToDate (destination : String)
  /-- The bindings and tags of a page. -/
  | listing (bindings : List Binding) (tags : List Tag)
  | warning (file : String) (warning : Warning)
  | missing (destination : String)
  | outOfDate (destination : String)
  | difference (runs : List Diff.Run)
  | failure (failure : Failure)

namespace Notice

/-- Whether a notice is no output, but tells that something is wrong. -/
def isComplaint : Notice → Bool
  | help | version | page .. | built .. | upToDate .. | listing .. => false
  | warning .. | missing .. | outOfDate .. | difference .. | failure .. => true

def versionText : String := "birdchirp_cli 0.1.0\n"

def helpLines : List String := [
  "Fill the bird tags in a page with data from your document store.",
  "",
  "Usage: birdchirp [OPTIONS] [COMMAND]",
  "",
  "Commands:",
  "  build  Render the template and write the result to its destination",
  "  check  Check that the destination matches a fresh render of the template",
  "  refs   List the reference bindings and tags found in the template",
  "  help   Print this message",
  "",
  "Options of build, check and refs:",
  "      --src <SRC>    The template",
  "",
  "Options of build and check:",
  "      --dest <DEST>  Where the rendered document is written",
  "      --data <DATA>  Directory the referenced documents are read from",
  "",
  "Options of build:",
  "      --dry-run      Print the rendered document instead of writing it",
  "",
  "Options of check:",
  "      --diff         Show a diff between the destination and the fresh render",
  "",
  "Options:",
  "  -p, --path <PATH>  Path to the project root directory",
  "  -v, --verbose      Enable verbose output",
  "      --no-color     Disable colored output",
  "  -h, --help         Print help",
  "  -V, --version      Print version"]

/-- How the program is called. -/
def helpText : String := String.join (helpLines.map (· ++ "\n"))

def bindingText (binding : Binding) : String :=
  s!"  {binding.name} = {binding.path} (line {binding.span.start.line})\n"

def tagText (tag : Tag) : String :=
  let line := tag.span.start.line
  match tag.content with
  | .field reference fields =>
    let path := ".".intercalate (reference :: fields)
    s!"  {path} (line {line})\n"
  | .loop item collection _ _ => s!"  for {item} in {collection} (line {line})\n"

/-- A list under its heading, empty if there is nothing to list. -/
def sectionText (colored : Bool) (heading : String) (lines : List String) : String :=
  if lines.isEmpty then "" else Style.bold.paint colored heading ++ "\n" ++ String.join lines

def listingText (colored : Bool) (bindings : List Binding) (tags : List Tag) : String :=
  if bindings.isEmpty && tags.isEmpty then "No bird tags found.\n"
  else
    let gap := if bindings.isEmpty || tags.isEmpty then "" else "\n"
    sectionText colored "Bindings:" (bindings.map bindingText) ++ gap ++
      sectionText colored "Tags:" (tags.map tagText)

/-- A line with its end, which a last line may lack. -/
def ended (line : String) : String :=
  if line.endsWith "\n" || line.endsWith "\r" then line else line ++ "\n"

def differenceLine (colored : Bool) (kind : Diff.Kind) (line : String) : String :=
  match kind with
  | .keep => "   " ++ ended line
  | .delete => "  " ++ Style.red.paint colored ("-" ++ ended line)
  | .insert => "  " ++ Style.green.paint colored ("+" ++ ended line)

def differenceText (colored : Bool) (runs : List Diff.Run) : String :=
  String.join (runs.flatMap fun run => run.lines.map (differenceLine colored run.kind))

/-- The problems that stand behind a problem. -/
def causeText : Problem → String
  | .dataFetch _ _ source => s!"caused by: {source.message}\n" ++ causeText source
  | _ => ""

def errorText (colored : Bool) (message : String) : String :=
  Style.red.paint colored "error:" ++ " " ++ message ++ "\n"

def problemText (colored : Bool) (problem : Problem) : String :=
  let advice := (problem.help?.map fun help => "help: " ++ help ++ "\n").getD ""
  problem.code ++ "\n" ++ errorText colored problem.message ++ causeText problem ++ advice

def failureText (colored : Bool) : Failure → String
  | .usage fault =>
    errorText false fault.message ++ "\nFor more information, try '--help'.\n"
  | .problem problem => problemText colored problem
  | .template path fault =>
    errorText colored s!"failed to read template {path}: {fault.message}"
  | .destination fault => errorText colored fault.message

def staleText (colored : Bool) (message : String) : String :=
  Style.red.paint colored "Check failed:" ++ " " ++ message ++ "\n"

/-- The wording of a notice. `elapsed` is the time that a build took, in seconds. -/
def text (colored : Bool) (elapsed : String) : Notice → String
  | help => helpText
  | version => versionText
  | page filled => filled
  | built destination template =>
    Style.green.paint colored "Built" ++ s!" {destination} from {template} in {elapsed}s\n"
  | upToDate destination => s!"Check passed: {destination} is up to date.\n"
  | listing bindings tags => listingText colored bindings tags
  | .warning file odd =>
    Style.yellow.paint colored "warning:" ++ s!" {file}:{odd.line}:{odd.column}: {odd.message}\n"
  | missing destination =>
    staleText colored s!"{destination} is missing. Run `birdchirp build` to create it."
  | outOfDate destination =>
    staleText colored s!"{destination} is out of date. Run `birdchirp build` to update it."
  | difference runs => differenceText colored runs
  | .failure cause => failureText colored cause

end Notice

end Fieldmark
