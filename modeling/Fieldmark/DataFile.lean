import Fieldmark.Json.Reader
import Fieldmark.Toml.Reader
import Fieldmark.Yaml.Reader

/-!
# Data files

A data file holds one document in one of three formats, which its name tells. Reading it gives the
value of the document, or the reason why there is none.
-/

namespace Fieldmark

inductive DataFormat where
  | json
  | toml
  | yaml
  deriving DecidableEq, Repr

namespace DataFormat

/-- The names of the formats, in the order in which files are tried. -/
def names : List String := ["json", "toml", "yaml", "yml"]

/-- The format of a name, which is one of `names`. -/
def ofName? : String → Option DataFormat
  | "json" => some json
  | "toml" => some toml
  | "yaml" => some yaml
  | "yml" => some yaml
  | _ => none

end DataFormat

/-- The readers of all formats, which say why a text cannot be read, and the texts of numbers. JSON
and YAML have documents of one kind, with numbers of type `ν`; the real numbers of TOML are of type
`μ`. -/
structure Parsers (ν μ : Type) where
  json : List Char → Except String (Json.Document ν)
  toml : List Char → Except String (Toml.Document μ)
  yaml : List Char → Except String (Json.Document ν)
  jsonNumber : ν → String
  tomlNumber : μ → String

namespace Parsers

variable {ν μ : Type}

/-- The value of a text in a format. -/
def read (parsers : Parsers ν μ) (format : DataFormat) (text : List Char) : Except String Value :=
  match format with
  | .json => (parsers.json text).map (·.toValue parsers.jsonNumber)
  | .toml => (parsers.toml text).map (·.toValue parsers.tomlNumber)
  | .yaml => (parsers.yaml text).map (·.toValue parsers.jsonNumber)

/-- The value of the text of a data file at `path`, in the format of the given name. -/
def readDataFile (parsers : Parsers ν μ) (text : List Char) (format path : String) :
    Except Problem Value :=
  match DataFormat.ofName? format with
  | none => .error (.unsupportedFormat format)
  | some format => (parsers.read format text).mapError (.dataFile path)

/-- Whether an integer of a TOML data file can be kept: it has 64 bits, one of them for the
sign. -/
def fitsToml (n : Int) : Bool := Word.isSigned 64 n

/-- The readers of this library. Only that of JSON says what is wrong with a text. -/
def own : Parsers Json.Number Toml.Real where
  json text := (Json.read text Json.maxDepth).mapError Json.Misreading.message
  toml text :=
    match (Toml.read? text).filter (Toml.Document.everyInteger fitsToml) with
    | some document => .ok document
    | none => .error "invalid TOML"
  yaml text :=
    match Yaml.read? text with
    | some document => .ok document
    | none => .error "invalid YAML"
  jsonNumber := Json.Number.text
  tomlNumber := Toml.Real.text

end Parsers

/-- The value of a text in a format. -/
def DataFormat.read (format : DataFormat) (text : List Char) : Except String Value :=
  Parsers.own.read format text

/-- The value of the text of a data file at `path`, in the format of the given name. -/
def readDataFile (text : List Char) (format path : String) : Except Problem Value :=
  Parsers.own.readDataFile text format path

end Fieldmark
