import Fieldmark.Duration

/-!
# What can go wrong

Every failure is a cause with the data that describes it. The wording, the diagnostic code and
the advice each live in one function (`Problem.message`, `Problem.code`, `Problem.help?`).
-/

namespace Fieldmark

/-- Why the text of a tag cannot be read. -/
inductive Fault where
  | nameBeforeDot
  | emptyTag
  | fieldAfter (token : String)
  | fieldNameAfter (reference : String)
  | closeOfTag
  | loopVariable
  | loopCollection (name : String)
  | closeOfHeader (collection : String)
  | nestedOpen
  | unterminatedTag
  | unterminatedLoop
  | bodyReference
  | bodyField
  | bodyTagEnd (reference : String)
  | nestedLoop
  deriving DecidableEq, Repr

/-- The wording of a fault. -/
def Fault.message : Fault → String
  | nameBeforeDot => "expected a reference name before `.`"
  | emptyTag => "empty tag"
  | fieldAfter token => s!"expected `.field` after `{token}`"
  | fieldNameAfter reference => s!"expected a field name after `{reference}.`"
  | closeOfTag => "expected `>` to close the tag"
  | loopVariable => "expected a loop variable name after `for`"
  | loopCollection name => s!"expected a collection to loop over with `{name}`"
  | closeOfHeader collection => s!"expected `>` after `{collection}:`"
  | nestedOpen => "found `<:` inside an open tag"
  | unterminatedTag => "unterminated tag"
  | unterminatedLoop => "loop is missing its closing `</: >`"
  | bodyReference => "expected a reference name in loop body tag"
  | bodyField => "expected a field name after `.`"
  | bodyTagEnd reference => s!"expected `.field` or `:>` in tag for `{reference}`"
  | nestedLoop => "loops can't be nested"

/-- A failure of any part of the library. Lines and columns are those of the tag or character
concerned, in the page that was scanned. -/
inductive Problem where
  | io (reason : String)
  | parse (line column : Nat) (fault : Fault)
  | referenceNotFound (name : String) (line column : Nat)
  | fieldNotFound (path : String) (line column : Nat)
  | typeMismatch (path expected found : String) (line column : Nat)
  | notACollection (name : String) (line column : Nat)
  | dataFetch (name path : String) (source : Problem)
  | notFound (path : String)
  | transport (path reason : String)
  | fetchTimeout (count : Nat) (timeout : Duration)
  | duplicateReference (name : String) (firstLine secondLine : Nat)
  | configParse (reason : String)
  | dataFile (path reason : String)
  | unsupportedFormat (format : String)
  deriving DecidableEq, Repr

namespace Problem

/-- The wording of a problem. -/
def message : Problem → String
  | io reason => reason
  | parse line column fault => s!"{fault.message} at line {line}, column {column}"
  | referenceNotFound name line column =>
    s!"reference `{name}` is not bound (line {line}, column {column})"
  | fieldNotFound path line column =>
    s!"field `{path}` does not exist (line {line}, column {column})"
  | typeMismatch path expected found line column =>
    s!"`{path}` is {found}, expected {expected} (line {line}, column {column})"
  | notACollection name line column =>
    s!"reference `{name}` is not a collection (line {line}, column {column})"
  | dataFetch name path _ => s!"failed to fetch `{name}` from `{path}`"
  | notFound path => s!"no document found at `{path}`"
  | transport path reason => s!"failed to read `{path}`: {reason}"
  | fetchTimeout count timeout => s!"fetching {count} reference(s) timed out after {timeout.text}"
  | duplicateReference name firstLine secondLine =>
    s!"reference `{name}` is bound twice (lines {firstLine} and {secondLine})"
  | configParse reason => s!"failed to parse config file: {reason}"
  | dataFile path reason => s!"failed to load data file `{path}`: {reason}"
  | unsupportedFormat format => s!"unsupported data file format: `{format}`"

/-- The stable code of a problem. -/
def code : Problem → String
  | io .. => "birdchirp::io_error"
  | parse .. => "birdchirp::parse"
  | referenceNotFound .. => "birdchirp::reference_not_found"
  | fieldNotFound .. => "birdchirp::field_not_found"
  | typeMismatch .. => "birdchirp::type_mismatch"
  | notACollection .. => "birdchirp::not_a_collection"
  | dataFetch .. => "birdchirp::data_fetch"
  | notFound .. => "birdchirp::not_found"
  | transport .. => "birdchirp::transport"
  | fetchTimeout .. => "birdchirp::fetch_timeout"
  | duplicateReference .. => "birdchirp::duplicate_reference"
  | configParse .. => "birdchirp::config_parse"
  | dataFile .. => "birdchirp::data_file"
  | unsupportedFormat .. => "birdchirp::unsupported_format"

/-- Advice on a problem, where there is any. -/
def help? : Problem → Option String
  | parse .. => some "tags look like `<: post.title :>` or `<: for post : posts: >...</: >`"
  | referenceNotFound name .. => some s!"bind it first with `<: {name} = /path/to/document :>`"
  | fieldNotFound .. => some "check the spelling of the field against the fetched document"
  | notACollection .. => some "`for` loops iterate over references bound to a collection path"
  | fetchTimeout .. => some "raise `timeout_secs` in the `[data]` section of birdchirp.toml"
  | duplicateReference .. =>
    some "rename one of the bindings or set `duplicates = \"last-wins\"`"
  | configParse .. =>
    some "check that birdchirp.toml is valid TOML with [data] and/or [scan] sections"
  | unsupportedFormat .. => some "supported formats: json, toml, yaml, yml"
  | _ => none

end Problem

end Fieldmark
