/-!
# Tokens of YAML

What the characters of a text say, with its layout made explicit: where a block collection begins
and ends is a token of its own.
-/

namespace Fieldmark

namespace Yaml

/-- A tag as it is written: a handle, which stands for a text declared elsewhere, and a suffix. The
handle of a tag written in full is empty. -/
structure TagName where
  handle : String
  suffix : String
  deriving DecidableEq, Repr

inductive Token where
  | versionDirective (major minor : Nat)
  | tagDirective (handle expansion : String)
  | documentStart
  | documentEnd
  | blockSequence
  | blockMapping
  /-- The end of a block sequence or mapping. -/
  | blockEnd
  | flowSequence
  | flowSequenceEnd
  | flowMapping
  | flowMappingEnd
  /-- The `-` before an item of a block sequence. -/
  | item
  /-- The `,` in flow collections. -/
  | comma
  | key
  | value
  | aliasOf (name : String)
  | anchor (name : String)
  | tag (name : TagName)
  | scalar (isPlain : Bool) (content : String)
  deriving DecidableEq, Repr

end Yaml

end Fieldmark
