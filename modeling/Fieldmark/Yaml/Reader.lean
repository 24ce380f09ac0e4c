import Fieldmark.Yaml.Grammar
import Fieldmark.Yaml.Layout
import Fieldmark.Yaml.Schema

/-!
# Reading YAML

`Yaml.read?` reads a text that holds one document, or none, as what it means: characters to tokens,
tokens to nodes, nodes to a JSON document.
-/

namespace Fieldmark

namespace Yaml

/-- Reads a text. A byte order mark in front is no part of it; a text without a document is
null. -/
def read? (text : List Char) : Option Json := do
  let text := if text.head? = some '\uFEFF' then text.tail else text
  if !text.all isAllowed then none
  let tokens ← tokens? text
  match ← document? tokens with
  | none => return .null
  | some root => Schema.document? root

end Yaml

end Fieldmark
