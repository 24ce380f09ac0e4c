import Fieldmark.Fields
import Fieldmark.Point
import Fieldmark.Problem

/-!
# Values

What a document store holds: texts, documents (named values) and collections. A tag can render a
text only, so every scalar is kept as its text. `Value.resolveText` walks a path of field names
and says, when it cannot go on, how far it came.
-/

namespace Fieldmark

/-- A value; the fields of a document stand in the order of their names, each once. -/
inductive Value where
  | text (content : String)
  | document (fields : List (String × Value))
  | collection (items : List Value)
  deriving Repr, BEq, Inhabited

namespace Value

/-- The word for the shape of a value in messages. -/
def kind : Value → String
  | text _ => "text"
  | document _ => "a document"
  | collection _ => "a collection"

def text? : Value → Option String
  | text content => some content
  | _ => none

def items? : Value → Option (List Value)
  | collection items => some items
  | _ => none

/-- The field of a document; texts and collections have none. -/
def get? (field : String) : Value → Option Value
  | document fields => fields.lookup field
  | _ => none

/-- The text at the end of a path of fields. `label` names the value where the path begins; the
path reported in a problem is `label` and the fields gone so far. -/
def resolveText (label : String) (place : Point) : Value → List String → Except Problem String
  | text content, [] => .ok content
  | value, [] => .error (.typeMismatch label "text" value.kind place.line place.column)
  | document fields, field :: rest =>
    let path := label ++ "." ++ field
    match fields.lookup field with
    | some value => resolveText path place value rest
    | none => .error (.fieldNotFound path place.line place.column)
  | value, _ :: _ => .error (.typeMismatch label "a document" value.kind place.line place.column)

end Value

/-- Every fetched value under the name it was bound to. -/
structure Tree where
  references : Fields Value
  deriving Repr, BEq, Inhabited

namespace Tree

/-- The tree of a list of named values; of two with one name the later one stands. -/
def ofPairs (pairs : List (String × Value)) : Tree := ⟨Fields.ofPairs pairs⟩

def size (tree : Tree) : Nat := tree.references.length

def get? (tree : Tree) (name : String) : Option Value := tree.references.lookup name

/-- The value of a reference that a tag at `place` names. -/
def reference (tree : Tree) (name : String) (place : Point) : Except Problem Value :=
  match tree.get? name with
  | some value => .ok value
  | none => .error (.referenceNotFound name place.line place.column)

end Tree

end Fieldmark
