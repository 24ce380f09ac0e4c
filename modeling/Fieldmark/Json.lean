import Fieldmark.Json.Number
import Fieldmark.Value

/-!
# JSON documents

What a JSON text says, and the value it becomes: every scalar turns into its text, null into the
empty one.
-/

namespace Fieldmark

/-- A JSON document with numbers of type `ν`; of members with one name the last one counts. -/
inductive Json.Document (ν : Type) where
  | null
  | bool (value : Bool)
  | number (value : ν)
  | string (content : String)
  | array (items : List (Json.Document ν))
  | object (members : List (String × Json.Document ν))
  deriving Inhabited

abbrev Json := Json.Document Json.Number

namespace Json.Document

variable {ν : Type}

mutual

/-- The value that a document stands for, where numbers are written by `print`. -/
def toValue (print : ν → String) : Document ν → Value
  | null => .text ""
  | bool value => .text (toString value)
  | number value => .text (print value)
  | string content => .text content
  | array items => .collection (itemValues print items)
  | object members => .document (Fields.ofPairs (memberValues print members))

def itemValues (print : ν → String) : List (Document ν) → List Value
  | [] => []
  | item :: rest => item.toValue print :: itemValues print rest

def memberValues (print : ν → String) : List (String × Document ν) → List (String × Value)
  | [] => []
  | (name, member) :: rest => (name, member.toValue print) :: memberValues print rest

end

end Json.Document

end Fieldmark
