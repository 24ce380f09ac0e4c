import Fieldmark.Number.Decimal
import Fieldmark.Toml.DateTime
import Fieldmark.Value

/-!
# TOML documents

What a TOML text says, and the value it becomes: every scalar turns into its text.
-/

namespace Fieldmark

/-- A real number of TOML, which knows infinities and what is no number. -/
inductive Toml.Real where
  | finite (x : Binary64)
  | infinite (negative : Bool)
  | notANumber
  deriving DecidableEq, Repr

namespace Toml.Real

/-- Numbers are written without an exponent, whole ones without a point. -/
def style : NumberStyle := ⟨none, false⟩

def text : Real → String
  | finite x => style.text x
  | infinite negative => if negative then "-inf" else "inf"
  | notANumber => "NaN"

end Toml.Real

/-- A TOML document or a part of one, with real numbers of type `μ`; no table has two entries of one
name. -/
inductive Toml.Document (μ : Type) where
  | string (content : String)
  | integer (value : Int)
  | real (value : μ)
  | boolean (value : Bool)
  | dateTime (value : Toml.DateTime)
  | array (items : List (Toml.Document μ))
  | table (entries : List (String × Toml.Document μ))
  deriving Inhabited

abbrev Toml := Toml.Document Toml.Real

namespace Toml.Document

variable {μ : Type}

mutual

/-- The value that a document stands for, where real numbers are written by `print`. -/
def toValue (print : μ → String) : Document μ → Value
  | string content => .text content
  | integer value => .text (toString value)
  | real value => .text (print value)
  | boolean value => .text (toString value)
  | dateTime value => .text value.text
  | array items => .collection (itemValues print items)
  | table entries => .document (Fields.ofPairs (entryValues print entries))

def itemValues (print : μ → String) : List (Document μ) → List Value
  | [] => []
  | item :: rest => item.toValue print :: itemValues print rest

def entryValues (print : μ → String) : List (String × Document μ) → List (String × Value)
  | [] => []
  | (name, entry) :: rest => (name, entry.toValue print) :: entryValues print rest

end

mutual

/-- Whether all integers of a document are of a kind. -/
def everyInteger (kind : Int → Bool) : Document μ → Bool
  | integer value => kind value
  | array items => everyIntegerOfItems kind items
  | table entries => everyIntegerOfEntries kind entries
  | _ => true

def everyIntegerOfItems (kind : Int → Bool) : List (Document μ) → Bool
  | [] => true
  | item :: rest => item.everyInteger kind && everyIntegerOfItems kind rest

def everyIntegerOfEntries (kind : Int → Bool) : List (String × Document μ) → Bool
  | [] => true
  | (_, entry) :: rest => entry.everyInteger kind && everyIntegerOfEntries kind rest

end

end Toml.Document

end Fieldmark
