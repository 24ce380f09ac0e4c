import Fieldmark.Json
import Fieldmark.Number.Word
import Fieldmark.Yaml.Node

/-!
# What YAML nodes mean

Plain scalars without a tag are null, booleans, numbers or, failing that, strings; all others are
strings, unless a tag of the core schema asks for something else. Tags of a document's own have no
meaning here and make it unreadable. Aliases stand for the nodes they name, within a bound on how
many are followed; keys are the texts of scalars, whatever these mean elsewhere.
-/

namespace Fieldmark

namespace Yaml

namespace Schema

/-! ## Numbers -/

def digitValue? (base : Nat) (c : Char) : Option Nat :=
  let value? :=
    if c.isDigit then some (c.toNat - '0'.toNat)
    else if c.isLower then some (c.toNat - 'a'.toNat + 10)
    else if c.isUpper then some (c.toNat - 'A'.toNat + 10)
    else none
  value?.filter (· < base)

/-- A number in digits of a base, at least one. -/
def natural? (base : Nat) (text : List Char) : Option Nat :=
  if text.isEmpty then none
  else text.foldlM (fun n c => (digitValue? base c).map (n * base + ·)) 0

def dropSign : List Char → List Char
  | '+' :: rest => rest
  | '-' :: rest => rest
  | text => text

/-- Digits that begin with a zero and do not end with it, which are no number. -/
def isZeroPadded (text : List Char) : Bool :=
  match dropSign text with
  | '0' :: next :: rest => (next :: rest).all Char.isDigit
  | _ => false

/-- A whole number without its sign, in decimal digits or behind the mark of another base. -/
def magnitude? : List Char → Option Nat
  | '0' :: 'x' :: digits => natural? 16 digits
  | '0' :: 'o' :: digits => natural? 8 digits
  | '0' :: 'b' :: digits => natural? 2 digits
  | text => if isZeroPadded text then none else natural? 10 text

def integer? (text : List Char) : Option Int :=
  match text with
  | '-' :: rest => (magnitude? rest).map fun n => -(n : Int)
  | '+' :: rest => (magnitude? rest).map Int.ofNat
  | _ => (magnitude? text).map Int.ofNat

/-- The digits at the front of a text, and the rest. -/
def digits (text : List Char) : List Char × List Char :=
  (text.takeWhile Char.isDigit, text.dropWhile Char.isDigit)

/-- The exponent of a decimal number, if it is spelled to the end; none is zero. -/
def exponent? : List Char → Option Int
  | [] => some 0
  | e :: rest =>
    if e ≠ 'e' ∧ e ≠ 'E' then none
    else
      (natural? 10 (dropSign rest)).map fun n => if rest.head? = some '-' then -(n : Int) else n

/-- A number with a point or an exponent. One of its digits may stand on either side of the
point. -/
def decimal? (text : List Char) : Option Decimal := do
  let (whole, rest) := digits text
  let (fraction, rest) :=
    match rest with
    | '.' :: rest => digits rest
    | _ => ([], rest)
  if whole.isEmpty ∧ fraction.isEmpty then none
  else
    let exponent ← exponent? rest
    let n ← natural? 10 (whole ++ fraction)
    some ⟨n, exponent - fraction.length⟩

/-- A number of which a sign may be the first character. -/
def real? (text : List Char) : Option Binary64 :=
  (decimal? (dropSign text)).bind (·.toBinary64 (text.head? == some '-'))

/-- What is no number: infinities, and what is called so. -/
def isNonFinite (text : List Char) : Bool :=
  [".inf", ".Inf", ".INF", "+.inf", "+.Inf", "+.INF", "-.inf", "-.Inf", "-.INF", ".nan", ".NaN",
    ".NAN"].contains (String.ofList text)

/-- A real number; what is none becomes null. -/
def float? (text : List Char) : Option Json :=
  if isNonFinite text then some .null
  else (real? text).map fun x => .number (.float x)

/-- Whether a number in digits is a whole one; beyond 128 bits it is real. -/
def isWhole (n : Int) : Bool := Word.fits 128 n

/-- What a whole number means, if it can be kept. -/
def ofInteger (n : Int) : Option Json :=
  if Word.fits 64 n then some (.number (.integer n)) else none

/-! ## Scalars -/

def isNull (text : String) : Bool := ["null", "Null", "NULL", "~"].contains text

def boolean? (text : String) : Option Bool :=
  if ["true", "True", "TRUE"].contains text then some true
  else if ["false", "False", "FALSE"].contains text then some false
  else none

/-- What a plain scalar without a tag means. -/
def plain? (text : String) : Option Json :=
  if text = "" ∨ isNull text then some .null
  else
    match boolean? text, (integer? text.toList).filter isWhole with
    | some b, _ => some (.bool b)
    | none, some n => ofInteger n
    | none, none =>
      if isZeroPadded text.toList then some (.string text)
      else some ((float? text.toList).getD (.string text))

/-- What a scalar with a tag means. -/
def tagged? (tag text : String) : Option Json :=
  if tag = "tag:yaml.org,2002:bool" then (boolean? text).map .bool
  else if tag = "tag:yaml.org,2002:int" then
    ((integer? text.toList).filter isWhole).bind ofInteger
  else if tag = "tag:yaml.org,2002:float" then float? text.toList
  else if tag = "tag:yaml.org,2002:null" then if isNull text then some .null else none
  else some (.string text)

/-- Whether a tag is one of the document's own. -/
def isOwnTag (properties : Properties) : Bool :=
  (properties.tag?.map (·.startsWith "!")).getD false

def scalar? (properties : Properties) (isPlain : Bool) (text : String) : Option Json :=
  match properties.tag? with
  | some tag => if isOwnTag properties then none else tagged? tag text
  | none => if isPlain then plain? text else some (.string text)

/-! ## Documents -/

/-- Reads nodes, with a count of the aliases that may still be followed. -/
abbrev Following := StateT Nat Option

/-- The node that an alias stands for, and any other node itself. -/
def follow (named : List (Nat × Node)) : Node → Following Node
  | .aliasTo number => fun remaining =>
    if remaining = 0 then none
    else (named.lookup number).map fun node => (node, remaining - 1)
  | node => pure node

/-- The text of a key. -/
def keyText (named : List (Nat × Node)) (key : Node) : Following String := do
  match ← follow named key with
  | .scalar _ _ text => return text
  | _ => failure

/-- What a node means, with at most `depth` collections inside each other. -/
def meaning (named : List (Nat × Node)) (depth : Nat) (node : Node) : Following Json := do
  match ← follow named node, depth with
  | .scalar properties isPlain text, _ => (scalar? properties isPlain text : Option Json)
  | .sequence properties items, depth + 1 =>
    if isOwnTag properties then failure
    return .array (← items.mapM fun item => meaning named depth item)
  | .mapping properties entries, depth + 1 =>
    if isOwnTag properties then failure
    return .object (← entries.mapM fun (key, value) => do
      return (← keyText named key, ← meaning named depth value))
  | _, _ => failure

/-- Collections may be inside each other this deep. -/
def maxDepth : Nat := 128

/-- For each node of a document, this many aliases may be followed. -/
def maxFollowed : Nat := 100

/-- What a document means. -/
def document? (root : Node) : Option Json :=
  ((meaning root.numbered maxDepth root).run (root.size * maxFollowed)).map (·.1)

end Schema

end Yaml

end Fieldmark
