import Fieldmark.Yaml.Node

/-!
# The nodes of YAML tokens

Reads the one document of a text, with its directives, from the tokens of the text. A node that is
left out is an empty plain scalar. In a flow sequence, a `?` with nothing behind it but a `:`, a `,`
or the bracket swallows that token.
-/

namespace Fieldmark

namespace Yaml

/-- The tokens still to be read, what tag handles stand for, and the anchors so far with their
numbers. -/
structure Source where
  tokens : List Token
  handles : List (String × String)
  anchors : List (String × Nat)

abbrev Parsing := StateT Source Option

namespace Parsing

def peek : Parsing (Option Token) := fun s => some (s.tokens.head?, s)

def skip : Parsing Unit := fun s => some ((), { s with tokens := s.tokens.tail })

/-- How many tokens there are left, which bounds every loop over them. -/
def left : Parsing Nat := fun s => some (s.tokens.length, s)

/-- Takes a token if it stands here, and tells whether it does. -/
def take (token : Token) : Parsing Bool := do
  if (← peek) = some token then
    skip
    return true
  else return false

/-- Takes a token that must stand here. -/
def expect (token : Token) : Parsing Unit := do
  if !(← take token) then failure

/-- Whether one of some tokens stands here. -/
def atOneOf (tokens : List Token) : Parsing Bool := do
  return ((← peek).map tokens.contains).getD false

/-! ## Properties -/

/-- The number of an anchor of this name. -/
def addAnchor (name : String) : Parsing Nat := fun s =>
  let number := s.anchors.length
  some (number, { s with anchors := (name, number) :: s.anchors.filter (·.1 ≠ name) })

def aliased (name : String) : Parsing Nat := fun s =>
  (s.anchors.lookup name).map fun number => (number, s)

/-- A tag with what its handle stands for. -/
def expandTag (name : TagName) : Parsing String := fun s =>
  if name.handle = "" then some (name.suffix, s)
  else (s.handles.lookup name.handle).map fun expansion => (expansion ++ name.suffix, s)

def anchor? : Parsing (Option Nat) := do
  match ← peek with
  | some (.anchor name) =>
    skip
    return some (← addAnchor name)
  | _ => return none

def tag? : Parsing (Option String) := do
  match ← peek with
  | some (.tag name) =>
    skip
    return some (← expandTag name)
  | _ => return none

/-- An anchor and a tag, in either order. -/
def properties : Parsing Properties := do
  match ← anchor? with
  | some anchor => return ⟨some anchor, ← tag?⟩
  | none =>
    let tag? ← tag?
    match tag? with
    | none => return ⟨none, none⟩
    | some _ => return ⟨← anchor?, tag?⟩

/-! ## Collections

Each takes the reader of the nodes in it, which is told whether block collections, and whether
sequences without indentation, may stand there. -/

/-- Reads a node where one of the given tokens does not stand; there it is left out. -/
def nodeUnless (tokens : List Token) (node : Parsing Node) : Parsing Node := do
  if ← atOneOf tokens then return .missing else node

def blockItems (node : Bool → Bool → Parsing Node) : Nat → Parsing (List Node)
  | 0 => failure
  | fuel + 1 => do
    if ← take .item then
      let item ← nodeUnless [.item, .blockEnd] (node true false)
      return item :: (← blockItems node fuel)
    else
      expect .blockEnd
      return []

/-- The items of a sequence that stands at the column of the mapping around it. -/
def flatItems (node : Bool → Bool → Parsing Node) : Nat → Parsing (List Node)
  | 0 => failure
  | fuel + 1 => do
    if ← take .item then
      let item ← nodeUnless [.item, .key, .value, .blockEnd] (node true false)
      return item :: (← flatItems node fuel)
    else return []

def blockEntries (node : Bool → Bool → Parsing Node) : Nat → Parsing (List (Node × Node))
  | 0 => failure
  | fuel + 1 => do
    if ← take .key then
      let key ← nodeUnless [.key, .value, .blockEnd] (node true true)
      let value ←
        if ← take .value then nodeUnless [.key, .value, .blockEnd] (node true true)
        else pure .missing
      return (key, value) :: (← blockEntries node fuel)
    else
      expect .blockEnd
      return []

/-- A mapping of one entry in a flow sequence, behind its `?` or at a key. -/
def singleEntry (node : Parsing Node) : Parsing Node := do
  let key ←
    if ← atOneOf [.value, .comma, .flowSequenceEnd] then do skip; pure Node.missing
    else node
  let value ←
    if ← take .value then nodeUnless [.comma, .flowSequenceEnd] node else pure .missing
  return .mapping ⟨none, none⟩ [(key, value)]

def flowItems (node : Parsing Node) (first : Bool) : Nat → Parsing (List Node)
  | 0 => failure
  | fuel + 1 => do
    if ← take .flowSequenceEnd then return []
    if !first then expect .comma
    if ← take .flowSequenceEnd then return []
    let item ← if ← take .key then singleEntry node else node
    return item :: (← flowItems node false fuel)

def flowEntries (node : Parsing Node) (first : Bool) : Nat → Parsing (List (Node × Node))
  | 0 => failure
  | fuel + 1 => do
    if ← take .flowMappingEnd then return []
    if !first then expect .comma
    if ← take .flowMappingEnd then return []
    let entry ←
      if ← take .key then
        let key ← nodeUnless [.value, .comma, .flowMappingEnd] node
        let value ←
          if ← take .value then nodeUnless [.comma, .flowMappingEnd] node else pure .missing
        pure (key, value)
      else pure (← node, .missing)
    return entry :: (← flowEntries node false fuel)

/-! ## Nodes and documents -/

/-- A node with at most `depth` collections inside each other. `inBlock` allows block collections,
`flat` a sequence without indentation. -/
def node (depth : Nat) (inBlock flat : Bool) : Parsing Node := do
  match ← peek with
  | some (.aliasOf name) =>
    skip
    return .aliasTo (← aliased name)
  | _ =>
    let properties ← properties
    match ← peek, depth with
    | some (.scalar isPlain content), _ =>
      skip
      return .scalar properties.ofScalar isPlain content
    | some .item, depth + 1 =>
      if flat then return .sequence properties (← flatItems (node depth) ((← left) + 1))
      else if properties.anchor?.isSome ∨ properties.tag?.isSome then return .empty properties
      else failure
    | some .flowSequence, depth + 1 =>
      skip
      return .sequence properties (← flowItems (node depth false false) true ((← left) + 1))
    | some .flowMapping, depth + 1 =>
      skip
      return .mapping properties (← flowEntries (node depth false false) true ((← left) + 1))
    | some .blockSequence, depth + 1 =>
      if inBlock then
        skip
        return .sequence properties (← blockItems (node depth) ((← left) + 1))
      else if properties.anchor?.isSome ∨ properties.tag?.isSome then return .empty properties
      else failure
    | some .blockMapping, depth + 1 =>
      if inBlock then
        skip
        return .mapping properties (← blockEntries (node depth) ((← left) + 1))
      else if properties.anchor?.isSome ∨ properties.tag?.isSome then return .empty properties
      else failure
    | _, _ =>
      if properties.anchor?.isSome ∨ properties.tag?.isSome then return .empty properties
      else failure

/-- What tag handles stand for where no directive says so. -/
def defaultHandles : List (String × String) := [("!", "!"), ("!!", "tag:yaml.org,2002:")]

/-- The directives above a document: at most one of a version, and one of each tag handle. -/
def directives (versionSeen : Bool) : Nat → Parsing Unit
  | 0 => failure
  | fuel + 1 => do
    match ← peek with
    | some (.versionDirective major minor) =>
      if versionSeen ∨ major ≠ 1 ∨ (minor ≠ 1 ∧ minor ≠ 2) then failure
      skip
      directives true fuel
    | some (.tagDirective handle expansion) =>
      let s ← get
      if (s.handles.lookup handle).isSome then failure
      set { s with handles := (handle, expansion) :: s.handles }
      skip
      directives versionSeen fuel
    | _ => modify fun s => { s with handles := s.handles ++ defaultHandles }

/-- The content of a document behind its `---`. -/
def content (depth : Nat) : Parsing Node := do
  match ← peek with
  | none => return .missing
  | some (.versionDirective ..) => return .missing
  | some (.tagDirective ..) => return .missing
  | some .documentStart => return .missing
  | some .documentEnd => return .missing
  | _ => node depth true false

/-- Marks of the end of a document, and nothing else. -/
def finish : Nat → Parsing Unit
  | 0 => failure
  | fuel + 1 => do
    if ← take .documentEnd then finish fuel
    else if (← peek).isSome then failure

/-- The document of a text, if it has one. -/
def document (depth : Nat) : Parsing (Option Node) := do
  match ← peek with
  | none => return none
  | some first =>
    directives false ((← left) + 1)
    let root ←
      if ← take .documentStart then content depth
      else
        match first with
        | .versionDirective .. => failure
        | .tagDirective .. => failure
        | _ => node depth true false
    finish ((← left) + 1)
    return some root

end Parsing

/-- The document that tokens spell. It may be empty; a second one must not follow. -/
def document? (tokens : List Token) : Option (Option Node) :=
  ((Parsing.document (tokens.length + 1)).run ⟨tokens, [], []⟩).map (·.1)

end Yaml

end Fieldmark
