import Fieldmark.Yaml.Token

/-!
# Nodes of YAML

A document as a tree of nodes. An anchored node and the aliases of it hold one number. This is the
count of names that were anchored before, so a name anchored anew may come to share its number with
the next new name; of two nodes with one number the later one counts (`Node.numbered`).
-/

namespace Fieldmark

namespace Yaml

/-- What stands before the content of a node. -/
structure Properties where
  anchor? : Option Nat
  tag? : Option String
  deriving DecidableEq, Repr

/-- The properties of a written scalar, of which a lone exclamation mark says nothing. -/
def Properties.ofScalar (properties : Properties) : Properties :=
  if properties.tag? = some "!" then { properties with tag? := none } else properties

inductive Node where
  | aliasTo (number : Nat)
  | scalar (properties : Properties) (isPlain : Bool) (content : String)
  | sequence (properties : Properties) (items : List Node)
  | mapping (properties : Properties) (entries : List (Node × Node))

namespace Node

/-- A node without content. -/
def empty (properties : Properties) : Node := scalar properties true ""

/-- A node without content and without properties. -/
def missing : Node := empty ⟨none, none⟩

/-- A node under its number, if it has one. -/
def own (properties : Properties) (node : Node) : List (Nat × Node) :=
  match properties.anchor? with
  | some number => [(number, node)]
  | none => []

mutual

/-- All nodes with numbers in a node, the last one to begin first. -/
def numbered : Node → List (Nat × Node)
  | aliasTo _ => []
  | scalar properties isPlain content => own properties (scalar properties isPlain content)
  | sequence properties items => numberedItems items ++ own properties (sequence properties items)
  | mapping properties entries =>
    numberedEntries entries ++ own properties (mapping properties entries)

def numberedItems : List Node → List (Nat × Node)
  | [] => []
  | item :: rest => numberedItems rest ++ item.numbered

def numberedEntries : List (Node × Node) → List (Nat × Node)
  | [] => []
  | (key, value) :: rest => numberedEntries rest ++ value.numbered ++ key.numbered

end

mutual

/-- How many beginnings and ends of nodes there are in a node; a scalar or alias counts once. -/
def size : Node → Nat
  | aliasTo _ => 1
  | scalar .. => 1
  | sequence _ items => sizeItems items + 2
  | mapping _ entries => sizeEntries entries + 2

def sizeItems : List Node → Nat
  | [] => 0
  | item :: rest => item.size + sizeItems rest

def sizeEntries : List (Node × Node) → Nat
  | [] => 0
  | (key, value) :: rest => key.size + value.size + sizeEntries rest

end

end Node

end Yaml

end Fieldmark
