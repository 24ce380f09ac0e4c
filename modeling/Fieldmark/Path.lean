/-!
# Paths

A path is a text whose parts lie between slashes. Empty parts and dots name nothing, apart from
a dot at the very beginning; but they stay in the text, so cutting a path leaves the text that is
left as it was written, up to its ends.
-/

namespace Fieldmark

namespace Path

/-- The parts of a path between its slashes, empty ones among them. -/
def parts : List Char → List (List Char)
  | [] => [[]]
  | c :: rest =>
    if c = '/' then [] :: parts rest
    else
      match parts rest with
      | [] => [[c]]
      | first :: others => (c :: first) :: others

/-- The path of these parts. -/
def ofParts (parts : List (List Char)) : List Char := ['/'].intercalate parts

/-- What a path is made of. -/
inductive Component where
  | root
  | current
  | parent
  | name (name : String)
  deriving DecidableEq, Repr

/-- A part that names nothing, unless it is a dot at the beginning. -/
def isVoid (part : List Char) : Bool := part == [] || part == ['.']

/-- What parts name behind the beginning of a path. -/
def inner (parts : List (List Char)) : List Component :=
  parts.filterMap fun part =>
    if isVoid part then none
    else if part = ['.', '.'] then some .parent
    else some (.name (String.ofList part))

/-- How a path begins: the component that only the beginning can have, and the parts behind it. -/
def beginning (path : List Char) : Option Component × List (List Char) :=
  match parts path with
  | [] :: first :: rest => (some .root, first :: rest)
  | ['.'] :: rest => (some .current, rest)
  | parts => (none, parts)

def components (path : String) : List Component :=
  let (first?, rest) := beginning path.toList
  first?.toList ++ inner rest

/-- A path followed by another one, which stands alone if it begins at the root. -/
def join (base path : String) : String :=
  if path.startsWith "/" then path
  else if base = "" ∨ base.endsWith "/" then base ++ path
  else base ++ "/" ++ path

/-! ## Cutting -/

/-- A path without the slashes around it. -/
def trimSlashes (path : String) : String :=
  let front := path.toList.dropWhile (· == '/')
  String.ofList (front.reverse.dropWhile (· == '/')).reverse

def dropVoid (parts : List (List Char)) : List (List Char) := parts.dropWhile isVoid

/-- Parts without those at both ends that name nothing. -/
def trim (parts : List (List Char)) : List (List Char) :=
  (dropVoid (dropVoid parts).reverse).reverse

def trimEnd (parts : List (List Char)) : List (List Char) := (dropVoid parts.reverse).reverse

/-- What is left of parts behind the first `count` that name something. -/
def dropNamed (count : Nat) : List (List Char) → List (List Char)
  | [] => []
  | part :: rest =>
    if count = 0 then part :: rest
    else if isVoid part then dropNamed count rest
    else dropNamed (count - 1) rest

/-- The path from `root` to `path`, if it lies below it. -/
def below? (root path : String) : Option String :=
  let outer := components root
  if outer = [] then some path
  else if !outer.isPrefixOf (components path) then none
  else
    let (first?, rest) := beginning path.toList
    some (String.ofList (ofParts (trim (dropNamed (outer.length - first?.toList.length) rest))))

/-- The path as seen from `root`, or as it is if it lies elsewhere. -/
def relativeTo (root path : String) : String := (below? root path).getD path

/-- The path of the directory around a path. -/
def parent? (path : String) : Option String :=
  let (first?, rest) := beginning path.toList
  match first?, trimEnd rest with
  | some .current, [] => some ""
  | _, [] => none
  | first?, named =>
    let outer := trimEnd named.dropLast
    some (String.ofList (match first? with
      | none => ofParts outer
      | some .current => ofParts (['.'] :: outer)
      | some _ => '/' :: ofParts outer))

/-- The name at the end of a path. -/
def name? (path : String) : Option String :=
  match (components path).getLast? with
  | some (.name name) => some name
  | _ => none

/-- What stands behind the last dot of a name that does not begin with it. -/
def extensionOf? (name : String) : Option String :=
  let back := name.toList.reverse
  match back.dropWhile (· != '.') with
  | _ :: _ :: _ => some (String.ofList (back.takeWhile (· != '.')).reverse)
  | _ => none

def extension? (path : String) : Option String := (name? path).bind extensionOf?

end Path

end Fieldmark
