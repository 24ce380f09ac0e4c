import Fieldmark.Point
import Fieldmark.Token

/-!
# Reference bindings

A page names the documents it needs in tags `<: name = path :>`, each on one line. `pieces` takes
a page apart into its bindings and the tokens around them; `find` and `strip` keep one half each.
What opens like a binding and does not go on as one is text from its `<:` on, and the search
resumes behind that `<:`.
-/

namespace Fieldmark

/-- A tag that makes the document stored at `path` available as `name`. -/
structure Binding where
  name : String
  path : String
  span : Span
  deriving DecidableEq, Repr

namespace Binding

/-- A path is made of words, dots and colons. -/
def isPathPart (token : Token) : Bool :=
  token.kind == .word || token.kind == .dot || token.kind == .colon

/-- A binding read behind its `<:`: the tokens it takes and those that are left. -/
structure Reading where
  name : List Char
  path : List Char
  used : List Token
  rest : List Token

/-- Name, `=`, path and `:>`, with blanks of the same line between them. -/
def read? (tokens : List Token) : Option Reading :=
  let gap₁ := tokens.takeWhile Token.isInlineBlank
  match tokens.dropWhile Token.isInlineBlank with
  | ⟨.word, name⟩ :: tokens₁ =>
    let gap₂ := tokens₁.takeWhile Token.isInlineBlank
    match tokens₁.dropWhile Token.isInlineBlank with
    | ⟨.equals, sign⟩ :: tokens₂ =>
      let gap₃ := tokens₂.takeWhile Token.isInlineBlank
      let tokens₃ := tokens₂.dropWhile Token.isInlineBlank
      let path := tokens₃.takeWhile isPathPart
      let tokens₄ := tokens₃.dropWhile isPathPart
      let gap₄ := tokens₄.takeWhile Token.isInlineBlank
      match tokens₄.dropWhile Token.isInlineBlank with
      | ⟨.closing, close⟩ :: rest =>
        if path.isEmpty then none
        else some
          { name := name
            path := Token.flatten path
            used := gap₁ ++ ⟨.word, name⟩ :: (gap₂ ++ ⟨.equals, sign⟩ :: (gap₃ ++ path ++ gap₄ ++
              [⟨.closing, close⟩]))
            rest := rest }
      | _ => none
    | _ => none
  | _ => none

/-- A binding takes the front of the tokens and leaves the rest. -/
theorem used_append_rest {tokens : List Token} {reading : Reading}
    (h : read? tokens = some reading) : reading.used ++ reading.rest = tokens := by
  unfold read? at h
  simp only at h
  split at h <;> try contradiction
  rename_i name tokens₁ front₁
  split at h <;> try contradiction
  rename_i sign tokens₂ front₂
  split at h <;> try contradiction
  rename_i close rest front₃
  split at h <;> try contradiction
  obtain rfl := Option.some.inj h
  simp only [List.append_assoc, List.cons_append, List.nil_append]
  rw [← front₃, List.takeWhile_append_dropWhile, List.takeWhile_append_dropWhile,
    List.takeWhile_append_dropWhile, ← front₂, List.takeWhile_append_dropWhile, ← front₁,
    List.takeWhile_append_dropWhile]

theorem length_rest_le {tokens : List Token} {reading : Reading} (h : read? tokens = some reading) :
    reading.rest.length ≤ tokens.length := by
  rw [← used_append_rest h]
  simp

/-- A stretch of a page: a token outside of bindings, or a binding. -/
inductive Piece where
  | token (text : List Char)
  | binding (binding : Binding)

/-- The pieces of the tokens that begin at `place`. -/
def pieces (place : Point) : List Token → List Piece
  | [] => []
  | token :: tokens =>
    match _h : if token.kind = .opening then read? tokens else none with
    | some reading =>
      let stop := place.after (token.text ++ Token.flatten reading.used)
      .binding ⟨String.ofList reading.name, String.ofList reading.path, ⟨place, stop⟩⟩ ::
        pieces stop reading.rest
    | none => .token token.text :: pieces (place.after token.text) tokens
termination_by tokens => tokens.length
decreasing_by
  · split at _h
    · exact Nat.lt_succ_of_le (length_rest_le _h)
    · contradiction
  · simp

/-- The bindings of a page in the order they stand in it. -/
def find (page : List Char) : List Binding :=
  (pieces .start (lex page)).filterMap fun
    | .binding binding => some binding
    | .token _ => none

/-- A page without its bindings; the text around them stays as it is. -/
def strip (page : List Char) : List Char :=
  (pieces .start (lex page)).flatMap fun
    | .binding _ => []
    | .token text => text

end Binding

end Fieldmark
