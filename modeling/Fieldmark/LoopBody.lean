import Fieldmark.Scan
import Fieldmark.Token
import Fieldmark.Value

/-!
# Loop bodies

The body of a loop is text with field tags `<: item.field :>` in it. It is taken apart once and
rendered for every item of the collection. Every `<:` of a body begins a tag, and a tag is blanks,
words and dots up to `:>`, whose two characters may stand apart.
-/

namespace Fieldmark

/-- A piece of a loop body. `place` is that of the tag's `<:` in the page. -/
inductive BodyPart where
  | text (content : List Char)
  | field (reference : String) (fields : List String) (place : Point)
  deriving DecidableEq, Repr

namespace LoopBody

/-- Tokens that are still to be read, and the place of the first of them. -/
structure Cursor where
  place : Point
  tokens : List Token

namespace Cursor

/-- Past a token with the given rest behind it. -/
def past (c : Cursor) (token : Token) (rest : List Token) : Cursor :=
  ⟨c.place.after token.text, rest⟩

/-- Past any blanks, line breaks among them. -/
def skipBlanks (c : Cursor) : Cursor :=
  ⟨c.place.after (Token.flatten (c.tokens.takeWhile (·.kind == .blank))),
    c.tokens.dropWhile (·.kind == .blank)⟩

theorem length_skipBlanks_le (c : Cursor) : c.skipBlanks.tokens.length ≤ c.tokens.length :=
  (List.dropWhile_sublist _).length_le

/-- The word that must stand here, and the cursor behind it. -/
def word (c : Cursor) (fault : Fault) : Except Problem (String × Cursor) :=
  match c.tokens with
  | ⟨.word, text⟩ :: rest => .ok (String.ofList text, ⟨c.place.after text, rest⟩)
  | _ => .error (Scan.problemAt c.place fault)

theorem length_word_lt {c after : Cursor} {fault : Fault} {word : String}
    (h : c.word fault = .ok (word, after)) : after.tokens.length < c.tokens.length := by
  unfold Cursor.word at h
  split at h
  · rename_i text rest front
    cases h
    simp [front]
  · contradiction

end Cursor

/-- The fields of a tag behind those already read, and the cursor behind the tag. -/
def readFields (reference : String) (fields : List String) (c : Cursor) :
    Except Problem (List String × Cursor) :=
  let here := c.skipBlanks
  match _front : here.tokens with
  | [] => .error (Scan.problemAt here.place (.bodyTagEnd reference))
  | token :: rest =>
    let behind := here.past token rest
    if token.kind = .dot then
      match _found : behind.skipBlanks.word .bodyField with
      | .ok (field, after) => readFields reference (fields ++ [field]) after
      | .error problem => .error problem
    else if fields ≠ [] ∧ token.kind = .closing then .ok (fields, behind)
    else if fields ≠ [] ∧ token.kind = .colon then
      match behind.skipBlanks.tokens with
      | ⟨.angle, sign⟩ :: rest => .ok (fields, behind.skipBlanks.past ⟨.angle, sign⟩ rest)
      | _ => .error (Scan.problemAt behind.skipBlanks.place .closeOfTag)
    else .error (Scan.problemAt here.place (.bodyTagEnd reference))
termination_by c.tokens.length
decreasing_by
  have behindFront : after.tokens.length < rest.length :=
    Nat.lt_of_lt_of_le (Cursor.length_word_lt _found) behind.length_skipBlanks_le
  have front : (token :: rest).length ≤ c.tokens.length := _front ▸ c.length_skipBlanks_le
  simp only [List.length_cons] at front
  omega

theorem length_readFields_le (reference : String) (fields : List String) (c : Cursor)
    {read : List String} {after : Cursor} (h : readFields reference fields c = .ok (read, after)) :
    after.tokens.length ≤ c.tokens.length := by
  fun_induction readFields reference fields c with
  | case2 fields c here token rest front behind _ field next found ih =>
    have front' : (token :: rest).length ≤ c.tokens.length := front ▸ c.length_skipBlanks_le
    have behindFront : next.tokens.length < rest.length :=
      Nat.lt_of_lt_of_le (Cursor.length_word_lt found) behind.length_skipBlanks_le
    have := ih h
    simp only [List.length_cons] at front'
    omega
  | case4 fields c here token rest front behind =>
    have front' : (token :: rest).length ≤ c.tokens.length := front ▸ c.length_skipBlanks_le
    rw [← (Prod.mk.inj (Except.ok.inj h)).2]
    simp only [List.length_cons] at front'
    exact Nat.le_of_succ_le front'
  | case5 fields c here token rest front behind _ _ _ sign rest' front' =>
    have front₁ : (token :: rest).length ≤ c.tokens.length := front ▸ c.length_skipBlanks_le
    have front₂ : (_ :: rest').length ≤ rest.length := front' ▸ behind.length_skipBlanks_le
    rw [← (Prod.mk.inj (Except.ok.inj h)).2]
    simp only [List.length_cons] at front₁ front₂
    show rest'.length ≤ c.tokens.length
    omega
  | _ => simp at h

/-- A field tag, read behind its `<:`, which stands at `place`. -/
def readTag (place : Point) (c : Cursor) : Except Problem (BodyPart × Cursor) :=
  match c.skipBlanks.word .bodyReference with
  | .error problem => .error problem
  | .ok (reference, after) =>
    if reference = loopKeyword ∧ after.tokens.head?.map (·.kind) = some .blank then
      .error (Scan.problemAt place .nestedLoop)
    else
      match readFields reference [] after with
      | .error problem => .error problem
      | .ok (fields, after) => .ok (.field reference fields place, after)

theorem length_readTag_le {place : Point} {c after : Cursor} {part : BodyPart}
    (h : readTag place c = .ok (part, after)) : after.tokens.length ≤ c.tokens.length := by
  unfold readTag at h
  split at h
  · contradiction
  · rename_i reference behind found
    split at h
    · contradiction
    · split at h
      · contradiction
      · rename_i fields last read
        cases h
        have h₁ := Cursor.length_word_lt found
        have h₂ := c.length_skipBlanks_le
        have h₃ := length_readFields_le _ _ _ read
        omega

/-- Puts text in front of parts. -/
def pushText (text : List Char) : List BodyPart → List BodyPart
  | .text content :: rest => .text (text ++ content) :: rest
  | parts => .text text :: parts

/-- The parts of the tokens at a cursor. -/
def parts (place : Point) : List Token → Except Problem (List BodyPart)
  | [] => .ok []
  | token :: tokens =>
    let behind := place.after token.text
    if token.kind = .opening then
      match _h : readTag place ⟨behind, tokens⟩ with
      | .error problem => .error problem
      | .ok (part, after) => (parts after.place after.tokens).map (part :: ·)
    else (parts behind tokens).map (pushText token.text)
termination_by tokens => tokens.length
decreasing_by
  · exact Nat.lt_succ_of_le (length_readTag_le _h)
  · simp

/-- Takes the body of a loop apart; `place` is that of its first character. -/
def parse (body : List Char) (place : Point) : Except Problem (List BodyPart) :=
  parts place (lex body)

/-- The text of one part for an item of the collection. A tag that names the loop variable reads
from the item, any other one from the tree. -/
def renderPart (name : String) (item : Value) (tree : Tree) : BodyPart → Except Problem String
  | .text content => .ok (String.ofList content)
  | .field reference fields place =>
    if reference = name then item.resolveText reference place fields
    else (tree.reference reference place).bind fun value =>
      value.resolveText reference place fields

/-- The text of a body for an item, or the problem of the first part that has none. -/
def render (name : String) (item : Value) (tree : Tree) : List BodyPart → Except Problem String
  | [] => .ok ""
  | part :: rest =>
    (renderPart name item tree part).bind fun text =>
      (render name item tree rest).map (text ++ ·)

end LoopBody

end Fieldmark
