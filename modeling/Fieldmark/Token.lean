import Fieldmark.Blank

/-!
# Tokens of bindings and loop bodies

A text falls apart into delimiters, blanks and words, the longest possible at each place. Nothing
is lost: the tokens' texts in order are the text (`flatten_lex`). A `<` that opens nothing is a
token of its own kind.
-/

namespace Fieldmark

namespace Token

inductive Kind where
  /-- The two characters `<:`. -/
  | opening
  /-- The two characters `:>`. -/
  | closing
  | equals
  | dot
  | colon
  /-- A `>` that no `:` precedes. -/
  | angle
  | blank
  /-- A run of characters that are neither blank nor punctuation. -/
  | word
  /-- A `<` that no `:` follows. -/
  | stray
  deriving DecidableEq, Repr

/-- The kind of a character that is not part of a two-character delimiter. -/
def Kind.ofChar (c : Char) : Kind :=
  if isPlainBlank c then .blank
  else if c = '<' then .stray
  else if c = '>' then .angle
  else if c = ':' then .colon
  else if c = '=' then .equals
  else if c = '.' then .dot
  else .word

/-- Whether two neighbours of this kind are one token. -/
def Kind.joins (kind : Kind) : Bool := kind == .blank || kind == .word

end Token

structure Token where
  kind : Token.Kind
  text : List Char
  deriving DecidableEq, Repr

namespace Token

/-- A blank that stays on its line. -/
def isInlineBlank (token : Token) : Bool :=
  token.kind == .blank && !token.text.contains '\n'

/-- Puts a character in front of tokens: it extends the first one if that is a run of its kind. -/
def push (c : Char) : List Token → List Token
  | [] => [⟨.ofChar c, [c]⟩]
  | first :: rest =>
    if first.kind = .ofChar c ∧ first.kind.joins then ⟨first.kind, c :: first.text⟩ :: rest
    else ⟨.ofChar c, [c]⟩ :: first :: rest

/-- The text that tokens were read from. -/
def flatten (tokens : List Token) : List Char := tokens.flatMap Token.text

@[simp] theorem flatten_nil : flatten [] = [] := rfl

@[simp] theorem flatten_cons (token : Token) (rest : List Token) :
    flatten (token :: rest) = token.text ++ flatten rest := rfl

@[simp] theorem flatten_append (a b : List Token) : flatten (a ++ b) = flatten a ++ flatten b := by
  simp [flatten]

@[simp] theorem flatten_push (c : Char) (tokens : List Token) :
    flatten (push c tokens) = c :: flatten tokens := by
  cases tokens with
  | nil => simp [push]
  | cons first rest => simp only [push]; split <;> simp

end Token

/-- The tokens of a text. -/
def lex : List Char → List Token
  | [] => []
  | '<' :: ':' :: rest => ⟨.opening, ['<', ':']⟩ :: lex rest
  | ':' :: '>' :: rest => ⟨.closing, [':', '>']⟩ :: lex rest
  | c :: rest => Token.push c (lex rest)

theorem flatten_lex (text : List Char) : Token.flatten (lex text) = text := by
  fun_induction lex text <;> simp_all

end Fieldmark
