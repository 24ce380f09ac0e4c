import Fieldmark.Proofs.Tokens

/-!
# Words and blanks letter by letter

Which characters make up a word, and which make up blanks (`ofChar_eq_word_iff`,
`ofChar_eq_blank_iff`). Both go on as long as they can: where something else follows, they are the
first token, and what follows is read as it is read alone (`lex_word`, `lex_blanks`).
-/

namespace Fieldmark

open Token

variable {c : Char} {word blanks rest : List Char}

/-! ## Characters -/

/-- A character of a word: no blank, and none of the signs of a tag. -/
def IsWordChar (c : Char) : Prop :=
  isPlainBlank c = false ∧ c ≠ '<' ∧ c ≠ '>' ∧ c ≠ ':' ∧ c ≠ '=' ∧ c ≠ '.'

instance : DecidablePred IsWordChar := fun c =>
  inferInstanceAs (Decidable (isPlainBlank c = false ∧ c ≠ '<' ∧ c ≠ '>' ∧ c ≠ ':' ∧ c ≠ '=' ∧ c ≠ '.'))

theorem ofChar_eq_word_iff : Kind.ofChar c = .word ↔ IsWordChar c := by
  unfold Kind.ofChar IsWordChar
  split_ifs <;> simp_all

theorem ofChar_eq_blank_iff : Kind.ofChar c = .blank ↔ isPlainBlank c = true := by
  unfold Kind.ofChar
  split_ifs <;> simp_all

/-- A text that is one word. -/
def IsWord (text : List Char) : Prop := text ≠ [] ∧ ∀ c ∈ text, IsWordChar c

instance : DecidablePred IsWord := fun text =>
  @instDecidableAnd _ _ _ (List.decidableBAll IsWordChar text)

/-- A text of blanks for either reader. -/
def IsPlainBlanks (text : List Char) : Prop := ∀ c ∈ text, isPlainBlank c = true

instance : DecidablePred IsPlainBlanks := List.decidableBAll fun c => isPlainBlank c = true

theorem IsWord.ofChar (isWord : IsWord word) : ∀ c ∈ word, Kind.ofChar c = .word :=
  fun c member => ofChar_eq_word_iff.mpr (isWord.2 c member)

/-- Only a run of blanks has a blank in it. -/
theorem Token.WellFormed.kind_of_blank {token : Token} (formed : token.WellFormed)
    (member : c ∈ token.text) (blank : isPlainBlank c = true) : token.kind = .blank := by
  have kind := ofChar_eq_blank_iff.mpr blank
  cases formed with
  | opening => rcases List.mem_cons.mp member with rfl | member <;> simp_all [isPlainBlank]
  | closing => rcases List.mem_cons.mp member with rfl | member <;> simp_all [isPlainBlank]
  | single _ => rwa [List.mem_singleton.mp member] at kind
  | run _ _ chars => rw [← kind, chars c member]

theorem IsPlainBlanks.ofChar (blank : IsPlainBlanks blanks) : ∀ c ∈ blanks, Kind.ofChar c = .blank :=
  fun c member => ofChar_eq_blank_iff.mpr (blank c member)

theorem IsWord.not_mem_angle (isWord : IsWord word) : '<' ∉ word :=
  fun member => (isWord.2 '<' member).2.1 rfl

theorem IsPlainBlanks.not_mem_angle (blank : IsPlainBlanks blanks) : '<' ∉ blanks :=
  fun member => Bool.false_ne_true (blank '<' member)

/-! ## Where words and blanks end -/

/-- The text goes on with something else than a kind of character. -/
def Ends (kind : Kind) (rest : List Char) : Prop := ∀ c, rest.head? = some c → Kind.ofChar c ≠ kind

theorem ends_cons {kind : Kind} (other : Kind.ofChar c ≠ kind) (rest : List Char) :
    Ends kind (c :: rest) := by
  intro d head
  cases head
  exact other

/-- Blanks end no text that something else goes on. -/
theorem IsPlainBlanks.ends (blank : IsPlainBlanks blanks) (ends : Ends .word rest) :
    Ends .word (blanks ++ rest) := by
  cases blanks with
  | nil => exact ends
  | cons c more =>
    refine ends_cons ?_ _
    rw [blank.ofChar c (List.mem_cons_self ..)]
    simp

theorem IsWord.ends (isWord : IsWord word) (rest : List Char) : Ends .blank (word ++ rest) := by
  obtain ⟨c, more, rfl⟩ := List.exists_cons_of_ne_nil isWord.1
  refine ends_cons ?_ _
  rw [isWord.ofChar c (List.mem_cons_self ..)]
  simp

theorem lex_word (isWord : IsWord word) (ends : Ends .word rest) :
    lex (word ++ rest) = ⟨.word, word⟩ :: lex rest := by
  rw [lex_append (severed_run rfl isWord.ofChar ends), lex_run rfl isWord.1 isWord.ofChar]
  rfl

theorem lex_blanks (blank : IsPlainBlanks blanks) (ends : Ends .blank rest) :
    lex (blanks ++ rest) = lex blanks ++ lex rest :=
  lex_append (severed_run rfl blank.ofChar ends)

/-- Blanks are one token, or none if there are none. -/
theorem eq_of_mem_lex_blanks (blank : IsPlainBlanks blanks) {token : Token}
    (member : token ∈ lex blanks) : token = ⟨.blank, blanks⟩ := by
  by_cases empty : blanks = []
  · rw [empty, lex] at member
    contradiction
  · rwa [lex_run rfl empty blank.ofChar, List.mem_singleton] at member

/-- What is not blank in front does not begin with a blank token. -/
theorem head?_lex_ne_blank (ends : Ends .blank rest) {token : Token}
    (head : (lex rest).head? = some token) : token.kind ≠ .blank := by
  intro kind
  obtain ⟨more, front⟩ := List.head?_eq_some_iff.mp head
  cases rest with
  | nil =>
    rw [lex] at front
    contradiction
  | cons c rest =>
    have same := ofChar_of_lex_cons front (by rw [kind]; rfl)
    exact ends c rfl (same.trans kind)

end Fieldmark
