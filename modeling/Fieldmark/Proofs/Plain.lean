import Fieldmark.Proofs.Bindings
import Fieldmark.Proofs.BodyText
import Fieldmark.Proofs.Typed
import Fieldmark.Substitution

/-!
# Plain tags

Two readers know field tags: the scanner on a page and the token reader in the body of a loop. They
differ in what they take for blanks and words, and agree on tags of plain words with plain blanks
between them (`PlainTag`).
-/

namespace Fieldmark

/-! ## Plain words -/

/-- A character that is part of a word for either reader. -/
def IsPlainChar (c : Char) : Prop :=
  isBlank c = false ∧ c ≠ '<' ∧ c ≠ '>' ∧ c ≠ ':' ∧ c ≠ '=' ∧ c ≠ '.'

/-- A word for either reader. -/
def IsPlainWord (word : String) : Prop := word ≠ "" ∧ ∀ c ∈ word.toList, IsPlainChar c

instance : DecidablePred IsPlainChar := fun c =>
  inferInstanceAs (Decidable (isBlank c = false ∧ c ≠ '<' ∧ c ≠ '>' ∧ c ≠ ':' ∧ c ≠ '=' ∧ c ≠ '.'))

instance : DecidablePred IsPlainWord := fun word =>
  @instDecidableAnd _ _ _ (List.decidableBAll IsPlainChar word.toList)

theorem IsPlainWord.isName {word : String} (plain : IsPlainWord word) : IsName word := by
  refine ⟨plain.1, fun c member => ?_⟩
  obtain ⟨blank, _, _, colon, _, dot⟩ := plain.2 c member
  exact ⟨blank, dot, colon⟩

theorem IsPlainWord.isCollection {word : String} (plain : IsPlainWord word) : IsCollection word := by
  refine ⟨plain.1, fun c member => ?_⟩
  obtain ⟨blank, _, _, colon, _, _⟩ := plain.2 c member
  exact ⟨blank, colon⟩

theorem isPlainChar_iff {c : Char} : IsPlainChar c ↔ IsWordChar c ∧ isBlank c = false := by
  constructor
  · rintro ⟨dark, signs⟩
    refine ⟨⟨Bool.eq_false_iff.mpr fun bright => ?_, signs⟩, dark⟩
    rw [isBlank_of_isPlainBlank bright] at dark
    contradiction
  · rintro ⟨⟨_, signs⟩, dark⟩
    exact ⟨dark, signs⟩

theorem isPlainWord_iff {word : String} :
    IsPlainWord word ↔ IsWord word.toList ∧ ∀ c ∈ word.toList, isBlank c = false := by
  simp only [IsPlainWord, IsWord, isPlainChar_iff, ne_eq, String.toList_eq_nil_iff]
  grind

/-- Plain blanks where some may stand. -/
structure PlainGap where
  text : List Char
  blank : IsPlainBlanks text

def PlainGap.gap (gap : PlainGap) : Gap :=
  ⟨gap.text, fun c member => isBlank_of_isPlainBlank (gap.blank c member)⟩

/-- A plain word and the blanks around it. -/
structure PlainSpaced where
  before : PlainGap
  word : String
  behind : PlainGap
  plain : IsPlainWord word

def PlainSpaced.spaced (spaced : PlainSpaced) : Spaced :=
  ⟨spaced.before.gap, spaced.word, spaced.behind.gap, spaced.plain.isName⟩

/-- A sign that is in no plain word and in no plain gap. -/
def IsSign (c : Char) : Prop := isPlainBlank c = false ∧ ¬ IsPlainChar c

instance : DecidablePred IsSign := fun c =>
  inferInstanceAs (Decidable (isPlainBlank c = false ∧ ¬ IsPlainChar c))

theorem PlainGap.not_mem {gap : PlainGap} {c : Char} (sign : IsSign c) : c ∉ gap.text := by
  intro member
  have dark := sign.1
  rw [gap.blank c member] at dark
  contradiction

theorem IsPlainWord.not_mem {word : String} (plain : IsPlainWord word) {c : Char} (sign : IsSign c) :
    c ∉ word.toList :=
  fun member => sign.2 (plain.2 c member)

theorem PlainSpaced.not_mem {spaced : PlainSpaced} {c : Char} (sign : IsSign c) :
    c ∉ spaced.spaced.text := by
  simp only [Spaced.text, List.mem_append, not_or]
  exact ⟨⟨spaced.before.not_mem sign, spaced.plain.not_mem sign⟩, spaced.behind.not_mem sign⟩

/-! ## Plain tags -/

/-- A field tag of plain words with plain blanks wherever some may stand. -/
structure PlainTag where
  reference : PlainSpaced
  fields : List PlainSpaced
  close : PlainGap
  nonempty : fields ≠ []
  /-- Only the dot right behind it tells the reference `for` from the keyword. -/
  keyword : reference.word = loopKeyword → reference.behind.text = []

namespace PlainTag

variable (tag : PlainTag)

/-- What stands between the `<:` and the `>`. -/
def header (tag : PlainTag) : List Char :=
  tag.reference.spaced.text ++ typedPath (tag.fields.map PlainSpaced.spaced) ++ tag.close.text

theorem not_mem_header {c : Char} (sign : IsSign c) (dot : c ≠ '.') (colon : c ≠ ':') :
    c ∉ tag.header := by
  have path (fields : List PlainSpaced) : c ∉ typedPath (fields.map PlainSpaced.spaced) := by
    induction fields with
    | nil => simpa [typedPath] using colon
    | cons field fields ih =>
      rw [List.map_cons, typedPath_cons, List.mem_cons, List.mem_append, not_or, not_or]
      exact ⟨dot, field.not_mem sign, ih⟩
  simp only [header, List.mem_append, not_or]
  exact ⟨⟨tag.reference.not_mem sign, path tag.fields⟩, tag.close.not_mem sign⟩

/-- The tag as the scanner knows it. -/
def typed (tag : PlainTag) : FieldTag where
  reference := tag.reference.spaced
  fields := tag.fields.map PlainSpaced.spaced
  close := tag.close.gap
  nonempty := by simpa using tag.nonempty
  keyword := tag.keyword
  plain := by
    intro inside
    have angle : '<' ∈ tag.header := inside.mem (by simp [opening])
    exact tag.not_mem_header (by decide) (by decide) (by decide) angle

def text (tag : PlainTag) : List Char := opening ++ tag.header ++ ['>']

def names (tag : PlainTag) : List String := tag.fields.map PlainSpaced.word

theorem not_mem_text {c : Char} (sign : IsSign c) (dot : c ≠ '.') (colon : c ≠ ':') (left : c ≠ '<')
    (right : c ≠ '>') : c ∉ tag.text := by
  simp [text, opening, tag.not_mem_header sign dot colon, left, colon, right]

/-- No loop ends in a plain tag. -/
theorem unclosed : Unclosed tag.text := by
  rintro closer ⟨blanks, _, rfl⟩ inside
  have angle : '<' ∉ tag.header ++ ['>'] := by
    simp [tag.not_mem_header (c := '<') (by decide) (by decide) (by decide)]
  have whole : tag.text = '<' :: ':' :: (tag.header ++ ['>']) := by simp [text, opening]
  rw [whole, List.infix_cons_iff] at inside
  rcases inside with ⟨rest, front⟩ | later
  · simp [loopClose] at front
  · have member : '<' ∈ ':' :: (tag.header ++ ['>']) := later.mem (by simp [loopClose])
    simp [angle] at member

end PlainTag

/-! ## The reader of tokens -/

namespace LoopBody

/-- The path of a tag from the gap in front of its first dot. -/
theorem fieldsText_typedPath (gap close : PlainGap) (fields : List PlainSpaced) :
    FieldsText (fields.map PlainSpaced.word)
      (gap.text ++ (typedPath (fields.map PlainSpaced.spaced) ++ (close.text ++ ['>']))) := by
  induction fields generalizing gap with
  | nil => simpa [typedPath] using FieldsText.close gap.blank close.blank
  | cons field fields ih =>
    obtain ⟨before, word, behind, plain⟩ := field
    simpa [typedPath_cons, PlainSpaced.spaced, PlainGap.gap, Spaced.text] using
      FieldsText.field gap.blank before.blank (isPlainWord_iff.mp plain).1 (ih behind)

/-- A plain tag is one for the reader of tokens. -/
theorem tagText_plain (tag : PlainTag) : TagText tag.reference.word tag.names (tag.header ++ ['>']) := by
  obtain ⟨⟨before, word, behind, plain⟩, fields, close, nonempty, keyword⟩ := tag
  have path := fieldsText_typedPath behind close fields
  have dark (loop : word = loopKeyword) (c : Char) (head : (behind.text ++
      (typedPath (fields.map PlainSpaced.spaced) ++ (close.text ++ ['>']))).head? = some c) :
      isPlainBlank c = false := by
    rw [show behind.text = [] from keyword loop, List.nil_append] at head
    cases fields with
    | nil => contradiction
    | cons field fields =>
      rw [List.map_cons, typedPath_cons] at head
      cases head
      decide
  have whole := TagText.mk before.blank (isPlainWord_iff.mp plain).1 (by simpa using nonempty) path dark
  simpa [PlainTag.header, PlainTag.names, PlainSpaced.spaced, PlainGap.gap, Spaced.text] using whole

/-- The reader of tokens finds a plain tag, alone in a body, where it stands. -/
theorem parse_plain (tag : PlainTag) (p : Point) :
    parse tag.text p = .ok [.field tag.reference.word tag.names p] := by
  have laid : Laid p [.field tag.reference.word tag.names p] (opening ++ (tag.header ++ ['>']) ++ []) :=
    .field (tagText_plain tag) .nil
  rw [List.append_nil, ← List.append_assoc] at laid
  exact laid.parse

end LoopBody

end Fieldmark
