import Fieldmark.Proofs.Letters
import Fieldmark.Proofs.Lines

/-!
# Bindings letter by letter

A binding is read off the tokens of a page, but what it is can be said of its characters
(`Spelled`, `stretch_iff_spelled`). The bindings of a page are all the places where one is spelled,
from left to right, and stripping the page takes out these and nothing else (`find_spelled`).
-/

namespace Fieldmark

open Token

namespace Binding

/-- Blanks that stay on their line. -/
def IsInlineGap (gap : List Char) : Prop := ∀ c ∈ gap, c = ' ' ∨ c = '\t' ∨ c = '\r'

/-- A character of a path: no blank, and no sign of a tag but dots and colons. -/
def IsPathChar (c : Char) : Prop := isPlainBlank c = false ∧ c ≠ '<' ∧ c ≠ '>' ∧ c ≠ '='

/-- The characters of a binding. What stands next to a gap is not blank and what stands next to the
name belongs to no word, so gaps and name go as far as they can; the path goes up to the blanks or
to the first `:>` behind it. -/
inductive Spelled (name path : List Char) : List Char → Prop
  | mk {gap₁ gap₂ gap₃ gap₄ : List Char} : IsInlineGap gap₁ → IsInlineGap gap₂ → IsInlineGap gap₃ →
    IsInlineGap gap₄ → IsWord name → path ≠ [] → (∀ c ∈ path, IsPathChar c) →
    Spelled name path
      (opening ++ gap₁ ++ name ++ gap₂ ++ ['='] ++ gap₃ ++ path ++ gap₄ ++ [':', '>'])

/-! ## Tokens of characters -/

theorem isInlineGap_iff {gap : List Char} :
    IsInlineGap gap ↔ IsPlainBlanks gap ∧ '\n' ∉ gap := by
  constructor
  · intro inline
    constructor
    · intro c member
      rcases inline c member with rfl | rfl | rfl <;> rfl
    · intro feed
      exact absurd (inline _ feed) (by decide)
  · rintro ⟨blank, line⟩ c member
    have plain := blank c member
    simp only [isPlainBlank, Bool.or_eq_true, beq_iff_eq] at plain
    rcases plain with ((space | tab) | back) | feed
    · exact .inl space
    · exact .inr (.inl tab)
    · exact .inr (.inr back)
    · exact absurd (feed ▸ member) line

theorem isPathChar_iff {c : Char} :
    IsPathChar c ↔ Kind.ofChar c = .word ∨ Kind.ofChar c = .dot ∨ Kind.ofChar c = .colon := by
  unfold Kind.ofChar IsPathChar
  split_ifs <;> simp_all

/-- The blanks of a line are tokens that stay on it. -/
theorem isInlineBlank_of_mem_lex {gap : List Char} (inline : IsInlineGap gap) {token : Token}
    (member : token ∈ lex gap) : token.isInlineBlank = true := by
  obtain ⟨blank, line⟩ := isInlineGap_iff.mp inline
  rw [eq_of_mem_lex_blanks blank member]
  simp [Token.isInlineBlank, line]

theorem isInlineGap_flatten {tokens : List Token} (formed : ∀ token ∈ tokens, token.WellFormed)
    (inline : ∀ token ∈ tokens, token.isInlineBlank = true) : IsInlineGap (flatten tokens) := by
  intro c member
  obtain ⟨token, among, inside⟩ := List.mem_flatMap.mp member
  have blank := inline token among
  simp only [Token.isInlineBlank, Bool.and_eq_true, beq_iff_eq, Bool.not_eq_true',
    List.contains_eq_mem, decide_eq_false_iff_not] at blank
  refine isInlineGap_iff.mpr ⟨fun d within => ?_, blank.2⟩ c inside
  refine ofChar_eq_blank_iff.mp (((formed token among).ofChar_of_mem ?_ within).trans blank.1)
  rw [blank.1]
  decide

/-- The characters of a path are parts of it. -/
theorem isPathPart_of_mem_lex {path : List Char} (chars : ∀ c ∈ path, IsPathChar c) {token : Token}
    (member : token ∈ lex path) : isPathPart token = true := by
  have formed := wellFormed_of_mem_lex token member
  obtain ⟨c, rest, text⟩ := List.exists_cons_of_ne_nil formed.text_ne_nil
  have inside {d : Char} (within : d ∈ token.text) : IsPathChar d := by
    refine chars d ?_
    rw [← flatten_lex path]
    exact List.mem_flatMap.mpr ⟨token, member, within⟩
  have kind : token.kind ≠ .opening ∧ token.kind ≠ .closing := by
    constructor
    · intro opens
      have sign : '<' ∈ token.text := by simp [formed.text_of_opening opens, opening]
      exact (inside sign).2.1 rfl
    · intro closes
      have sign : '>' ∈ token.text := by simp [formed.text_of_closing closes]
      exact (inside sign).2.2.1 rfl
  have first : c ∈ token.text := text ▸ List.mem_cons_self ..
  have same := formed.ofChar_of_mem kind first
  rcases isPathChar_iff.mp (inside first) with word | dot | colon
  · simp [isPathPart, ← same, word]
  · simp [isPathPart, ← same, dot]
  · simp [isPathPart, ← same, colon]

theorem isPathChar_of_mem_flatten {tokens : List Token} (formed : ∀ token ∈ tokens, token.WellFormed)
    (part : ∀ token ∈ tokens, isPathPart token = true) : ∀ c ∈ flatten tokens, IsPathChar c := by
  intro c member
  obtain ⟨token, among, inside⟩ := List.mem_flatMap.mp member
  have kind := part token among
  simp only [isPathPart, Bool.or_eq_true, beq_iff_eq, or_assoc] at kind
  have single : token.kind ≠ .opening ∧ token.kind ≠ .closing := by
    rcases kind with h | h | h <;> rw [h] <;> decide
  rw [isPathChar_iff, (formed token among).ofChar_of_mem single inside]
  exact kind

/-! ## Phrases of characters -/

variable {name path : List Char}

/-- A phrase behind a `<:` spells a binding. -/
theorem spelled_of_phrase {used : List Token} (phrase : Phrase name path used)
    (formed : ∀ token ∈ used, token.WellFormed) : Spelled name path (opening ++ flatten used) := by
  cases phrase with
  | @mk gap₁ gap₂ gap₃ gap₄ parts sign close blank₁ blank₂ blank₃ blank₄ nonempty path =>
    simp only [List.forall_mem_append, List.forall_mem_cons] at formed
    obtain ⟨formed₁, word, formed₂, equals, ⟨⟨formed₃, formedPath⟩, formed₄⟩, last, _⟩ := formed
    obtain rfl : sign = ['='] := equals.text_of_sign rfl rfl
    obtain rfl : close = [':', '>'] := last.text_of_closing rfl
    have named : IsWord name :=
      ⟨word.text_ne_nil, fun c member => ofChar_eq_word_iff.mp (word.ofChar_of_mem (by simp) member)⟩
    have some : flatten parts ≠ [] := by
      obtain ⟨first, others, rfl⟩ := List.exists_cons_of_ne_nil nonempty
      have text : first.text ≠ [] := (formedPath first (List.mem_cons_self ..)).text_ne_nil
      simp [text]
    have spelled := @Spelled.mk name (flatten parts) _ _ _ _ (isInlineGap_flatten formed₁ blank₁)
      (isInlineGap_flatten formed₂ blank₂) (isInlineGap_flatten formed₃ blank₃)
      (isInlineGap_flatten formed₄ blank₄) named some (isPathChar_of_mem_flatten formedPath path)
    simpa using spelled

theorem IsInlineGap.blank {gap : List Char} (inline : IsInlineGap gap) : IsPlainBlanks gap :=
  (isInlineGap_iff.mp inline).1

/-- Blanks of a line are read alone where no blank follows them. -/
theorem lex_gap {gap rest : List Char} (inline : IsInlineGap gap) (ends : Ends .blank rest) :
    lex (gap ++ rest) = lex gap ++ lex rest :=
  lex_blanks inline.blank ends

/-- A path is read alone in front of blanks and in front of `:>`. -/
theorem lex_path {gap : List Char} (chars : ∀ c ∈ path, IsPathChar c) (inline : IsInlineGap gap) :
    lex (path ++ (gap ++ [':', '>'])) = lex path ++ lex (gap ++ [':', '>']) := by
  refine lex_append fun x last y head => ?_
  have part := chars x (List.mem_of_getLast? last)
  have behind : Kind.ofChar y = .blank ∨ y = ':' := by
    cases gap with
    | nil =>
      cases head
      exact .inr rfl
    | cons c more =>
      cases head
      exact .inl (inline.blank.ofChar _ (List.mem_cons_self ..))
  rintro (⟨rfl, _⟩ | ⟨_, rfl⟩ | ⟨same, joins⟩)
  · exact part.2.1 rfl
  · rcases behind with blank | colon <;> contradiction
  · rcases behind with blank | rfl
    · rw [blank] at same
      rcases isPathChar_iff.mp part with h | h | h <;> rw [h] at same <;> contradiction
    · rw [same] at joins
      contradiction

/-- What spells a binding is read as a phrase behind a `<:`. -/
theorem phrase_of_spelled {text : List Char} (spelled : Spelled name path text) :
    ∃ used, lex text = ⟨.opening, opening⟩ :: used ∧ Phrase name path used := by
  cases spelled with
  | @mk gap₁ gap₂ gap₃ gap₄ inline₁ inline₂ inline₃ inline₄ named some chars =>
    have close : lex (gap₄ ++ [':', '>']) = lex gap₄ ++ [⟨.closing, [':', '>']⟩] := by
      rw [lex_gap inline₄ (ends_cons (by decide) _)]
      simp [lex]
    have toPath : lex (gap₃ ++ (path ++ (gap₄ ++ [':', '>']))) =
        lex gap₃ ++ lex path ++ (lex gap₄ ++ [⟨.closing, [':', '>']⟩]) := by
      have ends : Ends .blank (path ++ (gap₄ ++ [':', '>'])) := by
        obtain ⟨c, more, rfl⟩ := List.exists_cons_of_ne_nil some
        refine ends_cons (fun blank => ?_) _
        rcases isPathChar_iff.mp (chars c (List.mem_cons_self ..)) with h | h | h <;>
          rw [h] at blank <;> contradiction
      rw [lex_gap inline₃ ends, lex_path chars inline₄, close, List.append_assoc]
    have toSign : lex (gap₂ ++ '=' :: (gap₃ ++ (path ++ (gap₄ ++ [':', '>'])))) =
        lex gap₂ ++ ⟨.equals, ['=']⟩ :: (lex gap₃ ++ lex path ++ (lex gap₄ ++ [⟨.closing, [':', '>']⟩])) := by
      rw [lex_gap inline₂ (ends_cons (by decide) _),
        lex_cons_of_severed (severed_sign rfl (by simp) fun colon => absurd colon (by decide)), toPath]
      rfl
    have word : Ends .word (gap₂ ++ '=' :: (gap₃ ++ (path ++ (gap₄ ++ [':', '>'])))) :=
      inline₂.blank.ends (ends_cons (by decide) _)
    refine ⟨lex gap₁ ++ ⟨.word, name⟩ :: (lex gap₂ ++ ⟨.equals, ['=']⟩ :: (lex gap₃ ++ lex path ++
      lex gap₄ ++ [⟨.closing, [':', '>']⟩])), ?_, ?_⟩
    · have rest := lex_gap inline₁ (named.ends (gap₂ ++ '=' :: (gap₃ ++ (path ++ (gap₄ ++ [':', '>'])))))
      rw [lex_word named word, toSign] at rest
      simp only [opening, List.append_assoc, List.cons_append, List.nil_append] at rest ⊢
      rw [lex, rest]
    · have phrase := @Phrase.mk name (lex gap₁) (lex gap₂) (lex gap₃) (lex gap₄) (lex path) ['=']
        [':', '>'] (fun _ => isInlineBlank_of_mem_lex inline₁) (fun _ => isInlineBlank_of_mem_lex inline₂)
        (fun _ => isInlineBlank_of_mem_lex inline₃) (fun _ => isInlineBlank_of_mem_lex inline₄)
        (fun none => some (lex_eq_nil_iff.mp none)) (fun _ => isPathPart_of_mem_lex chars)
      rwa [flatten_lex] at phrase

theorem stretch_iff_spelled {name path : String} {text : List Char} :
    Stretch name path text ↔ Spelled name.toList path.toList text := by
  constructor
  · rintro ⟨used, tokens, phrase⟩
    have formed : ∀ token ∈ used, token.WellFormed := fun token member =>
      wellFormed_of_mem_lex token (tokens ▸ List.mem_cons_of_mem _ member)
    rw [← flatten_lex text, tokens, flatten_cons]
    exact spelled_of_phrase phrase formed
  · exact phrase_of_spelled

theorem Spelled.isWord {text : List Char} (spelled : Spelled name path text) : IsWord name := by
  cases spelled
  assumption

/-! ## Bindings of a page -/

/-- Bindings follow one another from left to right. -/
theorem Parted.ordered {p : Point} {bindings : List Binding} {kept text : List Char}
    (parted : Parted p bindings kept text) : bindings.Pairwise fun a b =>
      a.span.start.offset < a.span.stop.offset ∧ a.span.stop.offset ≤ b.span.start.offset := by
  induction parted with
  | nil => exact .nil
  | kept _ ih => exact ih
  | @binding p name path text bindings kept rest is later ih =>
    refine .cons (fun b member => ⟨?_, (later.within member).1⟩) ih
    have wide := byteCount_pos is.ne_nil
    simp only [Point.offset_after]
    omega

/-- The bindings of a page are those spelled in it, each where it is spelled and listed from left to
right, and stripping takes out what their spans cover. -/
theorem find_spelled (page : List Char) :
    (∀ b, b ∈ find page ↔ ∃ before text behind, page = before ++ text ++ behind ∧
      Spelled b.name.toList b.path.toList text ∧
      b.span = ⟨Point.start.after before, Point.start.after (before ++ text)⟩) ∧
    (find page).Pairwise (fun a b => a.span.start.offset < a.span.stop.offset ∧
      a.span.stop.offset ≤ b.span.start.offset) ∧
    strip page = uncovered (spans page) .start page := by
  refine ⟨fun b => ⟨fun member => ?_, ?_⟩, (parted_page page).ordered, strip_eq_uncovered page⟩
  · obtain ⟨before, stretch, behind, whole, is, span⟩ := (parted_page page).mem member
    exact ⟨before, stretch, behind, whole, stretch_iff_spelled.mp is, span⟩
  · rintro ⟨before, text, behind, rfl, spelled, span⟩
    have found := @mem_find before text behind b.name b.path (stretch_iff_spelled.mpr spelled)
    rwa [← span] at found

end Binding

end Fieldmark
