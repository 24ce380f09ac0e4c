import Fieldmark.Binding
import Fieldmark.Proofs.Position
import Fieldmark.Proofs.Tokens
import Mathlib.Data.List.TakeWhile

/-!
# Pages parted into bindings and text

Behind its `<:` a binding is a fixed sequence of tokens (`Phrase`), and the reader takes nothing
else (`read?_eq_some_iff`). Whether a stretch of a page is a binding can therefore be told from the
stretch alone (`Stretch`). A page is its bindings and the text around them, one behind the other
(`parted_page`), and every stretch that is a binding is found where it stands (`mem_find`).
-/

namespace Fieldmark

/-- A point of the stretch that a span covers. -/
def Span.Covers (s : Span) (p : Point) : Prop := s.start.offset ≤ p.offset ∧ p.offset < s.stop.offset

instance (s : Span) (p : Point) : Decidable (s.Covers p) := inferInstanceAs (Decidable (_ ∧ _))

namespace Binding

/-! ## Phrases -/

/-- The tokens of a binding behind its `<:`. -/
inductive Phrase (name : List Char) : List Char → List Token → Prop
  | mk {gap₁ gap₂ gap₃ gap₄ parts : List Token} {sign close : List Char} :
    (∀ token ∈ gap₁, token.isInlineBlank = true) → (∀ token ∈ gap₂, token.isInlineBlank = true) →
    (∀ token ∈ gap₃, token.isInlineBlank = true) → (∀ token ∈ gap₄, token.isInlineBlank = true) →
    parts ≠ [] → (∀ token ∈ parts, isPathPart token = true) →
    Phrase name (Token.flatten parts)
      (gap₁ ++ ⟨.word, name⟩ :: (gap₂ ++ ⟨.equals, sign⟩ :: (gap₃ ++ parts ++ gap₄ ++
        [⟨.closing, close⟩])))

theorem phrase_of_read? {tokens : List Token} {reading : Reading} (h : read? tokens = some reading) :
    Phrase reading.name reading.path reading.used := by
  unfold read? at h
  simp only at h
  split at h <;> try contradiction
  split at h <;> try contradiction
  split at h <;> try contradiction
  split at h <;> try contradiction
  rename_i nonempty
  obtain rfl := Option.some.inj h
  refine .mk ?_ ?_ ?_ ?_ (by simpa using nonempty) ?_
  all_goals exact fun token member => List.mem_takeWhile_imp member

theorem not_isInlineBlank_of_isPathPart {token : Token} (part : isPathPart token = true) :
    token.isInlineBlank = false := by
  obtain ⟨kind, text⟩ := token
  cases kind <;> first | rfl | contradiction

theorem not_isPathPart_of_isInlineBlank {token : Token} (blank : token.isInlineBlank = true) :
    isPathPart token = false := by
  obtain ⟨kind, text⟩ := token
  cases kind <;> first | rfl | contradiction

theorem read?_of_phrase {name path : List Char} {used : List Token} (phrase : Phrase name path used)
    (rest : List Token) : read? (used ++ rest) = some ⟨name, path, used, rest⟩ := by
  cases phrase with
  | @mk gap₁ gap₂ gap₃ gap₄ parts sign close blank₁ blank₂ blank₃ blank₄ nonempty path =>
    obtain ⟨first, others, rfl⟩ := List.exists_cons_of_ne_nil nonempty
    have toName := takeWhile_run (⟨.word, name⟩ :: (gap₂ ++ ⟨.equals, sign⟩ ::
      (gap₃ ++ (first :: others) ++ gap₄ ++ [⟨.closing, close⟩])) ++ rest) blank₁
      (by simp [Token.isInlineBlank])
    have toSign := takeWhile_run (⟨.equals, sign⟩ ::
      (gap₃ ++ (first :: others) ++ gap₄ ++ [⟨.closing, close⟩]) ++ rest) blank₂
      (by simp [Token.isInlineBlank])
    have toPath := takeWhile_run ((first :: others) ++ (gap₄ ++ ⟨.closing, close⟩ :: rest)) blank₃
      (by simpa using not_isInlineBlank_of_isPathPart (path first (List.mem_cons_self ..)))
    have toClose := takeWhile_run (⟨.closing, close⟩ :: rest) blank₄ (by simp [Token.isInlineBlank])
    have behindPath := takeWhile_run (gap₄ ++ ⟨.closing, close⟩ :: rest) path (by
      intro token head
      cases gap₄ with
      | nil =>
        cases head
        rfl
      | cons blank more =>
        cases head
        exact not_isPathPart_of_isInlineBlank (blank₄ _ (List.mem_cons_self ..)))
    simp only [List.append_assoc, List.cons_append, List.nil_append] at toName toSign toPath behindPath ⊢
    simp only [read?, toName, toSign, toPath, behindPath, toClose]
    simp

theorem read?_eq_some_iff {tokens : List Token} {reading : Reading} :
    read? tokens = some reading ↔
      Phrase reading.name reading.path reading.used ∧ tokens = reading.used ++ reading.rest := by
  constructor
  · intro h
    exact ⟨phrase_of_read? h, (used_append_rest h).symm⟩
  · rintro ⟨phrase, rfl⟩
    exact read?_of_phrase phrase reading.rest

/-! ## The text of a phrase -/

/-- Text that stays on its line and ends no tag. -/
def Inline (text : List Char) : Prop := '>' ∉ text ∧ '\n' ∉ text

theorem inline_append {a b : List Char} : Inline (a ++ b) ↔ Inline a ∧ Inline b := by
  unfold Inline
  rw [List.mem_append, List.mem_append, not_or, not_or]
  exact and_and_and_comm

theorem inline_flatten {tokens : List Token} (inline : ∀ token ∈ tokens, Inline token.text) :
    Inline (Token.flatten tokens) := by
  induction tokens with
  | nil => simp [Inline]
  | cons token rest ih =>
    rw [Token.flatten_cons, inline_append]
    exact ⟨inline token (List.mem_cons_self ..),
      ih fun other member => inline other (List.mem_cons_of_mem token member)⟩

theorem inline_of_kind {token : Token} (formed : token.WellFormed)
    (kind : token.kind = .word ∨ token.kind = .equals ∨ token.kind = .dot ∨ token.kind = .colon) :
    Inline token.text := by
  have single : token.kind ≠ .opening ∧ token.kind ≠ .closing := by
    rcases kind with h | h | h | h <;> rw [h] <;> decide
  constructor
  · intro member
    have angle : Token.Kind.angle = token.kind := formed.ofChar_of_mem single member
    rcases kind with h | h | h | h <;> rw [h] at angle <;> contradiction
  · intro member
    have blank : Token.Kind.blank = token.kind := formed.ofChar_of_mem single member
    rcases kind with h | h | h | h <;> rw [h] at blank <;> contradiction

theorem inline_of_isInlineBlank {token : Token} (formed : token.WellFormed)
    (blank : token.isInlineBlank = true) : Inline token.text := by
  simp only [Token.isInlineBlank, Bool.and_eq_true, beq_iff_eq, Bool.not_eq_true',
    List.contains_eq_mem, decide_eq_false_iff_not] at blank
  obtain ⟨kind, line⟩ := blank
  refine ⟨fun member => ?_, line⟩
  have angle : Token.Kind.angle = token.kind :=
    formed.ofChar_of_mem (by rw [kind]; decide) member
  rw [kind] at angle
  contradiction

theorem inline_of_isPathPart {token : Token} (formed : token.WellFormed)
    (part : isPathPart token = true) : Inline token.text := by
  simp only [isPathPart, Bool.or_eq_true, beq_iff_eq] at part
  rcases part with (word | dot) | colon
  · exact inline_of_kind formed (.inl word)
  · exact inline_of_kind formed (.inr (.inr (.inl dot)))
  · exact inline_of_kind formed (.inr (.inr (.inr colon)))

/-- A phrase has a sign in it, ends in `:>` and stays inline up to there. -/
theorem Phrase.text {name path : List Char} {used : List Token} (phrase : Phrase name path used)
    (formed : ∀ token ∈ used, token.WellFormed) :
    ∃ inner, Token.flatten used = inner ++ [':', '>'] ∧ Inline inner ∧ '=' ∈ inner := by
  cases phrase with
  | @mk gap₁ gap₂ gap₃ gap₄ parts sign close blank₁ blank₂ blank₃ blank₄ _ path =>
    simp only [List.forall_mem_append, List.forall_mem_cons] at formed
    obtain ⟨formed₁, word, formed₂, equals, ⟨⟨formed₃, formedPath⟩, formed₄⟩, last, _⟩ := formed
    have gap {tokens : List Token} (formed : ∀ token ∈ tokens, token.WellFormed)
        (blank : ∀ token ∈ tokens, token.isInlineBlank = true) : Inline (Token.flatten tokens) :=
      inline_flatten fun token member => inline_of_isInlineBlank (formed token member) (blank token member)
    have inlinePath : Inline (Token.flatten parts) :=
      inline_flatten fun token member => inline_of_isPathPart (formedPath token member) (path token member)
    have equalsSign : '=' ∈ sign := by
      simp [show sign = ['='] from equals.text_of_sign rfl rfl]
    obtain rfl : close = [':', '>'] := last.text_of_closing rfl
    refine ⟨Token.flatten gap₁ ++ name ++ Token.flatten gap₂ ++ sign ++ Token.flatten gap₃ ++
      Token.flatten parts ++ Token.flatten gap₄, by simp, ?_, by simp [equalsSign]⟩
    simp only [inline_append]
    exact ⟨⟨⟨⟨⟨⟨gap formed₁ blank₁, inline_of_kind word (.inl rfl)⟩, gap formed₂ blank₂⟩,
      inline_of_kind equals (.inr (.inl rfl))⟩, gap formed₃ blank₃⟩, inlinePath⟩, gap formed₄ blank₄⟩

/-! ## Stretches -/

/-- A stretch of text that is a binding. -/
def Stretch (name path : String) (text : List Char) : Prop :=
  ∃ used, lex text = ⟨.opening, opening⟩ :: used ∧ Phrase name.toList path.toList used

namespace Stretch

variable {name path : String} {text : List Char}

theorem shape (stretch : Stretch name path text) :
    ∃ inner, text = opening ++ inner ++ [':', '>'] ∧ Inline inner ∧ '=' ∈ inner := by
  obtain ⟨used, tokens, phrase⟩ := stretch
  have formed : ∀ token ∈ used, token.WellFormed := fun token member =>
    wellFormed_of_mem_lex token (tokens ▸ List.mem_cons_of_mem _ member)
  obtain ⟨inner, whole, inline, sign⟩ := phrase.text formed
  refine ⟨inner, ?_, inline, sign⟩
  rw [← flatten_lex text, tokens, Token.flatten_cons, whole, List.append_assoc]

theorem ne_nil (stretch : Stretch name path text) : text ≠ [] := by
  obtain ⟨inner, rfl, _, _⟩ := stretch.shape
  simp [opening]

theorem no_lineFeed (stretch : Stretch name path text) : '\n' ∉ text := by
  obtain ⟨inner, rfl, inline, _⟩ := stretch.shape
  simp [opening, inline.2]

end Stretch

/-! ## Pages -/

/-- A text that begins at a point, with the bindings in it and what is left without them. -/
inductive Parted : Point → List Binding → List Char → List Char → Prop
  | nil {p} : Parted p [] [] []
  | kept {p c bindings kept rest} : Parted (p.advance c) bindings kept rest →
    Parted p bindings (c :: kept) (c :: rest)
  | binding {p name path text bindings kept rest} : Stretch name path text →
    Parted (p.after text) bindings kept rest →
    Parted p (⟨name, path, ⟨p, p.after text⟩⟩ :: bindings) kept (text ++ rest)

theorem Parted.append {p : Point} {bindings : List Binding} {kept rest : List Char} (text : List Char)
    (parted : Parted (p.after text) bindings kept rest) :
    Parted p bindings (text ++ kept) (text ++ rest) := by
  induction text generalizing p with
  | nil => exact parted
  | cons c text ih => exact .kept (ih parted)

/-- The binding that a piece is, if it is one. -/
def Piece.binding? : Piece → Option Binding
  | binding b => some b
  | token _ => none

/-- What stripping leaves of a piece. -/
def Piece.kept : Piece → List Char
  | binding _ => []
  | token text => text

theorem parted_pieces (p : Point) (tokens : List Token) (lexed : lex (Token.flatten tokens) = tokens) :
    Parted p ((pieces p tokens).filterMap Piece.binding?) ((pieces p tokens).flatMap Piece.kept)
      (Token.flatten tokens) := by
  fun_induction pieces p tokens with
  | case1 => exact .nil
  | case2 p token tokens reading found stop ih =>
    split at found
    · rename_i opens
      obtain ⟨phrase, whole⟩ := read?_eq_some_iff.mp found
      have sign : token.text = opening :=
        (wellFormed_of_mem_lex token (lexed ▸ List.mem_cons_self ..)).text_of_opening opens
      have formed : ∀ other ∈ reading.used, other.WellFormed := by
        intro other member
        refine wellFormed_of_mem_lex other (lexed ▸ List.mem_cons_of_mem _ ?_)
        exact whole ▸ List.mem_append_left _ member
      obtain ⟨inner, ends, _, _⟩ := phrase.text formed
      have parts : lex (Token.flatten (token :: tokens)) = (token :: reading.used) ++ reading.rest := by
        rw [lexed, whole, List.cons_append]
      have stretch : Stretch (String.ofList reading.name) (String.ofList reading.path)
          (token.text ++ Token.flatten reading.used) := by
        refine ⟨reading.used, ?_, by simpa using phrase⟩
        have read := lex_flatten_prefix parts (by simp [ends])
        rw [Token.flatten_cons] at read
        rw [read, ← sign, ← opens]
      have more := ih (lex_flatten_suffix parts)
      rw [Token.flatten_cons, whole, Token.flatten_append, ← List.append_assoc]
      exact .binding stretch more
    · contradiction
  | case3 p token tokens none ih =>
    have parts : lex (Token.flatten (token :: tokens)) = [token] ++ tokens := lexed
    exact (ih (lex_flatten_suffix parts)).append token.text

theorem parted_page (page : List Char) : Parted .start (find page) (strip page) page := by
  have parted := parted_pieces .start (lex page) (by rw [flatten_lex])
  rw [flatten_lex] at parted
  exact parted

/-- Each binding of a text is a stretch of it. -/
theorem Parted.mem {p : Point} {bindings : List Binding} {kept text : List Char} {b : Binding}
    (parted : Parted p bindings kept text) (member : b ∈ bindings) :
    ∃ before stretch behind, text = before ++ stretch ++ behind ∧ Stretch b.name b.path stretch ∧
      b.span = ⟨p.after before, p.after (before ++ stretch)⟩ := by
  induction parted with
  | nil => contradiction
  | @kept p c bindings kept rest _ ih =>
    obtain ⟨before, stretch, behind, rfl, is, span⟩ := ih member
    exact ⟨c :: before, stretch, behind, rfl, is, span⟩
  | @binding p name path text bindings kept rest is _ ih =>
    rcases List.mem_cons.mp member with rfl | member
    · exact ⟨[], text, rest, rfl, is, rfl⟩
    · obtain ⟨before, stretch, behind, rfl, is', span⟩ := ih member
      refine ⟨text ++ before, stretch, behind, by simp, is', ?_⟩
      rw [span, ← Point.after_append, ← Point.after_append, List.append_assoc]

/-- Every binding takes a character at least. -/
theorem Parted.length_add_le {p : Point} {bindings : List Binding} {kept text : List Char}
    (parted : Parted p bindings kept text) :
    kept.length + bindings.length ≤ text.length := by
  induction parted with
  | nil => exact Nat.le_refl _
  | kept _ ih =>
    simp only [List.length_cons]
    omega
  | binding is _ ih =>
    have some := List.length_pos_iff.mpr is.ne_nil
    simp only [List.length_cons, List.length_append]
    omega

theorem Parted.eq_of_no_binding {p : Point} {kept text : List Char} (parted : Parted p [] kept text) :
    kept = text := by
  generalize none : ([] : List Binding) = bindings at parted
  induction parted with
  | nil => rfl
  | kept _ ih => rw [ih none]
  | binding _ _ _ => contradiction

/-- A page is left as it is if and only if there are no bindings in it. -/
theorem strip_eq_self_iff {page : List Char} : strip page = page ↔ find page = [] := by
  have parted := parted_page page
  constructor
  · intro same
    have taken := parted.length_add_le
    rw [same] at taken
    exact List.eq_nil_of_length_eq_zero (by omega)
  · intro none
    rw [none] at parted
    exact parted.eq_of_no_binding

theorem find_eq_nil {page : List Char} (plain : '=' ∉ page) : find page = [] := by
  by_contra found
  obtain ⟨b, member⟩ := List.exists_mem_of_ne_nil _ found
  obtain ⟨before, stretch, behind, rfl, is, _⟩ := (parted_page page).mem member
  obtain ⟨inner, rfl, _, sign⟩ := is.shape
  simp [sign] at plain

theorem strip_eq_self {page : List Char} (plain : '=' ∉ page) : strip page = page :=
  strip_eq_self_iff.mpr (find_eq_nil plain)

/-! ## Nothing is missed -/

/-- A binding is read up to its end without another `<:`. -/
theorem Phrase.kind_ne_opening {name path : List Char} {used : List Token}
    (phrase : Phrase name path used) : ∀ token ∈ used, token.kind ≠ .opening := by
  have gap {token : Token} (blank : token.isInlineBlank = true) : token.kind ≠ .opening := by
    intro opens
    simp [Token.isInlineBlank, opens] at blank
  have part {token : Token} (path : isPathPart token = true) : token.kind ≠ .opening := by
    intro opens
    simp [isPathPart, opens] at path
  cases phrase with
  | mk blank₁ blank₂ blank₃ blank₄ _ path =>
    simp only [List.forall_mem_append, List.forall_mem_cons]
    exact ⟨fun token member => gap (blank₁ token member), by simp,
      fun token member => gap (blank₂ token member), by simp,
      ⟨⟨fun token member => gap (blank₃ token member), fun token member => part (path token member)⟩,
        fun token member => gap (blank₄ token member)⟩, by simp, by simp⟩

/-- The search comes to every `<:` that a binding can be read behind. -/
theorem mem_pieces_of_read? (p : Point) (tokens : List Token) {before behind : List Token}
    {sign : List Char} {reading : Reading} (whole : tokens = before ++ ⟨.opening, sign⟩ :: behind)
    (h : read? behind = some reading) :
    ⟨String.ofList reading.name, String.ofList reading.path, ⟨p.after (Token.flatten before),
      p.after (Token.flatten before ++ sign ++ Token.flatten reading.used)⟩⟩ ∈
        (pieces p tokens).filterMap Piece.binding? := by
  fun_induction pieces p tokens generalizing before with
  | case1 => simp at whole
  | case2 p token tokens reading' found stop =>
    rename_i ih
    split at found
    · obtain ⟨phrase, taken⟩ := read?_eq_some_iff.mp found
      cases before with
      | nil =>
        obtain ⟨rfl, rfl⟩ := List.cons.inj whole
        cases h.symm.trans found
        exact List.mem_cons_self ..
      | cons first before =>
        obtain ⟨rfl, more⟩ := List.cons.inj whole
        rcases List.append_eq_append_iff.mp (taken.symm.trans more) with
          ⟨more, rfl, rest⟩ | ⟨more, used, rest⟩
        · have later := ih rest
          simp only [Token.flatten_cons, Token.flatten_append, Point.after_append, stop] at later ⊢
          exact List.mem_cons_of_mem _ later
        · cases more with
          | nil =>
            have later := @ih [] rest.symm
            rw [List.append_nil] at used
            subst used
            simp only [Token.flatten_nil, Token.flatten_cons, Point.after_append, stop] at later ⊢
            exact List.mem_cons_of_mem _ later
          | cons next more =>
            -- the `<:` would lie within the binding in front of it
            obtain ⟨rfl, _⟩ := List.cons.inj rest
            have inside : ⟨.opening, sign⟩ ∈ reading'.used := by simp [used]
            exact absurd rfl (phrase.kind_ne_opening _ inside)
    · contradiction
  | case3 p token tokens none ih =>
    cases before with
    | nil =>
      obtain ⟨rfl, rfl⟩ := List.cons.inj whole
      simp [h] at none
    | cons first before =>
      obtain ⟨rfl, rest⟩ := List.cons.inj whole
      have later := ih rest
      simp only [Token.flatten_cons, Point.after_append] at later ⊢
      exact later

/-- Every stretch of a page that is a binding is found, where it stands. -/
theorem mem_find {before stretch behind : List Char} {name path : String}
    (is : Stretch name path stretch) :
    ⟨name, path, ⟨Point.start.after before, Point.start.after (before ++ stretch)⟩⟩ ∈
      find (before ++ stretch ++ behind) := by
  obtain ⟨inner, shape, _, _⟩ := is.shape
  obtain ⟨used, tokens, phrase⟩ := is
  have split : lex (before ++ stretch ++ behind) = lex before ++ lex stretch ++ lex behind :=
    lex_between before behind (by simp [shape, opening]) (by simp [shape])
  have whole : lex (before ++ stretch ++ behind) =
      lex before ++ ⟨.opening, opening⟩ :: (used ++ lex behind) := by
    rw [split, tokens]
    simp
  have text : opening ++ Token.flatten used = stretch := by
    rw [← flatten_lex stretch, tokens, Token.flatten_cons]
  have found := mem_pieces_of_read? .start _ whole (read?_of_phrase phrase _)
  simp only [flatten_lex, List.append_assoc, text, String.ofList_toList] at found
  rwa [List.append_assoc]

end Binding

end Fieldmark
