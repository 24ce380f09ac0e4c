import Fieldmark.Proofs.Letters

/-!
# The longest match

Each kind of token is for some texts (`Kind.Matches`). The rule of the longest match takes off a text,
again and again, the longest beginning that is for some kind, or a single stray character where none
is (`Munch`, `Munched`). The tokens of a text are those that the rule takes, and it takes no others
(`munched_iff`).
-/

namespace Fieldmark

namespace Token

/-- The texts that a kind of token is for. A stray character is what is for no kind. -/
def Kind.Matches : Kind → List Char → Prop
  | .opening, text => text = Fieldmark.opening
  | .closing, text => text = [':', '>']
  | .equals, text => text = ['=']
  | .dot, text => text = ['.']
  | .colon, text => text = [':']
  | .angle, text => text = ['>']
  | .blank, text => text ≠ [] ∧ IsPlainBlanks text
  | .word, text => IsWord text
  | .stray, _ => False

/-- What the rule takes off the front of a text. -/
inductive Munch (text : List Char) : Token → Prop
  | longest {kind : Kind} {piece : List Char} : piece <+: text → kind.Matches piece →
    (∀ other more, more <+: text → Kind.Matches other more → more.length ≤ piece.length) →
    Munch text ⟨kind, piece⟩
  | stray {c : Char} : [c] <+: text → (∀ kind piece, piece <+: text → ¬ Kind.Matches kind piece) →
    Munch text ⟨.stray, [c]⟩

/-- What the rule makes of a whole text. -/
inductive Munched : List Char → List Token → Prop
  | nil : Munched [] []
  | cons {token : Token} {rest : List Char} {tokens : List Token} : Munch (token.text ++ rest) token →
    Munched rest tokens → Munched (token.text ++ rest) (token :: tokens)

variable {kind : Kind} {piece text : List Char} {token : Token}

/-! ## What a token can be -/

theorem Kind.Matches.wellFormed (matched : kind.Matches piece) : WellFormed ⟨kind, piece⟩ := by
  cases kind with
  | opening => exact matched ▸ .opening
  | closing => exact matched ▸ .closing
  | equals => exact matched ▸ @WellFormed.single '=' rfl
  | dot => exact matched ▸ @WellFormed.single '.' rfl
  | colon => exact matched ▸ @WellFormed.single ':' rfl
  | angle => exact matched ▸ @WellFormed.single '>' rfl
  | blank => exact .run rfl matched.1 (IsPlainBlanks.ofChar matched.2)
  | word => exact .run rfl matched.1 (IsWord.ofChar matched)
  | stray => contradiction

/-- A token other than a stray character is for its kind. -/
theorem WellFormed.matches (formed : token.WellFormed) (known : token.kind ≠ .stray) :
    token.kind.Matches token.text := by
  obtain ⟨kind, text⟩ := token
  cases kind with
  | opening => exact formed.text_of_opening rfl
  | closing => exact formed.text_of_closing rfl
  | equals => exact formed.text_of_sign (c := '=') rfl rfl
  | dot => exact formed.text_of_sign (c := '.') rfl rfl
  | colon => exact formed.text_of_sign (c := ':') rfl rfl
  | angle => exact formed.text_of_sign (c := '>') rfl rfl
  | blank =>
    exact ⟨formed.text_ne_nil, fun c member =>
      ofChar_eq_blank_iff.mp (formed.ofChar_of_mem (by simp) member)⟩
  | word =>
    exact ⟨formed.text_ne_nil, fun c member =>
      ofChar_eq_word_iff.mp (formed.ofChar_of_mem (by simp) member)⟩
  | stray => contradiction

theorem WellFormed.text_of_stray (formed : token.WellFormed) (stray : token.kind = .stray) :
    token.text = ['<'] :=
  formed.text_of_sign (c := '<') rfl stray

/-- A text that is for a kind is one token. -/
theorem Kind.Matches.lex_eq (matched : kind.Matches piece) : lex piece = [⟨kind, piece⟩] := by
  cases kind with
  | blank => exact lex_run rfl matched.1 (IsPlainBlanks.ofChar matched.2)
  | word => exact lex_run rfl matched.1 (IsWord.ofChar matched)
  | stray => contradiction
  | _ => exact matched ▸ rfl

/-! ## What the first token is -/

theorem flatten_of_lex {tokens : List Token} (lexed : lex text = tokens) : flatten tokens = text := by
  rw [← lexed, flatten_lex]

/-- A run goes on as long as there are characters of its kind. -/
theorem lex_run_append (joins : kind.joins = true) (nonempty : piece ≠ [])
    (chars : ∀ c ∈ piece, Kind.ofChar c = kind) (rest : List Char) :
    lex (piece ++ rest) = ⟨kind, piece ++ rest.takeWhile (Kind.ofChar · == kind)⟩ ::
      lex (rest.dropWhile (Kind.ofChar · == kind)) := by
  have run : ∀ c ∈ piece ++ rest.takeWhile (Kind.ofChar · == kind), Kind.ofChar c = kind := by
    intro c member
    rcases List.mem_append.mp member with inside | further
    · exact chars c inside
    · simpa using List.all_eq_true.mp List.all_takeWhile c further
  have ends : ∀ c, (rest.dropWhile (Kind.ofChar · == kind)).head? = some c → Kind.ofChar c ≠ kind := by
    intro c head
    have fails := List.head?_dropWhile_not (Kind.ofChar · == kind) rest
    simpa [head] using fails
  calc lex (piece ++ rest)
    _ = lex (piece ++ rest.takeWhile (Kind.ofChar · == kind) ++
          rest.dropWhile (Kind.ofChar · == kind)) := by
      rw [List.append_assoc, List.takeWhile_append_dropWhile]
    _ = _ := by
      rw [lex_append (severed_run joins run ends), lex_run joins (by simp [nonempty]) run]
      rfl

/-- Whatever a text begins with that is for some kind, its first token is not stray and as long. -/
theorem longest_of_lex_cons {first : Token} {tokens : List Token}
    (lexed : lex text = first :: tokens) (front : piece <+: text)
    (matched : kind.Matches piece) : first.kind ≠ .stray ∧ piece.length ≤ first.text.length := by
  obtain ⟨rest, rfl⟩ := front
  cases matched.wellFormed with
  | opening =>
    rw [show opening ++ rest = '<' :: ':' :: rest from rfl, lex] at lexed
    obtain ⟨rfl, _⟩ := List.cons.inj lexed
    exact ⟨by simp, Nat.le_refl 2⟩
  | closing =>
    rw [show [':', '>'] ++ rest = ':' :: '>' :: rest from rfl, lex_closing] at lexed
    obtain ⟨rfl, _⟩ := List.cons.inj lexed
    exact ⟨by simp, Nat.le_refl 2⟩
  | @single c sign =>
    -- the first token can be this sign or a delimiter that it begins; either is no shorter
    have formed : first.WellFormed := wellFormed_of_mem_lex first (lexed ▸ List.mem_cons_self ..)
    refine ⟨fun stray => ?_, List.length_pos_iff.mpr formed.text_ne_nil⟩
    have whole : first.text ++ flatten tokens = [c] ++ rest := flatten_of_lex lexed
    rw [formed.text_of_stray stray] at whole
    obtain ⟨rfl, _⟩ := List.cons.inj whole
    exact matched
  | run joins nonempty chars =>
    rw [lex_run_append joins nonempty chars] at lexed
    obtain ⟨rfl, _⟩ := List.cons.inj lexed
    refine ⟨?_, by simp⟩
    rintro rfl
    contradiction

theorem Kind.Matches.append {more : List Char} (matched : kind.Matches piece)
    (matched' : kind.Matches more) (joins : kind.joins = true) : kind.Matches (piece ++ more) := by
  cases kind with
  | blank => exact ⟨by simp [matched.1], List.forall_mem_append.mpr ⟨matched.2, matched'.2⟩⟩
  | word => exact ⟨by simp [matched.1], List.forall_mem_append.mpr ⟨matched.2, matched'.2⟩⟩
  | _ => contradiction

/-- Two words in a row would be one, and so would blanks. -/
theorem not_joined_of_lex_cons {first next : Token} {tokens : List Token}
    (lexed : lex text = first :: next :: tokens) :
    ¬ (first.kind = next.kind ∧ first.kind.joins = true) := by
  rintro ⟨same, joins⟩
  obtain ⟨formed, formed', _⟩ : first.WellFormed ∧ next.WellFormed ∧ ∀ token ∈ tokens, token.WellFormed := by
    simpa [lexed] using @wellFormed_of_mem_lex text
  have known : first.kind ≠ .stray := by
    intro stray
    rw [stray] at joins
    contradiction
  -- the texts of both together are a longer match than the first
  have matched := (formed.matches known).append (same ▸ formed'.matches (same ▸ known)) joins
  have front : first.text ++ next.text <+: text :=
    ⟨flatten tokens, by rw [List.append_assoc, ← flatten_of_lex lexed, flatten_cons, flatten_cons]⟩
  have longest := (longest_of_lex_cons lexed front matched).2
  have nonempty := List.length_pos_iff.mpr formed'.text_ne_nil
  rw [List.length_append] at longest
  omega

theorem Kind.Matches.unique {other : Kind} (matched : kind.Matches piece)
    (matched' : other.Matches piece) : kind = other := by
  have same := matched.lex_eq.symm.trans matched'.lex_eq
  simpa using same

/-- The rule takes one token only. -/
theorem Munch.unique {other : Token} (munch : Munch text token) (munch' : Munch text other) :
    token = other := by
  cases munch with
  | @longest kind piece front matched longest =>
    cases munch' with
    | @longest kind' piece' front' matched' longest' =>
      have same : piece = piece' := List.IsPrefix.eq_of_length
        (List.prefix_of_prefix_length_le front front' (longest' kind piece front matched))
        (Nat.le_antisymm (longest' kind piece front matched) (longest kind' piece' front' matched'))
      subst same
      rw [matched.unique matched']
    | stray _ none => exact absurd matched (none kind piece front)
  | @stray c front none =>
    cases munch' with
    | longest front' matched' _ => exact absurd matched' (none _ _ front')
    | @stray d front' _ =>
      have same : [c] = [d] := (List.prefix_of_prefix_length_le front front' (Nat.le_refl 1)).eq_of_length rfl
      rw [same]

theorem Munch.text_ne_nil (munch : Munch text token) : token.text ≠ [] := by
  cases munch with
  | longest _ matched _ => exact matched.wellFormed.text_ne_nil
  | stray _ _ => simp

theorem munch_of_lex_cons {first : Token} {tokens : List Token}
    (lexed : lex text = first :: tokens) : Munch text first := by
  have formed : first.WellFormed := wellFormed_of_mem_lex first (lexed ▸ List.mem_cons_self ..)
  have front : first.text <+: text := ⟨flatten tokens, flatten_of_lex lexed⟩
  by_cases stray : first.kind = .stray
  · have sign := formed.text_of_stray stray
    obtain ⟨kind, piece⟩ := first
    simp only at stray sign
    subst stray sign
    exact .stray front fun kind piece front matched => (longest_of_lex_cons lexed front matched).1 rfl
  · exact .longest front (formed.matches stray) fun kind piece front matched =>
      (longest_of_lex_cons lexed front matched).2

/-- The tokens of a text are those that the rule of the longest match makes of it. -/
theorem munched_iff {tokens : List Token} : Munched text tokens ↔ lex text = tokens := by
  constructor
  · intro munched
    induction munched with
    | nil => rfl
    | @cons token rest tokens munch _ ih =>
      obtain ⟨first, more, lexed⟩ : ∃ first more, lex (token.text ++ rest) = first :: more :=
        List.exists_cons_of_ne_nil (by simp [lex_eq_nil_iff, munch.text_ne_nil])
      obtain rfl := munch.unique (munch_of_lex_cons lexed)
      have whole : token.text ++ flatten more = token.text ++ rest := flatten_of_lex lexed
      rw [lexed, ← ih, ← List.append_cancel_left whole, lex_flatten_of_lex_cons lexed]
  · intro lexed
    induction tokens generalizing text with
    | nil =>
      rw [lex_eq_nil_iff.mp lexed]
      exact .nil
    | cons first tokens ih =>
      have whole : first.text ++ flatten tokens = text := flatten_of_lex lexed
      have munch := munch_of_lex_cons lexed
      rw [← whole] at munch ⊢
      exact .cons munch (ih (lex_flatten_of_lex_cons lexed))

end Token

end Fieldmark
