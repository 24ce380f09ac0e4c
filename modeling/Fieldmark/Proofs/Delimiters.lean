import Fieldmark.Proofs.LongestMatch
import Fieldmark.Proofs.Offsets
import Mathlib.Data.List.Chain

/-!
# Where delimiters stand

The extents of the tokens of a text tile it, and each opening, closing or stray `<` that stands in the
text is one of them (`Delimited`). An extent and another one that it overlaps are the same
(`Tile.eq_of_overlap`), so that a `>` behind an opening never closes. Joined texts keep their extents
in front of a `<` and behind a closing (`lex_delimits`).
-/

namespace Fieldmark

namespace Bytewise

/-- Extents from one offset to another, none of them empty and each beginning where the last one ends. -/
def Tile : Nat → Nat → List Extent → Prop
  | lo, hi, [] => lo = hi
  | lo, hi, e :: rest => e.lo = lo ∧ lo < e.hi ∧ Tile e.hi hi rest

/-- The same extent further on. -/
def Extent.shift (e : Extent) (bytes : Nat) : Extent := ⟨e.kind, e.lo + bytes, e.hi + bytes⟩

/-- Extents cover a text from end to end, as much of it as there is of a word or of blanks at a place,
and have all delimiters of the text among them. -/
structure Delimited (text : List Char) (extents : List Extent) : Prop where
  tile : Tile 0 (byteCount text) extents
  once : extents.Nodup
  separate : extents.IsChain fun a b =>
    ¬ (a.kind = .word ∧ b.kind = .word) ∧ ¬ (a.kind = .blank ∧ b.kind = .blank)
  opening {lo hi : Nat} : ⟨.opening, lo, hi⟩ ∈ extents ↔ slice? text lo hi = some Fieldmark.opening
  closing {lo hi : Nat} : ⟨.closing, lo, hi⟩ ∈ extents ↔ slice? text lo hi = some [':', '>'] ∧
    ∀ before, before + 1 = lo → slice? text before (lo + 1) ≠ some Fieldmark.opening
  stray {lo hi : Nat} : ⟨.stray, lo, hi⟩ ∈ extents ↔
    slice? text lo hi = some ['<'] ∧ slice? text lo (hi + 1) ≠ some Fieldmark.opening

/-! ## Extents -/

section

variable {lo hi : Nat} {e f : Extent} {list : List Extent}

theorem Tile.within (tile : Tile lo hi list) (member : e ∈ list) : lo ≤ e.lo ∧ e.lo < e.hi := by
  induction list generalizing lo with
  | nil => contradiction
  | cons first rest ih =>
    obtain ⟨start, nonempty, behind⟩ := tile
    rcases List.mem_cons.mp member with rfl | later
    · exact ⟨Nat.le_of_eq start.symm, start ▸ nonempty⟩
    · obtain ⟨order, nonempty'⟩ := ih behind later
      exact ⟨Nat.le_trans (Nat.le_of_lt nonempty) order, nonempty'⟩

theorem Tile.pairwise (tile : Tile lo hi list) :
    list.Pairwise fun a b => a.lo < a.hi ∧ a.hi ≤ b.lo := by
  induction list generalizing lo with
  | nil => exact .nil
  | cons first rest ih =>
    obtain ⟨start, nonempty, behind⟩ := tile
    exact .cons (fun b later => ⟨start ▸ nonempty, (behind.within later).1⟩) (ih behind)

theorem Tile.nodup (tile : Tile lo hi list) : list.Nodup := by
  refine tile.pairwise.imp fun {a b} apart same => ?_
  rw [same] at apart
  omega

theorem Tile.eq_of_overlap (tile : Tile lo hi list) (one : e ∈ list) (other : f ∈ list)
    (left : e.lo < f.hi) (right : f.lo < e.hi) : e = f := by
  induction list generalizing lo with
  | nil => contradiction
  | cons first rest ih =>
    have apart := (List.pairwise_cons.mp tile.pairwise).1
    rcases List.mem_cons.mp one with rfl | one' <;> rcases List.mem_cons.mp other with rfl | other'
    · rfl
    · exact absurd (apart f other').2 (by omega)
    · exact absurd (apart e one').2 (by omega)
    · exact ih tile.2.2 one' other'

theorem tile_extents (offset : Nat) {tokens : List Token} (nonempty : ∀ token ∈ tokens, token.text ≠ []) :
    Tile offset (offset + byteCount (Token.flatten tokens)) (extents offset tokens) := by
  induction tokens generalizing offset with
  | nil => rfl
  | cons token rest ih =>
    obtain ⟨first, later⟩ := List.forall_mem_cons.mp nonempty
    refine ⟨rfl, Nat.lt_add_of_pos_right (byteCount_pos first), ?_⟩
    rw [Token.flatten_cons, byteCount_append, ← Nat.add_assoc]
    exact ih _ later

theorem extents_append (offset : Nat) (a b : List Token) :
    extents offset (a ++ b) = extents offset a ++ extents (offset + byteCount (Token.flatten a)) b := by
  induction a generalizing offset with
  | nil => rfl
  | cons token a ih =>
    rw [List.cons_append, extents, extents, ih, Token.flatten_cons, byteCount_append, Nat.add_assoc,
      List.cons_append]

theorem extents_add (offset bytes : Nat) (tokens : List Token) :
    extents (offset + bytes) tokens = (extents offset tokens).map (·.shift bytes) := by
  induction tokens generalizing offset with
  | nil => rfl
  | cons token rest ih =>
    rw [extents, extents, List.map_cons, ← ih, Extent.shift, Nat.add_right_comm]

theorem map_kind_extents (offset : Nat) (tokens : List Token) :
    (extents offset tokens).map Extent.kind = tokens.map Token.kind := by
  induction tokens generalizing offset with
  | nil => rfl
  | cons token rest ih => rw [extents, List.map_cons, List.map_cons, ih]

theorem mem_extents_iff {offset : Nat} {tokens : List Token} :
    e ∈ extents offset tokens ↔ ∃ done token rest, tokens = done ++ token :: rest ∧
      e = ⟨token.kind, offset + byteCount (Token.flatten done),
        offset + byteCount (Token.flatten done) + byteCount token.text⟩ := by
  induction tokens generalizing offset with
  | nil => simp [extents]
  | cons first tokens ih =>
    rw [extents, List.mem_cons, ih]
    constructor
    · rintro (rfl | ⟨done, token, rest, rfl, rfl⟩)
      · exact ⟨[], first, tokens, rfl, rfl⟩
      · exact ⟨first :: done, token, rest, rfl, by simp [Nat.add_assoc]⟩
    · rintro ⟨done, token, rest, whole, rfl⟩
      cases done with
      | nil =>
        obtain ⟨rfl, rfl⟩ := List.cons.inj whole
        exact .inl rfl
      | cons _ done =>
        obtain ⟨rfl, rfl⟩ := List.cons.inj whole
        exact .inr ⟨done, token, rest, rfl, by simp [Nat.add_assoc]⟩

end

/-! ## Extents in a text -/

section

variable {kind : Token.Kind} {text before piece behind : List Char} {lo hi : Nat}

theorem tile_lex (text : List Char) : Tile 0 (byteCount text) (extents 0 (lex text)) := by
  have tile := tile_extents 0 fun token member =>
    (@wellFormed_of_mem_lex text token member).text_ne_nil
  rwa [flatten_lex, Nat.zero_add] at tile

/-- An extent cuts the text of a token out of the text. -/
theorem exists_of_mem_extents (member : ⟨kind, lo, hi⟩ ∈ extents 0 (lex text)) :
    ∃ piece, slice? text lo hi = some piece ∧ Token.WellFormed ⟨kind, piece⟩ := by
  obtain ⟨done, token, rest, lexed, here⟩ := mem_extents_iff.mp member
  obtain ⟨rfl, rfl, rfl⟩ := Extent.mk.inj here
  have single : lex text = done ++ [token] ++ rest := by rw [lexed, List.append_cons]
  have cut := slice?_flatten single
  rw [Token.flatten_cons, Token.flatten_nil, List.append_nil] at cut
  have formed : token.WellFormed := @wellFormed_of_mem_lex text token (by simp [lexed])
  exact ⟨token.text, by simpa using cut, formed⟩

/-- A piece that the rest of a text begins with as a token is one of the whole text if nothing reaches
into it from the front. -/
theorem mem_extents_of_lex (severed : Severed before (piece ++ behind))
    (first : lex (piece ++ behind) = ⟨kind, piece⟩ :: lex behind) :
    ⟨kind, byteCount before, byteCount (before ++ piece)⟩ ∈ extents 0 (lex (before ++ piece ++ behind)) := by
  refine mem_extents_iff.mpr ⟨lex before, ⟨kind, piece⟩, lex behind, ?_, ?_⟩
  · rw [List.append_assoc, lex_append severed, first]
  · rw [flatten_lex, byteCount_append, Nat.zero_add]

theorem opening_mem_extents_iff :
    ⟨.opening, lo, hi⟩ ∈ extents 0 (lex text) ↔ slice? text lo hi = some opening := by
  constructor
  · intro member
    obtain ⟨piece, cut, formed⟩ := exists_of_mem_extents member
    obtain rfl : piece = opening := formed.text_of_opening rfl
    exact cut
  · intro cut
    obtain ⟨before, behind, rfl, rfl, rfl⟩ := slice?_eq_some_iff.mp cut
    refine mem_extents_of_lex (severed_before_angle before (':' :: behind)) ?_
    rw [show opening ++ behind = '<' :: ':' :: behind from rfl, lex]
    rfl

/-- What overlaps an opening is no other token. -/
theorem not_opening_of_overlap {start stop : Nat} (other : kind ≠ .opening)
    (member : ⟨kind, lo, hi⟩ ∈ extents 0 (lex text)) (left : start < hi) (right : lo < stop) :
    slice? text start stop ≠ some opening := by
  intro cut
  have same := (tile_lex text).eq_of_overlap member (opening_mem_extents_iff.mpr cut) right left
  exact other (congrArg Extent.kind same)

theorem slice?_opening (before behind : List Char) :
    slice? (before ++ '<' :: ':' :: behind) (byteCount before) (byteCount before + 2) = some opening := by
  have whole : before ++ '<' :: ':' :: behind = before ++ opening ++ behind := by simp [opening]
  rw [whole]
  exact slice?_append before opening behind

theorem byteCount_angle (before : List Char) : byteCount (before ++ ['<']) = byteCount before + 1 :=
  byteCount_append before ['<']

theorem closing_mem_extents_iff :
    ⟨.closing, lo, hi⟩ ∈ extents 0 (lex text) ↔ slice? text lo hi = some [':', '>'] ∧
      ∀ before, before + 1 = lo → slice? text before (lo + 1) ≠ some opening := by
  constructor
  · intro member
    obtain ⟨piece, cut, formed⟩ := exists_of_mem_extents member
    obtain rfl : piece = [':', '>'] := formed.text_of_closing rfl
    have nonempty : lo < hi := ((tile_lex text).within member).2
    exact ⟨cut, fun before next =>
      not_opening_of_overlap (by simp) member (by omega) (Nat.lt_succ_self lo)⟩
  · rintro ⟨cut, free⟩
    obtain ⟨before, behind, rfl, rfl, rfl⟩ := slice?_eq_some_iff.mp cut
    -- nothing but a `<` in front of the `:` reaches into it, and that would be an opening
    refine mem_extents_of_lex (severed_before_sign ('>' :: behind) rfl (fun _ last => ?_) (by simp))
      (lex_closing behind)
    obtain ⟨front, rfl⟩ := List.getLast?_eq_some_iff.mp last
    refine free (byteCount front) (byteCount_angle front).symm ?_
    rw [byteCount_angle]
    simpa using slice?_opening front ('>' :: behind)

theorem stray_mem_extents_iff :
    ⟨.stray, lo, hi⟩ ∈ extents 0 (lex text) ↔
      slice? text lo hi = some ['<'] ∧ slice? text lo (hi + 1) ≠ some opening := by
  constructor
  · intro member
    obtain ⟨piece, cut, formed⟩ := exists_of_mem_extents member
    obtain rfl : piece = ['<'] := formed.text_of_stray rfl
    have nonempty : lo < hi := ((tile_lex text).within member).2
    exact ⟨cut, not_opening_of_overlap (by simp) member nonempty (by omega)⟩
  · rintro ⟨cut, free⟩
    obtain ⟨before, behind, rfl, rfl, rfl⟩ := slice?_eq_some_iff.mp cut
    refine mem_extents_of_lex (severed_before_angle before behind)
      (lex_cons_of_severed (severed_sign rfl (fun _ head => ?_) (by simp)))
    obtain ⟨rest, rfl⟩ := List.head?_eq_some_iff.mp head
    rw [byteCount_angle] at free
    exact free (by simpa using slice?_opening before rest)

theorem separate_lex {tokens : List Token} (lexed : lex text = tokens) :
    tokens.IsChain fun a b => ¬ (a.kind = b.kind ∧ a.kind.joins = true) := by
  induction tokens generalizing text with
  | nil => exact .nil
  | cons first rest ih =>
    cases rest with
    | nil => exact .singleton _
    | cons next more =>
      exact .cons_cons (Token.not_joined_of_lex_cons lexed) (ih (lex_flatten_of_lex_cons lexed))

theorem delimited_lex (text : List Char) : Delimited text (extents 0 (lex text)) where
  tile := tile_lex text
  once := (tile_lex text).nodup
  separate := by
    have kinds : ((lex text).map Token.kind).IsChain fun a b => ¬ (a = b ∧ a.joins = true) :=
      (List.isChain_map Token.kind).mpr (separate_lex rfl)
    rw [← map_kind_extents 0, List.isChain_map] at kinds
    refine kinds.imp fun a b apart => ⟨?_, ?_⟩
    · rintro ⟨word, word'⟩
      exact apart ⟨word.trans word'.symm, by rw [word]; rfl⟩
    · rintro ⟨blank, blank'⟩
      exact apart ⟨blank.trans blank'.symm, by rw [blank]; rfl⟩
  opening := opening_mem_extents_iff
  closing := closing_mem_extents_iff
  stray := stray_mem_extents_iff

end

/-! ## Extents of joined texts -/

theorem severed_behind_closing {a : List Char} (b : List Char)
    (closed : (lex a).getLast?.map Token.kind = some .closing) : Severed a b := by
  obtain ⟨last, found, kind⟩ := Option.map_eq_some_iff.mp closed
  obtain ⟨front, lexed⟩ := List.getLast?_eq_some_iff.mp found
  have formed : last.WellFormed := wellFormed_of_mem_lex last (by rw [lexed]; simp)
  have whole : a = Token.flatten front ++ [':'] ++ ['>'] := by
    rw [← flatten_lex a, lexed, Token.flatten_append]
    simp [formed.text_of_closing kind]
  rw [whole]
  exact severed_behind_angle _ b

theorem extents_lex_append {a b : List Char} (severed : Severed a b) :
    extents 0 (lex (a ++ b)) = extents 0 (lex a) ++ (extents 0 (lex b)).map (·.shift (byteCount a)) := by
  rw [lex_append severed, extents_append, flatten_lex, extents_add]

end Bytewise

open Bytewise

/-- The extents of the tokens of a text, which the rule of the longest match makes, tile it and have
all its delimiters among them; in front of a `<` and behind a closing they are those of the parts. -/
theorem lex_delimits :
    (∀ text tokens, Token.Munched text tokens ↔ lex text = tokens) ∧
      (∀ text, Delimited text (extents 0 (lex text))) ∧
      ∀ a b, b.head? = some '<' ∨ (lex a).getLast?.map Token.kind = some .closing →
        extents 0 (lex (a ++ b)) =
          extents 0 (lex a) ++ (extents 0 (lex b)).map (·.shift (byteCount a)) := by
  refine ⟨fun _ _ => Token.munched_iff, delimited_lex, fun a b seam => extents_lex_append ?_⟩
  rcases seam with opens | closed
  · obtain ⟨rest, rfl⟩ := List.head?_eq_some_iff.mp opens
    exact severed_before_angle a rest
  · exact severed_behind_closing b closed

/-- Behind a closing a `:` and a `>` close once more, though the closing ends in a `>` too. -/
theorem lex_delimits_closed_twice :
    (lex ['<', ':', 'é', ':', '>']).getLast?.map Token.kind = some .closing ∧
      extents 0 (lex (['<', ':', 'é', ':', '>'] ++ [':', '>'])) =
        [⟨.opening, 0, 2⟩, ⟨.word, 2, 4⟩, ⟨.closing, 4, 6⟩] ++ [⟨.closing, 6, 8⟩] := by
  have closed : (lex ['<', ':', 'é', ':', '>']).getLast?.map Token.kind = some .closing := rfl
  exact ⟨closed, lex_delimits.2.2 _ _ (.inr closed)⟩

/-- The `>` right behind an opening closes nothing. -/
example : extents 0 (lex ['<', '<', ':', '>', ':']) =
    [⟨.stray, 0, 1⟩, ⟨.opening, 1, 3⟩, ⟨.angle, 3, 4⟩, ⟨.colon, 4, 5⟩] := rfl

end Fieldmark
