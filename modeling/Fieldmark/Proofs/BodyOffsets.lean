import Fieldmark.Proofs.Body
import Fieldmark.Proofs.Offsets
import Fieldmark.Proofs.Plain

/-!
# Loop bodies by offsets

The reader of a loop body counts the tokens it has passed and keeps the offset from which text was not
cut out yet. Every body has an answer from it, wherever in a page it begins, and the answer is the same
as that of the reader that takes tokens off a list (`parseBody_eq`).
-/

namespace Fieldmark

namespace Bytewise

open LoopBody

/-- The number of the next token and the place where it stands. -/
structure Walker where
  index : Nat
  place : Point

namespace Tokens

variable (t : Tokens)

def advance (w : Walker) : Option Walker := do
  let text ← t.text? w.index
  return ⟨w.index + 1, w.place.after text⟩

def skipBlanks (w : Walker) : Option Walker :=
  loop (fun w => some (t.kind? w.index = some .blank)) t.advance t.rounds w

/-- The word that must stand here, and the walker behind it. -/
def word (w : Walker) (fault : Fault) : Option (Except Problem (String × Walker)) :=
  if t.kind? w.index ≠ some .word then some (.error (Scan.problemAt w.place fault))
  else do
    let text ← t.text? w.index
    return .ok (String.ofList text, ← t.advance w)

/-- The fields of a tag behind those already read, and the walker behind the tag. -/
def readFields (reference : String) : Nat → List String → Walker →
    Option (Except Problem (List String × Walker))
  | 0, _, _ => none
  | rounds + 1, fields, w => do
    let here ← t.skipBlanks w
    if t.kind? here.index = some .dot then
      match ← t.word (← t.skipBlanks (← t.advance here)) .bodyField with
      | .ok (field, after) => readFields reference rounds (fields ++ [field]) after
      | .error problem => return .error problem
    else if fields ≠ [] ∧ t.kind? here.index = some .closing then
      return .ok (fields, ← t.advance here)
    else if fields ≠ [] ∧ t.kind? here.index = some .colon then
      let behind ← t.skipBlanks (← t.advance here)
      if t.kind? behind.index = some .angle then return .ok (fields, ← t.advance behind)
      else return .error (Scan.problemAt behind.place .closeOfTag)
    else return .error (Scan.problemAt here.place (.bodyTagEnd reference))

/-- A field tag with its `<:`. -/
def readTag (w : Walker) : Option (Except Problem (BodyPart × Walker)) := do
  match ← t.word (← t.skipBlanks (← t.advance w)) .bodyReference with
  | .error problem => return .error problem
  | .ok (reference, after) =>
    if reference = loopKeyword ∧ t.kind? after.index = some .blank then
      return .error (Scan.problemAt w.place .nestedLoop)
    else
      match ← t.readFields reference t.rounds [] after with
      | .error problem => return .error problem
      | .ok (fields, after) => return .ok (.field reference fields w.place, after)

/-- The text between two offsets as a part, if there is any. -/
def textPart (start stop : Nat) : Option (List BodyPart) :=
  if start < stop then do
    let text ← slice? t.text start stop
    return [.text text]
  else some []

/-- The parts from a walker on, with the text since an offset. -/
def parts : Nat → Nat → Walker → Option (Except Problem (List BodyPart))
  | 0, _, _ => none
  | rounds + 1, start, w =>
    if t.extents.length ≤ w.index then do
      return .ok (← t.textPart start (byteCount t.text))
    else if t.kind? w.index ≠ some .opening then do
      parts rounds start (← t.advance w)
    else do
      let tag ← t.extents[w.index]?
      let before ← t.textPart start tag.lo
      match ← t.readTag w with
      | .error problem => return .error problem
      | .ok (part, after) =>
        let start := (t.extents[after.index]?).elim (byteCount t.text) Extent.lo
        return (← parts rounds start after).map fun later => before ++ part :: later

end Tokens

def parseBody (body : List Char) (place : Point) : Option (Except Problem (List BodyPart)) :=
  (Tokens.ofText body).parts (Tokens.ofText body).rounds 0 ⟨0, place⟩

/-- The walker of a text that stands where a cursor does. -/
def walker (text : List Char) (c : Cursor) : Walker :=
  ⟨(lex text).length - c.tokens.length, c.place⟩

section

variable {text : List Char} {c : Cursor} {done rest : List Token} {token : Token}
  {place : Point}

theorem walker_eq (place : Point) (lexed : lex text = done ++ rest) :
    walker text ⟨place, rest⟩ = ⟨done.length, place⟩ := by
  rw [walker, lexed, List.length_append, Nat.add_sub_cancel]

theorem kind?_walker (inside : c.tokens <:+ lex text) :
    (Tokens.ofText text).kind? (walker text c).index = c.tokens.head?.map Token.kind := by
  obtain ⟨done, lexed⟩ := inside
  rw [walker_eq c.place lexed.symm]
  exact kind?_ofText lexed.symm

theorem text?_walker (inside : c.tokens <:+ lex text) (front : c.tokens = token :: rest) :
    (Tokens.ofText text).text? (walker text c).index = some token.text := by
  obtain ⟨done, lexed⟩ := inside
  rw [walker_eq c.place lexed.symm]
  rw [front] at lexed
  exact text?_ofText lexed.symm

theorem advance_ofText (lexed : lex text = done ++ token :: rest) :
    (Tokens.ofText text).advance ⟨done.length, place⟩ =
      some ⟨(done ++ [token]).length, place.after token.text⟩ := by
  rw [Tokens.advance, text?_ofText lexed, List.length_append]
  rfl

theorem advance_walker (inside : c.tokens <:+ lex text) (front : c.tokens = token :: rest) :
    (Tokens.ofText text).advance (walker text c) = some (walker text (c.past token rest)) := by
  obtain ⟨done, lexed⟩ := inside
  have behind : lex text = (done ++ [token]) ++ rest := by rw [← lexed, front, List.append_cons]
  rw [Cursor.past, walker_eq _ behind, walker_eq c.place lexed.symm]
  rw [front] at lexed
  exact advance_ofText lexed.symm

theorem skipBlanks_walker (inside : c.tokens <:+ lex text) :
    (Tokens.ofText text).skipBlanks (walker text c) = some (walker text c.skipBlanks) := by
  obtain ⟨done, lexed⟩ := inside
  have lexed' : lex text = done ++ [] ++ c.tokens := by rw [List.append_nil, lexed]
  have enough : c.tokens.length < (Tokens.ofText text).rounds := by
    rw [rounds_ofText, ← lexed, List.length_append]
    omega
  have looped := loop_eq
    (fun mid => Walker.mk (done ++ mid).length (c.place.after (Token.flatten mid))) (·.kind == .blank)
    (fun w => some ((Tokens.ofText text).kind? w.index = some .blank)) (Tokens.ofText text).advance
    ?_ ?_ lexed' enough
  · have behind := lexed_behind lexed.symm (·.kind == .blank)
    rw [Tokens.skipBlanks, Cursor.skipBlanks, walker_eq _ behind, walker_eq c.place lexed.symm]
    simpa using looped
  · intro mid rest lexed
    rw [kind?_ofText lexed]
    cases rest with
    | nil => rfl
    | cons token rest => simp [beq_eq_decide]
  · intro mid token rest lexed
    rw [advance_ofText lexed, Token.flatten_append, Point.after_append, List.append_assoc]
    simp

theorem word_walker (inside : c.tokens <:+ lex text) (fault : Fault) :
    (Tokens.ofText text).word (walker text c) fault =
      some ((c.word fault).map fun (word, after) => (word, walker text after)) := by
  rw [Tokens.word, kind?_walker inside]
  rcases front : c.tokens with _ | ⟨⟨kind, word⟩, rest⟩
  · rw [Cursor.word, front]
    rfl
  by_cases other : kind ≠ .word
  · rw [Cursor.word, front]
    cases kind <;> first | exact absurd rfl other | rfl
  obtain rfl := not_not.mp other
  rw [text?_walker inside front, advance_walker inside front, Cursor.word, front]
  rfl

theorem suffix_of_reaches {d : Cursor} (way : c.Reaches d) (inside : c.tokens <:+ lex text) :
    d.tokens <:+ lex text := by
  obtain ⟨used, tokens, _⟩ := way
  exact (tokens ▸ List.suffix_append used d.tokens).trans inside

variable {reference : String} {fields : List String} {rounds : Nat}

/-- How the path of a tag goes on with a token. -/
theorem Tokens.readFields_of_front (inside : c.tokens <:+ lex text)
    (front : c.skipBlanks.tokens = token :: rest) :
    (Tokens.ofText text).readFields reference (rounds + 1) fields (walker text c) =
      let behind := c.skipBlanks.past token rest
      if token.kind = .dot then
        match behind.skipBlanks.word .bodyField with
        | .ok (field, after) =>
          (Tokens.ofText text).readFields reference rounds (fields ++ [field]) (walker text after)
        | .error problem => some (.error problem)
      else if fields ≠ [] ∧ token.kind = .closing then some (.ok (fields, walker text behind))
      else if fields ≠ [] ∧ token.kind = .colon then
        match behind.skipBlanks.tokens with
        | ⟨.angle, sign⟩ :: more =>
          some (.ok (fields, walker text (behind.skipBlanks.past ⟨.angle, sign⟩ more)))
        | _ => some (.error (Scan.problemAt behind.skipBlanks.place .closeOfTag))
      else some (.error (Scan.problemAt c.skipBlanks.place (.bodyTagEnd reference))) := by
  have here := suffix_of_reaches (.skipBlanks c) inside
  have behind := suffix_of_reaches (.past front) here
  have last := suffix_of_reaches (.skipBlanks (c.skipBlanks.past token rest)) behind
  rw [Tokens.readFields, skipBlanks_walker inside]
  simp only [Option.bind_eq_bind, Option.bind_some, kind?_walker here, advance_walker here front,
    skipBlanks_walker behind, word_walker last, kind?_walker last]
  rw [front]
  simp only [List.head?_cons, Option.map_some, Option.some.injEq]
  split_ifs with dot closing colon angle
  · cases (c.skipBlanks.past token rest).skipBlanks.word .bodyField with
    | ok reading => rfl
    | error problem => rfl
  · rfl
  · obtain ⟨⟨kind, sign⟩, more, front', same⟩ : ∃ first more,
        (c.skipBlanks.past token rest).skipBlanks.tokens = first :: more ∧ first.kind = .angle := by
      obtain ⟨first, head, kind⟩ := Option.map_eq_some_iff.mp angle
      obtain ⟨more, front'⟩ := List.head?_eq_some_iff.mp head
      exact ⟨first, more, front', kind⟩
    cases same
    rw [advance_walker last front', front']
    rfl
  · split
    · rename_i sign more front'
      rw [front'] at angle
      exact absurd rfl angle
    · rfl
  · rfl

/-- A path cannot go on where no token is left. -/
theorem readFields_of_nil (inside : c.tokens <:+ lex text) (front : c.skipBlanks.tokens = []) :
    readFields reference fields c =
        .error (Scan.problemAt c.skipBlanks.place (.bodyTagEnd reference)) ∧
      (Tokens.ofText text).readFields reference (rounds + 1) fields (walker text c) =
        some (.error (Scan.problemAt c.skipBlanks.place (.bodyTagEnd reference))) := by
  constructor
  · rw [readFields]
    split
    · rfl
    · rename_i token rest front'
      rw [front] at front'
      contradiction
  · have here := suffix_of_reaches (.skipBlanks c) inside
    rw [Tokens.readFields, skipBlanks_walker inside]
    simp only [Option.bind_eq_bind, Option.bind_some, kind?_walker here, front]
    simp
    rfl

/-- A field with the dot in front of it takes tokens. -/
theorem length_field_lt {field : String} {after : Cursor} {fault : Fault}
    (front : c.skipBlanks.tokens = token :: rest)
    (found : (c.skipBlanks.past token rest).skipBlanks.word fault = .ok (field, after)) :
    after.tokens.length + 1 < c.tokens.length :=
  calc after.tokens.length + 1
      < (c.skipBlanks.past token rest).skipBlanks.tokens.length + 1 :=
        Nat.succ_lt_succ (Cursor.length_word_lt found)
    _ ≤ rest.length + 1 :=
        Nat.succ_le_succ (c.skipBlanks.past token rest).length_skipBlanks_le
    _ = c.skipBlanks.tokens.length := by rw [front, List.length_cons]
    _ ≤ c.tokens.length := c.length_skipBlanks_le

theorem readFields_walker (reference : String) (fields : List String)
    (inside : c.tokens <:+ lex text) (enough : c.tokens.length < rounds) :
    (Tokens.ofText text).readFields reference rounds fields (walker text c) =
      some ((readFields reference fields c).map fun (read, after) => (read, walker text after)) := by
  induction rounds generalizing fields c with
  | zero => omega
  | succ rounds ih =>
    rcases front : c.skipBlanks.tokens with _ | ⟨token, rest⟩
    · obtain ⟨model, counted⟩ := readFields_of_nil inside front
      rw [model, counted]
      rfl
    · rw [Tokens.readFields_of_front inside front, readFields_of_front rfl front]
      by_cases dot : token.kind = .dot
      · rw [if_pos dot, if_pos dot]
        cases found : (c.skipBlanks.past token rest).skipBlanks.word .bodyField with
        | error problem => rfl
        | ok reading =>
          obtain ⟨field, next⟩ := reading
          have way : c.Reaches next := (Cursor.Reaches.skipBlanks c).trans
            ((Cursor.Reaches.past front).trans ((Cursor.Reaches.skipBlanks _).trans (.word found)))
          have shorter := length_field_lt front found
          exact ih _ (suffix_of_reaches way inside) (by omega)
      · rw [if_neg dot, if_neg dot]
        split_ifs
        · rfl
        · rcases (c.skipBlanks.past token rest).skipBlanks.tokens with _ | ⟨⟨kind, sign⟩, more⟩
          · rfl
          · cases kind <;> rfl
        · rfl

theorem readTag_walker (inside : c.tokens <:+ lex text) (front : c.tokens = token :: rest) :
    (Tokens.ofText text).readTag (walker text c) =
      some ((readTag c.place (c.past token rest)).map fun (part, after) =>
        (part, walker text after)) := by
  have behind := suffix_of_reaches (.past front) inside
  have here := suffix_of_reaches (.skipBlanks (c.past token rest)) behind
  rw [Tokens.readTag, advance_walker inside front, readTag]
  simp only [Option.bind_eq_bind, Option.bind_some, skipBlanks_walker behind, word_walker here]
  cases found : (c.past token rest).skipBlanks.word .bodyReference with
  | error problem => rfl
  | ok reading =>
    obtain ⟨reference, after⟩ := reading
    have insideAfter := suffix_of_reaches (.word found) here
    have enough : after.tokens.length < (Tokens.ofText text).rounds := by
      rw [rounds_ofText]
      exact Nat.lt_succ_of_le insideAfter.length_le
    have read := readFields_walker reference [] insideAfter enough
    simp only [Except.map, kind?_walker insideAfter, read]
    split_ifs
    · rfl
    · cases readFields reference [] after with
      | error problem => rfl
      | ok reading => rfl

/-- Puts text in front of parts, if there is any. -/
def joinText (text : List Char) (parts : List BodyPart) : List BodyPart :=
  if text = [] then parts else pushText text parts

theorem joinText_append (a : List Char) {b : List Char} (some : b ≠ []) (parts : List BodyPart) :
    joinText (a ++ b) parts = joinText a (pushText b parts) := by
  unfold joinText
  rw [if_neg (by simp [some])]
  split_ifs with empty
  · rw [empty, List.nil_append]
  · cases parts with
    | nil => rfl
    | cons part parts =>
      cases part with
      | text content => simp [pushText]
      | field reference fields place => rfl

theorem joinText_field (text : List Char) (reference : String) (fields : List String) (place : Point)
    (parts : List BodyPart) :
    joinText text [] ++ .field reference fields place :: parts =
      joinText text (.field reference fields place :: parts) := by
  unfold joinText
  split <;> rfl

theorem textPart_ofText {mid : List Token} (lexed : lex text = done ++ mid ++ rest) :
    (Tokens.ofText text).textPart (byteCount (Token.flatten done))
      (byteCount (Token.flatten (done ++ mid))) = some (joinText (Token.flatten mid) []) := by
  rw [Tokens.textPart, Token.flatten_append, byteCount_append]
  by_cases empty : Token.flatten mid = []
  · simp [empty, joinText]
  · rw [if_pos (Nat.lt_add_of_pos_right (byteCount_pos empty)), joinText, if_neg empty,
      show (Tokens.ofText text).text = text from rfl, slice?_flatten lexed]
    rfl

/-- Where a token begins, or the text ends if there is none. -/
theorem extents_elim (lexed : lex text = done ++ rest) :
    ((Tokens.ofText text).extents[done.length]?).elim (byteCount text) Extent.lo =
      byteCount (Token.flatten done) := by
  rw [extents_ofText lexed]
  cases rest with
  | nil => rw [← flatten_lex text, lexed, List.append_nil]; rfl
  | cons token rest => rfl

/-- How the parts go on with a token. -/
theorem Tokens.parts_of_front {mid : List Token} (lexed : lex text = done ++ mid ++ token :: rest) :
    (Tokens.ofText text).parts (rounds + 1) (byteCount (Token.flatten done))
        (walker text ⟨place, token :: rest⟩) =
      if token.kind ≠ .opening then
        (Tokens.ofText text).parts rounds (byteCount (Token.flatten done))
          (walker text ⟨place.after token.text, rest⟩)
      else
        match LoopBody.readTag place ⟨place.after token.text, rest⟩ with
        | .error problem => some (.error problem)
        | .ok (part, after) =>
          ((Tokens.ofText text).parts rounds
            (((Tokens.ofText text).extents[(walker text after).index]?).elim (byteCount text) Extent.lo)
            (walker text after)).bind fun later =>
              some (later.map fun later => joinText (Token.flatten mid) [] ++ part :: later) := by
  have inside : token :: rest <:+ lex text := ⟨done ++ mid, lexed.symm⟩
  have more : (walker text ⟨place, token :: rest⟩).index < (Tokens.ofText text).extents.length := by
    rw [walker_eq _ lexed, Tokens.ofText, length_extents, lexed, List.length_append]
    simp
  have tag : (Tokens.ofText text).extents[(walker text ⟨place, token :: rest⟩).index]? = some
      ⟨token.kind, byteCount (Token.flatten (done ++ mid)),
        byteCount (Token.flatten (done ++ mid)) + byteCount token.text⟩ := by
    rw [walker_eq _ lexed, extents_ofText lexed]
    rfl
  have read := readTag_walker (c := ⟨place, token :: rest⟩) inside rfl
  rw [Tokens.parts, if_neg (Nat.not_le_of_lt more), kind?_walker (c := ⟨place, token :: rest⟩) inside,
    advance_walker (c := ⟨place, token :: rest⟩) inside rfl, tag, read]
  simp only [Option.bind_eq_bind, Option.bind_some, textPart_ofText lexed]
  simp only [List.head?_cons, Option.map_some, ne_eq, Option.some.injEq]
  by_cases opens : token.kind = .opening
  · rw [if_neg (not_not.mpr opens), if_neg (not_not.mpr opens)]
    simp only [Cursor.past]
    cases LoopBody.readTag place ⟨place.after token.text, rest⟩ with
    | error problem => rfl
    | ok reading => rfl
  · rw [if_pos opens, if_pos opens]
    rfl

theorem parts_walker (place : Point) (tokens : List Token) :
    ∀ done mid rounds, lex text = done ++ mid ++ tokens → tokens.length < rounds →
      (Tokens.ofText text).parts rounds (byteCount (Token.flatten done))
          (walker text ⟨place, tokens⟩) =
        some ((parts place tokens).map (joinText (Token.flatten mid))) := by
  fun_induction parts place tokens with
  | case1 place =>
    intro done mid rounds lexed enough
    obtain ⟨rounds, rfl⟩ := Nat.exists_eq_succ_of_ne_zero (Nat.ne_zero_of_lt enough)
    have count : (Tokens.ofText text).extents.length = (done ++ mid).length := by
      rw [Tokens.ofText, length_extents, lexed, List.append_nil]
    have bytes : byteCount text = byteCount (Token.flatten (done ++ mid)) := by
      rw [← List.append_nil (done ++ mid), ← lexed, flatten_lex]
    rw [walker_eq _ lexed, Tokens.parts, if_pos (Nat.le_of_eq count),
      show (Tokens.ofText text).text = text from rfl, bytes, textPart_ofText lexed]
    rfl
  | case2 place token tokens behind opens problem failed =>
    intro done mid rounds lexed enough
    obtain ⟨rounds, rfl⟩ := Nat.exists_eq_succ_of_ne_zero (Nat.ne_zero_of_lt enough)
    rw [Tokens.parts_of_front lexed, if_neg (not_not.mpr opens), failed]
    rfl
  | case3 place token tokens behind opens part after read ih =>
    intro done mid rounds lexed enough
    obtain ⟨rounds, rfl⟩ := Nat.exists_eq_succ_of_ne_zero (Nat.ne_zero_of_lt enough)
    obtain ⟨⟨used, whole, _⟩, reference, fields, rfl⟩ := Cursor.Reaches.readTag read
    have further : lex text = (done ++ mid ++ token :: used) ++ [] ++ after.tokens := by
      rw [lexed, show tokens = used ++ after.tokens from whole]
      simp
    have fewer : after.tokens.length < rounds := Nat.lt_of_le_of_lt (length_readTag_le read)
      (Nat.lt_of_succ_lt_succ enough)
    have later := ih _ [] rounds further fewer
    rw [List.append_nil] at further
    have start := extents_elim further
    rw [Tokens.parts_of_front lexed, if_neg (not_not.mpr opens), read]
    simp only
    rw [show walker text after = ⟨_, after.place⟩ from walker_eq _ further] at later ⊢
    rw [start, later]
    cases parts after.place after.tokens with
    | error problem => rfl
    | ok found =>
      exact congrArg (fun parts => some (Except.ok parts))
        (joinText_field (Token.flatten mid) reference fields place found)
  | case4 place token tokens behind plain ih =>
    intro done mid rounds lexed enough
    obtain ⟨rounds, rfl⟩ := Nat.exists_eq_succ_of_ne_zero (Nat.ne_zero_of_lt enough)
    have further : lex text = done ++ (mid ++ [token]) ++ tokens := by rw [lexed]; simp
    have later := ih done (mid ++ [token]) rounds further (Nat.lt_of_succ_lt_succ enough)
    have formed : token.WellFormed := wellFormed_of_mem_lex token (by rw [lexed]; simp)
    rw [Tokens.parts_of_front lexed, if_pos plain, later, Token.flatten_append, Token.flatten_cons,
      Token.flatten_nil, List.append_nil]
    cases parts behind tokens with
    | error problem => rfl
    | ok found =>
      exact congrArg (fun parts => some (Except.ok parts))
        (joinText_append (Token.flatten mid) formed.text_ne_nil found)

end

theorem parseBody_eq (body : List Char) (place : Point) :
    parseBody body place = some (parse body place) := by
  have lexed : lex body = [] ++ [] ++ lex body := rfl
  have read := parts_walker place (lex body) [] [] (Tokens.ofText body).rounds lexed
    (by rw [rounds_ofText]; exact Nat.lt_succ_self _)
  have lexed' : lex body = [] ++ lex body := rfl
  rw [walker_eq place lexed'] at read
  rw [parseBody, parse]
  refine read.trans ?_
  cases parts place (lex body) with
  | error problem => rfl
  | ok found => rfl

end Bytewise

end Fieldmark
