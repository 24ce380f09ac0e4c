import Fieldmark.Proofs.Bindings

/-!
# Reading by offsets

A reader that knows a text by its bytes and the tokens of the text by their numbers goes wrong if it
cuts inside a character, cuts from a later offset to an earlier one, asks for a token behind the last
one or never stops. Here such a reader has no answer: every cut and every look at a token is an
`Option`, and every loop has a bounded number of rounds (`loop`). Bindings are found and removed this
way with an answer for every page, and it is the same as that of reading characters and tokens one by
one (`findBindings_eq`, `stripBindings_eq`).
-/

namespace Fieldmark

theorem dropBytes?_eq_some_iff {text rest : List Char} {n : Nat} :
    dropBytes? text n = some rest ↔ ∃ before, text = before ++ rest ∧ byteCount before = n := by
  constructor
  · intro h
    fun_induction dropBytes? text n with
    | case1 text => exact ⟨[], Option.some.inj h, rfl⟩
    | case2 => contradiction
    | case3 c text n fits ih =>
      obtain ⟨before, rfl, count⟩ := ih h
      exact ⟨c :: before, rfl, by rw [byteCount_cons]; omega⟩
    | case4 => contradiction
  · rintro ⟨before, rfl, rfl⟩
    exact dropBytes?_append before rest

theorem takeBytes?_eq_some_iff {text before : List Char} {n : Nat} :
    takeBytes? text n = some before ↔ ∃ rest, text = before ++ rest ∧ byteCount before = n := by
  constructor
  · intro h
    fun_induction takeBytes? text n generalizing before with
    | case1 text =>
      cases h
      exact ⟨text, rfl, rfl⟩
    | case2 => contradiction
    | case3 c text n fits ih =>
      obtain ⟨more, taken, rfl⟩ := Option.map_eq_some_iff.mp h
      obtain ⟨rest, rfl, count⟩ := ih taken
      exact ⟨rest, rfl, by rw [byteCount_cons]; omega⟩
    | case4 => contradiction
  · rintro ⟨rest, rfl, rfl⟩
    exact takeBytes?_append before rest

/-- Bytes can be cut out of a text if they begin and end between characters of it, in this order. -/
theorem slice?_eq_some_iff {text mid : List Char} {lo hi : Nat} :
    slice? text lo hi = some mid ↔ ∃ before behind, text = before ++ mid ++ behind ∧
      lo = byteCount before ∧ hi = byteCount (before ++ mid) := by
  rw [slice?]
  constructor
  · intro h
    split at h
    · rename_i order
      obtain ⟨rest, dropped, taken⟩ := Option.bind_eq_some_iff.mp h
      obtain ⟨before, rfl, start⟩ := dropBytes?_eq_some_iff.mp dropped
      obtain ⟨behind, rfl, count⟩ := takeBytes?_eq_some_iff.mp taken
      refine ⟨before, behind, by simp, start.symm, ?_⟩
      rw [byteCount_append]
      omega
    · contradiction
  · rintro ⟨before, behind, rfl, rfl, rfl⟩
    rw [byteCount_append, if_pos (Nat.le_add_right _ _), List.append_assoc, dropBytes?_append,
      Option.bind_some, Nat.add_sub_cancel_left, takeBytes?_append]

/-- The first of the two bytes of a character. -/
example : slice? ['é'] 0 1 = none := rfl

theorem slice?_append (a b c : List Char) :
    slice? (a ++ b ++ c) (byteCount a) (byteCount a + byteCount b) = some b :=
  slice?_eq_some_iff.mpr ⟨a, c, rfl, rfl, (byteCount_append a b).symm⟩

theorem Point.offset_start_after (text : List Char) :
    (Point.start.after text).offset = byteCount text := by
  rw [Point.offset_after]
  exact Nat.zero_add _

theorem Binding.pieces_token {place : Point} {token : Token} {tokens : List Token}
    (plain : token.kind = .opening → read? tokens = none) :
    pieces place (token :: tokens) = .token token.text :: pieces (place.after token.text) tokens := by
  have none : (if token.kind = .opening then read? tokens else none) = none := by
    split
    · exact plain ‹_›
    · rfl
  rw [pieces]
  split
  · rename_i reading found
    rw [none] at found
    contradiction
  · rfl

theorem Binding.pieces_binding {place : Point} {token : Token} {tokens : List Token} {reading : Reading}
    (opens : token.kind = .opening) (found : read? tokens = some reading) :
    pieces place (token :: tokens) =
      .binding ⟨String.ofList reading.name, String.ofList reading.path,
        ⟨place, place.after (token.text ++ Token.flatten reading.used)⟩⟩ ::
          pieces (place.after (token.text ++ Token.flatten reading.used)) reading.rest := by
  have some : (if token.kind = .opening then read? tokens else none) = some reading := by
    rw [if_pos opens, found]
  rw [pieces]
  split
  · rename_i other found'
    rw [some] at found'
    cases found'
    rfl
  · rename_i found'
    rw [some] at found'
    contradiction

namespace Bytewise

/-- A difference of offsets, which cannot be negative. -/
def minus? (a b : Nat) : Option Nat := if b ≤ a then some (a - b) else none

/-- Goes on while a test holds, for less than a number of rounds. -/
def loop {σ : Type} (test : σ → Option Bool) (next : σ → Option σ) : Nat → σ → Option σ
  | 0, _ => none
  | rounds + 1, s => do
    if ← test s then loop test next rounds (← next s) else return s

/-- A token by the bytes that it takes. -/
structure Extent where
  kind : Token.Kind
  lo : Nat
  hi : Nat

/-- The extents of tokens that begin at an offset. -/
def extents (offset : Nat) : List Token → List Extent
  | [] => []
  | token :: rest =>
    ⟨token.kind, offset, offset + byteCount token.text⟩ ::
      extents (offset + byteCount token.text) rest

/-- A text and the extents of its tokens. -/
structure Tokens where
  text : List Char
  extents : List Extent

namespace Tokens

def ofText (text : List Char) : Tokens := ⟨text, Bytewise.extents 0 (lex text)⟩

def kind? (t : Tokens) (index : Nat) : Option Token.Kind := t.extents[index]?.map Extent.kind

/-- The text of a token. -/
def text? (t : Tokens) (index : Nat) : Option (List Char) := do
  let extent ← t.extents[index]?
  slice? t.text extent.lo extent.hi

/-- The text from one token up to another one, which is not part of it. -/
def textBetween? (t : Tokens) (start stop : Nat) : Option (List Char) := do
  let first ← t.extents[start]?
  let last ← t.extents[← minus? stop 1]?
  slice? t.text first.lo last.hi

/-- No loop over the tokens takes this many rounds. -/
def rounds (t : Tokens) : Nat := t.extents.length + 1

end Tokens

/-! ## Tokens by their numbers -/

theorem length_extents (offset : Nat) (tokens : List Token) :
    (extents offset tokens).length = tokens.length := by
  induction tokens generalizing offset with
  | nil => rfl
  | cons token rest ih => rw [extents, List.length_cons, List.length_cons, ih]

theorem getElem?_extents (offset : Nat) (done rest : List Token) :
    (extents offset (done ++ rest))[done.length]? = rest.head?.map fun token =>
      ⟨token.kind, offset + byteCount (Token.flatten done),
        offset + byteCount (Token.flatten done) + byteCount token.text⟩ := by
  induction done generalizing offset with
  | nil =>
    cases rest with
    | nil => rfl
    | cons token rest => rfl
  | cons first done ih =>
    rw [List.cons_append, extents, List.length_cons, List.getElem?_cons_succ, ih,
      Token.flatten_cons, byteCount_append, Nat.add_assoc]

section

variable {text : List Char} {done mid rest : List Token} {token : Token}

theorem rounds_ofText (text : List Char) : (Tokens.ofText text).rounds = (lex text).length + 1 := by
  rw [Tokens.rounds, Tokens.ofText, length_extents]

theorem extents_ofText (lexed : lex text = done ++ rest) :
    (Tokens.ofText text).extents[done.length]? = rest.head?.map fun token =>
      ⟨token.kind, byteCount (Token.flatten done),
        byteCount (Token.flatten done) + byteCount token.text⟩ := by
  rw [Tokens.ofText, lexed, getElem?_extents]
  simp only [Nat.zero_add]

theorem kind?_ofText (lexed : lex text = done ++ rest) :
    (Tokens.ofText text).kind? done.length = rest.head?.map Token.kind := by
  rw [Tokens.kind?, extents_ofText lexed, Option.map_map]
  rfl

/-- The bytes of some tokens in a row are their text. -/
theorem slice?_flatten (lexed : lex text = done ++ mid ++ rest) :
    slice? text (byteCount (Token.flatten done))
      (byteCount (Token.flatten done) + byteCount (Token.flatten mid)) =
        some (Token.flatten mid) := by
  have whole : text = Token.flatten done ++ Token.flatten mid ++ Token.flatten rest := by
    rw [← Token.flatten_append, ← Token.flatten_append, ← lexed, flatten_lex]
  rw [whole]
  exact slice?_append _ _ _

theorem text?_ofText (lexed : lex text = done ++ token :: rest) :
    (Tokens.ofText text).text? done.length = some token.text := by
  have single : lex text = done ++ [token] ++ rest := by rw [lexed, List.append_cons]
  have cut := slice?_flatten single
  rw [Token.flatten_cons, Token.flatten_nil, List.append_nil] at cut
  rw [Tokens.text?, extents_ofText lexed]
  exact cut

/-- Where tokens in a row begin and end, by the extents of the first and the last of them. -/
theorem extents_run (lexed : lex text = done ++ token :: mid ++ rest) :
    ∃ first last, (Tokens.ofText text).extents[done.length]? = some first ∧
      (Tokens.ofText text).extents[done.length + mid.length]? = some last ∧
      first.lo = byteCount (Token.flatten done) ∧
      slice? text first.lo last.hi = some (Token.flatten (token :: mid)) := by
  obtain ⟨front, final, whole⟩ : ∃ front final, token :: mid = front ++ [final] :=
    ⟨_, _, (List.dropLast_concat_getLast (List.cons_ne_nil token mid)).symm⟩
  have count : front.length = mid.length := by
    have lengths := congrArg List.length whole
    simpa using lengths.symm
  have atFirst : lex text = done ++ token :: (mid ++ rest) := by
    rw [lexed, List.append_assoc, List.cons_append]
  have atLast : lex text = (done ++ front) ++ final :: rest := by
    rw [lexed, whole]
    simp
  have last := extents_ofText atLast
  rw [List.length_append, count] at last
  refine ⟨_, _, extents_ofText atFirst, last, rfl, ?_⟩
  rw [← slice?_flatten lexed, whole]
  simp [Nat.add_assoc]

theorem textBetween?_ofText (lexed : lex text = done ++ mid ++ rest) (nonempty : mid ≠ []) :
    (Tokens.ofText text).textBetween? done.length (done ++ mid).length =
      some (Token.flatten mid) := by
  obtain ⟨token, more, rfl⟩ := List.exists_cons_of_ne_nil nonempty
  obtain ⟨first, last, start, stop, _, cut⟩ := extents_run lexed
  have final : minus? (done ++ token :: more).length 1 = some (done.length + more.length) := by
    rw [List.length_append, List.length_cons]
    exact if_pos (Nat.le_add_left 1 _)
  rw [Tokens.textBetween?, start, final]
  simp only [Option.bind_eq_bind, Option.bind_some, stop]
  exact cut

/-- The tokens of a text up to where a run of them ends, and those behind. -/
theorem lexed_behind (lexed : lex text = done ++ rest) (test : Token → Bool) :
    lex text = (done ++ rest.takeWhile test) ++ rest.dropWhile test := by
  rw [List.append_assoc, List.takeWhile_append_dropWhile, lexed]

/-- A loop that steps over tokens as long as they pass a test ends behind the last of these. -/
theorem loop_eq {σ : Type} (place : List Token → σ) (passes : Token → Bool)
    (test : σ → Option Bool) (next : σ → Option σ)
    (tests : ∀ mid rest, lex text = done ++ mid ++ rest →
      test (place mid) = some (rest.head?.any passes))
    (steps : ∀ mid token rest, lex text = done ++ mid ++ token :: rest →
      next (place mid) = some (place (mid ++ [token])))
    {rounds : Nat} (lexed : lex text = done ++ mid ++ rest) (enough : rest.length < rounds) :
    loop test next rounds (place mid) = some (place (mid ++ rest.takeWhile passes)) := by
  induction rounds generalizing mid rest with
  | zero => omega
  | succ rounds ih =>
    rw [loop, tests mid rest lexed]
    cases rest with
    | nil => simp
    | cons token rest =>
      cases pass : passes token with
      | false => simp [pass]
      | true =>
        have further : lex text = done ++ (mid ++ [token]) ++ rest := by simp [lexed]
        have later := ih further (by simpa using enough)
        simp [pass, steps mid token rest lexed, later]

/-- So does one over the numbers of tokens. -/
theorem loop_index_eq {passes : Token → Bool} {test : Nat → Option Bool}
    (tests : ∀ done rest, lex text = done ++ rest →
      test done.length = some (rest.head?.any passes)) (lexed : lex text = done ++ rest) :
    loop test (fun index => some (index + 1)) (Tokens.ofText text).rounds done.length =
      some (done ++ rest.takeWhile passes).length := by
  have lexed' : lex text = done ++ [] ++ rest := by rw [List.append_nil, lexed]
  have enough : rest.length < (Tokens.ofText text).rounds := by
    rw [rounds_ofText, lexed, List.length_append]
    omega
  have looped := loop_eq (fun mid => done.length + mid.length) passes test
    (fun index => some (index + 1)) ?_ ?_ lexed' enough
  · rw [List.length_append]
    simpa using looped
  · intro mid rest lexed
    rw [← tests _ _ lexed, List.length_append]
  · intro mid token rest _
    rw [List.length_append, List.length_singleton, Nat.add_assoc]

end

/-! ## Finding bindings -/

namespace Tokens

variable (t : Tokens)

/-- Whether a token is a blank that stays on its line. -/
def inlineBlank? (index : Nat) : Option Bool :=
  if t.kind? index = some .blank then do
    let text ← t.text? index
    return !text.contains '\n'
  else some false

/-- Whether a token can be part of a path. -/
def pathPart? (index : Nat) : Option Bool :=
  some (t.kind? index = some .word ∨ t.kind? index = some .dot ∨ t.kind? index = some .colon)

def skipInline (index : Nat) : Option Nat :=
  loop t.inlineBlank? (fun index => some (index + 1)) t.rounds index

def skipPath (index : Nat) : Option Nat :=
  loop t.pathPart? (fun index => some (index + 1)) t.rounds index

/-- Name and path of the binding that begins with an opening, and the token that closes it. -/
def readBinding (opening : Nat) : Option (Option (List Char × List Char × Nat)) := do
  let index ← t.skipInline (opening + 1)
  if t.kind? index ≠ some .word then return none
  let name ← t.text? index
  let index ← t.skipInline (index + 1)
  if t.kind? index ≠ some .equals then return none
  let start ← t.skipInline (index + 1)
  let stop ← t.skipPath start
  if stop = start then return none
  let path ← t.textBetween? start stop
  let close ← t.skipInline stop
  if t.kind? close ≠ some .closing then return none
  return some (name, path, close)

/-- The bindings from a token on. `place` is where the last one before it began, and the text since
is cut out of the page to move on from there. -/
def bindingsFrom : Nat → Nat → Point → Option (List Binding)
  | 0, _, _ => none
  | rounds + 1, index, place =>
    if t.extents.length ≤ index then some []
    else if t.kind? index ≠ some .opening then bindingsFrom rounds (index + 1) place
    else do
      match ← t.readBinding index with
      | none => bindingsFrom rounds (index + 1) place
      | some (name, path, close) =>
        let first ← t.extents[index]?
        let last ← t.extents[close]?
        let gap ← slice? t.text place.offset first.lo
        let tag ← slice? t.text first.lo last.hi
        let start := place.after gap
        let more ← bindingsFrom rounds (close + 1) start
        return ⟨String.ofList name, String.ofList path, ⟨start, start.after tag⟩⟩ :: more

end Tokens

def findBindings (page : List Char) : Option (List Binding) :=
  (Tokens.ofText page).bindingsFrom (Tokens.ofText page).rounds 0 .start

section

variable {text : List Char} {done rest : List Token} {token : Token}

theorem inlineBlank?_ofText (lexed : lex text = done ++ rest) :
    (Tokens.ofText text).inlineBlank? done.length = some (rest.head?.any Token.isInlineBlank) := by
  rw [Tokens.inlineBlank?, kind?_ofText lexed]
  cases rest with
  | nil => rfl
  | cons token rest =>
    by_cases blank : token.kind = .blank
    · simp [blank, text?_ofText lexed, Token.isInlineBlank]
    · simp [blank, Token.isInlineBlank]

theorem pathPart?_ofText (lexed : lex text = done ++ rest) :
    (Tokens.ofText text).pathPart? done.length = some (rest.head?.any Binding.isPathPart) := by
  rw [Tokens.pathPart?, kind?_ofText lexed]
  cases rest with
  | nil => rfl
  | cons token rest =>
    obtain ⟨kind, text⟩ := token
    cases kind <;> rfl

theorem skipInline_ofText (lexed : lex text = done ++ rest) :
    (Tokens.ofText text).skipInline done.length =
      some (done ++ rest.takeWhile Token.isInlineBlank).length :=
  loop_index_eq (fun _ _ => inlineBlank?_ofText) lexed

/-- Past blanks behind a token, with what the tokens are then. -/
theorem skipInline_behind (lexed : lex text = done ++ token :: rest) :
    (Tokens.ofText text).skipInline (done.length + 1) =
        some (done ++ [token] ++ rest.takeWhile Token.isInlineBlank).length ∧
      lex text = (done ++ [token] ++ rest.takeWhile Token.isInlineBlank) ++
        rest.dropWhile Token.isInlineBlank := by
  have further : lex text = (done ++ [token]) ++ rest := by rw [lexed, List.append_cons]
  have skipped := skipInline_ofText further
  rw [List.length_append, List.length_singleton] at skipped
  exact ⟨skipped, lexed_behind further Token.isInlineBlank⟩

theorem skipPath_ofText (lexed : lex text = done ++ rest) :
    (Tokens.ofText text).skipPath done.length =
      some (done ++ rest.takeWhile Binding.isPathPart).length :=
  loop_index_eq (fun _ _ => pathPart?_ofText) lexed

/-- What is read of a binding, with the number of its last token, is what is read token by token. -/
theorem readBinding_ofText (lexed : lex text = done ++ token :: rest) :
    (Tokens.ofText text).readBinding done.length = some ((Binding.read? rest).map fun reading =>
      (reading.name, reading.path, done.length + reading.used.length)) := by
  -- each part begins behind those before it; a part of another kind ends both readers at once
  obtain ⟨toName, lexed₁⟩ := skipInline_behind lexed
  rw [Tokens.readBinding, toName]
  simp only [Option.bind_eq_bind, Option.bind_some, kind?_ofText lexed₁, Binding.read?]
  generalize rest.takeWhile Token.isInlineBlank = gap₁ at lexed₁ ⊢
  generalize rest.dropWhile Token.isInlineBlank = tokens₁ at lexed₁ ⊢
  rcases tokens₁ with _ | ⟨⟨kind, name⟩, tokens₁⟩
  · rfl
  by_cases other : kind ≠ .word
  · cases kind <;> first | exact absurd rfl other | rfl
  obtain rfl := not_not.mp other
  obtain ⟨toSign, lexed₂⟩ := skipInline_behind lexed₁
  simp only [List.head?_cons, Option.map_some, ne_eq, not_true_eq_false, if_false,
    text?_ofText lexed₁, toSign, Option.bind_some, kind?_ofText lexed₂]
  generalize tokens₁.takeWhile Token.isInlineBlank = gap₂ at lexed₂ ⊢
  generalize tokens₁.dropWhile Token.isInlineBlank = tokens₂ at lexed₂ ⊢
  rcases tokens₂ with _ | ⟨⟨kind, sign⟩, tokens₂⟩
  · rfl
  by_cases other : kind ≠ .equals
  · cases kind <;> first | exact absurd rfl other | rfl
  obtain rfl := not_not.mp other
  obtain ⟨toPath, lexed₃⟩ := skipInline_behind lexed₂
  have toEnd := skipPath_ofText lexed₃
  have lexed₄ := lexed_behind lexed₃ Binding.isPathPart
  have toClose := skipInline_ofText lexed₄
  have lexed₅ := lexed_behind lexed₄ Token.isInlineBlank
  simp only [List.head?_cons, Option.map_some, not_true_eq_false, if_false, toPath, Option.bind_some,
    toEnd, toClose, kind?_ofText lexed₅]
  by_cases nothing : (tokens₂.dropWhile Token.isInlineBlank).takeWhile Binding.isPathPart = []
  · rw [nothing, List.append_nil, if_pos rfl]
    split <;> rfl
  -- only a path of one token or more has a last token to cut up to
  rw [if_neg (by simpa using nothing), textBetween?_ofText lexed₄ nothing]
  generalize ((tokens₂.dropWhile Token.isInlineBlank).dropWhile Binding.isPathPart).dropWhile
    Token.isInlineBlank = tokens₄
  rcases tokens₄ with _ | ⟨⟨kind, close⟩, tokens₄⟩
  · rfl
  by_cases other : kind ≠ .closing
  · cases kind <;> first | exact absurd rfl other | rfl
  obtain rfl := not_not.mp other
  simp [nothing]
  omega

end

section

variable {text : List Char} {rounds : Nat} {place : Point} {done earlier between rest : List Token}
  {token : Token} {reading : Binding.Reading}

theorem more_ofText (lexed : lex text = done ++ token :: rest) :
    ¬ (Tokens.ofText text).extents.length ≤ done.length := by
  rw [Tokens.ofText, length_extents, lexed, List.length_append, List.length_cons]
  omega

/-- Where no binding begins the search goes on behind the token. -/
theorem bindingsFrom_of_token (lexed : lex text = done ++ token :: rest)
    (plain : token.kind = .opening → Binding.read? rest = none) :
    (Tokens.ofText text).bindingsFrom (rounds + 1) done.length place =
      (Tokens.ofText text).bindingsFrom rounds (done ++ [token]).length place := by
  rw [Tokens.bindingsFrom, if_neg (more_ofText lexed), kind?_ofText lexed, List.head?_cons,
    Option.map_some, List.length_append, List.length_singleton]
  by_cases opens : token.kind = .opening
  · rw [if_neg (by simpa using opens), readBinding_ofText lexed, plain opens]
    rfl
  · rw [if_pos (by simpa using opens)]

/-- Where one begins, the text since the last one is cut out to move on to its place. -/
theorem bindingsFrom_of_reading (lexed : lex text = earlier ++ between ++ token :: rest)
    (opens : token.kind = .opening) (found : Binding.read? rest = some reading) :
    (Tokens.ofText text).bindingsFrom (rounds + 1) (earlier ++ between).length
        (Point.start.after (Token.flatten earlier)) =
      ((Tokens.ofText text).bindingsFrom rounds
        (earlier ++ between ++ token :: reading.used).length
        (Point.start.after (Token.flatten (earlier ++ between)))).map
          (⟨String.ofList reading.name, String.ofList reading.path,
            ⟨Point.start.after (Token.flatten (earlier ++ between)),
              (Point.start.after (Token.flatten (earlier ++ between))).after
                (token.text ++ Token.flatten reading.used)⟩⟩ :: ·) := by
  have taken : lex text = (earlier ++ between) ++ token :: reading.used ++ reading.rest := by
    rw [lexed, ← Binding.used_append_rest found]
    simp
  obtain ⟨first, last, start, stop, lo, tag⟩ := extents_run taken
  have gap : slice? text (Point.start.after (Token.flatten earlier)).offset first.lo =
      some (Token.flatten between) := by
    rw [lo, Point.offset_start_after, Token.flatten_append, byteCount_append]
    exact slice?_flatten lexed
  have place : (Point.start.after (Token.flatten earlier)).after (Token.flatten between) =
      Point.start.after (Token.flatten (earlier ++ between)) := by
    rw [Token.flatten_append, Point.after_append]
  have close : (earlier ++ between ++ token :: reading.used).length =
      (earlier ++ between).length + reading.used.length + 1 := by
    rw [List.length_append, List.length_cons, Nat.add_assoc]
  rw [Tokens.bindingsFrom, if_neg (more_ofText lexed), kind?_ofText lexed, List.head?_cons,
    Option.map_some, if_neg (by simpa using opens), readBinding_ofText lexed, found]
  simp only [Option.bind_eq_bind, Option.map_some, Option.bind_some, start, stop]
  rw [show (Tokens.ofText text).text = text from rfl, gap, tag]
  simp only [Option.bind_some, place]
  rw [close]
  exact Option.map_eq_bind.symm

/-- The bindings behind some tokens. The place is still that of the last binding, in front of the tokens
`between`, whose text is the gap that is cut out when the next one is found. -/
theorem bindingsFrom_ofText (lexed : lex text = earlier ++ between ++ rest)
    (enough : rest.length < rounds) :
    (Tokens.ofText text).bindingsFrom rounds (earlier ++ between).length
        (Point.start.after (Token.flatten earlier)) =
      some ((Binding.pieces (Point.start.after (Token.flatten (earlier ++ between))) rest).filterMap
        Binding.Piece.binding?) := by
  induction rounds generalizing earlier between rest with
  | zero => omega
  | succ rounds ih =>
    cases rest with
    | nil =>
      have all : (Tokens.ofText text).extents.length ≤ (earlier ++ between).length := by
        rw [Tokens.ofText, length_extents, lexed, List.append_nil]
      rw [Tokens.bindingsFrom, if_pos all, Binding.pieces]
      rfl
    | cons token rest =>
      by_cases plain : token.kind = .opening → Binding.read? rest = none
      · have behind : lex text = earlier ++ (between ++ [token]) ++ rest := by simp [lexed]
        rw [bindingsFrom_of_token lexed plain, Binding.pieces_token plain, List.append_assoc,
          ih behind (Nat.lt_of_succ_lt_succ enough), ← List.append_assoc,
          Token.flatten_append (earlier ++ between), Point.after_append, Token.flatten_cons,
          Token.flatten_nil, List.append_nil]
        rfl
      · obtain ⟨opens, found⟩ := Classical.not_imp.mp plain
        obtain ⟨reading, found⟩ := Option.ne_none_iff_exists'.mp found
        have behind : lex text = (earlier ++ between) ++ token :: reading.used ++ reading.rest := by
          rw [lexed, ← Binding.used_append_rest found]
          simp
        have fewer : reading.rest.length < rounds :=
          Nat.lt_of_le_of_lt (Binding.length_rest_le found) (Nat.lt_of_succ_lt_succ enough)
        have place : Point.start.after (Token.flatten (earlier ++ between ++ token :: reading.used)) =
            (Point.start.after (Token.flatten (earlier ++ between))).after
              (token.text ++ Token.flatten reading.used) := by
          rw [Token.flatten_append (earlier ++ between), Token.flatten_cons, Point.after_append]
        have more := ih behind fewer
        rw [place] at more
        rw [bindingsFrom_of_reading lexed opens found, Binding.pieces_binding opens found, more]
        rfl

end

theorem findBindings_eq (page : List Char) : findBindings page = some (Binding.find page) := by
  have lexed : lex page = [] ++ [] ++ lex page := rfl
  exact bindingsFrom_ofText lexed (by rw [rounds_ofText]; exact Nat.lt_succ_self _)

/-! ## Removing bindings -/

/-- What is left of a page behind some of its bytes, without the bindings that are still to come. -/
def keptFrom (page : List Char) (last : Nat) : List Binding → Option (List Char)
  | [] => slice? page last (byteCount page)
  | b :: bindings => do
    let text ← slice? page last b.span.start.offset
    return text ++ (← keptFrom page b.span.stop.offset bindings)

def stripBindings (page : List Char) : Option (List Char) := do
  let bindings ← findBindings page
  if bindings = [] then return page else keptFrom page 0 bindings

/-- What is left of a page where a text `pending` was passed that is not cut out yet. -/
theorem keptFrom_eq {p : Point} {bindings : List Binding} {kept rest : List Char}
    (front pending : List Char) (parted : Binding.Parted p bindings kept rest)
    (here : p = Point.start.after (front ++ pending)) :
    keptFrom (front ++ pending ++ rest) (byteCount front) bindings = some (pending ++ kept) := by
  induction parted generalizing front pending with
  | nil =>
    rw [List.append_nil, List.append_nil, keptFrom, byteCount_append]
    simpa using slice?_append front pending []
  | @kept p c bindings kept rest _ ih =>
    have more := ih front (pending ++ [c])
      (by rw [here, ← List.append_assoc, Point.after_append _ (front ++ pending)]; rfl)
    simpa using more
  | @binding p name path text bindings kept rest _ _ ih =>
    have more := ih (front ++ pending ++ text) []
      (by rw [here, ← Point.after_append, List.append_nil])
    have cut : slice? (front ++ pending ++ (text ++ rest)) (byteCount front) p.offset =
        some pending := by
      rw [here, Point.offset_start_after, byteCount_append]
      exact slice?_append front pending (text ++ rest)
    have stop : (p.after text).offset = byteCount (front ++ pending ++ text) := by
      rw [here, ← Point.after_append, Point.offset_start_after]
    rw [List.append_nil, List.append_assoc] at more
    simp only [keptFrom, cut, stop, more]
    rfl

theorem stripBindings_eq (page : List Char) : stripBindings page = some (Binding.strip page) := by
  rw [stripBindings, findBindings_eq]
  by_cases none : Binding.find page = []
  · simp [none, Binding.strip_eq_self_iff.mpr none]
  · have kept := keptFrom_eq [] [] (Binding.parted_page page) rfl
    simpa [none] using kept

end Bytewise

end Fieldmark
