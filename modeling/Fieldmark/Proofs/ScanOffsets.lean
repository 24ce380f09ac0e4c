import Fieldmark.Proofs.BodyOffsets
import Fieldmark.Proofs.Stops
import Fieldmark.Substitution

/-!
# Scanning by offsets

A scanner that does not gather literal text keeps the offset where it begins and cuts it out of the page
when a tag or the end of the page is reached; at the end of a loop it cuts the body it has gathered down
to as many bytes as are left without the blanks and the `</:` at its end. Every page has an answer from
it, and the answer is that of the scanner which gathers characters (`scan_eq`). So does every page that
is filled with the readers by offsets put together (`substitute_eq`).
-/

namespace Fieldmark

namespace Bytewise

open Scan

/-! ## The end of a body -/

/-- The first bytes of a text, or all of it if there are no more. -/
def truncate? (text : List Char) (length : Nat) : Option (List Char) :=
  if byteCount text ≤ length then some text else takeBytes? text length

/-- A text without the blanks at its end. -/
def trimEnd (text : List Char) : List Char := (text.reverse.dropWhile isBlank).reverse

/-- The content of a loop body that is complete but for its last `>`. -/
def closeBody (body : List Char) : Option (Option (List Char)) :=
  if loopClose <:+ trimEnd body then do
    let length ← minus? (byteCount (trimEnd body)) (byteCount loopClose)
    return some (← truncate? body length)
  else some none

theorem trimEnd_loopClose {content blanks : List Char} (blank : IsBlanks blanks) :
    trimEnd (content ++ loopClose ++ blanks) = content ++ loopClose := by
  rw [trimEnd, List.reverse_append, List.dropWhile_append_of_pos
    fun c member => blank c (List.mem_reverse.mp member)]
  simp [loopClose, isBlank_colon]

theorem trimEnd_append_blanks (text : List Char) :
    ∃ blanks, IsBlanks blanks ∧ text = trimEnd text ++ blanks := by
  refine ⟨(text.reverse.takeWhile isBlank).reverse, ?_, ?_⟩
  · intro c member
    exact List.mem_takeWhile_imp (List.mem_reverse.mp member)
  · rw [trimEnd, ← List.reverse_append, List.takeWhile_append_dropWhile, List.reverse_reverse]

theorem closeBody_eq (body : List Char) : closeBody body = some (closedBody? body) := by
  cases found : closedBody? body with
  | some content =>
    obtain ⟨blanks, blank, rfl⟩ := closedBody?_eq_some_iff.mp found
    have length : minus? (byteCount (content ++ loopClose)) (byteCount loopClose) =
        some (byteCount content) := by
      rw [byteCount_append, minus?, if_pos (Nat.le_add_left _ _), Nat.add_sub_cancel]
    have longer : byteCount content < byteCount (content ++ loopClose ++ blanks) := by
      have close : 0 < byteCount loopClose := byteCount_pos (List.cons_ne_nil _ _)
      rw [byteCount_append, byteCount_append]
      omega
    have cut : truncate? (content ++ loopClose ++ blanks) (byteCount content) = some content := by
      rw [truncate?, if_neg (Nat.not_le_of_lt longer), List.append_assoc, takeBytes?_append]
    rw [closeBody, trimEnd_loopClose blank, if_pos (List.suffix_append _ _), length]
    simp only [Option.bind_eq_bind, Option.bind_some, cut]
    rfl
  | none =>
    obtain ⟨blanks, blank, whole⟩ := trimEnd_append_blanks body
    rw [closeBody, if_neg]
    rintro ⟨content, ends⟩
    rw [closedBody?_eq_some_iff.mpr ⟨blanks, blank, by rw [ends, ← whole]⟩] at found
    contradiction

/-! ## Runs -/

/-- The characters of a text with their offsets. -/
def indexed (offset : Nat) : List Char → List (Nat × Char)
  | [] => []
  | c :: text => (offset, c) :: indexed (offset + c.utf8Size) text

/-- The scanner in the middle of a page, with the offset where literal text begins. -/
structure Scanner where
  state : State
  place : Point
  literalStart : Nat
  tagStart : Point
  bodyStart : Point
  segments : List Segment
  warnings : List Warning

/-- The next state and what the character means. -/
def step (state : State) (c : Char) (next : Option Char) : Option (State × Action) :=
  match state with
  | .loopBody item collection body true => do
    match ← if c = '>' then closeBody body.toList else some none with
    | some content => return (.out, .completeLoop item collection (String.ofList content))
    | none => return (.loopBody item collection (body.push c) true, .consume)
  | state => some (Scan.step state c next)

/-- The literal text between two offsets as a segment, if there is any. -/
def literalPart (page : List Char) (start stop : Nat) : Option (List Segment) :=
  if start < stop then do
    let text ← slice? page start stop
    return [.literal (String.ofList text)]
  else some []

/-- Past the character behind a `<`, if there is one. -/
def skipColon (place : Point) : List (Nat × Char) → Point × List (Nat × Char)
  | [] => (place, [])
  | (_, colon) :: rest => (place.advance colon, rest)

namespace Scanner

/-- The scanner behind the last `>` of a tag. -/
def complete (s : Scanner) (state : State) (stop : Point) (content : Tag.Content) : Scanner :=
  { s with
    state := state
    place := stop
    literalStart := stop.offset
    segments := .tag ⟨content, ⟨s.tagStart, stop⟩⟩ :: s.segments }

/-- What a page comes to behind its last character. -/
def finish (page : List Char) (s : Scanner) : Option (Except Problem Scan) :=
  match s.state.unfinished? with
  | some fault => some (.error (problemAt s.tagStart fault))
  | none => do
    let last ← literalPart page s.literalStart (byteCount page)
    return .ok ⟨(last ++ s.segments).reverse, s.warnings.reverse⟩

/-- Reads a character: the scanner behind it and the characters that are left, or a problem. -/
def next (policy : NestedOpenPolicy) (page : List Char) (s : Scanner) (offset : Nat) (c : Char)
    (rest : List (Nat × Char)) : Option (Except Problem (Scanner × List (Nat × Char))) := do
  let behind := s.place.advance c
  let (state, action) ← step s.state c (rest.head?.map Prod.snd)
  match action with
  | .emit | .consume => return .ok ({ s with state := state, place := behind }, rest)
  | .openTag =>
    let literal ← literalPart page s.literalStart offset
    let (place, rest) := skipColon behind rest
    return .ok
      ({ s with
        state := state
        place := place
        tagStart := s.place
        segments := literal ++ s.segments }, rest)
  | .nestedOpen =>
    match policy with
    | .error => return .error (problemAt s.place .nestedOpen)
    | .warn =>
      let (place, rest) := skipColon behind rest
      return .ok
        ({ s with
          state := state
          place := place
          warnings := ⟨s.place.line, s.place.column⟩ :: s.warnings }, rest)
  | .beginBody => return .ok ({ s with state := state, place := behind, bodyStart := behind }, rest)
  | .completeField reference fields =>
    return .ok (s.complete state behind (.field reference fields), rest)
  | .completeLoop item collection body =>
    let bodySpan := ⟨s.bodyStart, s.bodyStart.after body.toList⟩
    return .ok (s.complete state behind (.loop item collection body bodySpan), rest)
  | .invalid fault => return .error (problemAt s.place fault)

def run (policy : NestedOpenPolicy) (page : List Char) :
    Nat → Scanner → List (Nat × Char) → Option (Except Problem Scan)
  | 0, _, _ => none
  | _ + 1, s, [] => s.finish page
  | rounds + 1, s, (offset, c) :: rest => do
    match ← s.next policy page offset c rest with
    | .error problem => return .error problem
    | .ok (s, rest) => run policy page rounds s rest

end Scanner

def scan (policy : NestedOpenPolicy) (page : List Char) : Option (Except Problem Scan) :=
  Scanner.run policy page (page.length + 1) ⟨.out, .start, 0, .start, .start, [], []⟩
    (indexed 0 page)

theorem step_eq (state : State) (c : Char) (next : Option Char) :
    step state c next = some (Scan.step state c next) := by
  unfold step
  split
  · rename_i item collection body
    rw [step_body]
    by_cases close : c = '>'
    · simp only [close, if_true, closeBody_eq, Scan.read]
      cases closedBody? body.toList with
      | none => rfl
      | some content => rfl
    · simp only [close, if_false, Scan.read]
      rfl
  · rfl

theorem head?_indexed (offset : Nat) (text : List Char) :
    (indexed offset text).head?.map Prod.snd = text.head? := by
  cases text <;> rfl

/-! ## What is gathered and what is cut out -/

/-- What a run of the scanner that gathers text comes to. -/
def ending : Progress × Option Problem → Except Problem Scan
  | (p, none) => .ok ⟨p.flushed.reverse, p.warnings.reverse⟩
  | (_, some problem) => .error problem

/-- A scanner that begins its literal text at an offset and is elsewhere as far as another one. -/
def scanner (p : Progress) (literalStart : Nat) : Scanner :=
  ⟨p.state, p.place, literalStart, p.tagStart, p.bodyStart, p.segments, p.warnings⟩

/-- Literal text is gathered outside of tags, and there it reaches from an offset to the end of what
is read. -/
def Gathered (seen : List Char) (p : Progress) (literalStart : Nat) : Prop :=
  if p.state = .out then ∃ before, seen = before ++ p.literal.toList ∧ literalStart = byteCount before
  else p.literal = ""

section

variable {policy : NestedOpenPolicy} {page seen rest : List Char} {p : Progress} {literalStart : Nat}

theorem literalPart_of_gathered (gathered : Gathered seen p literalStart) (out : p.state = .out)
    (whole : page = seen ++ rest) :
    (literalPart page literalStart (byteCount seen)).map (· ++ p.segments) = some p.flushed := by
  rw [Gathered, if_pos out] at gathered
  obtain ⟨before, rfl, rfl⟩ := gathered
  rw [Progress.flushed, literalPart, byteCount_append]
  by_cases empty : p.literal = ""
  · simp [empty]
  · have longer : 0 < byteCount p.literal.toList := byteCount_pos (by simpa using empty)
    rw [if_pos (Nat.lt_add_of_pos_right longer), whole, slice?_append, if_neg empty]
    simp

theorem out_of_unfinished? {state : State} (finished : state.unfinished? = none) : state = .out := by
  unfold State.unfinished? at finished
  split at finished
  · rfl
  · contradiction
  · contradiction

theorem finish_scanner (gathered : Gathered page p literalStart) :
    (scanner p literalStart).finish page =
      some (ending (p, p.state.unfinished?.map (problemAt p.tagStart))) := by
  unfold Scanner.finish
  cases finished : p.state.unfinished? with
  | some fault => simp [scanner, finished, ending]
  | none =>
    obtain ⟨literal, cut, flushed⟩ := Option.map_eq_some_iff.mp
      (literalPart_of_gathered gathered (out_of_unfinished? finished) (List.append_nil page).symm)
    simp [scanner, finished, ending, cut, ← flushed]

section

variable {state state' : State} {c : Char} {next : Option Char} {action : Action}

theorem ne_out_of_inHeader (inside : state.inHeader = true) : state ≠ .out := by
  rintro rfl
  contradiction

/-- Outside of tags characters are text or open a tag. -/
theorem inside_of_step (h : Scan.step state c next = (state', action)) (emits : action ≠ .emit)
    (opens : action ≠ .openTag) : state ≠ .out := by
  rintro rfl
  cases taken_of_step h with
  | emit => contradiction
  | openTag => contradiction
  | nestedOpen inside => contradiction
  | inHeader inside _ => contradiction

theorem out_of_emit (h : Scan.step state c next = (state', .emit)) : state = .out ∧ state' = .out := by
  cases taken_of_step h with
  | emit => exact ⟨rfl, rfl⟩
  | inHeader _ header => cases header

/-- A tag goes on with what belongs to it. -/
theorem ne_out_of_consume (h : Scan.step state c next = (state', .consume)) : state' ≠ .out := by
  cases taken_of_step h with
  | inHeader _ header =>
    cases header with
    | consume inside => exact ne_out_of_inHeader inside
  | inBody => exact Scan.State.noConfusion

theorem ne_out_of_beginBody (h : Scan.step state c next = (state', .beginBody)) : state' ≠ .out := by
  cases taken_of_step h with
  | inHeader _ header =>
    cases header
    exact Scan.State.noConfusion

theorem out_of_completeField {reference : String} {fields : List String}
    (h : Scan.step state c next = (state', .completeField reference fields)) : state' = .out := by
  cases taken_of_step h with
  | inHeader _ header =>
    cases header
    rfl

theorem out_of_completeLoop {item collection body : String}
    (h : Scan.step state c next = (state', .completeLoop item collection body)) : state' = .out := by
  cases taken_of_step h with
  | inHeader _ header => cases header
  | closeBody => rfl

end

theorem Gathered.literal_eq (gathered : Gathered seen p literalStart) (inside : p.state ≠ .out) :
    p.literal = "" := by
  rwa [Gathered, if_neg inside] at gathered

theorem gathered_inside (inside : p.state ≠ .out) (empty : p.literal = "") :
    Gathered seen p literalStart := by
  rwa [Gathered, if_neg inside]

theorem gathered_outside {before : List Char} (out : p.state = .out)
    (whole : seen = before ++ p.literal.toList) (start : literalStart = byteCount before) :
    Gathered seen p literalStart := by
  rw [Gathered, if_pos out]
  exact ⟨before, whole, start⟩

/-- A scanner that cuts text out of a page stands where one does that gathers it. -/
structure Along (page seen rest : List Char) (p : Progress) (literalStart : Nat) : Prop where
  whole : page = seen ++ rest
  place : p.place.offset = byteCount seen
  gathered : Gathered seen p literalStart

namespace Along

variable {c : Char} {p' : Progress}

theorem start (page : List Char) : Along page [] page .start 0 where
  whole := rfl
  place := rfl
  gathered := gathered_outside rfl (show [] = [] ++ Progress.start.literal.toList from rfl) rfl

theorem behind (along : Along page seen (c :: rest) p literalStart) :
    page = (seen ++ [c]) ++ rest ∧ (p.place.advance c).offset = byteCount (seen ++ [c]) := by
  constructor
  · rw [along.whole, List.append_cons]
  · rw [Point.offset_advance, along.place, byteCount_append]
    rfl

/-- Past a character of literal text. -/
theorem emit (along : Along page seen (c :: rest) p literalStart) (out : p.state = .out) :
    Along page (seen ++ [c]) rest (p.emit .out c) literalStart := by
  refine ⟨along.behind.1, along.behind.2, ?_⟩
  have gathered := along.gathered
  rw [Gathered, if_pos out] at gathered
  obtain ⟨before, rfl, start⟩ := gathered
  exact gathered_outside rfl (by simp [Progress.emit, Progress.move]) start

/-- Past a character of a tag that goes on. -/
theorem inside (along : Along page seen (c :: rest) p literalStart)
    (place : p'.place = p.place.advance c) (inside : p'.state ≠ .out) (empty : p'.literal = "") :
    Along page (seen ++ [c]) rest p' literalStart :=
  ⟨along.behind.1, by rw [place, along.behind.2], gathered_inside inside empty⟩

/-- Past the last character of a tag: nothing is gathered there yet. -/
theorem complete (along : Along page seen (c :: rest) p literalStart) (content : Tag.Content)
    (empty : p.literal = "") :
    Along page (seen ++ [c]) rest (p.complete .out c content) (p.place.advance c).offset where
  whole := along.behind.1
  place := along.behind.2
  gathered :=
    gathered_outside rfl (by simp [Progress.complete, Progress.move, empty]) along.behind.2

/-- Past the two characters of an opening. -/
theorem pastOpening (along : Along page seen ('<' :: ':' :: rest) p literalStart)
    (place : p'.place = p.place.after opening) (inside : p'.state ≠ .out) (empty : p'.literal = "") :
    Along page (seen ++ opening) rest p' literalStart where
  whole := by rw [along.whole]; simp [opening]
  place := by rw [place, Point.offset_after, along.place, byteCount_append]
  gathered := gathered_inside inside empty

/-- Where the scanners go from a character: both stop with one problem, or they go on along. -/
theorem next (policy : NestedOpenPolicy) (along : Along page seen (c :: rest) p literalStart) :
    (∃ q problem, Scan.run policy p (c :: rest) = (q, some problem) ∧
      (scanner p literalStart).next policy page (byteCount seen) c
        (indexed (byteCount (seen ++ [c])) rest) = some (.error problem)) ∨
    ∃ seen' rest' p' literalStart', Along page seen' rest' p' literalStart' ∧
      rest'.length ≤ rest.length ∧ Scan.run policy p (c :: rest) = Scan.run policy p' rest' ∧
      (scanner p literalStart).next policy page (byteCount seen) c
        (indexed (byteCount (seen ++ [c])) rest) =
          some (.ok (scanner p' literalStart', indexed (byteCount seen') rest')) := by
  generalize outcome : Scan.step p.state c rest.head? = result
  obtain ⟨state, action⟩ := result
  have empty := along.gathered.literal_eq
  rw [Scanner.next, head?_indexed, step_eq]
  simp only [scanner, outcome, Option.bind_eq_bind, Option.bind_some]
  cases action with
  | emit =>
    obtain ⟨out, rfl⟩ := out_of_emit outcome
    exact .inr ⟨_, _, _, _, along.emit out, Nat.le_refl _, run_emit outcome, rfl⟩
  | consume =>
    have tag := inside_of_step outcome Scan.Action.noConfusion Scan.Action.noConfusion
    have along' : Along page (seen ++ [c]) rest (p.move state c) literalStart :=
      along.inside rfl (ne_out_of_consume outcome) (empty tag)
    exact .inr ⟨_, _, _, _, along', Nat.le_refl _, run_consume outcome, rfl⟩
  | openTag =>
    obtain ⟨out, rfl, rfl, head⟩ := openTag_of_step outcome
    obtain ⟨rest, rfl⟩ := List.head?_eq_some_iff.mp head
    obtain ⟨literal, cut, flushed⟩ := Option.map_eq_some_iff.mp
      (literalPart_of_gathered along.gathered out along.whole)
    have along' : Along page (seen ++ opening) rest (p.openTag .tagOpen) literalStart :=
      along.pastOpening rfl Scan.State.noConfusion rfl
    refine .inr ⟨_, _, _, _, along', Nat.le_succ _, run_openTag out, ?_⟩
    rw [cut]
    simp [skipColon, indexed, flushed, Progress.openTag, opening, Nat.add_assoc]
  | nestedOpen =>
    obtain ⟨header, rfl, rfl, head⟩ := nestedOpen_of_step outcome
    obtain ⟨rest, rfl⟩ := List.head?_eq_some_iff.mp head
    cases policy with
    | error => exact .inl ⟨p, _, run_nestedOpen_error header, rfl⟩
    | warn =>
      have tag := ne_out_of_inHeader header
      have along' : Along page (seen ++ opening) rest (p.skipOpen p.state) literalStart :=
        along.pastOpening rfl tag (empty tag)
      refine .inr ⟨_, _, _, _, along', Nat.le_succ _, run_nestedOpen_warn header, ?_⟩
      simp [skipColon, indexed, Progress.skipOpen, opening, Nat.add_assoc]
  | beginBody =>
    have tag := inside_of_step outcome Scan.Action.noConfusion Scan.Action.noConfusion
    have along' : Along page (seen ++ [c]) rest (p.beginBody state c) literalStart :=
      along.inside rfl (ne_out_of_beginBody outcome) (empty tag)
    exact .inr ⟨_, _, _, _, along', Nat.le_refl _, run_beginBody outcome, rfl⟩
  | completeField reference fields =>
    have tag := inside_of_step outcome Scan.Action.noConfusion Scan.Action.noConfusion
    obtain rfl := out_of_completeField outcome
    have along' := along.complete (.field reference fields) (empty tag)
    exact .inr ⟨_, _, _, _, along', Nat.le_refl _, run_completeField outcome, rfl⟩
  | completeLoop item collection body =>
    have tag := inside_of_step outcome Scan.Action.noConfusion Scan.Action.noConfusion
    obtain rfl := out_of_completeLoop outcome
    have along' := along.complete (p.loop item collection body) (empty tag)
    exact .inr ⟨_, _, _, _, along', Nat.le_refl _, run_completeLoop outcome, rfl⟩
  | invalid fault => exact .inl ⟨p, _, run_invalid outcome, rfl⟩

/-- Along a whole page the scanners come to the same. -/
theorem run {rounds : Nat} (along : Along page seen rest p literalStart)
    (enough : rest.length < rounds) :
    (scanner p literalStart).run policy page rounds (indexed (byteCount seen) rest) =
      some (ending (Scan.run policy p rest)) := by
  induction rounds generalizing p seen rest literalStart with
  | zero => omega
  | succ rounds ih =>
    cases rest with
    | nil =>
      have whole := along.whole
      rw [List.append_nil] at whole
      subst whole
      rw [indexed, Scanner.run, Scan.run, finish_scanner along.gathered]
    | cons c rest =>
      have bytes : byteCount (seen ++ [c]) = byteCount seen + c.utf8Size := by simp
      rw [indexed, ← bytes, Scanner.run]
      rcases along.next policy with ⟨q, problem, ran, failed⟩ |
        ⟨_, _, _, _, along', shorter, ran, went⟩
      · rw [failed, ran]
        rfl
      · rw [went, ran]
        exact ih along' (Nat.lt_of_le_of_lt shorter (Nat.lt_of_succ_lt_succ enough))

end Along

end

theorem scan_eq (policy : NestedOpenPolicy) (page : List Char) :
    scan policy page = some (Fieldmark.scan policy page) := by
  refine ((Along.start page).run (Nat.lt_succ_self page.length)).trans ?_
  rw [Fieldmark.scan]
  rcases Scan.run policy .start page with ⟨q, _ | problem⟩
  · rfl
  · rfl

/-! ## Filling a page -/

/-- What a tag adds to the output. -/
def renderTag (tree : Tree) (tag : Tag) : Option Rendering :=
  match tag.content with
  | .field _ _ => some (tag.render tree)
  | .loop item collection body bodySpan =>
    match (tree.reference collection tag.span.start).map Value.items? with
    | .error problem => some ⟨"", [], some problem⟩
    | .ok none =>
      some ⟨"", [], some (.notACollection collection tag.span.start.line tag.span.start.column)⟩
    | .ok (some items) => do
      match ← parseBody body.toList bodySpan.start with
      | .error problem => return ⟨"", [], some problem⟩
      | .ok parts =>
        match renderItems (fun value => LoopBody.render item value tree parts) items with
        | (text, some problem) => return ⟨text, [], some problem⟩
        | (text, none) =>
          return ⟨text, [.renderedLoop collection items.length tag.span.start.line], none⟩

def renderSegments (tree : Tree) : List Segment → Option Rendering
  | [] => some ⟨"", [], none⟩
  | .literal text :: rest => do
    let more ← renderSegments tree rest
    return ⟨text ++ more.text, more.events, more.problem?⟩
  | .tag tag :: rest => do
    match ← renderTag tree tag with
    | ⟨text, events, some problem⟩ => return ⟨text, events, some problem⟩
    | ⟨text, events, none⟩ =>
      let more ← renderSegments tree rest
      return ⟨text ++ more.text, events ++ more.events, more.problem?⟩

/-- Fills a page from a tree. -/
def substitute (policy : NestedOpenPolicy) (page : List Char) (tree : Tree) :
    Option (Except Problem Substitution) := do
  match ← scan policy (← stripBindings page) with
  | .error problem => return .error problem
  | .ok scanned =>
    let filled ← renderSegments tree scanned.segments
    match filled.problem? with
    | some problem => return .error problem
    | none => return .ok ⟨filled.text, scanned.warnings⟩

theorem renderTag_eq (tree : Tree) (tag : Tag) : renderTag tree tag = some (tag.render tree) := by
  obtain ⟨content, span⟩ := tag
  cases content with
  | field reference fields => rfl
  | loop item collection body bodySpan =>
    simp only [renderTag, Tag.render, Tag.loopParts, parseBody_eq]
    cases tree.reference collection span.start with
    | error problem => rfl
    | ok value =>
      simp only [Except.map, Except.bind]
      cases value.items? with
      | none => rfl
      | some items =>
        cases LoopBody.parse body.toList bodySpan.start with
        | error problem => rfl
        | ok parts =>
          simp only [Option.bind_eq_bind, Option.bind_some]
          rcases renderItems (fun value => LoopBody.render item value tree parts) items with
            ⟨text, _ | problem⟩
          · rfl
          · rfl

theorem renderSegments_eq (tree : Tree) (segments : List Segment) :
    renderSegments tree segments = some (Fieldmark.renderSegments tree segments) := by
  induction segments with
  | nil => rfl
  | cons segment rest ih =>
    cases segment with
    | literal text =>
      rw [renderSegments, ih]
      rfl
    | tag tag =>
      rw [renderSegments, renderTag_eq, ih, Fieldmark.renderSegments]
      rcases tag.render tree with ⟨text, events, _ | problem⟩
      · rfl
      · rfl

theorem substitute_eq (policy : NestedOpenPolicy) (page : List Char) (tree : Tree) :
    substitute policy page tree = some (Fieldmark.substitute policy page tree).result := by
  rw [substitute, stripBindings_eq, result_substitute]
  simp only [Option.bind_eq_bind, Option.bind_some, scan_eq]
  cases Fieldmark.scan policy (Binding.strip page) with
  | error problem => rfl
  | ok scanned =>
    simp only [renderSegments_eq, Option.bind_some, Except.bind]
    cases (Fieldmark.renderSegments tree scanned.segments).problem? with
    | some problem => rfl
    | none => rfl

/-- No cut, no look at a token and no loop of the readers by offsets fails, and they come to the same as
the readers by characters. -/
theorem reading_never_fails (policy : NestedOpenPolicy) (text : List Char) (place : Point) (tree : Tree) :
    findBindings text = some (Binding.find text) ∧
    stripBindings text = some (Binding.strip text) ∧
    scan policy text = some (Fieldmark.scan policy text) ∧
    parseBody text place = some (LoopBody.parse text place) ∧
    substitute policy text tree = some (Fieldmark.substitute policy text tree).result :=
  ⟨findBindings_eq text, stripBindings_eq text, scan_eq policy text, parseBody_eq text place,
    substitute_eq policy text tree⟩

end Bytewise

end Fieldmark
