import Fieldmark.Proofs.Repetition
import Fieldmark.Proofs.Stops
import Fieldmark.Proofs.Traces

/-!
# Reading from another origin

A text that is read from `origin` instead of the start of a page is read in the same way, and what
is found in it stands as far behind `origin` as it stood behind the start. `Point.shift` moves a
point, and the other definitions move what holds points: tags, problems, events. Every reader
commutes with the move: the scanner (`Reads.shift`, `run_shift`), the reader of loop bodies
(`parse_shift`) and the rendering of what they find (`Reads.render_shift`).
-/

namespace Fieldmark

namespace Point

/-! ## Points -/

/-- The line of a text that begins at `origin`, counted in the page around it. -/
def shiftLine (origin : Point) (line : Nat) : Nat := origin.line + (line - 1)

/-- A point of a text that begins at `origin`. Only what stands on the first line of the text moves
sideways. -/
def shift (origin p : Point) : Point where
  line := origin.shiftLine p.line
  column := if p.line = 1 then origin.column + (p.column - 1) else p.column
  offset := origin.offset + p.offset

/-- Lines and columns count from 1. -/
def IsPlace (p : Point) : Prop := 0 < p.line ∧ 0 < p.column

theorem isPlace_start : start.IsPlace := ⟨Nat.one_pos, Nat.one_pos⟩

variable {p : Point}

theorem IsPlace.advance (place : p.IsPlace) (c : Char) : (p.advance c).IsPlace := by
  unfold Point.advance
  split
  · exact ⟨Nat.succ_pos _, Nat.one_pos⟩
  · exact ⟨place.1, Nat.succ_pos _⟩

theorem IsPlace.after (place : p.IsPlace) (text : List Char) : (p.after text).IsPlace := by
  induction text generalizing p with
  | nil => exact place
  | cons c text ih => exact ih (place.advance c)

@[simp] theorem shift_start (origin : Point) : origin.shift start = origin := by
  simp [shift, shiftLine, start]

theorem shift_advance (origin : Point) (place : p.IsPlace) (c : Char) :
    origin.shift (p.advance c) = (origin.shift p).advance c := by
  obtain ⟨line, column⟩ := place
  unfold shift shiftLine advance
  by_cases feed : c = '\n'
  · have later : p.line + 1 ≠ 1 := by omega
    simp only [if_pos feed, if_neg later, Point.mk.injEq, true_and]
    omega
  · simp only [if_neg feed, Point.mk.injEq, true_and]
    split <;> omega

theorem shift_after (origin : Point) (place : p.IsPlace) (text : List Char) :
    origin.shift (p.after text) = (origin.shift p).after text := by
  induction text generalizing p with
  | nil => rfl
  | cons c text ih => rw [after_cons, after_cons, ih (place.advance c), shift_advance origin place]

/-- Where a text leads from the start of a page it leads from any origin. -/
theorem shift_after_start (origin : Point) (text : List Char) :
    origin.shift (start.after text) = origin.after text := by
  rw [shift_after origin isPlace_start, shift_start]

end Point

/-! ## What holds points -/

def Span.shift (origin : Point) (span : Span) : Span := ⟨origin.shift span.start, origin.shift span.stop⟩

def Tag.Content.shift (origin : Point) : Tag.Content → Tag.Content
  | .field reference fields => .field reference fields
  | .loop item collection body bodySpan => .loop item collection body (bodySpan.shift origin)

def Tag.shift (origin : Point) (tag : Tag) : Tag := ⟨tag.content.shift origin, tag.span.shift origin⟩

def Segment.shift (origin : Point) : Segment → Segment
  | .literal text => .literal text
  | .tag found => .tag (found.shift origin)

def Warning.shift (origin : Point) (warning : Warning) : Warning :=
  (origin.shift ⟨warning.line, warning.column, 0⟩).warning

def BodyPart.shift (origin : Point) : BodyPart → BodyPart
  | .text content => .text content
  | .field reference fields place => .field reference fields (origin.shift place)

/-- The same problem, at the place that it names moved. -/
def Problem.shift (origin : Point) (problem : Problem) : Problem :=
  match problem.place? with
  | some (line, column) => problem.movedTo (origin.shift ⟨line, column, 0⟩)
  | none => problem

/-- The same event, on the line that it names moved. -/
def Event.shift (origin : Point) : Event → Event
  | .skippedOpen line column => (Warning.shift origin ⟨line, column⟩).event
  | .resolvedField reference fields line => .resolvedField reference fields (origin.shiftLine line)
  | .renderedLoop collection items line => .renderedLoop collection items (origin.shiftLine line)
  | event => event

def Rendering.shift (origin : Point) (rendering : Rendering) : Rendering :=
  ⟨rendering.text, rendering.events.map (Event.shift origin), rendering.problem?.map (Problem.shift origin)⟩

/-- An answer with its points moved, or the problem in its way. -/
def shiftResult {α : Type} (origin : Point) (move : α → α) (result : Except Problem α) :
    Except Problem α :=
  (result.map move).mapError (Problem.shift origin)

@[simp] theorem shiftResult_ok {α : Type} (origin : Point) (move : α → α) (a : α) :
    shiftResult origin move (.ok a) = .ok (move a) := rfl

variable {origin : Point}

@[simp] theorem shift_warning (p : Point) : p.warning.shift origin = (origin.shift p).warning := rfl

@[simp] theorem shift_problemAt (p : Point) (fault : Fault) :
    (Scan.problemAt p fault).shift origin = Scan.problemAt (origin.shift p) fault := rfl

theorem shift_movedTo (p : Point) (problem : Problem) :
    (problem.movedTo p).shift origin = problem.movedTo (origin.shift p) := by
  cases problem <;> rfl

/-! ## The scanner -/

namespace Scan

variable {policy : NestedOpenPolicy} {p : Point} {tag : Tag} {segments : List Segment}
  {warnings passed : List Warning} {text : List Char}

theorem skipped_shift (place : p.IsPlace) (marks : List Mark) :
    skipped (origin.shift p) marks = (skipped p marks).map (Warning.shift origin) := by
  induction marks generalizing p with
  | nil => rfl
  | cons mark rest ih =>
    cases mark with
    | char c => rw [skipped, skipped, ← Point.shift_advance origin place, ih (place.advance c)]
    | opening =>
      rw [skipped, skipped, ← Point.shift_after origin place, ih (place.after _), List.map_cons,
        shift_warning]

theorem Written.shift (written : Written p tag passed text) (place : p.IsPlace) :
    Written (origin.shift p) (tag.shift origin) (passed.map (Warning.shift origin)) text := by
  cases written with
  | field follow =>
    have field := @Written.field (origin.shift p) _ _ _ follow
    rwa [← Point.shift_after origin place, ← Point.shift_after origin place,
      skipped_shift (place.after opening)] at field
  | loop follow opened close =>
    have loop := @Written.loop (origin.shift p) _ _ _ _ _ follow opened close
    simp only [← Point.shift_after origin place, skipped_shift (place.after opening)] at loop
    exact loop

theorem StartsPlain.shift (plain : StartsPlain segments) :
    StartsPlain (segments.map (Segment.shift origin)) := by
  intro text head
  cases segments with
  | nil => contradiction
  | cons segment rest =>
    cases segment with
    | literal other => exact plain other rfl
    | tag tag => cases head

/-- A text consists of the same pieces wherever it begins. -/
theorem Reads.shift (reads : Reads p segments warnings text) (origin : Point) (place : p.IsPlace) :
    Reads (origin.shift p) (segments.map (Segment.shift origin))
      (warnings.map (Warning.shift origin)) text := by
  induction reads with
  | nil => exact .nil
  | @literal p text segments warnings rest nonempty plain starts more ih =>
    refine .literal nonempty plain starts.shift ?_
    rw [← Point.shift_after origin place]
    exact ih (place.after _)
  | @tag p tag passed text segments warnings rest written more ih =>
    rw [List.map_append]
    refine .tag (written.shift place) ?_
    rw [← Point.shift_after origin place]
    exact ih (place.after _)

/-- A scanner that does what another one does, with its places moved. Outside of tags it may have
any tag behind it. -/
structure Trails (origin : Point) (p q : Progress) : Prop where
  state : q.state = p.state
  isPlace : p.place.IsPlace
  place : q.place = origin.shift p.place
  tagStart : p.state ≠ .out → q.tagStart = origin.shift p.tagStart

namespace Trails

variable {p q p' q' : Progress}

/-- Two scanners that go past the same text, and on to the same state. -/
theorem past (trails : Trails origin p q) (text : List Char) (state : q'.state = p'.state)
    (first : p'.place = p.place.after text) (second : q'.place = q.place.after text)
    (tagStart : p'.state ≠ .out → q'.tagStart = origin.shift p'.tagStart) :
    Trails origin p' q' where
  state := state
  isPlace := first ▸ trails.isPlace.after text
  place := by rw [first, second, trails.place, Point.shift_after origin trails.isPlace]
  tagStart := tagStart

variable {c : Char} {next : Option Char} {state : State} {action : Action}

theorem step (trails : Trails origin p q) (step : Scan.step p.state c next = (state, action)) :
    Scan.step q.state c next = (state, action) := trails.state ▸ step

/-- A step that opens no tag leaves both in the tags in which they are. -/
theorem still (trails : Trails origin p q) (step : Scan.step p.state c next = (state, action))
    (opens : action ≠ .openTag) : state ≠ .out → q.tagStart = origin.shift p.tagStart :=
  fun inside => trails.tagStart (ne_out_of_step step opens inside)

end Trails

/-- What stops a scanner stops one that reads the same text elsewhere. -/
theorem run_shift {p q : Progress} (trails : Trails origin p q) (text : List Char) :
    (run policy q text).2 = (run policy p text).2.map (Problem.shift origin) := by
  fun_induction run policy p text generalizing q with
  | case1 p =>
    -- The page ends here: a tag that is still open is named by its beginning.
    rw [run, trails.state]
    cases unfinished : p.state.unfinished? with
    | none => rfl
    | some fault =>
      have inside : p.state ≠ .out := (fault_of_unfinished? unfinished).1
      simp only [Option.map_some, trails.tagStart inside, shift_problemAt]
  | case2 p c rest state step ih =>
    rw [run_emit (trails.step step)]
    exact ih (trails.past [c] rfl rfl rfl (trails.still step (by simp)))
  | case3 p c rest state step ih =>
    rw [run_consume (trails.step step)]
    exact ih (trails.past [c] rfl rfl rfl (trails.still step (by simp)))
  | case4 p c rest state step ih =>
    obtain ⟨out, rfl, rfl, head⟩ := openTag_of_step step
    obtain ⟨rest, rfl⟩ := List.head?_eq_some_iff.mp head
    rw [run_openTag (trails.state.trans out)]
    exact ih (trails.past opening rfl rfl rfl fun _ => trails.place)
  | case5 p c rest state strict step =>
    subst strict
    obtain ⟨inside, rfl, rfl, head⟩ := nestedOpen_of_step step
    obtain ⟨rest, rfl⟩ := List.head?_eq_some_iff.mp head
    rw [run_nestedOpen_error (by rw [trails.state, inside]), trails.place]
    rfl
  | case6 p c rest state lenient step ih =>
    subst lenient
    obtain ⟨inside, rfl, rfl, head⟩ := nestedOpen_of_step step
    obtain ⟨rest, rfl⟩ := List.head?_eq_some_iff.mp head
    rw [run_nestedOpen_warn (by rw [trails.state, inside])]
    exact ih (trails.past opening trails.state rfl rfl trails.tagStart)
  | case7 p c rest state step ih =>
    rw [run_beginBody (trails.step step)]
    exact ih (trails.past [c] rfl rfl rfl (trails.still step (by simp)))
  | case8 p c rest state reference fields step ih =>
    rw [run_completeField (trails.step step)]
    exact ih (trails.past [c] rfl rfl rfl (trails.still step (by simp)))
  | case9 p c rest state item collection body step ih =>
    rw [run_completeLoop (trails.step step)]
    exact ih (trails.past [c] rfl rfl rfl (trails.still step (by simp)))
  | case10 p c rest state fault step =>
    rw [run_invalid (trails.step step), trails.place]
    rfl

end Scan

/-! ## Fields -/

theorem mapError_shift_movedTo {α : Type} (p : Point) (result : Except Problem α) :
    (result.mapError (Problem.movedTo p)).mapError (Problem.shift origin) =
      result.mapError (Problem.movedTo (origin.shift p)) := by
  cases result with
  | ok a => rfl
  | error problem => exact congrArg Except.error (shift_movedTo p problem)

theorem resolveText_shift (p : Point) (value : Value) (label : String) (fields : List String) :
    value.resolveText label (origin.shift p) fields =
      (value.resolveText label p fields).mapError (Problem.shift origin) := by
  rw [resolveText_movedTo p p, mapError_shift_movedTo, ← resolveText_movedTo]

theorem fieldText_shift (p : Point) (tree : Tree) (reference : String) (fields : List String) :
    Tag.fieldText tree reference fields (origin.shift p) =
      (Tag.fieldText tree reference fields p).mapError (Problem.shift origin) := by
  rw [fieldText_movedTo p p, mapError_shift_movedTo, ← fieldText_movedTo]

/-! ## Loop bodies -/

namespace LoopBody

variable {c : Cursor} {reference : String} {fields : List String}

def Cursor.shift (origin : Point) (c : Cursor) : Cursor := ⟨origin.shift c.place, c.tokens⟩

theorem Cursor.Reaches.isPlace {d : Cursor} (way : c.Reaches d) (place : c.place.IsPlace) :
    d.place.IsPlace := by
  obtain ⟨used, _, there⟩ := way
  exact there ▸ place.after _

theorem skipBlanks_shift (origin : Point) (place : c.place.IsPlace) :
    (c.shift origin).skipBlanks = c.skipBlanks.shift origin := by
  simp only [Cursor.skipBlanks, Cursor.shift, Point.shift_after origin place]

theorem past_shift (place : c.place.IsPlace) (token : Token) (rest : List Token) :
    (c.shift origin).past token rest = (c.past token rest).shift origin := by
  simp only [Cursor.past, Cursor.shift, Point.shift_after origin place]

theorem word_shift (place : c.place.IsPlace) (fault : Fault) :
    (c.shift origin).word fault =
      shiftResult origin (Prod.map id (Cursor.shift origin)) (c.word fault) := by
  obtain ⟨here, tokens⟩ := c
  simp only [Cursor.word, Cursor.shift]
  split
  · simp only [shiftResult_ok, Prod.map, id, Cursor.shift, Point.shift_after origin place]
  · rfl

/-- Past blanks and a token, and past the blanks behind it. -/
theorem onward_shift (origin : Point) (place : c.place.IsPlace) (token : Token) (rest : List Token) :
    ((c.skipBlanks.shift origin).past token rest).skipBlanks =
        (c.skipBlanks.past token rest).skipBlanks.shift origin ∧
      (c.skipBlanks.past token rest).skipBlanks.place.IsPlace := by
  have here : c.skipBlanks.place.IsPlace := (Cursor.Reaches.skipBlanks c).isPlace place
  have behind : (c.skipBlanks.past token rest).place.IsPlace := here.after _
  rw [past_shift here, skipBlanks_shift origin behind]
  exact ⟨rfl, (Cursor.Reaches.skipBlanks _).isPlace behind⟩

theorem readFields_shift (place : c.place.IsPlace) :
    readFields reference fields (c.shift origin) =
      shiftResult origin (Prod.map id (Cursor.shift origin)) (readFields reference fields c) := by
  have skip := skipBlanks_shift origin place
  fun_induction readFields reference fields c with
  | case1 fields c here front =>
    rw [readFields]
    split
    · rw [skip]
      rfl
    · rename_i token rest front'
      rw [skip] at front'
      cases front.symm.trans front'
  | case2 fields c here token rest front behind dot field next found ih =>
    obtain ⟨onward, fieldIs⟩ := onward_shift origin place token rest
    have nextIs := (Cursor.Reaches.word found).isPlace fieldIs
    rw [readFields_of_front skip front, if_pos dot, onward, word_shift fieldIs, found]
    exact ih nextIs (skipBlanks_shift origin nextIs)
  | case3 fields c here token rest front behind dot problem found =>
    obtain ⟨onward, fieldIs⟩ := onward_shift origin place token rest
    rw [readFields_of_front skip front, if_pos dot, onward, word_shift fieldIs, found]
    rfl
  | case4 fields c here token rest front behind dot closing =>
    have hereIs := (Cursor.Reaches.skipBlanks c).isPlace place
    rw [readFields_of_front skip front, if_neg dot, if_pos closing, past_shift hereIs]
    rfl
  | case5 fields c here token rest front behind dot closing colon sign more angle =>
    obtain ⟨onward, signIs⟩ := onward_shift origin place token rest
    rw [readFields_of_front skip front, if_neg dot, if_neg closing, if_pos colon, onward]
    split
    · rename_i angle'
      cases angle.symm.trans angle'
      rw [past_shift signIs]
      rfl
    · rename_i other
      exact absurd angle (other sign more)
  | case6 fields c here token rest front behind dot closing colon other =>
    obtain ⟨onward, _⟩ := onward_shift origin place token rest
    rw [readFields_of_front skip front, if_neg dot, if_neg closing, if_pos colon, onward]
    split
    · rename_i sign more angle
      exact absurd angle (other sign more)
    · rfl
  | case7 fields c here token rest front dot closing colon =>
    rw [readFields_of_front skip front, if_neg dot, if_neg closing, if_neg colon]
    rfl

theorem readTag_shift (origin tagPlace : Point) (place : c.place.IsPlace) :
    readTag (origin.shift tagPlace) (c.shift origin) =
      shiftResult origin (Prod.map (BodyPart.shift origin) (Cursor.shift origin))
        (readTag tagPlace c) := by
  have wordIs := (Cursor.Reaches.skipBlanks c).isPlace place
  unfold readTag
  rw [skipBlanks_shift origin place, word_shift wordIs]
  cases found : c.skipBlanks.word .bodyReference with
  | error problem => rfl
  | ok read =>
    obtain ⟨reference, after⟩ := read
    have afterIs := (Cursor.Reaches.word found).isPlace wordIs
    simp only [shiftResult_ok, Prod.map, id]
    rw [readFields_shift afterIs, Cursor.shift]
    split
    · rfl
    · cases readFields reference [] after <;> rfl

theorem parts_opening {place : Point} {token : Token} {tokens : List Token}
    (opens : token.kind = .opening) :
    parts place (token :: tokens) =
      (readTag place ⟨place.after token.text, tokens⟩).bind fun (part, after) =>
        (parts after.place after.tokens).map (part :: ·) := by
  rw [parts, if_pos opens]
  split
  · rename_i failed
    rw [failed]
    rfl
  · rename_i part after read
    rw [read]
    rfl

theorem pushText_shift (text : List Char) (parts : List BodyPart) :
    pushText text (parts.map (BodyPart.shift origin)) =
      (pushText text parts).map (BodyPart.shift origin) := by
  cases parts with
  | nil => rfl
  | cons part rest => cases part <;> rfl

theorem parts_shift {place : Point} (isPlace : place.IsPlace) (tokens : List Token) :
    parts (origin.shift place) tokens =
      shiftResult origin (List.map (BodyPart.shift origin)) (parts place tokens) := by
  fun_induction parts place tokens with
  | case1 => 
    rw [parts]
    rfl
  | case2 place token tokens behind opens problem failed =>
    have tag := @readTag_shift ⟨behind, tokens⟩ origin place (isPlace.after _)
    rw [Cursor.shift, failed] at tag
    rw [parts_opening opens, ← Point.shift_after origin isPlace, tag]
    rfl
  | case3 place token tokens behind opens part after read ih =>
    have tag := @readTag_shift ⟨behind, tokens⟩ origin place (isPlace.after _)
    have afterIs := (Cursor.Reaches.readTag read).1.isPlace (isPlace.after _)
    rw [Cursor.shift, read] at tag
    rw [parts_opening opens, ← Point.shift_after origin isPlace, tag]
    simp only [shiftResult_ok, Prod.map, Except.bind, Cursor.shift, ih afterIs]
    cases parts after.place after.tokens <;> rfl
  | case4 place token tokens behind plain ih =>
    rw [parts, if_neg plain, ← Point.shift_after origin isPlace, ih (isPlace.after _)]
    cases parts behind tokens with
    | error problem => rfl
    | ok found => exact congrArg Except.ok (pushText_shift token.text found)

/-- The body of a loop has the same parts wherever it stands. -/
theorem parse_shift {place : Point} (isPlace : place.IsPlace) (body : List Char) :
    parse body (origin.shift place) =
      shiftResult origin (List.map (BodyPart.shift origin)) (parse body place) :=
  parts_shift isPlace (lex body)

/-! ## Rendering -/

theorem renderPart_shift (name : String) (item : Value) (tree : Tree) (part : BodyPart) :
    renderPart name item tree (part.shift origin) =
      (renderPart name item tree part).mapError (Problem.shift origin) := by
  cases part with
  | text content => rfl
  | field reference fields place =>
    simp only [renderPart, BodyPart.shift]
    split
    · exact resolveText_shift place item reference fields
    · exact fieldText_shift place tree reference fields

theorem render_shift (name : String) (item : Value) (tree : Tree) (parts : List BodyPart) :
    render name item tree (parts.map (BodyPart.shift origin)) =
      (render name item tree parts).mapError (Problem.shift origin) := by
  induction parts with
  | nil => rfl
  | cons part rest ih =>
    rw [List.map_cons, render, render, renderPart_shift, ih]
    cases renderPart name item tree part with
    | error problem => rfl
    | ok text => cases render name item tree rest <;> rfl

end LoopBody

theorem renderItems_mapError (move : Problem → Problem) (render : Value → Except Problem String)
    (items : List Value) :
    renderItems (fun value => (render value).mapError move) items =
      ((renderItems render items).1, (renderItems render items).2.map move) := by
  induction items with
  | nil => rfl
  | cons item rest ih =>
    rw [renderItems, renderItems, ih]
    cases render item with
    | error problem => rfl
    | ok text =>
      simp only [Except.mapError]
      split <;> rfl

theorem loopParts_shift (tree : Tree) (collection body : String) {bodyStart : Point}
    (isPlace : bodyStart.IsPlace) (place : Point) :
    Tag.loopParts tree collection body (origin.shift bodyStart) (origin.shift place) =
      shiftResult origin (Prod.map id (List.map (BodyPart.shift origin)))
        (Tag.loopParts tree collection body bodyStart place) := by
  unfold Tag.loopParts Tree.reference
  cases tree.get? collection with
  | none => rfl
  | some value =>
    simp only [Except.bind]
    cases value.items? with
    | none => rfl
    | some items =>
      rw [LoopBody.parse_shift isPlace]
      cases LoopBody.parse body.toList bodyStart <;> rfl

namespace Scan

variable {tree : Tree} {p : Point} {tag : Tag} {segments : List Segment}
  {warnings passed : List Warning} {text : List Char}

theorem Written.render_shift (written : Written p tag passed text) (place : p.IsPlace) :
    (tag.shift origin).render tree = (tag.render tree).shift origin := by
  cases written with
  | @field reference fields header follow =>
    simp only [Tag.render, Tag.shift, Tag.Content.shift, Span.shift, fieldText_shift]
    cases Tag.fieldText tree reference fields p <;> rfl
  | @loop item collection body header closer follow opened close =>
    have bodyIs := place.after (opening ++ header ++ ['>'])
    simp only [Tag.render, Tag.shift, Tag.Content.shift, Span.shift, loopParts_shift _ _ _ bodyIs]
    cases Tag.loopParts tree collection body (p.after (opening ++ header ++ ['>'])) p with
    | error problem => rfl
    | ok found =>
      obtain ⟨items, parts⟩ := found
      simp only [shiftResult_ok, Prod.map, id, LoopBody.render_shift, renderItems_mapError]
      cases renderItems (fun value => LoopBody.render item value tree parts) items with
      | mk text problem? => cases problem? <;> rfl

/-- What a text comes to is the same wherever it begins. -/
theorem Reads.render_shift (reads : Reads p segments warnings text) (place : p.IsPlace) :
    renderSegments tree (segments.map (Segment.shift origin)) =
      (renderSegments tree segments).shift origin := by
  induction reads with
  | nil => rfl
  | literal _ _ _ _ ih =>
    rw [List.map_cons, Segment.shift, renderSegments, renderSegments, ih (place.after _)]
    rfl
  | @tag p tag passed text segments warnings rest written _ ih =>
    rw [List.map_cons, Segment.shift, renderSegments, renderSegments, ih (place.after _),
      written.render_shift place]
    obtain ⟨text, events, problem?⟩ := tag.render tree
    cases problem? with
    | some problem => rfl
    | none => simp [Rendering.shift]

end Scan

end Fieldmark
