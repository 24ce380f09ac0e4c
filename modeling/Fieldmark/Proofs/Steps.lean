import Fieldmark.Proofs.Opening
import Mathlib.Data.List.TakeWhile
import Mathlib.Tactic.SplitIfs

/-!
# Steps of the scanner

What a step can do in each part of a page, and how a run goes past a whole stretch of it: literal
text (`run_literal`), a piece of a header (`run_header`) and a loop body (`run_body`).
-/

namespace Fieldmark

/-- A text of blanks. -/
def IsBlanks (text : List Char) : Prop := ∀ c ∈ text, isBlank c = true

instance : DecidablePred IsBlanks := List.decidableBAll fun c => isBlank c = true

theorem isBlank_colon : isBlank ':' = false := by decide

theorem isBlank_dot : isBlank '.' = false := by decide

theorem isBlank_angle : isBlank '>' = false := by decide

theorem ne_of_isBlank {c d : Char} (blank : isBlank c = true) (dark : isBlank d = false) : c ≠ d := by
  rintro rfl
  rw [blank] at dark
  contradiction

theorem not_mem_of_isBlanks {blanks : List Char} (blank : IsBlanks blanks) {c : Char}
    (dark : isBlank c = false) : c ∉ blanks :=
  fun member => ne_of_isBlank (blank c member) dark rfl

/-- What ends a loop body, but for blanks and a `>`. -/
def loopClose : List Char := ['<', '/', ':']

/-- The end of a loop. -/
def Closer (text : List Char) : Prop :=
  ∃ blanks, IsBlanks blanks ∧ text = loopClose ++ blanks ++ ['>']

/-- A text in which no loop ends. -/
def Unclosed (body : List Char) : Prop := ∀ closer, Closer closer → ¬ closer <:+: body

namespace Scan

/-! ## The end of a body -/

theorem closedBody?_eq_some_iff {body content : List Char} :
    closedBody? body = some content ↔
      ∃ blanks, IsBlanks blanks ∧ body = content ++ loopClose ++ blanks := by
  have split := List.takeWhile_append_dropWhile (p := isBlank) (l := body.reverse)
  constructor
  · intro h
    unfold closedBody? at h
    split at h
    · rename_i front found
      cases h
      refine ⟨(body.reverse.takeWhile isBlank).reverse, ?_, ?_⟩
      · intro c member
        exact List.mem_takeWhile_imp (List.mem_reverse.mp member)
      · rw [found] at split
        have whole := congrArg List.reverse split
        simpa [loopClose] using whole.symm
    · contradiction
  · rintro ⟨blanks, blank, rfl⟩
    have rest : (content ++ loopClose ++ blanks).reverse.dropWhile isBlank =
        ':' :: '/' :: '<' :: content.reverse := by
      rw [List.reverse_append, List.dropWhile_append_of_pos
        (fun c member => blank c (List.mem_reverse.mp member))]
      simp [loopClose, isBlank_colon]
    rw [closedBody?, rest]
    simp

theorem unclosed_nil : Unclosed [] := by
  rintro closer ⟨blanks, _, rfl⟩ inside
  simp at inside

/-- A body stays open with one more character unless that is a `>` that ends it. -/
theorem unclosed_concat {body : List Char} {c : Char} :
    Unclosed (body ++ [c]) ↔ Unclosed body ∧ (c = '>' → closedBody? body = none) := by
  constructor
  · intro opened
    refine ⟨fun closer close inside =>
      opened closer close (List.infix_append_of_infix_left inside), ?_⟩
    rintro rfl
    cases found : closedBody? body with
    | none => rfl
    | some content =>
      obtain ⟨blanks, blank, rfl⟩ := closedBody?_eq_some_iff.mp found
      exact absurd ⟨content, [], by simp⟩ (opened _ ⟨blanks, blank, rfl⟩)
  · rintro ⟨opened, last⟩ closer ⟨blanks, blank, rfl⟩ inside
    rcases List.infix_concat_iff.mp inside with suffix | before
    · obtain ⟨content, whole⟩ := suffix
      rw [← List.append_assoc] at whole
      obtain ⟨front, same⟩ := List.append_inj' whole rfl
      have found : closedBody? body = some content :=
        closedBody?_eq_some_iff.mpr ⟨blanks, blank, by rw [← front, List.append_assoc]⟩
      rw [last (List.singleton_inj.mp same).symm] at found
      contradiction
    · exact opened _ ⟨blanks, blank, rfl⟩ before

theorem unclosed_append {body more : List Char} (opened : Unclosed body) (plain : '>' ∉ more) :
    Unclosed (body ++ more) := by
  induction more generalizing body with
  | nil => simpa using opened
  | cons c more ih =>
    rw [List.mem_cons, not_or] at plain
    rw [List.append_cons]
    exact ih (unclosed_concat.mpr ⟨opened, fun close => absurd close.symm plain.1⟩) plain.2

/-! ## One step -/

/-- What a character does that is read in a header. -/
inductive HeaderStep : State → Char → State → Action → Prop
  | consume {state c next} : next.inHeader = true → HeaderStep state c next .consume
  | completeField {reference fields} :
    HeaderStep (.tagEnd reference fields) '>' .out (.completeField reference fields)
  | beginBody {item collection body} :
    HeaderStep (.loopBody item collection body false) '>' (.loopBody item collection body true)
      .beginBody
  | invalid {state c} (fault : Fault) : HeaderStep state c .out (.invalid fault)

theorem read_of_inHeader {state : State} (inside : state.inHeader = true) (c : Char) :
    HeaderStep state c (read state c).1 (read state c).2 := by
  cases state with
  | out => contradiction
  | tagOpen =>
    simp only [read]
    split_ifs <;> constructor <;> rfl
  | name token =>
    simp only [read]
    split_ifs <;> constructor <;> rfl
  | field reference fields segment =>
    simp only [read]
    split_ifs <;> constructor <;> rfl
  | tagEnd reference fields =>
    by_cases close : c = '>'
    · subst close; exact .completeField
    · simp only [read, close, if_false]
      split_ifs
      · exact .consume rfl
      · exact .invalid _
  | loopVariable item =>
    simp only [read]
    split_ifs <;> constructor <;> rfl
  | loopSeparator item separator =>
    simp only [read]
    split_ifs <;> constructor <;> rfl
  | loopCollection item collection =>
    simp only [read]
    split_ifs <;> constructor <;> rfl
  | loopBody item collection body opened =>
    cases opened with
    | true => contradiction
    | false =>
      by_cases close : c = '>'
      · subst close; exact .beginBody
      · simp only [read, close, if_false]
        split_ifs
        · exact .consume rfl
        · exact .invalid _

/-- A page that ends in a header ends in an open tag. -/
theorem unfinished?_of_inHeader {state : State} (inside : state.inHeader = true) :
    state.unfinished? = some .unterminatedTag := by
  cases state with
  | out => contradiction
  | loopBody item collection body opened =>
    cases opened with
    | true => contradiction
    | false => rfl
  | _ => rfl

theorem read_body_close {item collection : String} {body content : String}
    (closed : closedBody? body.toList = some content.toList) :
    read (.loopBody item collection body true) '>' =
      (.out, .completeLoop item collection content) := by
  simp [read, closed]

theorem read_body {item collection body : String} {c : Char}
    (opened : c = '>' → closedBody? body.toList = none) :
    read (.loopBody item collection body true) c =
      (.loopBody item collection (body.push c) true, .consume) := by
  by_cases close : c = '>'
  · simp [read, close, opened close]
  · simp [read, close]

theorem step_nested {state : State} (inside : state.inHeader = true) :
    step state '<' (some ':') = (state, .nestedOpen) := by
  simp [step, opensTag, inside]

theorem step_out_open : step .out '<' (some ':') = (.tagOpen, .openTag) := by
  simp [step, opensTag, State.inHeader]

theorem step_plain {state : State} {c : Char} {next : Option Char}
    (plain : ¬ (c = '<' ∧ next = some ':')) : step state c next = read state c := by
  rw [← opensTag_iff] at plain
  simp [step, plain]

theorem step_body {item collection body : String} {c : Char} {next : Option Char} :
    step (.loopBody item collection body true) c next =
      read (.loopBody item collection body true) c := by
  simp [step, State.inHeader]

/-! ## A run past one character -/

variable {policy : NestedOpenPolicy} {p : Progress} {c : Char} {rest : List Char} {state : State}

theorem run_emit (h : step p.state c rest.head? = (state, .emit)) :
    run policy p (c :: rest) = run policy (p.emit state c) rest := by
  rw [run, h]

theorem run_consume (h : step p.state c rest.head? = (state, .consume)) :
    run policy p (c :: rest) = run policy (p.move state c) rest := by
  rw [run, h]

theorem run_beginBody (h : step p.state c rest.head? = (state, .beginBody)) :
    run policy p (c :: rest) = run policy (p.beginBody state c) rest := by
  rw [run, h]

theorem run_completeField {reference : String} {fields : List String}
    (h : step p.state c rest.head? = (state, .completeField reference fields)) :
    run policy p (c :: rest) = run policy (p.complete state c (.field reference fields)) rest := by
  rw [run, h]

theorem run_completeLoop {item collection body : String}
    (h : step p.state c rest.head? = (state, .completeLoop item collection body)) :
    run policy p (c :: rest) =
      run policy (p.complete state c (p.loop item collection body)) rest := by
  rw [run, h]

theorem run_invalid {fault : Fault} (h : step p.state c rest.head? = (state, .invalid fault)) :
    run policy p (c :: rest) = (p, some (problemAt p.place fault)) := by
  rw [run, h]

theorem run_openTag (out : p.state = .out) :
    run policy p ('<' :: ':' :: rest) = run policy (p.openTag .tagOpen) rest := by
  rw [run, out, List.head?_cons, step_out_open]
  rfl

theorem run_nestedOpen_error (inside : p.state.inHeader = true) :
    run .error p ('<' :: ':' :: rest) = (p, some (problemAt p.place .nestedOpen)) := by
  rw [run, List.head?_cons, step_nested inside]

theorem run_nestedOpen_warn (inside : p.state.inHeader = true) :
    run .warn p ('<' :: ':' :: rest) = run .warn (p.skipOpen p.state) rest := by
  rw [run, List.head?_cons, step_nested inside]
  rfl

/-! ## A run past a stretch of text -/

/-- The state behind a stretch of a header, if all of it can stand where it does. -/
def State.follow? : State → List Mark → Option State
  | state, [] => some state
  | state, .opening :: rest => state.follow? rest
  | state, .char c :: rest =>
    match read state c with
    | (next, .consume) => next.follow? rest
    | _ => none

theorem follow?_char {mark : Char} {marks : List Mark} {next last : State}
    (h : read state mark = (next, .consume)) :
    state.follow? (.char mark :: marks) = some last ↔ next.follow? marks = some last := by
  rw [State.follow?, h]

theorem of_follow?_char {mark : Char} {marks : List Mark} {last : State}
    (h : state.follow? (.char mark :: marks) = some last) :
    ∃ next, read state mark = (next, .consume) ∧ next.follow? marks = some last := by
  rw [State.follow?] at h
  split at h
  · rename_i next found
    exact ⟨next, found, h⟩
  · contradiction

theorem follow?_append {a b : List Mark} {middle last : State}
    (first : state.follow? a = some middle) (second : middle.follow? b = some last) :
    state.follow? (a ++ b) = some last := by
  induction a generalizing state with
  | nil => cases first; exact second
  | cons mark a ih =>
    cases mark with
    | opening => exact ih first
    | char c =>
      obtain ⟨next, found, more⟩ := of_follow?_char first
      exact (follow?_char found).mpr (ih more)

/-- A header goes on as long as its characters are consumed. -/
theorem inHeader_of_consume {next : State} (inside : state.inHeader = true)
    (h : read state c = (next, .consume)) : next.inHeader = true := by
  have step := read_of_inHeader inside c
  rw [h] at step
  cases step
  assumption

theorem inHeader_of_follow? {marks : List Mark} {last : State} (inside : state.inHeader = true)
    (h : state.follow? marks = some last) : last.inHeader = true := by
  induction marks generalizing state with
  | nil => cases h; exact inside
  | cons mark marks ih =>
    cases mark with
    | opening => exact ih inside h
    | char c =>
      obtain ⟨next, found, more⟩ := of_follow?_char h
      exact ih (inHeader_of_consume inside found) more

/-- Past a stretch of a header. -/
def Progress.passHeader (p : Progress) (state : State) (text : List Char) : Progress :=
  { p with
    state := state
    place := p.place.after text
    warnings := (skipped p.place (marks text)).reverse ++ p.warnings }

/-- Past a stretch of literal text. -/
def Progress.passLiteral (p : Progress) (text : List Char) : Progress :=
  { p with place := p.place.after text, literal := p.literal ++ String.ofList text }

/-- Past a stretch of a loop body, with the body as it is then. -/
def Progress.passBody (p : Progress) (item collection : String) (body text : List Char) : Progress :=
  { p with
    state := .loopBody item collection (String.ofList body) true
    place := p.place.after text }

theorem run_header {text : List Char} (inside : p.state.inHeader = true)
    (follow : p.state.follow? (marks text) = some state) (apart : Apart text rest)
    (allowed : policy = .error → skipped p.place (marks text) = []) :
    run policy p (text ++ rest) = run policy (p.passHeader state text) rest := by
  fun_induction marks text generalizing p with
  | case1 more ih =>
    cases policy with
    | error => simp [skipped] at allowed
    | warn =>
      rw [List.cons_append, List.cons_append, run_nestedOpen_warn inside,
        ih (p := p.skipOpen p.state) inside follow apart.of_cons.of_cons (by simp)]
      simp [Progress.passHeader, Progress.skipOpen, Point.warning, marks_opening, skipped, opening]
  | case2 d more plain ih =>
    obtain ⟨next, found, rest_follows⟩ := of_follow?_char follow
    rw [← plain_iff] at plain
    have taken := (step_plain (apart.plain_append plain)).trans found
    rw [List.cons_append, run_consume taken,
      ih (p := p.move next d) (inHeader_of_consume inside found) rest_follows apart.of_cons allowed]
    simp [Progress.passHeader, Progress.move, marks_cons plain, skipped]
  | case3 =>
    cases follow
    simp [Progress.passHeader, skipped]

theorem run_literal {text : List Char} (out : p.state = .out) (plain : ¬ opening <:+: text)
    (apart : Apart text rest) : run policy p (text ++ rest) = run policy (p.passLiteral text) rest := by
  induction text generalizing p with
  | nil => simp [Progress.passLiteral]
  | cons d more ih =>
    rw [opening_infix_cons, not_or] at plain
    have step : step p.state d (more ++ rest).head? = (.out, .emit) := by
      rw [step_plain (apart.plain_append plain.1), out]
      rfl
    rw [List.cons_append, run_emit step, ih (p := p.emit .out d) rfl plain.2 apart.of_cons]
    have text : p.literal.push d ++ String.ofList more = p.literal ++ String.ofList (d :: more) := by
      apply String.toList_inj.mp
      simp
    simp [Progress.passLiteral, Progress.emit, Progress.move, text, ← out]

theorem run_body {item collection : String} {body text : List Char}
    (inside : p.state = .loopBody item collection (String.ofList body) true)
    (opened : Unclosed (body ++ text)) :
    run policy p (text ++ rest) =
      run policy (p.passBody item collection (body ++ text) text) rest := by
  induction text generalizing p body with
  | nil => simp [Progress.passBody, ← inside]
  | cons d more ih =>
    have opened' : Unclosed ((body ++ [d]) ++ more) := by simpa using opened
    have front : Unclosed (body ++ [d]) := fun closer close within =>
      opened' closer close (List.infix_append_of_infix_left within)
    have grown : (String.ofList body).push d = String.ofList (body ++ [d]) := by
      apply String.toList_inj.mp
      simp
    have step : step p.state d (more ++ rest).head? =
        (.loopBody item collection (String.ofList (body ++ [d])) true, .consume) := by
      rw [inside, step_body, read_body, grown]
      simpa using (unclosed_concat.mp front).2
    rw [List.cons_append, run_consume step, ih (p := p.move _ d) rfl opened']
    simp [Progress.passBody, Progress.move]

end Scan

end Fieldmark
