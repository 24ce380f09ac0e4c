import Fieldmark.Proofs.Header

/-!
# What a page consists of

`Reads` says of a text, without a scanner, which literal text and which tags it consists of and
which openings are passed over in the headers of its tags. That is exactly what the scanner
answers (`scan_eq_ok_iff`): it goes past whatever reads that way (`run_reads`), and what it has
passed reads that way at every step (`Stands`).
-/

namespace Fieldmark

namespace Scan

/-- How a tag that begins at a point is written, with the openings that its header passes over. -/
inductive Written (p : Point) : Tag → List Warning → List Char → Prop
  | field {reference fields header} :
    State.tagOpen.follow? (marks header) = some (.tagEnd reference fields) →
    Written p ⟨.field reference fields, ⟨p, p.after (opening ++ header ++ ['>'])⟩⟩
      (skipped (p.after opening) (marks header)) (opening ++ header ++ ['>'])
  | loop {item collection body header closer} :
    State.tagOpen.follow? (marks header) = some (.loopBody item collection "" false) →
    Unclosed body.toList → Closer closer →
    Written p
      ⟨.loop item collection body
          ⟨p.after (opening ++ header ++ ['>']), p.after (opening ++ header ++ ['>'] ++ body.toList)⟩,
        ⟨p, p.after (opening ++ header ++ ['>'] ++ body.toList ++ closer)⟩⟩
      (skipped (p.after opening) (marks header))
      (opening ++ header ++ ['>'] ++ body.toList ++ closer)

/-- Segments that go on with something else than literal text. -/
def StartsPlain (segments : List Segment) : Prop :=
  ∀ text, segments.head? ≠ some (.literal text)

/-- The segments and the openings passed over of a text that begins at a point. -/
inductive Reads : Point → List Segment → List Warning → List Char → Prop
  | nil {p} : Reads p [] [] []
  | literal {p text segments warnings rest} : text ≠ "" → ¬ opening <:+: text.toList →
    StartsPlain segments → Reads (p.after text.toList) segments warnings rest →
    Reads p (.literal text :: segments) warnings (text.toList ++ rest)
  | tag {p tag passed text segments warnings rest} : Written p tag passed text →
    Reads (p.after text) segments warnings rest →
    Reads p (.tag tag :: segments) (passed ++ warnings) (text ++ rest)

theorem Written.opening_prefix {p : Point} {tag : Tag} {passed : List Warning} {text : List Char}
    (written : Written p tag passed text) : opening <+: text := by
  cases written with
  | field _ => simp [List.append_assoc]
  | loop _ _ _ => simp [List.append_assoc]

/-- Where no literal text begins, the text ends or a tag opens. -/
theorem Reads.head?_ne_colon {p : Point} {segments : List Segment} {warnings : List Warning}
    {text : List Char} (reads : Reads p segments warnings text) (plain : StartsPlain segments) :
    text.head? ≠ some ':' := by
  cases reads with
  | nil => simp
  | literal _ _ _ _ => exact absurd rfl (plain _)
  | tag written _ =>
    obtain ⟨more, whole⟩ := written.opening_prefix
    simp [← whole, opening]

theorem Reads.append {p : Point} {a b : List Segment} {v w : List Warning} {s t : List Char}
    (first : Reads p a v s) (second : Reads (p.after s) b w t)
    (seam : ∀ text, a.getLast? = some (.literal text) → StartsPlain b) :
    Reads p (a ++ b) (v ++ w) (s ++ t) := by
  induction first with
  | nil => exact second
  | @literal p text segments warnings rest nonempty plain starts more ih =>
    rw [Point.after_append] at second
    rw [List.append_assoc]
    refine .literal nonempty plain ?_ (ih second ?_)
    · cases segments with
      | nil => exact seam text rfl
      | cons segment segments => exact starts
    · intro other last
      cases segments with
      | nil => contradiction
      | cons segment segments => exact seam other (by simpa using last)
  | @tag p tag passed text segments warnings rest written more ih =>
    rw [Point.after_append] at second
    rw [List.append_assoc, List.append_assoc]
    refine .tag written (ih second ?_)
    intro other last
    cases segments with
    | nil => contradiction
    | cons segment segments => exact seam other (by simpa using last)

/-! ## The scanner reads what is written -/

variable {policy : NestedOpenPolicy} {p : Progress}

theorem run_written (rest : List Char) {tag : Tag} {passed : List Warning} {text : List Char}
    (written : Written p.place tag passed text) (out : p.state = .out)
    (allowed : policy = .error → passed = []) :
    ∃ q, run policy p (text ++ rest) = run policy q rest ∧ q.state = .out ∧
      q.place = p.place.after text ∧ q.literal = "" ∧ q.segments = .tag tag :: p.flushed ∧
      q.warnings = passed.reverse ++ p.warnings := by
  cases written with
  | @field reference fields header follow =>
    have past : run policy p (opening ++ header ++ ['>'] ++ rest) =
        run policy ((p.openTag .tagOpen).passHeader (.tagEnd reference fields) header)
          ('>' :: rest) := by
      rw [← run_header (p := p.openTag .tagOpen) rfl follow (apart_of_head (by simp)) allowed,
        ← run_openTag out]
      simp [opening]
    rw [past, run_completeField (step_plain (by simp))]
    have stop : ((p.place.after ['<', ':']).after header).advance '>' =
        p.place.after (opening ++ header ++ ['>']) := by
      simp [opening, Point.after_append]
    refine ⟨_, rfl, rfl, stop, rfl, ?_, rfl⟩
    rw [← stop]
    rfl
  | @loop item collection body header closer follow opened close =>
    obtain ⟨blanks, blank, rfl⟩ := close
    have tail : '>' ∉ loopClose ++ blanks := by
      rw [List.mem_append, not_or]
      exact ⟨by decide, not_mem_of_isBlanks blank isBlank_angle⟩
    have inner : Unclosed ([] ++ (body.toList ++ (loopClose ++ blanks))) := by
      simpa using unclosed_append opened tail
    have closed : closedBody? (String.ofList ([] ++ (body.toList ++ (loopClose ++ blanks)))).toList =
        some body.toList :=
      closedBody?_eq_some_iff.mpr ⟨blanks, blank, by simp⟩
    have past : run policy p (opening ++ header ++ ['>'] ++ body.toList ++
          (loopClose ++ blanks ++ ['>']) ++ rest) =
        run policy ((p.openTag .tagOpen).passHeader (.loopBody item collection "" false) header)
          ('>' :: (body.toList ++ (loopClose ++ blanks) ++ '>' :: rest)) := by
      rw [← run_header (p := p.openTag .tagOpen) rfl follow (apart_of_head (by simp)) allowed,
        ← run_openTag out]
      simp [opening]
    rw [past, run_beginBody (step_plain (by simp)), run_body rfl inner,
      run_completeLoop (step_body.trans (read_body_close closed))]
    have bodyStart : ((p.place.after ['<', ':']).after header).advance '>' =
        p.place.after (opening ++ header ++ ['>']) := by
      simp [opening, Point.after_append]
    have stop : ((p.place.after (opening ++ header ++ ['>'])).after
        (body.toList ++ (loopClose ++ blanks))).advance '>' =
        p.place.after (opening ++ header ++ ['>'] ++ body.toList ++
          (loopClose ++ blanks ++ ['>'])) := by
      simp [Point.after_append]
    refine ⟨_, rfl, rfl, ?_, rfl, ?_, rfl⟩
    · rw [← stop, ← bodyStart]
      rfl
    · rw [← stop, Point.after_append p.place (opening ++ header ++ ['>']), ← bodyStart]
      rfl

theorem run_reads {start : Point} {segments : List Segment} {warnings : List Warning}
    {text : List Char} (reads : Reads start segments warnings text) (out : p.state = .out)
    (here : p.place = start) (seam : p.literal ≠ "" → StartsPlain segments)
    (allowed : policy = .error → warnings = []) :
    ∃ q, run policy p text = (q, none) ∧ q.flushed = segments.reverse ++ p.flushed ∧
      q.warnings = warnings.reverse ++ p.warnings := by
  induction reads generalizing p with
  | nil => exact ⟨p, by rw [run, out]; rfl, rfl, rfl⟩
  | @literal start text segments warnings rest nonempty plain starts more ih =>
    have empty : p.literal = "" := by
      by_contra pending
      exact seam pending text rfl
    have apart : Apart text.toList rest := apart_of_head (more.head?_ne_colon starts)
    obtain ⟨q, ran, flushed, warned⟩ := ih (p := p.passLiteral text.toList) out
      (congrArg (Point.after · text.toList) here) (fun _ => starts) allowed
    refine ⟨q, (run_literal out plain apart).trans ran, ?_, warned⟩
    rw [flushed]
    simp [Progress.flushed, Progress.passLiteral, empty, nonempty]
  | @tag start tag passed text segments warnings rest written more ih =>
    subst here
    obtain ⟨q, ran, out', place, literal, completed, warned⟩ :=
      run_written rest written out (fun strict => (List.append_eq_nil_iff.mp (allowed strict)).1)
    obtain ⟨r, ran', flushed, warned'⟩ := ih out' place (fun pending => absurd literal pending)
      (fun strict => (List.append_eq_nil_iff.mp (allowed strict)).2)
    refine ⟨r, ran.trans ran', ?_, ?_⟩
    · rw [flushed]
      simp [Progress.flushed, literal, completed]
    · simp [warned', warned]

/-! ## The scanner reads nothing else -/

/-- Where a scanner stands that has seen the beginning of a page. In the header of a tag and in the
body of a loop what stands before the tag is settled; outside of tags the literal text is not. -/
inductive Stands (seen rest : List Char) : Progress → Prop
  | out {before literal segments warnings tagStart bodyStart} :
    seen = before ++ literal.toList → ¬ opening <:+: literal.toList → Apart literal.toList rest →
    Reads .start segments warnings before → (∀ text, segments.getLast? ≠ some (.literal text)) →
    Stands seen rest
      ⟨.out, Point.start.after seen, literal, tagStart, bodyStart, segments.reverse,
        warnings.reverse⟩
  | header {before header state segments warnings bodyStart} :
    seen = before ++ opening ++ header → State.tagOpen.follow? (marks header) = some state →
    Apart header rest → Reads .start segments warnings before →
    Stands seen rest
      ⟨state, Point.start.after seen, "", Point.start.after before, bodyStart, segments.reverse,
        (warnings ++ skipped (Point.start.after (before ++ opening)) (marks header)).reverse⟩
  | body {before header item collection body segments warnings} :
    seen = before ++ opening ++ header ++ ['>'] ++ body.toList →
    State.tagOpen.follow? (marks header) = some (.loopBody item collection "" false) →
    Unclosed body.toList → Reads .start segments warnings before →
    Stands seen rest
      ⟨.loopBody item collection body true, Point.start.after seen, "", Point.start.after before,
        Point.start.after (before ++ opening ++ header ++ ['>']), segments.reverse,
        (warnings ++ skipped (Point.start.after (before ++ opening)) (marks header)).reverse⟩

theorem stands_start (page : List Char) : Stands [] page .start :=
  @Stands.out [] page [] "" [] [] .start .start rfl (by simp [opening]) (apart_nil_left page) .nil
    (by simp)

/-- Literal text at the end of what is read becomes a segment unless it is empty. -/
theorem Reads.concat_literal {before : List Char} {literal : String} {segments : List Segment}
    {warnings : List Warning} (reads : Reads .start segments warnings before)
    (last : ∀ text, segments.getLast? ≠ some (.literal text))
    (plain : ¬ opening <:+: literal.toList) :
    Reads .start (if literal = "" then segments else segments ++ [.literal literal]) warnings
      (before ++ literal.toList) := by
  split
  · rename_i empty
    simpa [empty] using reads
  · rename_i nonempty
    have more : Reads (Point.start.after before) [.literal literal] [] (literal.toList ++ []) :=
      .literal nonempty plain (by simp [StartsPlain]) .nil
    simpa using reads.append more (fun text found => absurd found (last text))

theorem Reads.concat_tag {before text : List Char} {tag : Tag} {segments : List Segment}
    {warnings passed : List Warning} (reads : Reads .start segments warnings before)
    (written : Written (Point.start.after before) tag passed text) :
    Reads .start (segments ++ [.tag tag]) (warnings ++ passed) (before ++ text) := by
  have more : Reads (Point.start.after before) [.tag tag] (passed ++ []) (text ++ []) :=
    .tag written .nil
  simpa using reads.append more (fun _ _ => by simp [StartsPlain])

/-- A scanner outside of tags whose last segment is a tag. -/
theorem stands_behind_tag (rest : List Char) (bodyStart : Point) {before text : List Char} {tag : Tag}
    {segments : List Segment} {warnings passed : List Warning}
    (reads : Reads .start segments warnings before)
    (written : Written (Point.start.after before) tag passed text) :
    Stands (before ++ text) rest
      ⟨.out, Point.start.after (before ++ text), "", Point.start.after before, bodyStart,
        .tag tag :: segments.reverse, (warnings ++ passed).reverse⟩ := by
  have stands := @Stands.out (before ++ text) rest (before ++ text) "" (segments ++ [.tag tag])
    (warnings ++ passed) (Point.start.after before) bodyStart (by simp) (by simp [opening])
    (apart_nil_left rest) (reads.concat_tag written) (by simp)
  rwa [List.reverse_append] at stands

/-- What a scanner does next that reaches the end of its page. -/
def Advances (policy : NestedOpenPolicy) (seen text : List Char) (q : Progress) : Prop :=
  ∃ used rest p, text = used ++ rest ∧ used ≠ [] ∧ Stands (seen ++ used) rest p ∧
    run policy p rest = (q, none)

variable {q : Progress} {c : Char} {before rest : List Char} {segments : List Segment}
  {warnings : List Warning}

theorem advances_out {literal : String} {tagStart bodyStart : Point}
    (plain : ¬ opening <:+: literal.toList) (apart : Apart literal.toList (c :: rest))
    (reads : Reads .start segments warnings before)
    (last : ∀ text, segments.getLast? ≠ some (.literal text))
    (ran : run policy ⟨.out, Point.start.after (before ++ literal.toList), literal, tagStart,
      bodyStart, segments.reverse, warnings.reverse⟩ (c :: rest) = (q, none)) :
    Advances policy (before ++ literal.toList) (c :: rest) q := by
  by_cases opens : c = '<' ∧ rest.head? = some ':'
  · obtain ⟨rfl, head⟩ := opens
    obtain ⟨rest, rfl⟩ := List.head?_eq_some_iff.mp head
    rw [run_openTag rfl] at ran
    refine ⟨opening, rest, _, rfl, by simp [opening], ?_, ran⟩
    have stands := @Stands.header _ rest (before ++ literal.toList) [] .tagOpen _ _ bodyStart rfl rfl
      (apart_nil_left rest) (reads.concat_literal last plain)
    convert stands using 1
    · simp
    · split <;> simp [Progress.openTag, Progress.flushed, Point.after_append, opening, skipped, *]
  · have step : step .out c rest.head? = (.out, .emit) := step_plain opens
    rw [run_emit step] at ran
    refine ⟨[c], rest, _, rfl, by simp, ?_, ran⟩
    have plain' : ¬ opening <:+: (literal.push c).toList := by
      rw [String.toList_push, opening_infix_append, not_or, not_or, not_not]
      exact ⟨plain, by simp [opening, List.infix_cons_iff], fun last => apart last⟩
    have apart' : Apart (literal.push c).toList rest := by
      rw [String.toList_push, apart_append_left (by simp), apart_singleton]
      exact opens
    have stands := @Stands.out (before ++ literal.toList ++ [c]) rest before (literal.push c) segments
      warnings tagStart bodyStart (by simp) plain' apart' reads last
    convert stands using 1
    simp [Progress.emit, Progress.move, Point.after_append]

theorem advances_header {header : List Char} {state : State} {bodyStart : Point}
    (follow : State.tagOpen.follow? (marks header) = some state) (apart : Apart header (c :: rest))
    (reads : Reads .start segments warnings before)
    (ran : run policy ⟨state, Point.start.after (before ++ opening ++ header), "",
      Point.start.after before, bodyStart, segments.reverse,
      (warnings ++ skipped (Point.start.after (before ++ opening)) (marks header)).reverse⟩
      (c :: rest) = (q, none)) :
    Advances policy (before ++ opening ++ header) (c :: rest) q := by
  have inside : state.inHeader = true := inHeader_of_follow? rfl follow
  by_cases opens : c = '<' ∧ rest.head? = some ':'
  · obtain ⟨rfl, head⟩ := opens
    obtain ⟨rest, rfl⟩ := List.head?_eq_some_iff.mp head
    cases policy with
    | error =>
      rw [run_nestedOpen_error inside] at ran
      simp at ran
    | warn =>
      rw [run_nestedOpen_warn inside] at ran
      refine ⟨opening, rest, _, rfl, by simp [opening], ?_, ran⟩
      have seam : Apart header opening := apart_of_head (by simp [opening])
      have follow' : State.tagOpen.follow? (marks (header ++ opening)) = some state := by
        rw [marks_append seam]
        exact follow?_append follow rfl
      have stands := @Stands.header _ rest before (header ++ opening) state segments warnings
        bodyStart rfl follow' ((apart_append_left (by simp [opening])).mpr (by simp [Apart, opening]))
        reads
      convert stands using 1
      · simp
      · rw [skipped_marks_append _ seam]
        simp [Progress.skipOpen, Point.warning, Point.after_append, opening, marks, skipped]
  · have step := read_of_inHeader inside c
    have taken : Scan.step state c rest.head? = read state c := step_plain opens
    have seam : Apart header [c] := fun last => apart last
    have apart' : Apart (header ++ [c]) rest :=
      (apart_append_left (by simp)).mpr (apart_singleton.mpr opens)
    have single : marks [c] = [.char c] := by rw [marks_cons (by simp), marks_nil]
    generalize outcome : read state c = result at step taken
    obtain ⟨next, action⟩ := result
    cases step with
    | consume _ =>
      rw [run_consume taken] at ran
      refine ⟨[c], rest, _, rfl, by simp, ?_, ran⟩
      have follow' : State.tagOpen.follow? (marks (header ++ [c])) = some next := by
        rw [marks_append seam, single]
        exact follow?_append follow ((follow?_char outcome).mpr rfl)
      have stands := @Stands.header _ rest before (header ++ [c]) next segments warnings bodyStart
        rfl follow' apart' reads
      convert stands using 1
      · simp
      · rw [skipped_marks_append _ seam, single]
        simp [Progress.move, Point.after_append, skipped]
    | @completeField reference fields =>
      rw [run_completeField taken] at ran
      refine ⟨['>'], rest, _, rfl, by simp, ?_, ran⟩
      have stands := stands_behind_tag rest bodyStart reads (.field follow)
      convert stands using 1
      · simp
      · simp [Progress.complete, Progress.move, Point.after_append]
    | @beginBody item collection body =>
      rw [run_beginBody taken] at ran
      refine ⟨['>'], rest, _, rfl, by simp, ?_, ran⟩
      obtain ⟨_, _, _, _, _, rfl⟩ := spells_header follow
      have stands := @Stands.body (before ++ opening ++ header ++ ['>']) rest before header item
        collection "" segments warnings (by simp) follow unclosed_nil reads
      convert stands using 1
      simp [Progress.beginBody, Progress.move, Point.after_append]
    | invalid fault =>
      rw [run_invalid taken] at ran
      simp at ran

theorem advances_body {header : List Char} {item collection body : String}
    (follow : State.tagOpen.follow? (marks header) = some (.loopBody item collection "" false))
    (opened : Unclosed body.toList) (reads : Reads .start segments warnings before)
    (ran : run policy ⟨.loopBody item collection body true,
      Point.start.after (before ++ opening ++ header ++ ['>'] ++ body.toList), "",
      Point.start.after before, Point.start.after (before ++ opening ++ header ++ ['>']),
      segments.reverse,
      (warnings ++ skipped (Point.start.after (before ++ opening)) (marks header)).reverse⟩
      (c :: rest) = (q, none)) :
    Advances policy (before ++ opening ++ header ++ ['>'] ++ body.toList) (c :: rest) q := by
  by_cases closed : c = '>' ∧ closedBody? body.toList ≠ none
  · obtain ⟨rfl, closes⟩ := closed
    obtain ⟨content, found⟩ := Option.ne_none_iff_exists'.mp closes
    obtain ⟨blanks, blank, whole⟩ := closedBody?_eq_some_iff.mp found
    have found' : closedBody? body.toList = some (String.ofList content).toList := by
      rw [String.toList_ofList, found]
    rw [run_completeLoop (step_body.trans (read_body_close found'))] at ran
    refine ⟨['>'], rest, _, rfl, by simp, ?_, ran⟩
    have opened' : Unclosed (String.ofList content).toList := by
      intro closer close inside
      rw [String.toList_ofList] at inside
      rw [whole, List.append_assoc] at opened
      exact opened closer close (List.infix_append_of_infix_left inside)
    have stands := stands_behind_tag rest (Point.start.after (before ++ opening ++ header ++ ['>']))
      reads (.loop follow opened' ⟨blanks, blank, rfl⟩)
    convert stands using 1
    · simp [whole]
    · simp [Progress.complete, Progress.move, Progress.loop, whole, Point.after_append]
  · have stays : c = '>' → closedBody? body.toList = none := by
      intro close
      by_contra some
      exact closed ⟨close, some⟩
    rw [run_consume (step_body.trans (read_body stays))] at ran
    refine ⟨[c], rest, _, rfl, by simp, ?_, ran⟩
    have opened' : Unclosed (body.push c).toList := by
      rw [String.toList_push]
      exact unclosed_concat.mpr ⟨opened, stays⟩
    have stands := @Stands.body _ rest before header item collection (body.push c) segments warnings
      rfl follow opened' reads
    convert stands using 1
    · simp
    · simp [Progress.move, Point.after_append]

theorem Stands.advances {seen : List Char} {p : Progress} (stands : Stands seen (c :: rest) p)
    (ran : run policy p (c :: rest) = (q, none)) : Advances policy seen (c :: rest) q := by
  cases stands with
  | out whole plain apart reads last =>
    subst whole
    exact advances_out plain apart reads last ran
  | header whole follow apart reads =>
    subst whole
    exact advances_header follow apart reads ran
  | body whole follow opened reads =>
    subst whole
    exact advances_body follow opened reads ran

/-- A scanner that stops without a problem stands outside of tags at the end of the page. -/
theorem Stands.run {seen text : List Char} {p : Progress} (stands : Stands seen text p)
    (ran : run policy p text = (q, none)) : Stands (seen ++ text) [] q ∧ q.state = .out := by
  induction size : text.length using Nat.strongRecOn generalizing seen text p with
  | ind n ih =>
    cases text with
    | nil =>
      rw [Scan.run] at ran
      obtain ⟨rfl, finished⟩ := Prod.mk.inj ran
      rw [List.append_nil]
      refine ⟨stands, ?_⟩
      cases stands with
      | out _ _ _ _ _ => rfl
      | header _ follow _ _ =>
        rw [unfinished?_of_inHeader (inHeader_of_follow? rfl follow)] at finished
        contradiction
      | body _ _ _ _ => contradiction
    | cons c rest =>
      obtain ⟨used, rest', p', whole, some, stands', ran'⟩ := stands.advances ran
      have shorter : rest'.length < n := by
        rw [← size, whole, List.length_append]
        have := List.length_pos_iff.mpr some
        omega
      rw [whole, ← List.append_assoc]
      exact ih _ shorter stands' ran' rfl

/-- Under the strict policy no opening is passed over. -/
theorem run_error_warnings (p : Progress) (text : List Char) :
    (run .error p text).1.warnings = p.warnings := by
  fun_induction run .error p text with
  | case1 | case5 | case10 => rfl
  | case6 => contradiction
  | case2 _ _ _ _ _ ih | case3 _ _ _ _ _ ih | case4 _ _ _ _ _ ih | case7 _ _ _ _ _ ih
  | case8 _ _ _ _ _ _ _ ih | case9 _ _ _ _ _ _ _ _ ih => exact ih

theorem scan_eq_ok_iff {policy : NestedOpenPolicy} {page : List Char} {scanned : Scan} :
    scan policy page = .ok scanned ↔
      Reads .start scanned.segments scanned.warnings page ∧
        (policy = .error → scanned.warnings = []) := by
  obtain ⟨segments, warnings⟩ := scanned
  constructor
  · intro h
    unfold scan at h
    split at h
    · rename_i q ran
      cases h
      obtain ⟨stands, out⟩ := (stands_start page).run ran
      have strict : policy = .error → q.warnings = [] := by
        rintro rfl
        have same := run_error_warnings .start page
        rw [ran] at same
        exact same
      rw [List.nil_append] at stands
      refine ⟨?_, fun error => by rw [strict error]; rfl⟩
      cases stands with
      | out whole plain apart reads last =>
        subst whole
        convert reads.concat_literal last plain using 1
        · unfold Progress.flushed
          split <;> simp
        · simp
      | header _ follow _ _ => cases out; exact absurd (inHeader_of_follow? rfl follow) (by decide)
      | body _ _ _ _ => contradiction
    · contradiction
  · rintro ⟨reads, strict⟩
    obtain ⟨q, ran, flushed, warned⟩ :=
      @run_reads policy .start _ _ _ _ reads rfl rfl (fun pending => absurd rfl pending) strict
    rw [scan, ran]
    simp only [flushed, warned]
    simp [Progress.start, Progress.flushed]

end Scan

end Fieldmark
