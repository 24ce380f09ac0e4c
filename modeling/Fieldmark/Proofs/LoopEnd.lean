import Fieldmark.Proofs.Continuation
import Mathlib.Data.Nat.Find

/-!
# Where loops end

The scanner looks for the end of a loop at each `>` and back from there. It finds the first end that
stands in the text (`FirstClose`): behind it the scanner is outside of tags, and the body is what
stands before it (`run_firstClose`). A text without one is body up to its end (`run_unclosed`).
-/

namespace Fieldmark

variable {rest body closer behind : List Char}

/-- Where a loop with this text behind its header ends for the first time. -/
structure FirstClose (rest body closer behind : List Char) : Prop where
  whole : rest = body ++ closer ++ behind
  close : Closer closer
  first : ∀ other closer' behind', rest = other ++ closer' ++ behind' → Closer closer' →
    (body ++ closer).length ≤ (other ++ closer').length

theorem exists_firstClose (closes : ∃ body closer behind, rest = body ++ closer ++ behind ∧ Closer closer) :
    ∃ body closer behind, FirstClose rest body closer behind := by
  classical
  have lengths : ∃ n body closer behind,
      (rest = body ++ closer ++ behind ∧ Closer closer) ∧ (body ++ closer).length = n := by
    obtain ⟨body, closer, behind, ends⟩ := closes
    exact ⟨_, body, closer, behind, ends, rfl⟩
  obtain ⟨body, closer, behind, ⟨whole, close⟩, least⟩ := Nat.find_spec lengths
  refine ⟨body, closer, behind, whole, close, fun other closer' behind' whole' close' => ?_⟩
  rw [least]
  exact Nat.find_min' lengths ⟨other, closer', behind', ⟨whole', close'⟩, rfl⟩

/-- Nothing ends a loop before its first end does. -/
theorem FirstClose.unclosed {blanks : List Char}
    (ends : FirstClose rest body (loopClose ++ blanks ++ ['>']) behind) :
    Unclosed (body ++ (loopClose ++ blanks)) := by
  rintro closer' close' ⟨other, more, whole⟩
  have split : rest = other ++ closer' ++ (more ++ '>' :: behind) := by
    rw [← List.append_assoc _ more, whole, ends.whole]
    simp
  have shorter := ends.first other closer' _ split close'
  have length := congrArg List.length whole
  simp only [List.length_append, List.length_singleton] at shorter length
  omega

namespace Scan

variable {policy : NestedOpenPolicy} {p : Progress} {item collection : String}

/-- Past a loop with this body from the `>` of its header on. -/
def Progress.pastLoop (p : Progress) (item collection : String) (body closer : List Char) : Progress :=
  let start := p.place.advance '>'
  let stop := start.after (body ++ closer)
  { p with
    state := .out
    place := stop
    bodyStart := start
    segments := .tag ⟨.loop item collection (String.ofList body) ⟨start, start.after body⟩,
      ⟨p.tagStart, stop⟩⟩ :: p.segments }

theorem run_openBody (header : p.state = .loopBody item collection "" false) (rest : List Char) :
    run policy p ('>' :: rest) =
      run policy (p.beginBody (.loopBody item collection "" true) '>') rest := by
  refine run_beginBody ?_
  rw [header, step_plain (by simp)]
  rfl

theorem run_firstClose (header : p.state = .loopBody item collection "" false)
    (ends : FirstClose rest body closer behind) :
    run policy p ('>' :: rest) = run policy (p.pastLoop item collection body closer) behind := by
  obtain ⟨blanks, blank, rfl⟩ := ends.close
  have closed : closedBody? (body ++ (loopClose ++ blanks)) = some body :=
    closedBody?_eq_some_iff.mpr ⟨blanks, blank, by rw [List.append_assoc]⟩
  have split : rest = (body ++ (loopClose ++ blanks)) ++ '>' :: behind := by simp [ends.whole]
  have opened : Unclosed ([] ++ (body ++ (loopClose ++ blanks))) := ends.unclosed
  have content : closedBody? (String.ofList ([] ++ (body ++ (loopClose ++ blanks)))).toList =
      some (String.ofList body).toList := by simpa using closed
  rw [run_openBody header, split, run_body rfl opened,
    run_completeLoop (step_body.trans (read_body_close content))]
  simp [Progress.complete, Progress.loop, Progress.move, Progress.passBody, Progress.beginBody,
    Progress.pastLoop, Point.after_append]

theorem run_unclosed (header : p.state = .loopBody item collection "" false) (opened : Unclosed rest) :
    (run policy p ('>' :: rest)).2 = some (problemAt p.tagStart .unterminatedLoop) := by
  have opened' : Unclosed ([] ++ rest) := opened
  rw [run_openBody header, ← List.append_nil rest, run_body rfl opened', run]
  rfl

/-- A page that ends in a tag was read up to its end, and the tag opens where the page can be scanned
up to. -/
theorem behind_of_unfinished {front : List Char} {fault : Fault} (open' : fault.IsUnfinished)
    (ran : run policy .start front = (p, some (problemAt p.tagStart fault))) (inside : p.state ≠ .out) :
    p.place = Point.start.after front ∧
      ∃ before behind, front = before ++ opening ++ behind ∧
        (∃ scanned, scan policy before = .ok scanned) ∧ p.tagStart = Point.start.after before := by
  have place : (run policy .start front).1.place = Point.start.after front := by
    cases halts_run policy .start front with
    | behind place _ => exact place
    | before _ own stuck =>
      have failed := stuck [] fun _ => apart_of_head (by simp)
      rw [List.append_nil, ran] at failed
      obtain ⟨_, _, rfl⟩ := Problem.parse.inj (Option.some.inj failed)
      exact absurd open' own
  rcases tagStart_of_behind place (by rwa [ran]) with ⟨out, _⟩ | ⟨before, behind, whole, settled, start⟩
  · exact absurd rfl out
  · rw [ran] at place start
    exact ⟨place, before, behind, whole, scan_ok_iff.mpr settled, start⟩

end Scan

/-- A loop ends at the first place where it can. What stands before that is its body, and behind it
the page goes on outside of tags. A page without such a place fails at the `<:` of the loop. -/
theorem loop_ends_at_first_close {policy : NestedOpenPolicy} {front rest : List Char}
    {p : Scan.Progress} {item collection : String}
    (ran : Scan.run policy .start front = (p, some (Scan.problemAt p.tagStart .unterminatedTag)))
    (header : p.state = .loopBody item collection "" false) :
    (p.place = Point.start.after front ∧
      ∃ before behind, front = before ++ opening ++ behind ∧
        (∃ scanned, scan policy before = .ok scanned) ∧ p.tagStart = Point.start.after before) ∧
    ((∃ body closer behind, rest = body ++ closer ++ behind ∧ Closer closer) →
      ∃ body closer behind, FirstClose rest body closer behind ∧
        Scan.run policy .start (front ++ '>' :: rest) =
          Scan.run policy (p.pastLoop item collection body closer) behind) ∧
    ((¬ ∃ body closer behind, rest = body ++ closer ++ behind ∧ Closer closer) →
      scan policy (front ++ '>' :: rest) = .error (Scan.problemAt p.tagStart .unterminatedLoop)) := by
  have inside : p.state ≠ .out := by simp [header]
  have there := Scan.behind_of_unfinished (.inl rfl) ran inside
  have onward : Scan.run policy .start (front ++ '>' :: rest) = Scan.run policy p ('>' :: rest) := by
    rw [Scan.run_append (by rw [ran, there.1]; rfl) (apart_of_head (by simp)), ran]
  refine ⟨there, fun closes => ?_, fun none => ?_⟩
  · obtain ⟨body, closer, behind, ends⟩ := exists_firstClose closes
    exact ⟨body, closer, behind, ends, by rw [onward, Scan.run_firstClose header ends]⟩
  · have opened : Unclosed rest := by
      rintro closer close ⟨body, behind, whole⟩
      exact none ⟨body, closer, behind, whole.symm, close⟩
    exact Scan.scan_error_iff.mpr (by rw [onward, Scan.run_unclosed header opened])

/-- Two loops with the same header: one that ends behind a no-break space, in front of another end,
and one whose only candidate has a space in it. -/
theorem loop_ends_at_first_close_blank :
    (∃ body closer behind, FirstClose "<:a></:b></:\u00a0>c</:>".toList body closer behind ∧
      Scan.run .error .start ("é<:for a in b: ".toList ++ '>' :: "<:a></:b></:\u00a0>c</:>".toList) =
        Scan.run .error
          ((Scan.run .error .start "é<:for a in b: ".toList).1.pastLoop "a" "b" body closer) behind) ∧
    scan .error ("é<:for a in b: ".toList ++ '>' :: "</ :>".toList) =
      .error (.parse 1 2 .unterminatedLoop) := by
  have ran : Scan.run .error .start "é<:for a in b: ".toList =
      ((Scan.run .error .start "é<:for a in b: ".toList).1,
        some (Scan.problemAt (Scan.run .error .start "é<:for a in b: ".toList).1.tagStart
          .unterminatedTag)) := by
    with_unfolding_all rfl
  have header : (Scan.run .error .start "é<:for a in b: ".toList).1.state = .loopBody "a" "b" "" false := by
    with_unfolding_all rfl
  have start : (Scan.run .error .start "é<:for a in b: ".toList).1.tagStart = ⟨1, 2, 2⟩ := by
    with_unfolding_all rfl
  have closes : ∃ body closer behind,
      "<:a></:b></:\u00a0>c</:>".toList = body ++ closer ++ behind ∧ Closer closer :=
    ⟨"<:a></:b>".toList, "</:\u00a0>".toList, "c</:>".toList, by decide, ['\u00a0'], by decide, by decide⟩
  have opened : Unclosed ("</ :".toList ++ ['>']) :=
    Scan.unclosed_concat.mpr ⟨Scan.unclosed_append Scan.unclosed_nil (by decide), fun _ => by decide⟩
  have none : ¬ ∃ body closer behind, "</ :>".toList = body ++ closer ++ behind ∧ Closer closer := by
    rintro ⟨body, closer, behind, whole, close⟩
    exact opened closer close ⟨body, behind, whole.symm⟩
  have failed := (loop_ends_at_first_close ran header).2.2 none
  rw [start] at failed
  exact ⟨(loop_ends_at_first_close ran header).2.1 closes, failed⟩

end Fieldmark
