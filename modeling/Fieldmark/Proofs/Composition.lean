import Fieldmark.Proofs.Continuation
import Fieldmark.Proofs.Shift

/-!
# Pages one behind the other

A page that can be scanned leaves no trace in the scanner but the literal text that it ends with, so
what stands behind it is read as a page of its own that begins where the first one ends
(`scan_append`). The seam shows in one place only: literal text on both sides of it becomes one
segment (`Segment.join`).
-/

namespace Fieldmark

/-! ## Joining -/

/-- Segments one behind the other; literal text on both sides of the seam becomes one segment. -/
def Segment.join : List Segment → List Segment → List Segment
  | [.literal text], .literal more :: rest => .literal (text ++ more) :: rest
  | [], rest => rest
  | segment :: segments, rest => segment :: Segment.join segments rest

/-- A page as it is read from another origin. -/
def Scan.shift (origin : Point) (scan : Scan) : Scan :=
  ⟨scan.segments.map (Segment.shift origin), scan.warnings.map (Warning.shift origin)⟩

/-- Two pages in one. -/
def Scan.join (first second : Scan) : Scan :=
  ⟨Segment.join first.segments second.segments, first.warnings ++ second.warnings⟩

/-- What is written one behind the other, up to the first problem. -/
def Rendering.append (first second : Rendering) : Rendering :=
  match first.problem? with
  | some _ => first
  | none => ⟨first.text ++ second.text, first.events ++ second.events, second.problem?⟩

variable {policy : NestedOpenPolicy}

theorem tags_join (first second : Scan) : (first.join second).tags = first.tags ++ second.tags := by
  obtain ⟨front, warnings⟩ := first
  obtain ⟨back, warnings'⟩ := second
  simp only [Scan.tags, Scan.join]
  fun_induction Segment.join front back with
  | case1 text more rest => rfl
  | case2 rest => rfl
  | case3 segment segments rest plain ih =>
    cases segment with
    | literal text => exact ih
    | tag tag => exact congrArg (tag :: ·) ih

theorem tags_shift (origin : Point) (scan : Scan) :
    (scan.shift origin).tags = scan.tags.map (Tag.shift origin) := by
  obtain ⟨segments, warnings⟩ := scan
  simp only [Scan.tags, Scan.shift]
  induction segments with
  | nil => rfl
  | cons segment rest ih =>
    cases segment with
    | literal text => exact ih
    | tag tag => exact congrArg (tag.shift origin :: ·) ih

/-! ## Rendering -/

theorem renderSegments_literal (tree : Tree) (text : String) (rest : List Segment) :
    renderSegments tree (.literal text :: rest) =
      Rendering.append ⟨text, [], none⟩ (renderSegments tree rest) := rfl

theorem renderSegments_tag (tree : Tree) (tag : Tag) (rest : List Segment) :
    renderSegments tree (.tag tag :: rest) = (tag.render tree).append (renderSegments tree rest) := by
  rw [renderSegments]
  obtain ⟨text, events, problem?⟩ := tag.render tree
  cases problem? <;> rfl

theorem Rendering.append_assoc (a b c : Rendering) : (a.append b).append c = a.append (b.append c) := by
  obtain ⟨text, events, problem?⟩ := a
  obtain ⟨text', events', problem?'⟩ := b
  cases problem? with
  | some problem => rfl
  | none =>
    cases problem?' with
    | some problem => rfl
    | none => simp [Rendering.append, String.append_assoc]

theorem renderSegments_join (tree : Tree) (front back : List Segment) :
    renderSegments tree (Segment.join front back) =
      (renderSegments tree front).append (renderSegments tree back) := by
  fun_induction Segment.join front back with
  | case1 text more rest => simp [renderSegments, Rendering.append, String.append_assoc]
  | case2 rest => simp [renderSegments, Rendering.append]
  | case3 segment segments rest plain ih =>
    cases segment with
    | literal text => rw [renderSegments_literal, renderSegments_literal, Rendering.append_assoc, ih]
    | tag tag => rw [renderSegments_tag, renderSegments_tag, Rendering.append_assoc, ih]

/-! ## Scanning -/

namespace Scan

variable {p : Point} {segments others : List Segment} {warnings more : List Warning}
  {text rest : List Char}

theorem Reads.text_of_nil (reads : Reads p [] warnings text) : text = [] ∧ warnings = [] := by
  cases reads
  exact ⟨rfl, rfl⟩

theorem join_of_startsPlain (plain : StartsPlain others) :
    Segment.join segments others = segments ++ others := by
  fun_induction Segment.join segments others with
  | case1 text more rest => exact absurd rfl (plain more)
  | case2 rest => rfl
  | case3 segment segments rest _ ih => exact congrArg (segment :: ·) (ih plain)

theorem StartsPlain.join (plain : StartsPlain segments) (some : segments ≠ []) :
    StartsPlain (Segment.join segments others) := by
  cases segments with
  | nil => contradiction
  | cons segment segments =>
    cases segment with
    | literal text => exact absurd rfl (plain text)
    | tag tag => simp [Segment.join, StartsPlain]

/-- Literal text in front of a text that it makes no opening with. -/
theorem Reads.pushLiteral {literal : String} (nonempty : literal ≠ "")
    (plain : ¬ opening <:+: literal.toList)
    (reads : Reads (p.after literal.toList) others more rest) (apart : Apart literal.toList rest) :
    Reads p (Segment.join [.literal literal] others) more (literal.toList ++ rest) := by
  by_cases starts : StartsPlain others
  · rw [join_of_startsPlain starts]
    exact .literal nonempty plain starts reads
  · -- Two literals meet: an opening in them would stand in one of the two or across the seam.
    cases reads with
    | nil | tag _ _ => exact absurd (by simp [StartsPlain]) starts
    | @literal _ next others more rest _ plain' starts' reads =>
      have whole : (literal ++ next).toList = literal.toList ++ next.toList := String.toList_append
      rw [← List.append_assoc, ← whole]
      refine .literal ?_ ?_ starts' ?_
      · exact fun empty => nonempty (String.append_eq_empty_iff.mp empty).1
      · rw [whole, opening_infix_append, not_or, not_or, not_not]
        exact ⟨plain, plain', apart.of_append_right⟩
      · rwa [whole, Point.after_append]

/-- The pieces of two texts that make no opening where they meet. -/
theorem Reads.join (first : Reads p segments warnings text)
    (second : Reads (p.after text) others more rest) (apart : Apart text rest) :
    Reads p (Segment.join segments others) (warnings ++ more) (text ++ rest) := by
  induction first with
  | nil => simpa [Segment.join] using second
  | @literal p text segments warnings front nonempty plain starts first ih =>
    cases segments with
    | nil =>
      obtain ⟨rfl, rfl⟩ := first.text_of_nil
      rw [List.append_nil] at second apart ⊢
      exact second.pushLiteral nonempty plain apart
    | cons segment segments =>
      rw [Point.after_append] at second
      rw [List.append_assoc]
      exact .literal nonempty plain (starts.join (by simp)) (ih second apart.of_append)
  | @tag p tag passed text segments warnings front written first ih =>
    rw [Point.after_append] at second
    rw [List.append_assoc, List.append_assoc]
    exact .tag written (ih second apart.of_append)

end Scan

/-! ## Pages -/

variable {front back : List Char} {first : Scan}

theorem scan_join {second : Scan} (ok : scan policy front = .ok first)
    (alone : scan policy back = .ok second) (apart : Apart front back) :
    scan policy (front ++ back) = .ok (first.join (second.shift (Point.start.after front))) := by
  obtain ⟨reads, strict⟩ := Scan.scan_eq_ok_iff.mp ok
  obtain ⟨reads', strict'⟩ := Scan.scan_eq_ok_iff.mp alone
  have moved := reads'.shift (Point.start.after front) Point.isPlace_start
  rw [Point.shift_start] at moved
  refine Scan.scan_eq_ok_iff.mpr ⟨reads.join moved apart, fun error => ?_⟩
  simp [Scan.join, Scan.shift, strict error, strict' error]

/-- A scanner behind a page without a problem is as at the start, but for its place. -/
theorem trails_behind (ok : (Scan.run policy .start front).2 = none) :
    Scan.Trails (Point.start.after front) .start (Scan.run policy .start front).1 := by
  obtain ⟨place, out⟩ := Scan.behind_of_none ok
  exact ⟨out, Point.isPlace_start, by rw [place]; exact (Point.shift_start _).symm, absurd rfl⟩

theorem scan_error_append {problem : Problem} (ok : scan policy front = .ok first)
    (alone : scan policy back = .error problem) (apart : Apart front back) :
    scan policy (front ++ back) = .error (problem.shift (Point.start.after front)) := by
  have settled := Scan.scan_ok_iff.mp ⟨first, ok⟩
  rw [Scan.scan_error_iff, Scan.run_append (Scan.behind_of_none settled).1 apart,
    Scan.run_shift (trails_behind settled), Scan.scan_error_iff.mp alone]
  rfl

/-- A page behind one that can be scanned is read as it is read alone, from where it begins, unless
the two make an opening where they meet. -/
theorem scan_append (ok : scan policy front = .ok first) (apart : Apart front back) :
    (∀ text, (Point.start.after front).shift (Point.start.after text) =
      Point.start.after (front ++ text)) ∧
    (scan policy (front ++ back) =
      match scan policy back with
      | .ok second => .ok (first.join (second.shift (Point.start.after front)))
      | .error problem => .error (problem.shift (Point.start.after front))) ∧
    ∀ second, scan policy back = .ok second →
      (first.join (second.shift (Point.start.after front))).tags =
        first.tags ++ second.tags.map (Tag.shift (Point.start.after front)) ∧
      ∀ tree, renderSegments tree (first.join (second.shift (Point.start.after front))).segments =
        (renderSegments tree first.segments).append
          ((renderSegments tree second.segments).shift (Point.start.after front)) := by
  refine ⟨fun text => ?_, ?_, ?_⟩
  · rw [Point.shift_after_start, Point.after_append]
  · cases alone : scan policy back with
    | ok second => exact scan_join ok alone apart
    | error problem => exact scan_error_append ok alone apart
  · intro second alone
    have reads := (Scan.scan_eq_ok_iff.mp alone).1
    refine ⟨by rw [tags_join, tags_shift], fun tree => ?_⟩
    exact (renderSegments_join tree _ _).trans (by rw [Scan.shift, reads.render_shift Point.isPlace_start])

/-- A page that goes on in the middle of a line, with an opening passed over further down. -/
theorem scan_append_inline :
    Apart "é\n<:a.b:>x<".toList "y\n<:c<:.d:>".toList ∧
      scan .warn ("é\n<:a.b:>x<".toList ++ "y\n<:c<:.d:>".toList) = .ok
        ⟨[.literal "é\n", .tag ⟨.field "a" ["b"], ⟨⟨2, 1, 3⟩, ⟨2, 8, 10⟩⟩⟩, .literal "x<y\n",
          .tag ⟨.field "c" ["d"], ⟨⟨3, 1, 14⟩, ⟨3, 10, 23⟩⟩⟩], [⟨3, 4⟩]⟩ := by
  have first : scan .warn "é\n<:a.b:>x<".toList = .ok
      ⟨[.literal "é\n", .tag ⟨.field "a" ["b"], ⟨⟨2, 1, 3⟩, ⟨2, 8, 10⟩⟩⟩, .literal "x<"], []⟩ := by
    with_unfolding_all rfl
  have second : scan .warn "y\n<:c<:.d:>".toList = .ok
      ⟨[.literal "y\n", .tag ⟨.field "c" ["d"], ⟨⟨2, 1, 2⟩, ⟨2, 10, 11⟩⟩⟩], [⟨2, 4⟩]⟩ := by
    with_unfolding_all rfl
  have apart : Apart "é\n<:a.b:>x<".toList "y\n<:c<:.d:>".toList := apart_of_head (by decide)
  have whole := (scan_append first apart).2.1
  rw [second] at whole
  exact ⟨apart, whole⟩

example : scan .warn "<".toList = .ok ⟨[.literal "<"], []⟩ ∧
    scan .warn ":a.b:>".toList = .ok ⟨[.literal ":a.b:>"], []⟩ ∧
    scan .warn ("<".toList ++ ":a.b:>".toList) =
      .ok ⟨[.tag ⟨.field "a" ["b"], ⟨⟨1, 1, 0⟩, ⟨1, 8, 7⟩⟩⟩], []⟩ := by
  with_unfolding_all exact ⟨rfl, rfl, rfl⟩

end Fieldmark
