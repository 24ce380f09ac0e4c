import Fieldmark.Proofs.Tiling

/-!
# Tags say what is written

The header of a tag, with its blanks and the openings reported in it left out, is the tag's
reference and fields, or its loop variable and collection, and the signs between them
(`header_spelled`). Which openings are left out is told by the warnings alone.
-/

namespace Fieldmark

/-- All of a field tag, and a loop up to its body. -/
def Tag.headerSpan (tag : Tag) : Span :=
  match tag.content with
  | .field _ _ => tag.span
  | .loop _ _ _ bodySpan => ⟨tag.span.start, bodySpan.start⟩

/-- A text that begins at a point without those of its openings that warnings name. -/
def withoutReported (warnings : List Warning) (p : Point) : List Char → List Char
  | [] => []
  | c :: rest =>
    if c = '<' ∧ rest.head? = some ':' ∧ p.warning ∈ warnings then
      withoutReported warnings (p.after opening) rest.tail
    else c :: withoutReported warnings (p.advance c) rest
termination_by text => text.length
decreasing_by all_goals simp_wf; try omega

/-- A tag says what a header says in which nothing is left to be skipped. -/
def Tag.Content.Spelled (text : List Char) : Tag.Content → Prop
  | .field reference fields =>
    text = opening ++ reference.toList ++ ['.'] ++ ['.'].intercalate (fields.map String.toList) ++
        [':', '>'] ∧
      IsName reference ∧ fields ≠ [] ∧ ∀ field ∈ fields, IsName field
  | .loop item collection _ _ =>
    ∃ separator, separator ≠ "" ∧
      text = opening ++ loopKeyword.toList ++ item.toList ++ separator.toList ++
        collection.toList ++ [':', '>'] ∧
      IsName item ∧ IsCollection collection

namespace Scan

theorem withoutReported_cons {warnings : List Warning} {p : Point} {c : Char} {rest : List Char}
    (kept : ¬ (c = '<' ∧ rest.head? = some ':') ∨ p.warning ∉ warnings) :
    withoutReported warnings p (c :: rest) =
      c :: withoutReported warnings (p.advance c) rest := by
  rw [withoutReported, if_neg]
  rintro ⟨sign, colon, reported⟩
  rcases kept with plain | silent
  · exact plain ⟨sign, colon⟩
  · exact silent reported

/-- Warnings that name exactly the openings of a text leave its other characters. -/
theorem withoutReported_eq_chars {warnings : List Warning} {p : Point} {text : List Char}
    (exact_on : ∀ before behind, text = before ++ behind → behind ≠ [] →
      ((p.after before).warning ∈ warnings ↔ (p.after before).warning ∈ skipped p (marks text))) :
    withoutReported warnings p text = Mark.chars (marks text) := by
  fun_induction marks text generalizing p with
  | case1 rest ih =>
    have reported : p.warning ∈ warnings :=
      (exact_on [] _ rfl (by simp)).mpr (List.mem_cons_self ..)
    rw [withoutReported, if_pos ⟨rfl, rfl, reported⟩, List.tail_cons, Mark.chars_opening]
    refine ih fun before behind whole some => ?_
    have later : (p.after (opening ++ before)).warning ≠ p.warning :=
      (Point.before_after p (by simp [opening])).warning_ne.symm
    have here := exact_on (opening ++ before) behind (by simp [opening, whole]) some
    rw [skipped, List.mem_cons, or_iff_right later] at here
    rwa [Point.after_append] at here
  | case2 c rest plain ih =>
    have here := exact_on [] _ rfl (by simp)
    have silent : p.warning ∉ warnings := by
      intro member
      exact (within_skipped (p := p.advance c) (here.mp member)).ne_earlier (a := [c]) (by simp) rfl
    rw [withoutReported_cons (.inr silent), Mark.chars_char]
    exact congrArg _ (ih fun before behind whole some =>
      exact_on (c :: before) behind (by simp [whole]) some)
  | case3 => rw [withoutReported]; rfl

/-- Of a header in a page the warnings leave what no opening but the first covers. -/
theorem withoutReported_header (rest : List Char) {before header behind : List Char}
    {earlier later : List Warning}
    (left : ∀ w ∈ earlier, Within .start before w)
    (right : ∀ w ∈ later,
      Within (Point.start.after (before ++ (opening ++ header ++ ['>'] ++ rest))) behind w) :
    withoutReported
        (earlier ++ skipped ((Point.start.after before).after opening) (marks header) ++ later)
        (Point.start.after before) (opening ++ header ++ ['>']) =
      opening ++ Mark.chars (marks header) ++ ['>'] := by
  -- of the points in the header the other warnings name none
  have others (a b : List Char) (whole : opening ++ header ++ ['>'] = a ++ b) (some : b ≠ []) :
      ((Point.start.after before).after a).warning ∉ earlier ∧
        ((Point.start.after before).after a).warning ∉ later := by
    refine ⟨fun member => (left _ member).ne_later a rfl, fun member => ?_⟩
    have far := right _ member
    rw [whole, ← List.append_assoc, ← List.append_assoc, List.append_assoc _ b,
      Point.after_append, Point.after_append _ before] at far
    exact far.ne_earlier (by simp [some]) rfl
  have silent : (Point.start.after before).warning ∉
      earlier ++ skipped ((Point.start.after before).after opening) (marks header) ++ later := by
    obtain ⟨early, late⟩ := others [] _ rfl (by simp)
    rw [List.mem_append, List.mem_append, not_or, not_or]
    exact ⟨⟨early, fun member => (within_skipped member).ne_earlier (by simp [opening]) rfl⟩, late⟩
  have seam : Apart header ['>'] := apart_of_head (by simp)
  have single : marks ['>'] = [.char '>'] := by rw [marks_cons (by simp), marks_nil]
  have inner : withoutReported
      (earlier ++ skipped ((Point.start.after before).after opening) (marks header) ++ later)
      ((Point.start.after before).after opening) (header ++ ['>']) =
        Mark.chars (marks (header ++ ['>'])) := by
    refine withoutReported_eq_chars fun a b whole some => ?_
    obtain ⟨early, late⟩ := others (opening ++ a) b (by simp [whole]) some
    rw [Point.after_append] at early late
    rw [skipped_marks_append _ seam, single, List.mem_append, List.mem_append, or_iff_right early,
      or_iff_left late]
    simp [skipped]
  have front : opening ++ header ++ ['>'] = '<' :: ':' :: (header ++ ['>']) := by simp [opening]
  have chars : Mark.chars (marks (header ++ ['>'])) = Mark.chars (marks header) ++ ['>'] := by
    rw [marks_append seam, single, Mark.chars_append]
    rfl
  rw [front, withoutReported_cons (.inr silent), withoutReported_cons (.inl (by simp))]
  simp [opening, ← chars, ← inner]

theorem dark_header (chars : List Char) :
    dark (opening ++ chars ++ ['>']) = opening ++ dark chars ++ ['>'] := by
  rw [dark_append, dark_append, dark_of_not_blank (by decide)]
  rfl

end Scan

/-- What the header of a tag says to a reader who knows the warnings is what the tag says. -/
theorem header_spelled {policy : NestedOpenPolicy} {page : List Char} {scanned : Scan} {tag : Tag}
    (h : scan policy page = .ok scanned) (member : tag ∈ scanned.tags) :
    ∃ header, tag.headerSpan.slice? page = some header ∧
      tag.content.Spelled
        (Scan.dark (withoutReported scanned.warnings tag.span.start header)) := by
  have reads := (Scan.scan_eq_ok_iff.mp h).1
  obtain ⟨before, written, behind, earlier, passed, later, rfl, warnings, writing, left, right⟩ :=
    reads.tag_mem (Scan.tag_mem_segments member)
  rw [warnings]
  cases writing with
  | @field reference fields header follow =>
    refine ⟨opening ++ header ++ ['>'], (Scan.Written.field follow).slice? behind, ?_⟩
    obtain ⟨text, named, some, path⟩ := Scan.spells_header follow
    rw [Scan.withoutReported_header [] left (by simpa using right), Scan.dark_header, text,
      pathText_eq_intercalate some]
    exact ⟨by simp, named, some, path⟩
  | @loop item collection body header closer follow opened close =>
    refine ⟨opening ++ header ++ ['>'], ?_, ?_⟩
    · have slice := slice?_after before (opening ++ header ++ ['>']) (body.toList ++ closer ++ behind)
      rw [Point.after_append] at slice
      simpa [Span.slice?, Tag.headerSpan] using slice
    · obtain ⟨separator, text, named, separated, collected, _⟩ := Scan.spells_header follow
      rw [Scan.withoutReported_header (body.toList ++ closer) left (by simpa using right),
        Scan.dark_header, text]
      exact ⟨separator, separated.1, by simp, named, collected⟩

theorem header_spelled_loop :
    ∃ scanned tag, scan .warn "<:fo r a <:as\tb : ><</: >".toList = .ok scanned ∧
      tag ∈ scanned.tags ∧ ∃ header,
        tag.headerSpan.slice? "<:fo r a <:as\tb : ><</: >".toList = some header ∧
          tag.content.Spelled
            (Scan.dark (withoutReported scanned.warnings tag.span.start header)) := by
  have scanned : scan .warn "<:fo r a <:as\tb : ><</: >".toList = .ok
      ⟨[.tag ⟨.loop "a" "b" "<" ⟨⟨1, 20, 19⟩, ⟨1, 21, 20⟩⟩, ⟨⟨1, 1, 0⟩, ⟨1, 26, 25⟩⟩⟩],
        [⟨1, 10⟩]⟩ := by
    with_unfolding_all rfl
  exact ⟨_, _, scanned, List.mem_singleton.mpr rfl,
    header_spelled scanned (List.mem_singleton.mpr rfl)⟩

end Fieldmark
