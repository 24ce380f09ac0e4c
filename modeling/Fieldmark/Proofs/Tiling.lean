import Fieldmark.Proofs.Position
import Fieldmark.Proofs.Reading
import Mathlib.Data.List.Chain

/-!
# Segments tile their page

A scanned page is its segments laid end to end (`scan_tiles`): literal text as it stands, tags as
the stretch of the page that their span cuts out. The points of all spans, those of loop bodies
among them, are points of the page.
-/

namespace Fieldmark

/-- The text of a segment, that of a tag cut out of its page. -/
def Segment.text? (page : List Char) : Segment → Option (List Char)
  | .literal text => some text.toList
  | .tag cut => cut.span.slice? page

def Segment.isLiteral : Segment → Bool
  | .literal _ => true
  | .tag _ => false

/-- A tag stands in a page where its spans say. -/
structure Tag.LiesIn (page : List Char) (tag : Tag) : Prop where
  start : tag.span.start.Of page
  stop : tag.span.stop.Of page
  text : ∃ text, tag.span.slice? page = some text ∧ opening <+: text ∧ ['>'] <:+ text
  body : ∀ {item collection body bodySpan}, tag.content = .loop item collection body bodySpan →
    bodySpan.start.Of page ∧ bodySpan.stop.Of page ∧ bodySpan.slice? page = some body.toList

/-- What a segment keeps of a text stands in it: literal text, or the body of a loop. -/
inductive Segment.CutFrom (page : List Char) : Segment → Prop
  | literal {text} : text.toList <:+: page → CutFrom page (.literal text)
  | field {reference fields span} : CutFrom page (.tag ⟨.field reference fields, span⟩)
  | loop {item collection body bodySpan span} : body.toList <:+: page →
    CutFrom page (.tag ⟨.loop item collection body bodySpan, span⟩)

theorem Segment.CutFrom.mono {part page : List Char} {segment : Segment}
    (cut : segment.CutFrom part) (inside : part <:+: page) : segment.CutFrom page := by
  cases cut with
  | literal text => exact .literal (text.trans inside)
  | field => exact .field
  | loop body => exact .loop (body.trans inside)

/-- Segments cover a page from end to end: literal text, as much as there is at a place, and tags
that stand where they say. -/
structure Scan.Tiles (page : List Char) (scanned : Scan) : Prop where
  whole : ∃ texts, scanned.segments.mapM (Segment.text? page) = some texts ∧ texts.flatten = page
  literal : ∀ {text}, .literal text ∈ scanned.segments → text ≠ "" ∧ ¬ opening <:+: text.toList
  separate : scanned.segments.IsChain fun a b => ¬ (a.isLiteral = true ∧ b.isLiteral = true)
  tags : ∀ tag ∈ scanned.tags, tag.LiesIn page

theorem Point.Before.warning_ne {p q : Point} (before : p.Before q) : p.warning ≠ q.warning := by
  intro same
  obtain ⟨line, column⟩ := Warning.mk.inj same
  unfold Point.Before at before
  omega

namespace Scan

variable {p : Point} {tag : Tag} {segments : List Segment} {warnings passed : List Warning}
  {text : List Char}

theorem Written.span (written : Written p tag passed text) : tag.span = ⟨p, p.after text⟩ := by
  cases written <;> rfl

theorem Written.close_suffix (written : Written p tag passed text) : ['>'] <:+ text := by
  cases written with
  | field _ => exact List.suffix_append ..
  | loop _ _ close =>
    obtain ⟨blanks, _, rfl⟩ := close
    simp [← List.append_assoc]

/-- A tag that is written somewhere in a page is cut out of it by its span. -/
theorem Written.slice? {before : List Char} (behind : List Char)
    (written : Written (Point.start.after before) tag passed text) :
    tag.span.slice? (before ++ text ++ behind) = some text := by
  rw [written.span, Span.slice?, ← Point.after_append]
  exact slice?_after before text behind

theorem Written.liesIn {before : List Char} (behind : List Char)
    (written : Written (Point.start.after before) tag passed text) :
    tag.LiesIn (before ++ text ++ behind) where
  start := by
    rw [written.span, List.append_assoc]
    exact Point.of_after before (text ++ behind)
  stop := by
    rw [written.span, ← Point.after_append]
    exact Point.of_after (before ++ text) behind
  text := ⟨text, written.slice? behind, written.opening_prefix, written.close_suffix⟩
  body := by
    intro item collection body bodySpan content
    cases written with
    | field _ => contradiction
    | @loop item collection body header closer _ _ _ =>
      cases content
      rw [← Point.after_append, ← Point.after_append]
      have start := Point.of_after (before ++ (opening ++ header ++ ['>']))
        (body.toList ++ closer ++ behind)
      have stop := Point.of_after (before ++ (opening ++ header ++ ['>'] ++ body.toList))
        (closer ++ behind)
      have slice := slice?_after (before ++ (opening ++ header ++ ['>'])) body.toList
        (closer ++ behind)
      simp only [List.append_assoc] at start stop slice ⊢
      exact ⟨start, stop, slice⟩

theorem Reads.texts (reads : Reads p segments warnings text) (before behind : List Char)
    (here : p = Point.start.after before) :
    ∃ texts, segments.mapM (Segment.text? (before ++ text ++ behind)) = some texts ∧
      texts.flatten = text := by
  induction reads generalizing before with
  | nil => exact ⟨[], rfl, rfl⟩
  | @literal p literal segments warnings rest _ _ _ _ ih =>
    obtain ⟨texts, found, whole⟩ := ih (before ++ literal.toList) (by rw [Point.after_append, here])
    refine ⟨literal.toList :: texts, ?_, by rw [List.flatten_cons, whole]⟩
    rw [← List.append_assoc before, List.mapM_cons, found]
    rfl
  | @tag p tag passed written segments warnings rest writing _ ih =>
    subst here
    obtain ⟨texts, found, whole⟩ := ih (before ++ written) (by rw [Point.after_append])
    refine ⟨written :: texts, ?_, by rw [List.flatten_cons, whole]⟩
    rw [← List.append_assoc before, List.mapM_cons, found, Segment.text?, List.append_assoc _ rest,
      writing.slice? (rest ++ behind)]
    rfl

theorem Written.cutFrom (written : Written p tag passed text) : (Segment.tag tag).CutFrom text := by
  cases written with
  | field _ => exact .field
  | loop _ _ _ => exact .loop ⟨_, _, rfl⟩

theorem Reads.cutFrom (reads : Reads p segments warnings text) :
    ∀ segment ∈ segments, segment.CutFrom text := by
  induction reads with
  | nil => simp
  | @literal p literal segments warnings rest _ _ _ _ ih =>
    intro segment member
    rcases List.mem_cons.mp member with rfl | member
    · exact .literal (List.prefix_append ..).isInfix
    · exact (ih segment member).mono (List.suffix_append ..).isInfix
  | @tag p tag passed text segments warnings rest written _ ih =>
    intro segment member
    rcases List.mem_cons.mp member with rfl | member
    · exact written.cutFrom.mono (List.prefix_append ..).isInfix
    · exact (ih segment member).mono (List.suffix_append ..).isInfix

theorem Reads.literal_mem (reads : Reads p segments warnings text) {literal : String}
    (member : .literal literal ∈ segments) : literal ≠ "" ∧ ¬ opening <:+: literal.toList := by
  induction reads with
  | nil => contradiction
  | literal nonempty plain _ _ ih =>
    rcases List.mem_cons.mp member with same | member
    · cases same
      exact ⟨nonempty, plain⟩
    · exact ih member
  | tag _ _ ih =>
    rcases List.mem_cons.mp member with same | member
    · contradiction
    · exact ih member

theorem Reads.separate (reads : Reads p segments warnings text) :
    segments.IsChain fun a b => ¬ (a.isLiteral = true ∧ b.isLiteral = true) := by
  induction reads with
  | nil => exact .nil
  | @literal p literal segments warnings rest _ _ starts _ ih =>
    cases segments with
    | nil => exact .singleton _
    | cons segment segments =>
      refine .cons_cons ?_ ih
      cases segment with
      | literal other => exact absurd rfl (starts other)
      | tag tag => simp [Segment.isLiteral]
  | @tag p tag passed written segments warnings rest _ _ ih =>
    cases segments with
    | nil => exact .singleton _
    | cons segment segments => exact .cons_cons (by simp [Segment.isLiteral]) ih

/-! ## Where openings are passed over -/

/-- A warning that names a character of a text. -/
def Within (p : Point) (text : List Char) (w : Warning) : Prop :=
  ∃ before behind, text = before ++ behind ∧ behind ≠ [] ∧ w = (p.after before).warning

theorem Within.append_right {w : Warning} {a b : List Char} (within : Within p a w) :
    Within p (a ++ b) w := by
  obtain ⟨before, behind, rfl, some, rfl⟩ := within
  exact ⟨before, behind ++ b, by simp, by simp [some], rfl⟩

theorem Within.append_left {w : Warning} {a b : List Char} (within : Within (p.after a) b w) :
    Within p (a ++ b) w := by
  obtain ⟨before, behind, rfl, some, rfl⟩ := within
  exact ⟨a ++ before, behind, by simp, some, by rw [Point.after_append]⟩

/-- What a warning names stands before all that comes later. -/
theorem Within.ne_later {w : Warning} {a : List Char} (within : Within p a w) (b : List Char) :
    w ≠ ((p.after a).after b).warning := by
  obtain ⟨before, behind, rfl, some, rfl⟩ := within
  rw [← Point.after_append, List.append_assoc, Point.after_append]
  exact (Point.before_after _ (by simp [some])).warning_ne

/-- What a warning names stands behind all that comes earlier. -/
theorem Within.ne_earlier {w : Warning} {a b : List Char} (within : Within (p.after a) b w)
    (some : a ≠ []) : w ≠ p.warning := by
  obtain ⟨before, behind, rfl, _, rfl⟩ := within
  rw [← Point.after_append]
  exact (Point.before_after _ (by simp [some])).warning_ne.symm

theorem within_skipped {marks : List Mark} {w : Warning} (member : w ∈ skipped p marks) :
    Within p (Mark.text marks) w := by
  induction marks generalizing p with
  | nil => contradiction
  | cons mark marks ih =>
    cases mark with
    | char c => exact Within.append_left (a := [c]) (ih member)
    | opening =>
      rcases List.mem_cons.mp member with rfl | member
      · exact ⟨[], _, rfl, by simp [opening], rfl⟩
      · exact (ih member).append_left

theorem Written.within (written : Written p tag passed text) : ∀ w ∈ passed, Within p text w := by
  intro w member
  cases written with
  | field _ =>
    have inside := within_skipped member
    rw [text_marks] at inside
    exact inside.append_left.append_right
  | loop _ _ _ =>
    have inside := within_skipped member
    rw [text_marks] at inside
    exact inside.append_left.append_right.append_right.append_right

theorem Reads.within (reads : Reads p segments warnings text) :
    ∀ w ∈ warnings, Within p text w := by
  induction reads with
  | nil => simp
  | literal _ _ _ _ ih => exact fun w member => (ih w member).append_left
  | tag written _ ih =>
    intro w member
    rcases List.mem_append.mp member with member | member
    · exact (written.within w member).append_right
    · exact (ih w member).append_left

/-- A tag of a page with the text before and behind it, and where openings are passed over. -/
theorem Reads.tag_mem (reads : Reads p segments warnings text) (member : .tag tag ∈ segments) :
    ∃ before written behind earlier passed later, text = before ++ written ++ behind ∧
      warnings = earlier ++ passed ++ later ∧ Written (p.after before) tag passed written ∧
      (∀ w ∈ earlier, Within p before w) ∧ ∀ w ∈ later, Within (p.after (before ++ written)) behind w := by
  induction reads with
  | nil => contradiction
  | @literal p literal segments warnings rest _ _ _ _ ih =>
    rcases List.mem_cons.mp member with same | member
    · contradiction
    · obtain ⟨before, written, behind, earlier, passed, later, rfl, rfl, writing, left, right⟩ :=
        ih member
      rw [← Point.after_append] at writing right
      refine ⟨literal.toList ++ before, written, behind, earlier, passed, later, by simp, rfl,
        writing, fun w inside => (left w inside).append_left, ?_⟩
      simpa using right
  | @tag p other passed text segments warnings rest writing more ih =>
    rcases List.mem_cons.mp member with same | member
    · cases same
      exact ⟨[], text, rest, [], passed, warnings, rfl, rfl, writing, by simp, more.within⟩
    · obtain ⟨before, written, behind, earlier, passed', later, rfl, rfl, writing', left, right⟩ :=
        ih member
      rw [← Point.after_append] at writing' right
      refine ⟨text ++ before, written, behind, passed ++ earlier, passed', later, by simp, by simp,
        writing', ?_, ?_⟩
      · intro w inside
        rcases List.mem_append.mp inside with inside | inside
        · exact (writing.within w inside).append_right
        · exact (left w inside).append_left
      · simpa using right

theorem tag_mem_segments {scanned : Scan} (member : tag ∈ scanned.tags) :
    .tag tag ∈ scanned.segments := by
  obtain ⟨segment, inside, found⟩ := List.mem_filterMap.mp member
  cases segment with
  | literal text => contradiction
  | tag other =>
    cases found
    exact inside

end Scan

/-- A page that the scanner accepts is its segments, one behind the other. -/
theorem scan_tiles {policy : NestedOpenPolicy} {page : List Char} {scanned : Scan}
    (h : scan policy page = .ok scanned) : scanned.Tiles page := by
  have reads := (Scan.scan_eq_ok_iff.mp h).1
  refine ⟨?_, reads.literal_mem, reads.separate, ?_⟩
  · simpa using reads.texts [] [] rfl
  · intro tag member
    obtain ⟨before, text, behind, _, passed, _, rfl, _, written, _, _⟩ :=
      reads.tag_mem (Scan.tag_mem_segments member)
    exact written.liesIn behind

theorem scan_tiles_field :
    ∃ scanned, scan .warn "é<:a. b:>\n<".toList = .ok scanned ∧
      scanned.Tiles "é<:a. b:>\n<".toList := by
  have scanned : scan .warn "é<:a. b:>\n<".toList = .ok
      ⟨[.literal "é", .tag ⟨.field "a" ["b"], ⟨⟨1, 2, 2⟩, ⟨1, 10, 10⟩⟩⟩, .literal "\n<"], []⟩ := by
    with_unfolding_all rfl
  exact ⟨_, scanned, scan_tiles scanned⟩

end Fieldmark
