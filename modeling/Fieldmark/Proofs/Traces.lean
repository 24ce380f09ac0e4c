import Fieldmark.Proofs.Lines
import Fieldmark.Proofs.Truthful

/-!
# What is told of a stripped page

The scanner and the renderer never see a binding, and what they tell of a page is told of the
stripped one. Every line they name is nevertheless the line of a character of the page as it was
written, and so is the column if no binding stands in front of it (`strip_keeps_lines`).
-/

namespace Fieldmark

/-! ## Characters of a page -/

/-- The point in front of a character of a page. -/
def CharAt (page : List Char) (p : Point) : Prop :=
  ∃ before c behind, page = before ++ c :: behind ∧ p = Point.start.after before

/-- A line and a column of a stripped page are those of a character that stands outside of bindings
in the page, on the same line, and in the same column if no binding ends before it on that line. -/
def Traced (page : List Char) (line column : Nat) : Prop :=
  ∃ before c front, Binding.Kept page before c front ∧
    Outside (Binding.spans page) (Point.start.after before) ∧
    (Point.start.after front).line = line ∧ (Point.start.after front).column = column ∧
    ((∀ b ∈ Binding.find page, b.span.stop.line = line →
      (Point.start.after before).offset < b.span.stop.offset) → (Point.start.after before).column = column)

variable {policy : NestedOpenPolicy} {page : List Char} {p : Point}

theorem CharAt.traced (there : CharAt (Binding.strip page) p) : Traced page p.line p.column := by
  obtain ⟨a, c, b, stripped, rfl⟩ := there
  rw [Binding.strip_eq_uncovered] at stripped
  obtain ⟨before, behind, whole, rfl, outside, _⟩ := exists_of_uncovered stripped
  have kept := Binding.kept_of_outside whole outside
  refine ⟨before, c, _, kept, outside, rfl, rfl, fun none => ?_⟩
  rw [kept.line] at none
  rw [← kept.column, Binding.passed_eq_zero none, Nat.add_zero]

theorem OpensAt.charAt (opens : OpensAt page p) : CharAt page p := by
  obtain ⟨before, behind, rfl, rfl⟩ := opens
  exact ⟨before, '<', ':' :: behind, by simp [opening], rfl⟩

theorem Scan.FaultAt.charAt {fault : Fault} (there : FaultAt policy page p fault) : CharAt page p := by
  cases there with
  | character whole _ _ => exact ⟨_, _, _, whole, rfl⟩
  | @unfinished before behind _ _ whole _ _ _ =>
    exact OpensAt.charAt ⟨before, behind, whole, rfl⟩
  | body _ _ _ whole _ _ => exact ⟨_, _, _, whole, rfl⟩

/-! ## Problems and openings passed over -/

/-- The line and the column that a problem with a page names. -/
def Problem.place? : Problem → Option (Nat × Nat)
  | .parse line column _ | .referenceNotFound _ line column | .fieldNotFound _ line column
  | .typeMismatch _ _ _ line column | .notACollection _ line column => some (line, column)
  | _ => none

theorem Problem.Truthful.charAt {problem : Problem} (truthful : problem.Truthful policy page) :
    ∃ p, problem.place? = some (p.line, p.column) ∧ CharAt page p := by
  cases truthful with
  | @fault p _ there => exact ⟨p, rfl, there.charAt⟩
  | @field _ _ _ p _ _ opens _ asked =>
    refine ⟨p, ?_, opens.charAt⟩
    cases asked <;> rfl
  | @loop _ _ p _ _ opens _ asked =>
    refine ⟨p, ?_, opens.charAt⟩
    cases asked <;> rfl

theorem Scan.Within.traced {w : Warning} (within : Within .start (Binding.strip page) w) :
    Traced page w.line w.column := by
  obtain ⟨before, behind, whole, some, rfl⟩ := within
  obtain ⟨c, behind, rfl⟩ := List.exists_cons_of_ne_nil some
  exact CharAt.traced ⟨before, c, behind, whole, rfl⟩

/-- Where a run passes over an opening, a character of its text stands. -/
theorem Scan.within_of_run {q : Progress} {text : List Char} {w : Warning}
    (member : w ∈ (run policy q text).1.warnings) : w ∈ q.warnings ∨ Within q.place text w := by
  have later {q : Progress} {c : Char} {rest : List Char}
      (more : w ∈ q.warnings ∨ Within (q.place.advance c) rest w) :
      w ∈ q.warnings ∨ Within q.place (c :: rest) w :=
    more.imp_right (Within.append_left (a := [c]))
  fun_induction run policy q text with
  | case1 => exact .inl member
  | case4 q c rest state step ih =>
    obtain ⟨_, _, rfl, head⟩ := openTag_of_step step
    obtain ⟨rest, rfl⟩ := List.head?_eq_some_iff.mp head
    exact (ih member).imp_right (Within.append_left (a := opening))
  | case5 => exact .inl member
  | case6 q c rest state lenient step ih =>
    subst lenient
    obtain ⟨_, _, rfl, head⟩ := nestedOpen_of_step step
    obtain ⟨rest, rfl⟩ := List.head?_eq_some_iff.mp head
    rcases ih member with old | inside
    · rcases List.mem_cons.mp old with rfl | old
      · exact .inr ⟨[], _, rfl, by simp, rfl⟩
      · exact .inl old
    · exact .inr (inside.append_left (a := opening))
  | case10 => exact .inl member
  | _ => exact later (by rename_i ih; exact ih member)

/-! ## Events -/

/-- The line that an event names. -/
def Event.line? : Event → Option Nat
  | .skippedOpen line _ | .resolvedField _ _ line | .renderedLoop _ _ line => some line
  | _ => none

theorem Tag.line_of_mem_events {tree : Tree} {tag : Tag} {e : Event}
    (member : e ∈ (tag.render tree).events) : e.line? = some tag.span.start.line := by
  obtain ⟨content, span⟩ := tag
  cases content with
  | field reference fields =>
    simp only [Tag.render] at member
    split at member
    · contradiction
    · obtain rfl := List.mem_singleton.mp member
      rfl
  | loop item collection body bodySpan =>
    simp only [Tag.render] at member
    split at member
    · contradiction
    · split at member
      · contradiction
      · obtain rfl := List.mem_singleton.mp member
        rfl

theorem line_of_mem_events {tree : Tree} {segments : List Segment} {e : Event}
    (member : e ∈ (renderSegments tree segments).events) :
    ∃ tag, .tag tag ∈ segments ∧ e.line? = some tag.span.start.line := by
  induction segments with
  | nil => contradiction
  | cons segment rest ih =>
    cases segment with
    | literal text =>
      obtain ⟨tag, inside, line⟩ := ih member
      exact ⟨tag, List.mem_cons_of_mem _ inside, line⟩
    | tag tag =>
      have first {e : Event} : e ∈ (tag.render tree).events → e.line? = some tag.span.start.line :=
        tag.line_of_mem_events
      simp only [renderSegments] at member
      split at member
      · rename_i rendered
        rw [rendered] at first
        exact ⟨tag, List.mem_cons_self .., first member⟩
      · rename_i rendered
        rw [rendered] at first
        rcases List.mem_append.mp member with inside | inside
        · exact ⟨tag, List.mem_cons_self .., first inside⟩
        · obtain ⟨other, inside, line⟩ := ih inside
          exact ⟨other, List.mem_cons_of_mem _ inside, line⟩

/-! ## All that is told -/

/-- What scanning and filling a page say of its stripped text holds of the page as it was written:
where tags begin and end and their bodies do, where openings are passed over, where a problem is. -/
structure TellsTruly (policy : NestedOpenPolicy) (page : List Char) : Prop where
  tag {scanned : Scan} {tag : Tag} : scan policy (Binding.strip page) = .ok scanned →
    tag ∈ scanned.tags → Traced page tag.span.start.line tag.span.start.column ∧
      Traced page tag.span.stop.line (tag.span.stop.column - 1)
  body {scanned : Scan} {item collection body : String} {bodySpan span : Span} :
    scan policy (Binding.strip page) = .ok scanned →
    ⟨.loop item collection body bodySpan, span⟩ ∈ scanned.tags →
    Traced page bodySpan.start.line bodySpan.start.column ∧
      Traced page bodySpan.stop.line bodySpan.stop.column
  warning {scanned : Scan} {w : Warning} : scan policy (Binding.strip page) = .ok scanned →
    w ∈ scanned.warnings → Traced page w.line w.column
  skipped {w : Warning} : w ∈ scanWarnings policy (Binding.strip page) → Traced page w.line w.column
  fault {problem : Problem} : scan policy (Binding.strip page) = .error problem →
    ∃ line column, problem.place? = some (line, column) ∧ Traced page line column
  problem {tree : Tree} {problem : Problem} : (substitute policy page tree).result = .error problem →
    ∃ line column, problem.place? = some (line, column) ∧ Traced page line column
  event {tree : Tree} {e : Event} : e ∈ (substitute policy page tree).events →
    ∃ line column, e.line? = some line ∧ Traced page line column

theorem Problem.Truthful.traced {problem : Problem}
    (truthful : problem.Truthful policy (Binding.strip page)) :
    ∃ line column, problem.place? = some (line, column) ∧ Traced page line column := by
  obtain ⟨p, place, there⟩ := truthful.charAt
  exact ⟨p.line, p.column, place, there.traced⟩

theorem traced_of_mem {scanned : Scan} {tag : Tag} (h : scan policy (Binding.strip page) = .ok scanned)
    (member : tag ∈ scanned.tags) : Traced page tag.span.start.line tag.span.start.column ∧
      Traced page tag.span.stop.line (tag.span.stop.column - 1) := by
  refine ⟨(opensAt_of_mem h member).charAt.traced, ?_⟩
  obtain ⟨before, text, behind, _, passed, _, whole, _, written, _, _⟩ :=
    (Scan.scan_eq_ok_iff.mp h).1.tag_mem (Scan.tag_mem_segments member)
  obtain ⟨front, rfl⟩ := written.close_suffix
  have last : CharAt (Binding.strip page) (Point.start.after (before ++ front)) :=
    ⟨before ++ front, '>', behind, by simp [whole], rfl⟩
  have stop : tag.span.stop = (Point.start.after (before ++ front)).advance '>' := by
    rw [written.span, Point.after_append, Point.after_append]
    rfl
  rw [stop]
  exact last.traced

theorem warnings_eq_scanWarnings {scanned : Scan} (h : scan policy page = .ok scanned) :
    scanned.warnings = scanWarnings policy page := by
  unfold scan at h
  split at h
  · rename_i q ran
    cases h
    rw [scanWarnings, ran]
  · contradiction

theorem traced_of_warning {w : Warning} (member : w ∈ scanWarnings policy (Binding.strip page)) :
    Traced page w.line w.column := by
  rcases Scan.within_of_run (List.mem_reverse.mp member) with old | inside
  · contradiction
  · exact inside.traced

theorem told_of_substitute {tree : Tree} {e : Event} (member : e ∈ (substitute policy page tree).events) :
    (∃ w ∈ scanWarnings policy (Binding.strip page), w.event = e) ∨
      ∃ scanned, scan policy (Binding.strip page) = .ok scanned ∧
        e ∈ (renderSegments tree scanned.segments).events := by
  rw [events_substitute] at member
  rcases List.mem_append.mp member with skipped | told
  · exact .inl (List.mem_map.mp skipped)
  · split at told
    · contradiction
    · rename_i scanned found
      exact .inr ⟨scanned, found, told⟩

theorem tellsTruly (policy : NestedOpenPolicy) (page : List Char) : TellsTruly policy page where
  tag := traced_of_mem
  body {_ _ _ body _ _} h member := by
    obtain ⟨before, behind, whole, rfl⟩ := body_of_mem h member
    obtain ⟨c, rest, next⟩ : ∃ c rest, body.toList ++ loopClose ++ behind = c :: rest :=
      List.exists_cons_of_ne_nil (by simp [loopClose])
    constructor
    · exact CharAt.traced ⟨before, c, rest, by rw [whole, ← next]; simp, rfl⟩
    · exact CharAt.traced ⟨_, '<', ['/', ':'] ++ behind, whole.trans (by simp [loopClose]), rfl⟩
  warning h member := traced_of_warning (warnings_eq_scanWarnings h ▸ member)
  skipped := traced_of_warning
  fault h := (truthful_of_scan h).traced
  problem h := by
    rcases scan_or_render_of_substitute h with unread | ⟨scanned, found, failed⟩
    · exact (truthful_of_scan unread).traced
    · exact (truthful_of_renderSegments found failed).traced
  event member := by
    rcases told_of_substitute member with ⟨w, skipped, rfl⟩ | ⟨scanned, found, told⟩
    · exact ⟨w.line, w.column, rfl, traced_of_warning skipped⟩
    · obtain ⟨tag, listed, line⟩ := line_of_mem_events told
      exact ⟨_, _, line, (traced_of_mem found (List.mem_filterMap.mpr ⟨_, listed, rfl⟩)).1⟩

/-- A page without its bindings keeps its lines. Bindings stay on their line, what is left is what
stands outside of them, each character on its line and further left by the bindings in front of it;
so what is told of the stripped page can be found in the page. -/
theorem strip_keeps_lines (page : List Char) :
    (Binding.strip page).count '\n' = page.count '\n' ∧
    Binding.strip page = uncovered (Binding.spans page) .start page ∧
    (∀ b ∈ Binding.find page,
      ∃ text, b.span.slice? page = some text ∧ '\n' ∉ text ∧ text.length = b.width) ∧
    (∀ before c behind, page = before ++ c :: behind →
      Outside (Binding.spans page) (Point.start.after before) →
      Binding.Kept page before c (uncovered (Binding.spans page) .start before)) ∧
    ∀ policy, TellsTruly policy page :=
  ⟨(Binding.parted_page page).count_lineFeed, Binding.strip_eq_uncovered page,
    fun _ member => Binding.exists_slice member,
    fun _ _ _ whole outside => Binding.kept_of_outside whole outside,
    fun policy => tellsTruly policy page⟩

/-- Two bindings in front of a character on the second line, and one on the line before. -/
theorem strip_keeps_lines_behind_two :
    Outside (Binding.spans "é<:a=b:>\n<:c=d:> <:e=f:>x".toList)
      (Point.start.after "é<:a=b:>\n<:c=d:> <:e=f:>".toList) ∧
    Binding.Kept "é<:a=b:>\n<:c=d:> <:e=f:>x".toList "é<:a=b:>\n<:c=d:> <:e=f:>".toList 'x'
      "é\n ".toList := by
  have found : Binding.find "é<:a=b:>\n<:c=d:> <:e=f:>x".toList =
      [⟨"a", "b", ⟨⟨1, 2, 2⟩, ⟨1, 9, 9⟩⟩⟩, ⟨"c", "d", ⟨⟨2, 1, 10⟩, ⟨2, 8, 17⟩⟩⟩,
        ⟨"e", "f", ⟨⟨2, 9, 18⟩, ⟨2, 16, 25⟩⟩⟩] := by
    with_unfolding_all rfl
  have outside : Outside (Binding.spans "é<:a=b:>\n<:c=d:> <:e=f:>x".toList)
      (Point.start.after "é<:a=b:>\n<:c=d:> <:e=f:>".toList) := by
    rw [Binding.spans, found]
    decide
  have front : uncovered (Binding.spans "é<:a=b:>\n<:c=d:> <:e=f:>x".toList) .start
      "é<:a=b:>\n<:c=d:> <:e=f:>".toList = "é\n ".toList := by
    rw [Binding.spans, found]
    decide
  obtain ⟨_, _, _, kept, _⟩ := strip_keeps_lines "é<:a=b:>\n<:c=d:> <:e=f:>x".toList
  exact ⟨outside, front ▸ kept "é<:a=b:>\n<:c=d:> <:e=f:>".toList 'x' [] rfl outside⟩

end Fieldmark
