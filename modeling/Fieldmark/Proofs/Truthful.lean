import Fieldmark.Proofs.Blindness
import Fieldmark.Proofs.Stops

/-!
# Problems say where they are

Whatever stands in the way of filling a page, its line and column are those of a character in a tag
(`substitute_problem_truthful`). A fault in the text is placed at the character that cannot stand
there, or at the opening of the tag that never ends (`Scan.FaultAt`); data that is missing or of
another shape is placed at the `<:` of a tag that asks for it (`Problem.Truthful`).
-/

namespace Fieldmark

/-- A `<:` stands at a point of a page. -/
def OpensAt (page : List Char) (p : Point) : Prop :=
  ∃ before behind, page = before ++ opening ++ behind ∧ p = Point.start.after before

namespace Scan

/-- A field tag that begins at a point: one of the page, or one in the body of a loop. -/
inductive FieldAt (scanned : Scan) (reference : String) (fields : List String) (p : Point) : Prop
  | page {stop} : ⟨.field reference fields, ⟨p, stop⟩⟩ ∈ scanned.tags →
    FieldAt scanned reference fields p
  | body {item collection body bodySpan span parts} :
    ⟨.loop item collection body bodySpan, span⟩ ∈ scanned.tags →
    LoopBody.parse body.toList bodySpan.start = .ok parts → .field reference fields p ∈ parts →
    FieldAt scanned reference fields p

/-- A loop over a collection that begins at a point. -/
def LoopAt (scanned : Scan) (collection : String) (p : Point) : Prop :=
  ∃ item body bodySpan stop, ⟨.loop item collection body bodySpan, ⟨p, stop⟩⟩ ∈ scanned.tags

/-- Where the text of a page is wrong. -/
inductive FaultAt (policy : NestedOpenPolicy) (page : List Char) : Point → Fault → Prop
  /-- At a character up to which a tag is open. -/
  | character {before header c behind fault} : page = before ++ opening ++ header ++ c :: behind →
    scan policy page = .error (problemAt (Point.start.after (before ++ opening ++ header)) fault) →
    scan policy (before ++ opening ++ header) =
      .error (problemAt (Point.start.after before) .unterminatedTag) →
    FaultAt policy page (Point.start.after (before ++ opening ++ header)) fault
  /-- At the opening of the tag in which the page ends. -/
  | unfinished {before behind scanned fault} : page = before ++ opening ++ behind →
    scan policy page = .error (problemAt (Point.start.after before) fault) →
    scan policy before = .ok scanned → fault = .unterminatedTag ∨ fault = .unterminatedLoop →
    FaultAt policy page (Point.start.after before) fault
  /-- At a character of the body of a loop or at the `</:` behind it. -/
  | body {scanned item collection body bodySpan span before c behind fault} :
    scan policy page = .ok scanned → ⟨.loop item collection body bodySpan, span⟩ ∈ scanned.tags →
    LoopBody.parse body.toList bodySpan.start = .error (problemAt (Point.start.after before) fault) →
    page = before ++ c :: behind → bodySpan.start.offset ≤ (Point.start.after before).offset →
    (Point.start.after before).offset ≤ bodySpan.stop.offset →
    FaultAt policy page (Point.start.after before) fault

end Scan

namespace Problem

/-- What can be wrong with the data that a field tag asks for. -/
inductive OfField (reference : String) (fields : List String) (p : Point) : Problem → Prop
  | unbound : OfField reference fields p (.referenceNotFound reference p.line p.column)
  | missing {gone : List String} : gone <+: fields →
    OfField reference fields p (.fieldNotFound (".".intercalate (reference :: gone)) p.line p.column)
  | mismatch {gone : List String} {expected found : String} : gone <+: fields →
    OfField reference fields p
      (.typeMismatch (".".intercalate (reference :: gone)) expected found p.line p.column)

/-- What can be wrong with the collection that a loop asks for. -/
inductive OfLoop (collection : String) (p : Point) : Problem → Prop
  | unbound : OfLoop collection p (.referenceNotFound collection p.line p.column)
  | shape : OfLoop collection p (.notACollection collection p.line p.column)

/-- A problem of a page that is where it says. -/
inductive Truthful (policy : NestedOpenPolicy) (page : List Char) : Problem → Prop
  | fault {p : Point} {fault : Fault} : Scan.FaultAt policy page p fault →
    Truthful policy page (.parse p.line p.column fault)
  | field {scanned : Scan} {reference : String} {fields : List String} {p : Point}
    {problem : Problem} : scan policy page = .ok scanned → OpensAt page p →
    scanned.FieldAt reference fields p → OfField reference fields p problem →
    Truthful policy page problem
  | loop {scanned : Scan} {collection : String} {p : Point} {problem : Problem} :
    scan policy page = .ok scanned → OpensAt page p → scanned.LoopAt collection p →
    OfLoop collection p problem → Truthful policy page problem

end Problem

/-! ## Faults of the text -/

namespace Scan

variable {policy : NestedOpenPolicy} {page : List Char}

theorem fault_of_unfinished? {state : State} {fault : Fault} (h : state.unfinished? = some fault) :
    state ≠ .out ∧ (fault = .unterminatedTag ∨ fault = .unterminatedLoop) := by
  cases state with
  | out => contradiction
  | loopBody item collection body opened =>
    cases opened with
    | true => exact ⟨by simp, .inr (Option.some.inj h).symm⟩
    | false => exact ⟨by simp, .inl (Option.some.inj h).symm⟩
  | _ => exact ⟨by simp, .inl (Option.some.inj h).symm⟩

theorem faultAt_of_error {problem : Problem} (h : scan policy page = .error problem) :
    ∃ p fault, problem = problemAt p fault ∧ FaultAt policy page p fault := by
  have whole := h
  unfold scan at h
  split at h
  · contradiction
  rename_i last problem' ran
  obtain rfl := Except.error.inj h
  obtain ⟨seen, rest, q, rfl, stop, reason⟩ := stops_run policy .start page
  -- the scanner starts outside of tags, so a tag that is open was opened on the way
  have opened (inside : q.state ≠ .out) := (stop.tag inside).resolve_left fun ⟨out, _⟩ => out rfl
  rcases reason with rfl | ⟨nonempty, inside, fault, failed⟩
  · rw [List.append_nil] at ran whole ⊢
    obtain ⟨_, ended⟩ := Prod.mk.inj (stop.ran.symm.trans ran)
    obtain ⟨fault, unfinished, rfl⟩ := Option.map_eq_some_iff.mp ended
    obtain ⟨inside, which⟩ := fault_of_unfinished? unfinished
    obtain ⟨before, behind, r, rfl, earlier, start⟩ := opened inside
    have settled : scan policy before = .ok ⟨r.flushed.reverse, r.warnings.reverse⟩ := by
      rw [scan, earlier]
    rw [start] at whole ⊢
    exact ⟨_, fault, rfl, .unfinished rfl whole settled which⟩
  · obtain ⟨_, ended⟩ := Prod.mk.inj (failed.symm.trans ran)
    obtain rfl := Option.some.inj ended
    obtain ⟨before, header, r, rfl, earlier, start⟩ :=
      opened (by rintro out; rw [out] at inside; contradiction)
    obtain ⟨c, behind, rfl⟩ := List.exists_cons_of_ne_nil nonempty
    have open' : scan policy (before ++ opening ++ header) =
        .error (problemAt (Point.start.after before) .unterminatedTag) := by
      rw [scan, stop.ran, unfinished?_of_inHeader inside, start]
      rfl
    rw [stop.place] at whole ⊢
    exact ⟨_, fault, rfl, .character rfl whole open'⟩

end Scan

/-! ## Problems with the data -/

variable {tree : Tree}

/-- A walk along a path of fields fails at a value that is reached or at the first that is not. -/
theorem gone_of_resolveText {value : Value} {label : String} {place : Point} {fields : List String}
    {problem : Problem} (h : value.resolveText label place fields = .error problem) :
    ∃ gone, gone <+: fields ∧
      (problem = .fieldNotFound (".".intercalate (label :: gone)) place.line place.column ∨
        ∃ expected found, problem =
          .typeMismatch (".".intercalate (label :: gone)) expected found place.line place.column) := by
  induction fields generalizing value label with
  | nil =>
    cases value with
    | text content => contradiction
    | document members =>
      cases h
      exact ⟨[], List.nil_prefix, .inr ⟨_, _, rfl⟩⟩
    | collection items =>
      cases h
      exact ⟨[], List.nil_prefix, .inr ⟨_, _, rfl⟩⟩
  | cons field rest ih =>
    cases value with
    | text content =>
      cases h
      exact ⟨[], List.nil_prefix, .inr ⟨_, _, rfl⟩⟩
    | collection items =>
      cases h
      exact ⟨[], List.nil_prefix, .inr ⟨_, _, rfl⟩⟩
    | document members =>
      simp only [Value.resolveText] at h
      cases found : members.lookup field with
      | none =>
        rw [found] at h
        cases h
        exact ⟨[field], by simp, .inl rfl⟩
      | some value =>
        rw [found] at h
        obtain ⟨gone, inside, problems⟩ := ih h
        exact ⟨field :: gone, (List.prefix_cons_inj field).mpr inside, problems⟩

theorem ofField_of_resolveText {value : Value} {reference : String} {fields : List String}
    {place : Point} {problem : Problem}
    (h : value.resolveText reference place fields = .error problem) :
    Problem.OfField reference fields place problem := by
  obtain ⟨gone, inside, rfl | ⟨expected, found, rfl⟩⟩ := gone_of_resolveText h
  · exact .missing inside
  · exact .mismatch inside

theorem ofField_of_fieldText {reference : String} {fields : List String} {place : Point}
    {problem : Problem} (h : Tag.fieldText tree reference fields place = .error problem) :
    Problem.OfField reference fields place problem := by
  unfold Tag.fieldText Tree.reference at h
  cases found : tree.get? reference with
  | none =>
    rw [found] at h
    cases h
    exact .unbound
  | some value =>
    rw [found] at h
    exact ofField_of_resolveText h

/-- A body that cannot be rendered holds a field tag that asks for data that is not there. -/
theorem ofField_of_render {name : String} {item : Value} {parts : List BodyPart} {problem : Problem}
    (h : LoopBody.render name item tree parts = .error problem) :
    ∃ reference fields place, .field reference fields place ∈ parts ∧
      Problem.OfField reference fields place problem := by
  induction parts with
  | nil => contradiction
  | cons part rest ih =>
    unfold LoopBody.render at h
    cases first : LoopBody.renderPart name item tree part with
    | error problem' =>
      rw [first] at h
      cases h
      cases part with
      | text content => contradiction
      | field reference fields place =>
        refine ⟨reference, fields, place, List.mem_cons_self .., ?_⟩
        simp only [LoopBody.renderPart] at first
        split at first
        · exact ofField_of_resolveText first
        · exact ofField_of_fieldText first
    | ok text =>
      rw [first] at h
      cases more : LoopBody.render name item tree rest with
      | ok text' =>
        rw [more] at h
        contradiction
      | error problem' =>
        rw [more] at h
        cases h
        obtain ⟨reference, fields, place, member, problem⟩ := ih more
        exact ⟨reference, fields, place, List.mem_cons_of_mem part member, problem⟩

theorem mem_of_renderItems {render : Value → Except Problem String} {items : List Value}
    {problem : Problem} (h : (renderItems render items).2 = some problem) :
    ∃ item ∈ items, render item = .error problem := by
  induction items with
  | nil => contradiction
  | cons item rest ih =>
    unfold renderItems at h
    cases first : render item with
    | error problem' =>
      rw [first] at h
      cases h
      exact ⟨item, List.mem_cons_self .., first⟩
    | ok text =>
      rw [first] at h
      cases rest with
      | nil => contradiction
      | cons next rest =>
        obtain ⟨found, member, failed⟩ := ih h
        exact ⟨found, List.mem_cons_of_mem item member, failed⟩

/-- What keeps a tag from being rendered. -/
inductive Tag.Blocked (p : Point) : Tag.Content → Problem → Prop
  | field {reference fields problem} : Problem.OfField reference fields p problem →
    Blocked p (.field reference fields) problem
  | loop {item collection body bodySpan problem} : Problem.OfLoop collection p problem →
    Blocked p (.loop item collection body bodySpan) problem
  | fault {item collection body bodySpan problem} :
    LoopBody.parse body.toList bodySpan.start = .error problem →
    Blocked p (.loop item collection body bodySpan) problem
  | inner {item collection body bodySpan parts reference fields place problem} :
    LoopBody.parse body.toList bodySpan.start = .ok parts → .field reference fields place ∈ parts →
    Problem.OfField reference fields place problem →
    Blocked p (.loop item collection body bodySpan) problem

theorem blocked_of_loopParts {item collection body : String} {bodySpan : Span} {place : Point}
    {problem : Problem} (h : Tag.loopParts tree collection body bodySpan.start place = .error problem) :
    Tag.Blocked place (.loop item collection body bodySpan) problem := by
  unfold Tag.loopParts Tree.reference at h
  cases found : tree.get? collection with
  | none =>
    rw [found] at h
    cases h
    exact .loop .unbound
  | some value =>
    rw [found] at h
    simp only [Except.bind] at h
    cases listed : value.items? with
    | none =>
      rw [listed] at h
      cases h
      exact .loop .shape
    | some items =>
      rw [listed] at h
      cases parsed : LoopBody.parse body.toList bodySpan.start with
      | ok parts =>
        rw [parsed] at h
        contradiction
      | error problem' =>
        rw [parsed] at h
        cases h
        exact .fault parsed

theorem blocked_of_render {tag : Tag} {problem : Problem}
    (h : (tag.render tree).problem? = some problem) :
    Tag.Blocked tag.span.start tag.content problem := by
  obtain ⟨content, span⟩ := tag
  cases content with
  | field reference fields =>
    simp only [Tag.render] at h
    cases text : Tag.fieldText tree reference fields span.start with
    | ok text' =>
      rw [text] at h
      contradiction
    | error problem' =>
      rw [text] at h
      cases h
      exact .field (ofField_of_fieldText text)
  | loop item collection body bodySpan =>
    simp only [Tag.render] at h
    cases loop : Tag.loopParts tree collection body bodySpan.start span.start with
    | error problem' =>
      rw [loop] at h
      cases h
      exact blocked_of_loopParts loop
    | ok loop' =>
      obtain ⟨items, parts⟩ := loop'
      rw [loop] at h
      simp only at h
      have failed : (renderItems (fun value => LoopBody.render item value tree parts) items).2 =
          some problem := by
        revert h
        split
        · rename_i rendered
          rw [rendered]
          exact id
        · simp
      obtain ⟨value, _, unrendered⟩ := mem_of_renderItems failed
      obtain ⟨reference, fields, place, member, asked⟩ := ofField_of_render unrendered
      exact .inner (of_loopParts loop).2 member asked

theorem mem_of_renderSegments {segments : List Segment} {problem : Problem}
    (h : (renderSegments tree segments).problem? = some problem) :
    ∃ tag, .tag tag ∈ segments ∧ (tag.render tree).problem? = some problem := by
  induction segments with
  | nil => contradiction
  | cons segment rest ih =>
    cases segment with
    | literal text =>
      obtain ⟨tag, member, failed⟩ := ih h
      exact ⟨tag, List.mem_cons_of_mem _ member, failed⟩
    | tag tag =>
      simp only [renderSegments] at h
      split at h
      · rename_i text events problem' rendered
        cases h
        exact ⟨tag, List.mem_cons_self .., by rw [rendered]⟩
      · obtain ⟨other, member, failed⟩ := ih h
        exact ⟨other, List.mem_cons_of_mem _ member, failed⟩

/-! ## Places of tags -/

variable {policy : NestedOpenPolicy} {page : List Char} {scanned : Scan}

theorem opensAt_of_mem {tag : Tag} (h : scan policy page = .ok scanned) (member : tag ∈ scanned.tags) :
    OpensAt page tag.span.start := by
  obtain ⟨before, text, behind, _, passed, _, rfl, _, written, _, _⟩ :=
    (Scan.scan_eq_ok_iff.mp h).1.tag_mem (Scan.tag_mem_segments member)
  obtain ⟨rest, rfl⟩ := written.opening_prefix
  exact ⟨before, rest ++ behind, by simp, by rw [written.span]⟩

/-- The body of a loop stands in the page in front of a `</:`. -/
theorem body_of_mem {item collection body : String} {bodySpan span : Span}
    (h : scan policy page = .ok scanned)
    (member : ⟨.loop item collection body bodySpan, span⟩ ∈ scanned.tags) :
    ∃ before behind, page = before ++ body.toList ++ loopClose ++ behind ∧
      bodySpan = ⟨Point.start.after before, Point.start.after (before ++ body.toList)⟩ := by
  obtain ⟨before, text, behind, _, passed, _, rfl, _, written, _, _⟩ :=
    (Scan.scan_eq_ok_iff.mp h).1.tag_mem (Scan.tag_mem_segments member)
  cases written with
  | @loop _ _ _ header closer follow opened close =>
    obtain ⟨blanks, _, rfl⟩ := close
    refine ⟨before ++ (opening ++ header ++ ['>']), blanks ++ ['>'] ++ behind, by simp, ?_⟩
    simp [Point.after_append]

/-- A fault in the body of a loop is placed in the body or at its end. -/
theorem faultAt_of_parse_error {item collection body : String} {bodySpan span : Span}
    {problem : Problem} (h : scan policy page = .ok scanned)
    (member : ⟨.loop item collection body bodySpan, span⟩ ∈ scanned.tags)
    (failed : LoopBody.parse body.toList bodySpan.start = .error problem) :
    ∃ p fault, problem = Scan.problemAt p fault ∧ Scan.FaultAt policy page p fault := by
  obtain ⟨before, behind, whole, places⟩ := body_of_mem h member
  obtain ⟨front, rest, fault, split, rfl⟩ := LoopBody.place_of_parse_error failed
  subst places
  rw [← Point.after_append] at failed ⊢
  obtain ⟨c, more, next⟩ : ∃ c more, rest ++ loopClose ++ behind = c :: more :=
    List.exists_cons_of_ne_nil (by simp [loopClose])
  have here : page = (before ++ front) ++ c :: more := by
    rw [whole, split, ← next]
    simp
  refine ⟨_, fault, rfl, .body h member failed here ?_ ?_⟩
  · simp only [Point.offset_after, byteCount_append]
    omega
  · simp only [Point.offset_after, byteCount_append, split]
    omega

/-- What keeps a tag of a page from being rendered is where it says. -/
theorem truthful_of_blocked {tag : Tag} {problem : Problem} (h : scan policy page = .ok scanned)
    (member : tag ∈ scanned.tags) (blocked : Tag.Blocked tag.span.start tag.content problem) :
    problem.Truthful policy page := by
  obtain ⟨content, ⟨p, stop⟩⟩ := tag
  have opens : OpensAt page p := opensAt_of_mem h member
  cases blocked with
  | field asked => exact .field h opens (.page member) asked
  | loop asked => exact .loop h opens ⟨_, _, _, _, member⟩ asked
  | fault failed =>
    obtain ⟨q, fault, rfl, there⟩ := faultAt_of_parse_error h member failed
    exact .fault there
  | @inner item collection body bodySpan parts reference fields place problem parsed part asked =>
    obtain ⟨before, behind, whole, places⟩ := body_of_mem h member
    obtain ⟨front, text, rest, split, there, _⟩ :=
      (LoopBody.laid_of_parse parsed).tagText_of_field_mem part
    have inner : OpensAt page place := by
      refine ⟨before ++ front, text ++ rest ++ loopClose ++ behind, by simp [whole, split], ?_⟩
      rw [Point.after_append, there, places]
    exact .field h inner (.body member parsed part) asked

theorem truthful_of_scan {problem : Problem} (h : scan policy page = .error problem) :
    problem.Truthful policy page := by
  obtain ⟨p, fault, rfl, there⟩ := Scan.faultAt_of_error h
  exact .fault there

theorem truthful_of_renderSegments {tree : Tree} {problem : Problem}
    (h : scan policy page = .ok scanned)
    (failed : (renderSegments tree scanned.segments).problem? = some problem) :
    problem.Truthful policy page := by
  obtain ⟨tag, member, unrendered⟩ := mem_of_renderSegments failed
  have listed : tag ∈ scanned.tags := List.mem_filterMap.mpr ⟨_, member, rfl⟩
  exact truthful_of_blocked h listed (blocked_of_render unrendered)

/-- A page that is not filled was not scanned, or a tag of it could not be rendered. -/
theorem scan_or_render_of_substitute {tree : Tree} {problem : Problem}
    (h : (substitute policy page tree).result = .error problem) :
    scan policy (Binding.strip page) = .error problem ∨
      ∃ scanned, scan policy (Binding.strip page) = .ok scanned ∧
        (renderSegments tree scanned.segments).problem? = some problem := by
  rw [result_substitute] at h
  cases found : scan policy (Binding.strip page) with
  | error problem' =>
    rw [found] at h
    cases h
    exact .inl rfl
  | ok scanned =>
    simp only [found, Except.bind] at h
    split at h
    · rename_i failed
      cases h
      exact .inr ⟨scanned, rfl, failed⟩
    · contradiction

/-- The problem that keeps a page from being filled is where it says, and about the tag there. -/
theorem substitute_problem_truthful {tree : Tree} {problem : Problem}
    (h : (substitute policy page tree).result = .error problem) :
    problem.Truthful policy (Binding.strip page) := by
  rcases scan_or_render_of_substitute h with unread | ⟨scanned, found, failed⟩
  · exact truthful_of_scan unread
  · exact truthful_of_renderSegments found failed

/-- A field that an item of the collection lacks, on the second line of the body of the loop. -/
theorem substitute_problem_truthful_body :
    (substitute .warn "é<:for i : l: >é<:i.a:>\n <:i.b:></:>".toList
        (.ofPairs [("l", .collection [.document [("a", .text "")]])])).result =
      .error (.fieldNotFound "i.b" 2 2) ∧
    (Problem.fieldNotFound "i.b" 2 2).Truthful .warn
      (Binding.strip "é<:for i : l: >é<:i.a:>\n <:i.b:></:>".toList) := by
  have stripped : Binding.strip "é<:for i : l: >é<:i.a:>\n <:i.b:></:>".toList =
      "é<:for i : l: >é<:i.a:>\n <:i.b:></:>".toList := by
    with_unfolding_all rfl
  have scanned : scan .warn "é<:for i : l: >é<:i.a:>\n <:i.b:></:>".toList =
      .ok ⟨[.literal "é", .tag ⟨.loop "i" "l" "é<:i.a:>\n <:i.b:>" ⟨⟨1, 16, 16⟩, ⟨2, 9, 34⟩⟩,
        ⟨⟨1, 2, 2⟩, ⟨2, 13, 38⟩⟩⟩], []⟩ := by
    with_unfolding_all rfl
  have parts : LoopBody.parse "é<:i.a:>\n <:i.b:>".toList ⟨1, 16, 16⟩ =
      .ok [.text ['é'], .field "i" ["a"] ⟨1, 17, 18⟩, .text ['\n', ' '], .field "i" ["b"] ⟨2, 2, 27⟩] := by
    with_unfolding_all rfl
  have failed : (substitute .warn "é<:for i : l: >é<:i.a:>\n <:i.b:></:>".toList
        (.ofPairs [("l", .collection [.document [("a", .text "")]])])).result =
      .error (.fieldNotFound "i.b" 2 2) := by
    rw [result_substitute, stripped, scanned]
    simp only [Except.bind, renderSegments, Tag.render, Tag.loopParts, Tree.ofPairs,
      parts]
    rfl
  exact ⟨failed, substitute_problem_truthful failed⟩

end Fieldmark
