import Fieldmark.Proofs.Spelling
import Fieldmark.Proofs.Traces

/-!
# Openings in headers

A page that is read leniently is told of exactly those openings that stand in the header of a tag
behind the tag's own (`Scan.ReportsNested`). A strict scan refuses a page at the first of them and
comes to the same as the lenient one where there is none (`nested_open_policies`).
-/

namespace Fieldmark

/-- Where openings stand in a text that begins at a point. -/
def openingPoints (p : Point) : List Char → List Point
  | [] => []
  | c :: rest =>
    if c = '<' ∧ rest.head? = some ':' then p :: openingPoints (p.advance c) rest
    else openingPoints (p.advance c) rest

/-- A point stands in the header of a tag, behind the beginning of the tag. -/
def Tag.HeaderHolds (tag : Tag) (p : Point) : Prop :=
  tag.headerSpan.start.offset < p.offset ∧ p.offset < tag.headerSpan.stop.offset

instance (tag : Tag) : DecidablePred tag.HeaderHolds := fun p =>
  inferInstanceAs (Decidable
    (tag.headerSpan.start.offset < p.offset ∧ p.offset < tag.headerSpan.stop.offset))

/-- A point stands in the header of one of the tags. -/
def InHeader (tags : List Tag) (p : Point) : Prop := ∃ tag ∈ tags, tag.HeaderHolds p

instance (tags : List Tag) : DecidablePred (InHeader tags) := fun p =>
  inferInstanceAs (Decidable (∃ tag ∈ tags, tag.HeaderHolds p))

/-- The warnings of a page are the openings in the headers of its tags, in order, and they name no
opening anywhere else: there are none in literal text, and those in the body of a loop are not
named. -/
structure Scan.ReportsNested (page : List Char) (scanned : Scan) : Prop where
  exactly : scanned.warnings =
    ((openingPoints .start page).filter (InHeader scanned.tags ·)).map Point.warning
  literal {text : String} : .literal text ∈ scanned.segments → ¬ opening <:+: text.toList
  body {item collection body : String} {bodySpan span : Span} :
    ⟨.loop item collection body bodySpan, span⟩ ∈ scanned.tags →
    ∀ p ∈ openingPoints bodySpan.start body.toList, p.warning ∉ scanned.warnings

/-! ## Points of openings -/

variable {p q : Point}

theorem openingPoints_cons {c : Char} {rest : List Char} (plain : ¬ (c = '<' ∧ rest.head? = some ':')) :
    openingPoints p (c :: rest) = openingPoints (p.advance c) rest := by
  rw [openingPoints, if_neg plain]

theorem openingPoints_opening (rest : List Char) :
    openingPoints p ('<' :: ':' :: rest) = p :: openingPoints (p.after opening) rest := by
  rw [openingPoints, if_pos ⟨rfl, rfl⟩, openingPoints_cons (by simp)]
  rfl

theorem mem_openingPoints_iff {text : List Char} :
    q ∈ openingPoints p text ↔
      ∃ before behind, text = before ++ opening ++ behind ∧ q = p.after before := by
  induction text generalizing p with
  | nil => simp [openingPoints, opening]
  | cons c rest ih =>
    have split : (∃ before behind, c :: rest = before ++ opening ++ behind ∧ q = p.after before) ↔
        (c = '<' ∧ rest.head? = some ':' ∧ q = p) ∨
          ∃ before behind, rest = before ++ opening ++ behind ∧ q = (p.advance c).after before := by
      constructor
      · rintro ⟨before, behind, whole, rfl⟩
        cases before with
        | nil =>
          obtain ⟨rfl, rfl⟩ := List.cons.inj whole
          exact .inl ⟨rfl, rfl, rfl⟩
        | cons d before =>
          obtain ⟨rfl, rfl⟩ := List.cons.inj whole
          exact .inr ⟨before, behind, rfl, rfl⟩
      · rintro (⟨rfl, colon, rfl⟩ | ⟨before, behind, rfl, rfl⟩)
        · obtain ⟨rest, rfl⟩ := List.head?_eq_some_iff.mp colon
          exact ⟨[], rest, rfl, rfl⟩
        · exact ⟨c :: before, behind, rfl, rfl⟩
    rw [split, ← ih]
    by_cases opens : c = '<' ∧ rest.head? = some ':'
    · rw [openingPoints, if_pos opens, List.mem_cons]
      simp [opens]
    · rw [openingPoints_cons opens]
      constructor
      · exact .inr
      · rintro (⟨sign, colon, _⟩ | member)
        · exact absurd ⟨sign, colon⟩ opens
        · exact member

theorem openingPoints_append {a b : List Char} (apart : Apart a b) :
    openingPoints p (a ++ b) = openingPoints p a ++ openingPoints (p.after a) b := by
  induction a generalizing p with
  | nil => rfl
  | cons c a ih =>
    rw [List.cons_append]
    by_cases opens : c = '<' ∧ a.head? = some ':'
    · obtain ⟨rfl, head⟩ := opens
      obtain ⟨a, rfl⟩ := List.head?_eq_some_iff.mp head
      rw [openingPoints, if_pos ⟨rfl, rfl⟩, openingPoints, if_pos ⟨rfl, rfl⟩, ih apart.of_cons]
      rfl
    · rw [openingPoints_cons opens, openingPoints_cons (apart.plain_append opens), ih apart.of_cons]
      rfl

theorem openingPoints_plain {text : List Char} (plain : ¬ opening <:+: text) :
    openingPoints p text = [] := by
  refine List.eq_nil_iff_forall_not_mem.mpr fun q member => ?_
  obtain ⟨before, behind, rfl, _⟩ := mem_openingPoints_iff.mp member
  exact plain ⟨before, behind, rfl⟩

/-- What is passed over in a header are its openings. -/
theorem map_warning_openingPoints (text : List Char) :
    (openingPoints p text).map Point.warning = Scan.skipped p (Scan.marks text) := by
  fun_induction Scan.marks text generalizing p with
  | case1 rest ih => rw [openingPoints_opening, List.map_cons, ih, Scan.skipped]
  | case2 c rest plain ih => rw [openingPoints_cons (plain_iff.mpr plain), ih, Scan.skipped]
  | case3 => rfl

theorem offset_of_mem_openingPoints {text : List Char} (member : q ∈ openingPoints p text) :
    p.offset ≤ q.offset ∧ q.offset < (p.after text).offset := by
  obtain ⟨before, behind, rfl, rfl⟩ := mem_openingPoints_iff.mp member
  rw [List.append_assoc, Point.after_append]
  refine ⟨Point.offset_le_after p before, ?_⟩
  rw [Point.offset_after (p.after before)]
  exact Nat.lt_add_of_pos_right (byteCount_pos (by simp [opening]))

/-! ## Openings of a page that are passed over -/

namespace Scan

variable {tag : Tag} {segments : List Segment} {warnings passed : List Warning} {text : List Char}

theorem openingPoints_header (header : List Char) :
    openingPoints p (opening ++ header ++ ['>']) = p :: openingPoints (p.after opening) header := by
  have front : opening ++ header ++ ['>'] = '<' :: ':' :: (header ++ ['>']) := rfl
  rw [front, openingPoints_opening, openingPoints_append (apart_of_head (by simp)),
    @openingPoints_plain _ ['>'] (by decide), List.append_nil]

/-- Of the openings of a header all but the first stand behind the beginning of the tag. -/
theorem filter_header {header : List Char}
    (span : tag.headerSpan = ⟨p, p.after (opening ++ header ++ ['>'])⟩) :
    ((openingPoints p (opening ++ header ++ ['>'])).filter (tag.HeaderHolds ·)).map Point.warning =
      skipped (p.after opening) (marks header) := by
  have first : ¬ tag.HeaderHolds p := by simp [Tag.HeaderHolds, span]
  have others : ∀ q ∈ openingPoints (p.after opening) header, decide (tag.HeaderHolds q) = true := by
    intro q member
    obtain ⟨low, high⟩ := offset_of_mem_openingPoints member
    have behind : p.offset < (p.after opening).offset := by
      rw [Point.offset_after]
      exact Nat.lt_add_of_pos_right (byteCount_pos (by simp [opening]))
    have ahead := Point.offset_le_after ((p.after opening).after header) ['>']
    rw [← Point.after_append, ← Point.after_append] at ahead
    simp only [Tag.HeaderHolds, span, decide_eq_true_eq]
    exact ⟨behind.trans_le low, high.trans_le (by rwa [Point.after_append] at ahead)⟩
  rw [openingPoints_header, List.filter_cons_of_neg (by simpa using first),
    List.filter_eq_self.mpr others, map_warning_openingPoints]

/-- A tag is its header and what comes behind that. -/
theorem Written.header (written : Written p tag passed text) :
    ∃ header rest, text = opening ++ header ++ ['>'] ++ rest ∧
      tag.headerSpan = ⟨p, p.after (opening ++ header ++ ['>'])⟩ ∧
      passed = skipped (p.after opening) (marks header) := by
  cases written with
  | @field reference fields header _ => exact ⟨header, [], by simp, rfl, rfl⟩
  | @loop item collection body header closer _ _ _ =>
    exact ⟨header, body.toList ++ closer, by simp, rfl, rfl⟩

theorem Written.headerStop_le (written : Written p tag passed text) :
    tag.headerSpan.stop.offset ≤ (p.after text).offset := by
  obtain ⟨header, rest, rfl, span, _⟩ := written.header
  have ahead := Point.offset_le_after (p.after (opening ++ header ++ ['>'])) rest
  rw [← Point.after_append] at ahead
  rwa [span]

theorem Written.exactly (written : Written p tag passed text) :
    ((openingPoints p text).filter (tag.HeaderHolds ·)).map Point.warning = passed := by
  obtain ⟨header, rest, rfl, span, rfl⟩ := written.header
  have none : (openingPoints (p.after (opening ++ header ++ ['>'])) rest).filter
      (tag.HeaderHolds ·) = [] := by
    refine List.filter_eq_nil_iff.mpr fun q member => ?_
    have low := (offset_of_mem_openingPoints member).1
    simp only [Tag.HeaderHolds, span, decide_eq_true_eq]
    omega
  rw [openingPoints_append (by simp [Apart]), List.filter_append, none, List.append_nil,
    filter_header span]

/-- A point in front of all tags is in the header of none. -/
theorem Reads.not_inHeader (reads : Reads p segments warnings text) (ahead : q.offset < p.offset) :
    ¬ InHeader (tags ⟨segments, warnings⟩) q := by
  rintro ⟨tag, member, low, _⟩
  obtain ⟨before, _, _, _, passed, _, _, _, written, _, _⟩ := reads.tag_mem (tag_mem_segments member)
  obtain ⟨header, rest, _, span, _⟩ := written.header
  have later := Point.offset_le_after p before
  rw [span] at low
  simp only at low
  omega

theorem Reads.exactly (reads : Reads p segments warnings text) :
    warnings = ((openingPoints p text).filter (InHeader (tags ⟨segments, warnings⟩) ·)).map
      Point.warning := by
  induction reads with
  | nil => rfl
  | @literal p literal segments warnings rest nonempty plain starts more ih =>
    have apart : Apart literal.toList rest := apart_of_head (more.head?_ne_colon starts)
    rw [openingPoints_append apart, openingPoints_plain plain, List.nil_append]
    exact ih
  | @tag p tag passed text segments warnings rest written more ih =>
    have apart : Apart text rest := by
      obtain ⟨front, rfl⟩ := written.close_suffix
      simp [Apart]
    have here : ∀ q ∈ openingPoints p text,
        decide (InHeader (tag :: tags ⟨segments, warnings⟩) q) = decide (tag.HeaderHolds q) := by
      intro q member
      have others := more.not_inHeader (offset_of_mem_openingPoints member).2
      rw [decide_eq_decide, InHeader, List.exists_mem_cons_iff]
      exact or_iff_left others
    have later : ∀ q ∈ openingPoints (p.after text) rest,
        decide (InHeader (tag :: tags ⟨segments, warnings⟩) q) =
          decide (InHeader (tags ⟨segments, warnings⟩) q) := by
      intro q member
      have low := (offset_of_mem_openingPoints member).1
      rw [decide_eq_decide, InHeader, List.exists_mem_cons_iff]
      exact or_iff_right fun held => absurd (written.headerStop_le.trans low) (Nat.not_le.mpr held.2)
    have cons : tags ⟨.tag tag :: segments, passed ++ warnings⟩ = tag :: tags ⟨segments, warnings⟩ := rfl
    rw [openingPoints_append apart, List.filter_append, List.map_append, cons, List.filter_congr here,
      List.filter_congr later, written.exactly, ← ih]

/-- No opening of a loop body is passed over. -/
theorem Reads.body_silent {item collection body : String} {bodySpan span : Span}
    (reads : Reads .start segments warnings text)
    (member : .tag ⟨.loop item collection body bodySpan, span⟩ ∈ segments)
    (inside : q ∈ openingPoints bodySpan.start body.toList) : q.warning ∉ warnings := by
  obtain ⟨before, written, behind, earlier, passed, later, rfl, rfl, writing, left, right⟩ :=
    reads.tag_mem member
  cases writing with
  | @loop item collection body header closer _ _ close =>
    obtain ⟨a, b, whole, rfl⟩ := mem_openingPoints_iff.mp inside
    intro reported
    rcases List.mem_append.mp reported with first | last
    · rcases List.mem_append.mp first with early | here
      · refine (left _ early).ne_later (opening ++ header ++ ['>'] ++ a) ?_
        simp only [Point.after_append]
      · have within := within_skipped here
        rw [text_marks] at within
        refine within.ne_later (['>'] ++ a) ?_
        simp only [Point.after_append]
    · have place : Point.start.after
          (before ++ (opening ++ header ++ ['>'] ++ body.toList ++ closer)) =
            (((Point.start.after before).after (opening ++ header ++ ['>'])).after a).after
              (opening ++ b ++ closer) := by
        simp only [whole, Point.after_append]
      have within := right _ last
      rw [place] at within
      exact within.ne_earlier (by simp [opening]) rfl

end Scan

/-! ## Strict and lenient scans -/

namespace Scan

theorem warnings_suffix (policy : NestedOpenPolicy) (p : Progress) (text : List Char) :
    p.warnings <:+ (run policy p text).1.warnings := by
  fun_induction run policy p text with
  | case1 | case5 | case10 => exact List.suffix_refl _
  | case6 p c rest state lenient step ih =>
    subst lenient
    exact List.IsSuffix.trans (List.suffix_cons _ _) ih
  | case2 _ _ _ _ _ ih | case3 _ _ _ _ _ ih | case4 _ _ _ _ _ ih | case7 _ _ _ _ _ ih
  | case8 _ _ _ _ _ _ _ ih | case9 _ _ _ _ _ _ _ _ ih => exact ih

/-- A strict run does what a lenient one does up to the first opening that this one passes over. -/
theorem run_error_of_run_warn (p : Progress) (text : List Char) :
    (run .warn p text).1.warnings = p.warnings ∧ run .error p text = run .warn p text ∨
      ∃ later w, (run .warn p text).1.warnings = later ++ w :: p.warnings ∧
        (run .error p text).2 = some (.parse w.line w.column .nestedOpen) := by
  fun_induction run .warn p text with
  | case1 p => exact .inl ⟨rfl, by rw [run]⟩
  | case2 p c rest state step ih => rwa [run_emit step]
  | case3 p c rest state step ih => rwa [run_consume step]
  | case4 p c rest state step ih =>
    obtain ⟨out, rfl, rfl, head⟩ := openTag_of_step step
    obtain ⟨rest, rfl⟩ := List.head?_eq_some_iff.mp head
    rwa [run_openTag out]
  | case5 p c rest state strict step => contradiction
  | case6 p c rest state lenient step ih =>
    obtain ⟨inside, rfl, rfl, head⟩ := nestedOpen_of_step step
    obtain ⟨rest, rfl⟩ := List.head?_eq_some_iff.mp head
    obtain ⟨later, whole⟩ := warnings_suffix .warn (p.skipOpen p.state) rest
    refine .inr ⟨later, p.place.warning, whole.symm, ?_⟩
    rw [run_nestedOpen_error inside]
    rfl
  | case7 p c rest state step ih => rwa [run_beginBody step]
  | case8 p c rest state reference fields step ih => rwa [run_completeField step]
  | case9 p c rest state item collection body step ih => rwa [run_completeLoop step]
  | case10 p c rest state fault step => exact .inl ⟨rfl, by rw [run_invalid step]⟩

end Scan

theorem reportsNested_of_scan {policy : NestedOpenPolicy} {page : List Char} {scanned : Scan}
    (h : scan policy page = .ok scanned) : scanned.ReportsNested page where
  exactly := (Scan.scan_eq_ok_iff.mp h).1.exactly
  literal member := ((Scan.scan_eq_ok_iff.mp h).1.literal_mem member).2
  body member _ inside := (Scan.scan_eq_ok_iff.mp h).1.body_silent (Scan.tag_mem_segments member) inside

/-- A strict scan comes to the same as a lenient one that meets no opening in a header, and fails
at the first one otherwise. -/
theorem strict_of_lenient (page : List Char) :
    scanWarnings .warn page = [] ∧ Scan.run .error .start page = Scan.run .warn .start page ∨
      ∃ w later, scanWarnings .warn page = w :: later ∧
        scan .error page = .error (.parse w.line w.column .nestedOpen) := by
  unfold scanWarnings
  rcases Scan.run_error_of_run_warn .start page with ⟨none, same⟩ | ⟨later, w, met, failed⟩
  · exact .inl ⟨List.reverse_eq_nil_iff.mpr none, same⟩
  · refine .inr ⟨w, later.reverse, ?_, Scan.scan_error_iff.mpr failed⟩
    rw [met]
    exact List.reverse_append

/-- The two policies come to the same but for openings in headers. A lenient scan names all of those
and nothing else; a strict one refuses a page at the first that the lenient one meets, whether this
goes on to the end or not, and where there is none both have the same answer. -/
theorem nested_open_policies (page : List Char) :
    (∀ scanned, scan .warn page = .ok scanned → scanned.ReportsNested page) ∧
    (∀ scanned, scan .error page = .ok scanned ↔
      scan .warn page = .ok scanned ∧ scanned.warnings = []) ∧
    (∀ w later, scanWarnings .warn page = w :: later →
      scan .error page = .error (.parse w.line w.column .nestedOpen)) ∧
    ∀ problem, scan .warn page = .error problem → scanWarnings .warn page = [] →
      scan .error page = .error problem := by
  refine ⟨fun _ => reportsNested_of_scan, fun scanned => ?_, fun w later first => ?_,
    fun problem failed none => ?_⟩
  · rw [Scan.scan_eq_ok_iff, Scan.scan_eq_ok_iff]
    simp
  · rcases strict_of_lenient page with ⟨none, _⟩ | ⟨_, _, met, refused⟩
    · rw [none] at first
      contradiction
    · obtain ⟨rfl, _⟩ := List.cons.inj (met.symm.trans first)
      exact refused
  · rcases strict_of_lenient page with ⟨_, same⟩ | ⟨_, _, met, _⟩
    · rw [Scan.scan_error_iff, same]
      exact Scan.scan_error_iff.mp failed
    · rw [met] at none
      contradiction

/-- Behind literal text a loop with two openings in its header and one in its body; and a tag with
none that cannot be read. -/
theorem nested_open_policies_loop :
    (∃ scanned, scan .warn "<<:for <:i<:\n : l: ><:i.a:></:>".toList = .ok scanned ∧
      scanned.warnings = [⟨1, 8⟩, ⟨1, 11⟩] ∧
      scanned.ReportsNested "<<:for <:i<:\n : l: ><:i.a:></:>".toList) ∧
    scan .error "<<:for <:i<:\n : l: ><:i.a:></:>".toList = .error (.parse 1 8 .nestedOpen) ∧
    scan .error "<: .".toList = .error (.parse 1 4 .nameBeforeDot) := by
  have scanned : scan .warn "<<:for <:i<:\n : l: ><:i.a:></:>".toList = .ok
      ⟨[.literal "<", .tag ⟨.loop "i" "l" "<:i.a:>" ⟨⟨2, 8, 20⟩, ⟨2, 15, 27⟩⟩,
        ⟨⟨1, 2, 1⟩, ⟨2, 19, 31⟩⟩⟩], [⟨1, 8⟩, ⟨1, 11⟩]⟩ := by
    with_unfolding_all rfl
  have faulty : scan .warn "<: .".toList = .error (.parse 1 4 .nameBeforeDot) := by
    with_unfolding_all rfl
  have silent : scanWarnings .warn "<: .".toList = [] := by
    with_unfolding_all rfl
  obtain ⟨reports, _, first, _⟩ := nested_open_policies "<<:for <:i<:\n : l: ><:i.a:></:>".toList
  refine ⟨⟨_, scanned, rfl, reports _ scanned⟩, ?_, ?_⟩
  · exact first ⟨1, 8⟩ _ (warnings_eq_scanWarnings scanned).symm
  · exact (nested_open_policies "<: .".toList).2.2.2 _ faulty silent

end Fieldmark
