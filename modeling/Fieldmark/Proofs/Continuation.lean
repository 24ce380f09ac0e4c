import Fieldmark.Proofs.Truthful

/-!
# Pages that go on

What the scanner has read of a page it has read for good: with more text behind it a run goes on
where it has come to (`run_append`). So a page that ends within a tag has a completion, and a page
with anything else wrong stays wrong in the same place however it goes on (`scan_error_final`). One
character of foresight makes the one exception, a last `<` that may yet become an opening.
-/

namespace Fieldmark

/-- A tag that a page leaves open. -/
def Fault.IsUnfinished (fault : Fault) : Prop :=
  fault = .unterminatedTag ∨ fault = .unterminatedLoop

instance : DecidablePred Fault.IsUnfinished := fun fault =>
  inferInstanceAs (Decidable (fault = .unterminatedTag ∨ fault = .unterminatedLoop))

namespace Scan

variable {policy : NestedOpenPolicy} {p : Progress}

/-! ## More text behind a run -/

theorem apart_last {c : Char} {rest more : List Char} (apart : Apart (c :: rest) more)
    (none : rest = []) : Apart [c] more := none ▸ apart

/-- What comes behind a text changes no step in it, unless it makes an opening of a last `<`. -/
theorem step_append {state state' : State} {action : Action} {c : Char} {rest more : List Char}
    (h : step state c rest.head? = (state', action)) (apart : rest = [] → Apart [c] more) :
    step state c (rest ++ more).head? = (state', action) := by
  cases rest with
  | cons d rest => exact h
  | nil =>
    rw [List.head?_nil, step_plain (by simp)] at h
    rw [List.nil_append, step_plain (apart_singleton.mp (apart rfl)), h]

theorem place_ne_after (p : Point) {text : List Char} (nonempty : text ≠ []) : p ≠ p.after text := by
  intro same
  have forward := Point.before_after p nonempty
  rw [← same] at forward
  unfold Point.Before at forward
  omega

/-- A run that comes to the end of a text goes on from there. -/
theorem run_append {text more : List Char}
    (place : (run policy p text).1.place = p.place.after text) (apart : Apart text more) :
    run policy p (text ++ more) = run policy (run policy p text).1 more := by
  fun_induction run policy p text with
  | case1 p => rfl
  | case2 p c rest state step ih =>
    rw [List.cons_append, run_emit (step_append step (apart_last apart)), ih place apart.of_cons]
  | case3 p c rest state step ih =>
    rw [List.cons_append, run_consume (step_append step (apart_last apart)), ih place apart.of_cons]
  | case4 p c rest state step ih =>
    obtain ⟨out, rfl, rfl, head⟩ := openTag_of_step step
    obtain ⟨rest, rfl⟩ := List.head?_eq_some_iff.mp head
    rw [List.cons_append, List.cons_append, run_openTag out]
    exact ih place apart.of_cons.of_cons
  | case5 p c rest state strict step => exact absurd place (place_ne_after _ (by simp))
  | case6 p c rest state lenient step ih =>
    subst lenient
    obtain ⟨inside, rfl, rfl, head⟩ := nestedOpen_of_step step
    obtain ⟨rest, rfl⟩ := List.head?_eq_some_iff.mp head
    rw [List.cons_append, List.cons_append, run_nestedOpen_warn inside]
    exact ih place apart.of_cons.of_cons
  | case7 p c rest state step ih =>
    rw [List.cons_append, run_beginBody (step_append step (apart_last apart)),
      ih place apart.of_cons]
  | case8 p c rest state reference fields step ih =>
    rw [List.cons_append, run_completeField (step_append step (apart_last apart)),
      ih place apart.of_cons]
  | case9 p c rest state item collection body step ih =>
    rw [List.cons_append, run_completeLoop (step_append step (apart_last apart)),
      ih place apart.of_cons]
  | case10 p c rest state fault step => exact absurd place (place_ne_after _ (by simp))

/-! ## Where a run halts -/

/-- What cannot stand in a header is a fault of its own. -/
theorem not_isUnfinished_of_read {state : State} {c : Char} {fault : Fault} :
    (read state c).2 = .invalid fault → ¬ fault.IsUnfinished := by
  cases state with
  | out => rintro ⟨⟩
  | loopBody item collection body opened =>
    cases opened with
    | false =>
      simp only [read]
      split_ifs <;> rintro ⟨⟩
      simp [Fault.IsUnfinished]
    | true =>
      simp only [read]
      split <;> rintro ⟨⟩
  | _ =>
    simp only [read]
    split_ifs <;> rintro ⟨⟩ <;> simp [Fault.IsUnfinished]

theorem not_isUnfinished_of_step {state state' : State} {c : Char} {next : Option Char} {fault : Fault}
    (h : step state c next = (state', .invalid fault)) : ¬ fault.IsUnfinished := by
  unfold step at h
  split_ifs at h
  · cases h
  · cases h
  · exact not_isUnfinished_of_read (congrArg Prod.snd h)

/-- A run over a text ends behind it, or in front of a character that cannot stand where it does,
whatever comes behind the text. -/
inductive Halts (policy : NestedOpenPolicy) (p : Progress) (text : List Char) : Prop
  | behind : (run policy p text).1.place = p.place.after text →
    (run policy p text).2 =
      (run policy p text).1.state.unfinished?.map (problemAt (run policy p text).1.tagStart) →
    Halts policy p text
  | before {front c rest fault} : text = front ++ c :: rest → ¬ fault.IsUnfinished →
    (∀ more, (rest = [] → Apart [c] more) →
      (run policy p (text ++ more)).2 = some (problemAt (p.place.after front) fault)) →
    Halts policy p text

/-- A run halts where it does past the front of its text. -/
theorem Halts.append {p' : Progress} {front rest : List Char} (halts : Halts policy p' rest)
    (go : ∀ more, (rest = [] → more = []) →
      run policy p (front ++ (rest ++ more)) = run policy p' (rest ++ more))
    (place : p'.place = p.place.after front) : Halts policy p (front ++ rest) := by
  cases halts with
  | behind stop reason =>
    have ran : run policy p (front ++ rest) = run policy p' rest := by
      simpa using go [] fun _ => rfl
    refine .behind ?_ (by rw [ran, reason])
    rw [ran, stop, place, Point.after_append]
  | @before front' c rest' fault whole own stuck =>
    subst whole
    refine @Halts.before _ _ _ (front ++ front') _ _ _ (List.append_assoc ..).symm own fun more apart => ?_
    rw [List.append_assoc, go more (by simp), stuck more apart, place, Point.after_append]

theorem Halts.cons {p' : Progress} {c : Char} {rest : List Char} (halts : Halts policy p' rest)
    (go : ∀ more, (rest = [] → Apart [c] more) →
      run policy p (c :: (rest ++ more)) = run policy p' (rest ++ more))
    (place : p'.place = p.place.advance c) : Halts policy p (c :: rest) :=
  @Halts.append policy p p' [c] rest halts
    (fun more last => go more fun none => apart_of_head (by rw [last none]; simp)) place

theorem halts_here {c : Char} {rest : List Char} {fault : Fault} (own : ¬ fault.IsUnfinished)
    (stuck : ∀ more, (rest = [] → Apart [c] more) →
      run policy p (c :: (rest ++ more)) = (p, some (problemAt p.place fault))) :
    Halts policy p (c :: rest) :=
  @Halts.before _ _ _ [] _ _ _ rfl own fun more apart => by rw [List.cons_append, stuck more apart]; rfl

theorem halts_run (policy : NestedOpenPolicy) (p : Progress) (text : List Char) :
    Halts policy p text := by
  fun_induction run policy p text with
  | case1 p => exact .behind (by rw [run]; rfl) (by rw [run])
  | case2 p c rest state step ih =>
    exact ih.cons (fun more apart => run_emit (step_append step apart)) rfl
  | case3 p c rest state step ih =>
    exact ih.cons (fun more apart => run_consume (step_append step apart)) rfl
  | case4 p c rest state step ih =>
    obtain ⟨out, rfl, rfl, head⟩ := openTag_of_step step
    obtain ⟨rest, rfl⟩ := List.head?_eq_some_iff.mp head
    exact @Halts.append policy p _ opening rest ih (fun more _ => run_openTag out) rfl
  | case5 p c rest state strict step =>
    subst strict
    obtain ⟨inside, rfl, rfl, head⟩ := nestedOpen_of_step step
    obtain ⟨rest, rfl⟩ := List.head?_eq_some_iff.mp head
    exact halts_here (by decide) fun more _ => run_nestedOpen_error inside
  | case6 p c rest state lenient step ih =>
    subst lenient
    obtain ⟨inside, rfl, rfl, head⟩ := nestedOpen_of_step step
    obtain ⟨rest, rfl⟩ := List.head?_eq_some_iff.mp head
    exact @Halts.append .warn p _ opening rest ih (fun more _ => run_nestedOpen_warn inside) rfl
  | case7 p c rest state step ih =>
    exact ih.cons (fun more apart => run_beginBody (step_append step apart)) rfl
  | case8 p c rest state reference fields step ih =>
    exact ih.cons (fun more apart => run_completeField (step_append step apart)) rfl
  | case9 p c rest state item collection body step ih =>
    exact ih.cons (fun more apart => run_completeLoop (step_append step apart)) rfl
  | case10 p c rest state fault step =>
    exact halts_here (not_isUnfinished_of_step step) fun more apart =>
      run_invalid (step_append step apart)

/-! ## Bringing a tag to its end -/

/-- Text that takes a header on to its last `>`. -/
def State.headerRest : State → List Char
  | .tagOpen => ['a', '.', 'a', ':']
  | .name _ => ['.', 'a', ':']
  | .field _ _ _ => ['a', ':']
  | .loopVariable _ => ['a', ' ', 'a', ' ', 'a', ':']
  | .loopSeparator _ _ => ['a', ' ', 'a', ':']
  | .loopCollection _ _ => ['a', ':']
  | _ => []

/-- Text that takes a page out of the tag in which it ends. Behind a field tag the end of a loop is
literal text. -/
def State.completion (state : State) : List Char :=
  if state.inHeader then state.headerRest ++ '>' :: (loopClose ++ ['>'])
  else if state = .out then []
  else loopClose ++ ['>']

/-- A header that lacks its `>` and nothing else. -/
inductive State.AwaitsClose : State → Prop
  | field {reference fields} : AwaitsClose (.tagEnd reference fields)
  | loop {item collection body} : AwaitsClose (.loopBody item collection body false)

theorem follow?_headerRest {state : State} (inside : state.inHeader = true) :
    ∃ last, state.follow? (marks state.headerRest) = some last ∧ last.AwaitsClose := by
  have letter : isBlank 'a' = false := by decide
  have blank : isBlank ' ' = true := by decide
  cases state with
  | out => contradiction
  | tagOpen =>
    refine ⟨.tagEnd "a" ["a"], ?_, .field⟩
    rfl
  | name token =>
    refine ⟨.tagEnd token ["a"], ?_, .field⟩
    simp [State.headerRest, marks_cons, State.follow?, read, isBlank_dot, isBlank_colon, letter]
  | field reference fields segment =>
    refine ⟨.tagEnd reference (fields ++ [segment.push 'a']), ?_, .field⟩
    simp [State.headerRest, marks_cons, State.follow?, read, isBlank_colon, letter]
  | tagEnd reference fields => exact ⟨_, rfl, .field⟩
  | loopVariable item =>
    refine ⟨.loopBody (item.push 'a') "a" "" false, ?_, .loop⟩
    simp [State.headerRest, marks_cons, State.follow?, read, isBlank_colon, letter, blank]
  | loopSeparator item separator =>
    refine ⟨.loopBody item "a" "" false, ?_, .loop⟩
    simp [State.headerRest, marks_cons, State.follow?, read, isBlank_colon, letter, blank]
  | loopCollection item collection =>
    refine ⟨.loopBody item (collection.push 'a') "" false, ?_, .loop⟩
    simp [State.headerRest, marks_cons, State.follow?, read, isBlank_colon, letter]
  | loopBody item collection body opened =>
    cases opened with
    | true => contradiction
    | false => exact ⟨_, rfl, .loop⟩

theorem headerRest_plain (state : State) : ¬ opening <:+: state.headerRest := by
  intro inside
  have sign := inside.mem (show '<' ∈ opening by decide)
  cases state <;> simp [State.headerRest] at sign

/-- A loop ends right behind its body whatever that is. -/
theorem run_loopClose {item collection body : String}
    (inside : p.state = .loopBody item collection body true) :
    (run policy p (loopClose ++ ['>'])).2 = none := by
  have closed : closedBody? (((body.push '<').push '/').push ':').toList = some body.toList :=
    closedBody?_eq_some_iff.mpr ⟨[], by simp [IsBlanks], by simp [loopClose]⟩
  have text : loopClose ++ ['>'] = ['<', '/', ':', '>'] := rfl
  have first : step p.state '<' (some '/') = (.loopBody item collection (body.push '<') true, .consume) := by
    rw [inside, step_body, read_body (by simp)]
  rw [text, run_consume first, run_consume (step_body.trans (read_body (by simp))),
    run_consume (step_body.trans (read_body (by simp))),
    run_completeLoop (step_body.trans (read_body_close closed)), run]
  rfl

theorem run_awaitsClose {last : State} (awaits : last.AwaitsClose) (here : p.state = last) :
    (run policy p ('>' :: (loopClose ++ ['>']))).2 = none := by
  cases awaits with
  | @field reference fields =>
    have plain : ¬ opening <:+: loopClose ++ ['>'] := by decide
    have close : step p.state '>' (some '<') = (.out, .completeField reference fields) := by
      rw [here, step_plain (by simp)]
      rfl
    rw [run_completeField close, ← List.append_nil (loopClose ++ ['>']),
      run_literal rfl plain (apart_of_head (by simp)), run]
    rfl
  | @loop item collection body =>
    have close : step p.state '>' (some '<') =
        (.loopBody item collection body true, .beginBody) := by
      rw [here, step_plain (by simp)]
      rfl
    rw [run_beginBody close]
    exact run_loopClose rfl

theorem run_completion (policy : NestedOpenPolicy) (p : Progress) :
    (run policy p p.state.completion).2 = none := by
  unfold State.completion
  split_ifs with inside out
  · obtain ⟨last, follow, awaits⟩ := follow?_headerRest inside
    have silent : skipped p.place (marks p.state.headerRest) = [] := by
      rw [marks_eq_map (headerRest_plain p.state), skipped_map_char]
    rw [run_header inside follow (apart_of_head (by simp)) fun _ => silent]
    exact run_awaitsClose awaits rfl
  · rw [run, out]
    rfl
  · cases state : p.state with
    | out => exact absurd state out
    | loopBody item collection body opened =>
      cases opened with
      | true => exact run_loopClose state
      | false => exact absurd (by rw [state]; rfl) inside
    | _ => exact absurd (by rw [state]; rfl) inside

theorem completion_head?_ne_colon (state : State) : state.completion.head? ≠ some ':' := by
  cases state with
  | loopBody item collection body opened =>
    cases opened <;> simp [State.completion, State.inHeader, State.headerRest, loopClose]
  | _ => simp [State.completion, State.inHeader, State.headerRest]

/-! ## Pages -/

variable {page : List Char}

/-- The last of the openings that begin a tag. The page can be scanned as far as that, and no
further up to another opening. -/
def LastOpening (policy : NestedOpenPolicy) (page : List Char) (p : Point) : Prop :=
  ∃ before behind, page = before ++ opening ++ behind ∧ p = Point.start.after before ∧
    (∃ scanned, scan policy before = .ok scanned) ∧
    ∀ later rest, page = later ++ opening ++ rest → (∃ scanned, scan policy later = .ok scanned) →
      later.length ≤ before.length

theorem eq_out_of_unfinished? {state : State} (h : state.unfinished? = none) : state = .out := by
  cases state with
  | out => rfl
  | loopBody item collection body opened => cases opened <;> contradiction
  | _ => contradiction

/-- A run without a problem ends behind its text and outside of tags. -/
theorem behind_of_none {text : List Char} (ran : (run policy p text).2 = none) :
    (run policy p text).1.place = p.place.after text ∧ (run policy p text).1.state = .out := by
  cases halts_run policy p text with
  | behind stop reason =>
    rw [reason, Option.map_eq_none_iff] at ran
    exact ⟨stop, eq_out_of_unfinished? ran⟩
  | before _ _ stuck =>
    have failed := stuck [] fun _ => apart_of_head (by simp)
    rw [List.append_nil, ran] at failed
    contradiction

/-- The tag that is open behind a text was open before it, or opens in it. -/
theorem tagStart_of_behind {text : List Char}
    (place : (run policy p text).1.place = p.place.after text)
    (inside : (run policy p text).1.state ≠ .out) :
    p.state ≠ .out ∧ (run policy p text).1.tagStart = p.tagStart ∨
      ∃ before behind, text = before ++ opening ++ behind ∧ (run policy p before).2 = none ∧
        (run policy p text).1.tagStart = p.place.after before := by
  obtain ⟨seen, rest, q, rfl, stop, reason⟩ := stops_run policy p text
  rcases reason with rfl | ⟨nonempty, _, fault, failed⟩
  · rw [List.append_nil, stop.ran] at inside ⊢
    refine (stop.tag inside).imp_right ?_
    rintro ⟨before, behind, r, rfl, earlier, start⟩
    exact ⟨before, behind, rfl, by rw [earlier], start⟩
  · rw [failed, stop.place, Point.after_append] at place
    exact absurd place (place_ne_after _ nonempty)

theorem length_le_of_byteCount_le {a b : List Char} (first : a <+: page) (second : b <+: page)
    (count : byteCount b ≤ byteCount a) : b.length ≤ a.length := by
  by_contra longer
  obtain ⟨more, rfl⟩ := List.prefix_of_prefix_length_le first second (by omega)
  have some : more ≠ [] := by
    rintro rfl
    simp at longer
  have := byteCount_pos some
  rw [byteCount_append] at count
  omega

/-- A tag that is open behind an opening begins there or further on. -/
theorem offset_le_tagStart {rest : List Char}
    (place : (run policy (p.openTag .tagOpen) rest).1.place = (p.openTag .tagOpen).place.after rest)
    (inside : (run policy (p.openTag .tagOpen) rest).1.state ≠ .out) :
    p.place.offset ≤ (run policy (p.openTag .tagOpen) rest).1.tagStart.offset := by
  rcases tagStart_of_behind place inside with ⟨_, same⟩ | ⟨front, _, _, _, further⟩
  · rw [same]
    exact le_rfl
  · rw [further]
    exact (Point.offset_le_after _ opening).trans (Point.offset_le_after _ front)

/-- The tag in which a page ends is the last one that opens in it. -/
theorem lastOpening_tagStart (place : (run policy .start page).1.place = Point.start.after page)
    (inside : (run policy .start page).1.state ≠ .out) :
    LastOpening policy page (run policy .start page).1.tagStart := by
  rcases tagStart_of_behind place inside with ⟨out, _⟩ | ⟨before, behind, whole, settled, start⟩
  · exact absurd rfl out
  refine ⟨before, behind, whole, start, scan_ok_iff.mpr settled, fun later rest whole' ok => ?_⟩
  obtain ⟨there, out⟩ := behind_of_none (scan_ok_iff.mp ok)
  generalize ran : (run policy .start later).1 = q at there out
  have onward : run policy .start page = run policy (q.openTag .tagOpen) rest := by
    rw [whole', List.append_assoc, run_append (ran ▸ there) (apart_of_head (by simp [opening])), ran,
      ← run_openTag out]
    rfl
  have offset : q.place.offset ≤ (run policy .start page).1.tagStart.offset := by
    rw [onward] at inside place ⊢
    refine offset_le_tagStart ?_ inside
    rw [place, whole', Point.after_append, Point.after_append, Progress.openTag, there]
    rfl
  refine @length_le_of_byteCount_le page _ _ ?_ ?_ ?_
  · exact ⟨opening ++ behind, by rw [whole, List.append_assoc]⟩
  · exact ⟨opening ++ rest, by rw [whole', List.append_assoc]⟩
  · rw [start, there, Point.offset_after, Point.offset_after] at offset
    exact Nat.add_le_add_iff_left.mp offset

theorem completion_of_behind (place : (run policy .start page).1.place = Point.start.after page) :
    ∃ more completed, scan policy (page ++ more) = .ok completed := by
  refine ⟨(run policy .start page).1.state.completion, scan_ok_iff.mpr ?_⟩
  rw [run_append place (apart_of_head (completion_head?_ne_colon _))]
  exact run_completion policy _

end Scan

/-- A page that cannot be scanned either ends within a tag, the last one that opens in it, and then
some text behind it completes it; or there is a character in it that cannot stand where it does, and
then the page fails there in the same way whatever comes behind it. Only a `<` at the very end may
still become the beginning of an opening. -/
theorem scan_error_final {policy : NestedOpenPolicy} {page : List Char} {problem : Problem}
    (h : scan policy page = .error problem) :
    ∃ p fault, problem = Scan.problemAt p fault ∧
      (fault.IsUnfinished → Scan.LastOpening policy page p ∧
        ∃ more completed, scan policy (page ++ more) = .ok completed) ∧
      (¬ fault.IsUnfinished → ∃ before c behind, page = before ++ c :: behind ∧
        p = Point.start.after before ∧
        ∀ more, ¬ (c = '<' ∧ behind = [] ∧ more.head? = some ':') →
          scan policy (page ++ more) = .error problem) := by
  have ran := Scan.scan_error_iff.mp h
  cases Scan.halts_run policy .start page with
  | behind place reason =>
    rw [reason] at ran
    obtain ⟨fault, unfinished, rfl⟩ := Option.map_eq_some_iff.mp ran
    obtain ⟨inside, open'⟩ := Scan.fault_of_unfinished? unfinished
    exact ⟨_, fault, rfl, fun _ => ⟨Scan.lastOpening_tagStart place inside,
      Scan.completion_of_behind place⟩, absurd open'⟩
  | @before front c rest fault whole own stuck =>
    have failed := stuck [] fun _ => apart_of_head (by simp)
    rw [List.append_nil, ran] at failed
    obtain rfl := Option.some.inj failed
    refine ⟨_, fault, rfl, fun open' => absurd open' own, fun _ => ⟨front, c, rest, whole, rfl, ?_⟩⟩
    intro more plain
    refine Scan.scan_error_iff.mpr (stuck more fun last => apart_singleton.mpr ?_)
    exact fun ⟨sign, colon⟩ => plain ⟨sign, last, colon⟩

/-- A page that ends within the path of a tag, right behind a `<`, and one with a dot in front of a
reference. -/
theorem scan_error_final_either :
    (∃ more completed, scan .error ("é<:a.b<".toList ++ more) = .ok completed) ∧
      ∀ more, scan .warn ("é<:.".toList ++ more) = .error (.parse 1 4 .nameBeforeDot) := by
  have unfinished : scan .error "é<:a.b<".toList = .error (.parse 1 2 .unterminatedTag) := by
    with_unfolding_all rfl
  have faulty : scan .warn "é<:.".toList = .error (.parse 1 4 .nameBeforeDot) := by
    with_unfolding_all rfl
  constructor
  · obtain ⟨p, fault, same, completes, _⟩ := scan_error_final unfinished
    obtain ⟨_, _, rfl⟩ := Problem.parse.inj same
    exact (completes (.inl rfl)).2
  · obtain ⟨p, fault, same, _, final⟩ := scan_error_final faulty
    obtain ⟨_, _, rfl⟩ := Problem.parse.inj same
    obtain ⟨before, c, behind, whole, _, stays⟩ := final (by decide)
    refine fun more => stays more ?_
    rintro ⟨rfl, rfl, _⟩
    have last := congrArg List.getLast? whole
    rw [List.getLast?_concat] at last
    exact absurd last (by decide)

example : scan .warn "<:a.b:<".toList = .error (.parse 1 7 .closeOfTag) ∧
    scan .warn "<:a.b:<:>".toList =
      .ok ⟨[.tag ⟨.field "a" ["b"], ⟨⟨1, 1, 0⟩, ⟨1, 10, 9⟩⟩⟩], [⟨1, 7⟩]⟩ := by
  with_unfolding_all exact ⟨rfl, rfl⟩

end Fieldmark
