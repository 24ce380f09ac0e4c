import Fieldmark.Proofs.Steps

/-!
# Where the scanner stops

A run that does not reach the end of its page stops in front of a character in the header of a tag
(`stops_run`). What it has read by then it reads the same way when nothing follows, so that the
page up to the character tells which tag is open (`Stop`).
-/

namespace Fieldmark

namespace Scan

variable {policy : NestedOpenPolicy} {p : Progress}

/-! ## What a step can do -/

/-- A step from one state to another, with the character read, the next one and what is made of it. -/
inductive Taken : State → Char → Option Char → State → Action → Prop
  | emit {c next} : Taken .out c next .out .emit
  | openTag : Taken .out '<' (some ':') .tagOpen .openTag
  | nestedOpen {state} : state.inHeader = true → Taken state '<' (some ':') state .nestedOpen
  | inHeader {state c next state' action} : state.inHeader = true → HeaderStep state c state' action →
    Taken state c next state' action
  | inBody {item collection body c next} : Taken (.loopBody item collection body true) c next
    (.loopBody item collection (body.push c) true) .consume
  | closeBody {item collection body c next content} : Taken (.loopBody item collection body true) c
    next .out (.completeLoop item collection content)

theorem taken_of_step {state state' : State} {c : Char} {next : Option Char} {action : Action}
    (h : step state c next = (state', action)) : Taken state c next state' action := by
  unfold step at h
  split_ifs at h with nested opens
  · obtain ⟨opens, inside⟩ := nested
    obtain ⟨rfl, rfl⟩ := opensTag_iff.mp opens
    cases h
    exact .nestedOpen inside
  · obtain ⟨opens, rfl⟩ := opens
    obtain ⟨rfl, rfl⟩ := opensTag_iff.mp opens
    cases h
    exact .openTag
  · by_cases inside : state.inHeader = true
    · have header := read_of_inHeader inside c
      rw [h] at header
      exact .inHeader inside header
    · cases state with
      | out =>
        cases h
        exact .emit
      | loopBody item collection body opened =>
        cases opened with
        | false => contradiction
        | true =>
          simp only [read] at h
          split at h
          · cases h
            exact .closeBody
          · cases h
            exact .inBody
      | _ => contradiction

theorem openTag_of_step {state state' : State} {c : Char} {next : Option Char}
    (h : step state c next = (state', .openTag)) :
    state = .out ∧ state' = .tagOpen ∧ c = '<' ∧ next = some ':' := by
  cases taken_of_step h with
  | openTag => exact ⟨rfl, rfl, rfl, rfl⟩
  | inHeader _ header => cases header

theorem nestedOpen_of_step {state state' : State} {c : Char} {next : Option Char}
    (h : step state c next = (state', .nestedOpen)) :
    state.inHeader = true ∧ state' = state ∧ c = '<' ∧ next = some ':' := by
  cases taken_of_step h with
  | nestedOpen inside => exact ⟨inside, rfl, rfl, rfl⟩
  | inHeader _ header => cases header

theorem inHeader_of_invalid {state state' : State} {c : Char} {next : Option Char} {fault : Fault}
    (h : step state c next = (state', .invalid fault)) : state.inHeader = true := by
  cases taken_of_step h with
  | inHeader inside _ => exact inside

/-- Only the opening of a tag leads into one. -/
theorem ne_out_of_step {state state' : State} {c : Char} {next : Option Char} {action : Action}
    (h : step state c next = (state', action)) (opens : action ≠ .openTag) (inside : state' ≠ .out) :
    state ≠ .out := by
  rintro rfl
  cases taken_of_step h with
  | emit => contradiction
  | openTag => contradiction
  | nestedOpen header => contradiction
  | inHeader header _ => contradiction

/-- A step that takes one character does not depend on the characters further on. -/
theorem step_of_seen {state state' : State} {action : Action} {c : Char} {seen rest : List Char}
    (h : step state c rest.head? = (state', action)) (opens : action ≠ .openTag)
    (nested : action ≠ .nestedOpen) (inside : seen <+: rest) :
    step state c seen.head? = (state', action) := by
  cases seen with
  | cons d seen =>
    obtain ⟨more, rfl⟩ := inside
    exact h
  | nil =>
    rw [List.head?_nil, step_plain (by simp)]
    unfold step at h
    split_ifs at h
    · cases h
      contradiction
    · cases h
      contradiction
    · exact h

/-! ## Stops -/

/-- Past a text and no further, with the tag that is open there, if one is: the one that was open
before, or one that opens in the text where the scanner was outside of tags. -/
structure Stop (policy : NestedOpenPolicy) (p : Progress) (seen : List Char) (q : Progress) : Prop where
  ran : run policy p seen = (q, q.state.unfinished?.map (problemAt q.tagStart))
  place : q.place = p.place.after seen
  tag : q.state ≠ .out → (p.state ≠ .out ∧ q.tagStart = p.tagStart) ∨
    ∃ before behind r, seen = before ++ opening ++ behind ∧ run policy p before = (r, none) ∧
      q.tagStart = p.place.after before

/-- A run over a text stops at its end or in front of a character of a header. -/
def Stops (policy : NestedOpenPolicy) (p : Progress) (text : List Char) : Prop :=
  ∃ seen rest q, text = seen ++ rest ∧ Stop policy p seen q ∧
    (rest = [] ∨ rest ≠ [] ∧ q.state.inHeader = true ∧
      ∃ fault, run policy p text = (q, some (problemAt q.place fault)))

theorem Stop.refl (policy : NestedOpenPolicy) (p : Progress) : Stop policy p [] p :=
  ⟨by rw [run], rfl, fun inside => .inl ⟨inside, rfl⟩⟩

/-- In front of a character that cannot stand in a header. -/
theorem stops_here {c : Char} {rest : List Char} {fault : Fault} (inside : p.state.inHeader = true)
    (ran : run policy p (c :: rest) = (p, some (problemAt p.place fault))) :
    Stops policy p (c :: rest) :=
  ⟨[], c :: rest, p, rfl, .refl policy p, .inr ⟨by simp, inside, fault, ran⟩⟩

/-- A run over a text goes on where it comes to behind the front of it. -/
theorem Stops.append {p' : Progress} {front rest : List Char} (stops : Stops policy p' rest)
    (go : ∀ seen, seen <+: rest → run policy p (front ++ seen) = run policy p' seen)
    (place : p'.place = p.place.after front)
    (tag : p'.state ≠ .out → (p.state ≠ .out ∧ p'.tagStart = p.tagStart) ∨
      p.state = .out ∧ front = opening ∧ p'.tagStart = p.place) :
    Stops policy p (front ++ rest) := by
  obtain ⟨seen, rest, q, rfl, stop, reason⟩ := stops
  refine ⟨front ++ seen, rest, q, by simp, ⟨?_, ?_, ?_⟩, ?_⟩
  · rw [go seen (List.prefix_append ..), stop.ran]
  · rw [stop.place, place, Point.after_append]
  · intro inside
    rcases stop.tag inside with ⟨inside', same⟩ | ⟨before, behind, r, rfl, ran, start⟩
    · rcases tag inside' with ⟨still, start⟩ | ⟨out, rfl, start⟩
      · exact .inl ⟨still, same.trans start⟩
      · refine .inr ⟨[], seen, p, rfl, ?_, same.trans start⟩
        rw [run, out]
        rfl
    · refine .inr ⟨front ++ before, behind, r, by simp, ?_, ?_⟩
      · rw [go before (by simp [List.append_assoc]), ran]
      · rw [start, place, Point.after_append]
  · rw [go _ (List.prefix_refl _)]
    exact reason

theorem Stops.cons {p' : Progress} {c : Char} {rest : List Char} (stops : Stops policy p' rest)
    (go : ∀ seen, seen <+: rest → run policy p (c :: seen) = run policy p' seen)
    (place : p'.place = p.place.advance c)
    (tag : p'.state ≠ .out → p.state ≠ .out ∧ p'.tagStart = p.tagStart) : Stops policy p (c :: rest) :=
  @Stops.append policy p p' [c] rest stops go place fun inside => .inl (tag inside)

theorem stops_run (policy : NestedOpenPolicy) (p : Progress) (text : List Char) :
    Stops policy p text := by
  fun_induction run policy p text with
  | case1 p => exact ⟨[], [], p, rfl, .refl policy p, .inl rfl⟩
  | case2 p c rest state step ih =>
    refine ih.cons (fun seen inside => ?_) rfl fun inside => ⟨ne_out_of_step step (by simp) inside, rfl⟩
    exact run_emit (step_of_seen step (by simp) (by simp) inside)
  | case3 p c rest state step ih =>
    refine ih.cons (fun seen inside => ?_) rfl fun inside => ⟨ne_out_of_step step (by simp) inside, rfl⟩
    exact run_consume (step_of_seen step (by simp) (by simp) inside)
  | case4 p c rest state step ih =>
    obtain ⟨out, rfl, rfl, head⟩ := openTag_of_step step
    obtain ⟨rest, rfl⟩ := List.head?_eq_some_iff.mp head
    exact @Stops.append policy p _ opening rest ih (fun seen _ => run_openTag out) rfl
      fun _ => .inr ⟨out, rfl, rfl⟩
  | case5 p c rest state strict step =>
    subst strict
    obtain ⟨inside, rfl, rfl, head⟩ := nestedOpen_of_step step
    obtain ⟨rest, rfl⟩ := List.head?_eq_some_iff.mp head
    exact stops_here inside (run_nestedOpen_error inside)
  | case6 p c rest state lenient step ih =>
    subst lenient
    obtain ⟨inside, rfl, rfl, head⟩ := nestedOpen_of_step step
    obtain ⟨rest, rfl⟩ := List.head?_eq_some_iff.mp head
    exact @Stops.append .warn p _ opening rest ih (fun seen _ => run_nestedOpen_warn inside) rfl
      fun inside => .inl ⟨inside, rfl⟩
  | case7 p c rest state step ih =>
    refine ih.cons (fun seen inside => ?_) rfl fun inside => ⟨ne_out_of_step step (by simp) inside, rfl⟩
    exact run_beginBody (step_of_seen step (by simp) (by simp) inside)
  | case8 p c rest state reference fields step ih =>
    refine ih.cons (fun seen inside => ?_) rfl fun inside => ⟨ne_out_of_step step (by simp) inside, rfl⟩
    exact run_completeField (step_of_seen step (by simp) (by simp) inside)
  | case9 p c rest state item collection body step ih =>
    refine ih.cons (fun seen inside => ?_) rfl fun inside => ⟨ne_out_of_step step (by simp) inside, rfl⟩
    exact run_completeLoop (step_of_seen step (by simp) (by simp) inside)
  | case10 p c rest state fault step =>
    exact stops_here (inHeader_of_invalid step) (run_invalid step)

/-! ## What a scan comes to -/

theorem scan_ok_iff {page : List Char} :
    (∃ scanned, scan policy page = .ok scanned) ↔ (run policy .start page).2 = none := by
  unfold scan
  split
  · rename_i q ran
    simp [ran]
  · rename_i q problem ran
    simp [ran]

theorem scan_error_iff {page : List Char} {problem : Problem} :
    scan policy page = .error problem ↔ (run policy .start page).2 = some problem := by
  unfold scan
  split
  · rename_i q ran
    simp [ran]
  · rename_i q other ran
    simp [ran]

end Scan

end Fieldmark
