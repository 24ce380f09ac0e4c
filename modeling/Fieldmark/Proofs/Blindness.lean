import Fieldmark.Proofs.BodyText
import Fieldmark.Proofs.Texts
import Fieldmark.Proofs.Tiling
import Fieldmark.Substitution

/-!
# Inserted text is never read

A filled page is made of scraps: stretches of the template, the line feeds between the items of a
loop, and texts of the tree (`Scrap`). Which scraps these are, or which problem there is instead,
depends on the names and shapes in the tree and on none of its texts (`Blind`, `substitute_blind`).
-/

namespace Fieldmark

/-- What a filled page is made of. -/
inductive Scrap (page : List Char) (tree : Tree) where
  | stretch (text : List Char) (inside : text <:+: page)
  /-- Between the items of a loop. -/
  | lineFeed
  | datum (content : String) (held : tree.Holds content)

variable {page : List Char} {tree : Tree}

namespace Scrap

/-- The text of a scrap once the texts of the tree are other ones. -/
def text (h : String → String) : Scrap page tree → String
  | stretch text _ => String.ofList text
  | lineFeed => "\n"
  | datum content _ => h content

/-- The text of scraps one behind the other. -/
def output (h : String → String) (scraps : List (Scrap page tree)) : String :=
  String.join (scraps.map (text h))

theorem output_cons (h : String → String) (scrap : Scrap page tree) (rest : List (Scrap page tree)) :
    output h (scrap :: rest) = scrap.text h ++ output h rest := by
  simp [output]

theorem output_append (h : String → String) (a b : List (Scrap page tree)) :
    output h (a ++ b) = output h a ++ output h b := by
  simp [output]

end Scrap

/-- An answer that is the same problem, or made of the same scraps, whatever the texts are. -/
def Blind (page : List Char) (tree : Tree) (answer : (String → String) → Except Problem String) :
    Prop :=
  ∃ result : Except Problem (List (Scrap page tree)), ∀ h, answer h = result.map (Scrap.output h)

namespace Blind

theorem error (problem : Problem) : Blind page tree fun _ => .error problem :=
  ⟨.error problem, fun _ => rfl⟩

theorem stretch {text : List Char} (inside : text <:+: page) :
    Blind page tree fun _ => .ok (String.ofList text) :=
  ⟨.ok [.stretch text inside], fun h => by simp [Except.map, Scrap.output, Scrap.text]⟩

theorem datum {content : String} (held : tree.Holds content) :
    Blind page tree fun h => .ok (h content) :=
  ⟨.ok [.datum content held], fun h => by simp [Except.map, Scrap.output, Scrap.text]⟩

theorem append {first second : (String → String) → Except Problem String}
    (blind₁ : Blind page tree first) (blind₂ : Blind page tree second) :
    Blind page tree fun h => (first h).bind fun text => (second h).map (text ++ ·) := by
  obtain ⟨result₁, answers₁⟩ := blind₁
  obtain ⟨result₂, answers₂⟩ := blind₂
  simp only [answers₁, answers₂]
  cases result₁ with
  | error problem => exact .error problem
  | ok scraps =>
    cases result₂ with
    | error problem => exact .error problem
    | ok more =>
      refine ⟨.ok (scraps ++ more), fun h => ?_⟩
      simp [Except.bind, Except.map, Scrap.output_append]

end Blind

/-! ## Fields and bodies -/

theorem resolveText_blind {value : Value} (within : value.Within tree) (label : String)
    (place : Point) (fields : List String) :
    Blind page tree fun h => (value.mapText h).resolveText label place fields := by
  induction fields generalizing value label with
  | nil =>
    cases value with
    | text content => exact .datum (within content .text)
    | document members => exact .error (.typeMismatch label "text" "a document" _ _)
    | collection items => exact .error (.typeMismatch label "text" "a collection" _ _)
  | cons field rest ih =>
    cases value with
    | text content => exact .error (.typeMismatch label "a document" "text" _ _)
    | collection items => exact .error (.typeMismatch label "a document" "a collection" _ _)
    | document members =>
      simp only [Value.mapText, Value.resolveText, Value.lookup_mapFields]
      cases found : members.lookup field with
      | none => exact .error _
      | some value => exact ih (within.field found) _

theorem fieldText_blind (reference : String) (fields : List String) (place : Point) :
    Blind page tree fun h => Tag.fieldText (tree.mapText h) reference fields place := by
  simp only [Tag.fieldText, Tree.reference_mapText]
  cases found : tree.reference reference place with
  | error problem => exact .error problem
  | ok value => exact resolveText_blind (.of_reference found) reference place fields

theorem renderPart_blind (name : String) {item : Value} (within : item.Within tree)
    {part : BodyPart} (inside : ∀ content, part = .text content → content <:+: page) :
    Blind page tree fun h => LoopBody.renderPart name (item.mapText h) (tree.mapText h) part := by
  cases part with
  | text content => exact .stretch (inside content rfl)
  | field reference fields place =>
    by_cases own : reference = name
    · simp only [LoopBody.renderPart, own, if_true]
      exact resolveText_blind within name place fields
    · simp only [LoopBody.renderPart, own, if_false]
      exact fieldText_blind reference fields place

theorem renderBody_blind (name : String) {item : Value} (within : item.Within tree)
    {parts : List BodyPart} (inside : ∀ content, .text content ∈ parts → content <:+: page) :
    Blind page tree fun h => LoopBody.render name (item.mapText h) (tree.mapText h) parts := by
  induction parts with
  | nil => exact ⟨.ok [], fun h => rfl⟩
  | cons part rest ih =>
    have front := renderPart_blind name within
      (fun content same => inside content (same ▸ List.mem_cons_self ..))
    exact front.append (ih fun content member => inside content (List.mem_cons_of_mem part member))

theorem renderItems_blind {render : (String → String) → Value → Except Problem String}
    {items : List Value} (each : ∀ item ∈ items, Blind page tree fun h => render h (item.mapText h)) :
    ∃ (scraps : List (Scrap page tree)) (problem? : Option Problem),
      ∀ h, renderItems (render h) (Value.mapItems h items) = (Scrap.output h scraps, problem?) := by
  induction items with
  | nil => exact ⟨[], none, fun h => rfl⟩
  | cons item rest ih =>
    obtain ⟨result, answers⟩ := each item (List.mem_cons_self ..)
    beta_reduce at answers
    cases result with
    | error problem =>
      refine ⟨[], some problem, fun h => ?_⟩
      rw [Value.mapItems, renderItems, answers]
      rfl
    | ok scraps =>
      cases rest with
      | nil =>
        refine ⟨scraps, none, fun h => ?_⟩
        rw [Value.mapItems, renderItems, answers]
        rfl
      | cons next rest =>
        obtain ⟨more, problem?, answers'⟩ :=
          ih fun value member => each value (List.mem_cons_of_mem item member)
        refine ⟨scraps ++ .lineFeed :: more, problem?, fun h => ?_⟩
        rw [Value.mapItems, renderItems, answers, answers']
        simp [Except.map, Value.mapItems, Scrap.output_append, Scrap.output_cons, Scrap.text,
          String.append_assoc]

/-! ## Pages -/

/-- What is written is made of the same scraps whatever the texts are, and ends the same way. -/
def BlindRendering (page : List Char) (tree : Tree)
    (rendering : (String → String) → Rendering) : Prop :=
  ∃ (scraps : List (Scrap page tree)) (events : List Event) (problem? : Option Problem),
    ∀ h, rendering h = ⟨Scrap.output h scraps, events, problem?⟩

theorem loopParts_mapText (h : String → String) (collection body : String)
    (bodyStart place : Point) :
    Tag.loopParts (tree.mapText h) collection body bodyStart place =
      (Tag.loopParts tree collection body bodyStart place).map fun (items, parts) =>
        (Value.mapItems h items, parts) := by
  unfold Tag.loopParts
  rw [Tree.reference_mapText]
  cases tree.reference collection place with
  | error problem => rfl
  | ok value =>
    simp only [Except.map, Except.bind, Value.items?_mapText]
    cases value.items? with
    | none => rfl
    | some items => cases LoopBody.parse body.toList bodyStart <;> rfl

theorem of_loopParts {collection body : String} {bodyStart place : Point} {items : List Value}
    {parts : List BodyPart}
    (h : Tag.loopParts tree collection body bodyStart place = .ok (items, parts)) :
    (∀ item ∈ items, item.Within tree) ∧ LoopBody.parse body.toList bodyStart = .ok parts := by
  unfold Tag.loopParts at h
  cases found : tree.reference collection place with
  | error problem =>
    rw [found] at h
    contradiction
  | ok value =>
    rw [found] at h
    cases value with
    | text content => contradiction
    | document members => contradiction
    | collection all =>
      cases read : LoopBody.parse body.toList bodyStart with
      | error problem =>
        simp [Except.bind, Value.items?, read, Except.map] at h
      | ok parts =>
        simp only [Except.bind, Value.items?, read, Except.map, Except.ok.injEq,
          Prod.mk.injEq] at h
        obtain ⟨rfl, rfl⟩ := h
        exact ⟨fun item member => (Value.Within.of_reference found).item member, rfl⟩

theorem renderTag_blind {tag : Tag} (cut : (Segment.tag tag).CutFrom page) :
    BlindRendering page tree fun h => tag.render (tree.mapText h) := by
  cases cut with
  | @field reference fields span =>
    obtain ⟨result, answers⟩ := @fieldText_blind page tree reference fields span.start
    simp only [BlindRendering, Tag.render, answers]
    cases result with
    | error problem => exact ⟨[], [], some problem, fun h => rfl⟩
    | ok scraps => exact ⟨scraps, _, none, fun h => rfl⟩
  | @loop item collection body bodySpan span inside =>
    simp only [BlindRendering, Tag.render, loopParts_mapText]
    cases found : Tag.loopParts tree collection body bodySpan.start span.start with
    | error problem => exact ⟨[], [], some problem, fun h => rfl⟩
    | ok loop =>
      obtain ⟨items, parts⟩ := loop
      obtain ⟨within, parsed⟩ := of_loopParts found
      have each : ∀ value ∈ items, Blind page tree fun h =>
          LoopBody.render item (value.mapText h) (tree.mapText h) parts := by
        intro value member
        refine renderBody_blind item (within value member) ?_
        exact fun content text => ((LoopBody.laid_of_parse parsed).text_isInfix text).trans inside
      obtain ⟨scraps, problem?, answers⟩ := @renderItems_blind page tree
        (fun h value => LoopBody.render item value (tree.mapText h) parts) items each
      simp only [Except.map, answers, Value.length_mapItems]
      cases problem? with
      | none => exact ⟨scraps, _, none, fun h => rfl⟩
      | some problem => exact ⟨scraps, _, some problem, fun h => rfl⟩

theorem renderSegments_blind {segments : List Segment}
    (cut : ∀ segment ∈ segments, segment.CutFrom page) :
    BlindRendering page tree fun h => renderSegments (tree.mapText h) segments := by
  induction segments with
  | nil => exact ⟨[], [], none, fun h => rfl⟩
  | cons segment rest ih =>
    have here := cut segment (List.mem_cons_self ..)
    obtain ⟨more, events', problem?', answers'⟩ :=
      ih fun other member => cut other (List.mem_cons_of_mem segment member)
    cases segment with
    | literal text =>
      cases here with
      | literal inside =>
        refine ⟨.stretch text.toList inside :: more, events', problem?', fun h => ?_⟩
        simp only [renderSegments, answers', Scrap.output_cons, Scrap.text, String.ofList_toList]
    | tag tag =>
      obtain ⟨scraps, events, problem?, answers⟩ := @renderTag_blind page tree tag here
      simp only [BlindRendering, renderSegments, answers, answers']
      cases problem? with
      | some problem => exact ⟨scraps, events, some problem, fun h => rfl⟩
      | none =>
        refine ⟨scraps ++ more, events ++ events', problem?', fun h => ?_⟩
        rw [Scrap.output_append]

theorem substitute_mapText (policy : NestedOpenPolicy) (page : List Char) (tree : Tree) :
    ∃ (events : List Event)
      (result : Except Problem (List (Scrap (Binding.strip page) tree) × List Warning)),
      ∀ h, substitute policy page (tree.mapText h) =
        ⟨events, result.map fun (scraps, warnings) => ⟨Scrap.output h scraps, warnings⟩⟩ := by
  cases scanned : scan policy (Binding.strip page) with
  | error problem =>
    simp only [substitute, scanned]
    exact ⟨_, .error problem, fun h => rfl⟩
  | ok found =>
    have reads := (Scan.scan_eq_ok_iff.mp scanned).1
    obtain ⟨scraps, events, problem?, answers⟩ := @renderSegments_blind _ tree _ reads.cutFrom
    simp only [substitute, scanned, answers]
    cases problem? with
    | some problem => exact ⟨_, .error problem, fun h => rfl⟩
    | none => exact ⟨_, .ok (scraps, found.warnings), fun h => rfl⟩

/-- Other texts in a tree lead to the same problem, or to the same page with them in the places of
the texts that were there. What is told on the way is the same. -/
theorem substitute_blind (policy : NestedOpenPolicy) (page : List Char) (tree : Tree) :
    ∃ events : List Event,
      (∃ problem, substitute policy page tree = ⟨events, .error problem⟩ ∧
        ∀ h, substitute policy page (tree.mapText h) = ⟨events, .error problem⟩) ∨
      ∃ (scraps : List (Scrap (Binding.strip page) tree)) (warnings : List Warning),
        substitute policy page tree = ⟨events, .ok ⟨Scrap.output id scraps, warnings⟩⟩ ∧
        ∀ h, substitute policy page (tree.mapText h) =
          ⟨events, .ok ⟨Scrap.output h scraps, warnings⟩⟩ := by
  obtain ⟨events, result, answers⟩ := substitute_mapText policy page tree
  have same := answers id
  rw [Tree.mapText_id] at same
  refine ⟨events, ?_⟩
  cases result with
  | error problem => exact .inl ⟨problem, same, answers⟩
  | ok found => exact .inr ⟨found.1, found.2, same, answers⟩

end Fieldmark
