import Fieldmark.Substitution
import Mathlib.Data.List.Forall2

/-!
# Writing tags to an output

A page is filled by writing one tag after the other to a single output. Here the output is passed
along and added to, part by part and item by item (`Tag.writeTo`), and what a tag adds to it is said
outright (`Tag.Adds`): the text of a field, or the bodies of a loop up to the first item that cannot
be rendered. Whatever stands in the output before, a tag puts behind it what it is rendered to,
neither more nor less (`writing_appends`).
-/

namespace Fieldmark

/-! ## The body of a loop -/

namespace LoopBody

variable {name text : String} {item : Value} {tree : Tree} {parts : List BodyPart}
  {problem : Problem}

/-- Writes a body for an item to an output of its own. -/
def writeParts (name : String) (item : Value) (tree : Tree) (output : String) :
    List BodyPart → Except Problem String
  | [] => .ok output
  | part :: rest =>
    match renderPart name item tree part with
    | .error problem => .error problem
    | .ok text => writeParts name item tree (output ++ text) rest

theorem writeParts_eq (output : String) :
    writeParts name item tree output parts = (render name item tree parts).map (output ++ ·) := by
  induction parts generalizing output with
  | nil => simp [writeParts, render, Except.map]
  | cons part rest ih =>
    rw [writeParts, render]
    cases renderPart name item tree part with
    | error problem => rfl
    | ok text =>
      simp only [ih, Except.bind]
      cases render name item tree rest with
      | error problem => rfl
      | ok more => simp [Except.map, String.append_assoc]

/-- Every part has a text, and the text of the body is all of them in order. -/
def Renders (name : String) (item : Value) (tree : Tree) (parts : List BodyPart) (text : String) :
    Prop :=
  ∃ texts, List.Forall₂ (fun part text => renderPart name item tree part = .ok text) parts texts ∧
    text = String.join texts

/-- The first part that has no text, and why it has none. -/
def FailsFirst (name : String) (item : Value) (tree : Tree) (parts : List BodyPart)
    (problem : Problem) : Prop :=
  ∃ before part behind, parts = before ++ part :: behind ∧
    (∀ earlier ∈ before, ∃ text, renderPart name item tree earlier = .ok text) ∧
    renderPart name item tree part = .error problem

theorem Renders.render (renders : Renders name item tree parts text) :
    LoopBody.render name item tree parts = .ok text := by
  obtain ⟨texts, all, rfl⟩ := renders
  induction all with
  | nil => rfl
  | cons first rest ih =>
    simp [LoopBody.render, first, ih, Except.bind, Except.map, String.join_cons]

theorem FailsFirst.render (fails : FailsFirst name item tree parts problem) :
    LoopBody.render name item tree parts = .error problem := by
  obtain ⟨before, part, behind, rfl, earlier, failed⟩ := fails
  induction before with
  | nil => simp [LoopBody.render, failed, Except.bind]
  | cons first rest ih =>
    rw [List.forall_mem_cons] at earlier
    obtain ⟨⟨text, found⟩, earlier⟩ := earlier
    simp [LoopBody.render, found, ih earlier, Except.bind, Except.map]

theorem renders_or_fails (name : String) (item : Value) (tree : Tree) (parts : List BodyPart) :
    (∃ text, Renders name item tree parts text) ∨
      ∃ problem, FailsFirst name item tree parts problem := by
  induction parts with
  | nil => exact .inl ⟨_, [], .nil, rfl⟩
  | cons part rest ih =>
    cases found : renderPart name item tree part with
    | error problem => exact .inr ⟨problem, [], part, rest, rfl, by simp, found⟩
    | ok text =>
      obtain ⟨_, texts, all, _⟩ | ⟨problem, before, failing, behind, rfl, earlier, failed⟩ := ih
      · exact .inl ⟨_, text :: texts, .cons found all, rfl⟩
      · refine .inr ⟨problem, part :: before, failing, behind, rfl, ?_, failed⟩
        exact List.forall_mem_cons.mpr ⟨⟨text, found⟩, earlier⟩

theorem render_eq_ok_iff :
    LoopBody.render name item tree parts = .ok text ↔ Renders name item tree parts text := by
  refine ⟨fun rendered => ?_, Renders.render⟩
  obtain ⟨text', renders⟩ | ⟨problem, fails⟩ := renders_or_fails name item tree parts
  · rwa [← Except.ok.inj (renders.render.symm.trans rendered)]
  · rw [fails.render] at rendered
    contradiction

theorem render_eq_error_iff :
    LoopBody.render name item tree parts = .error problem ↔
      FailsFirst name item tree parts problem := by
  refine ⟨fun failed => ?_, FailsFirst.render⟩
  obtain ⟨text, renders⟩ | ⟨problem', fails⟩ := renders_or_fails name item tree parts
  · rw [renders.render] at failed
    contradiction
  · rwa [← Except.error.inj (fails.render.symm.trans failed)]

end LoopBody

/-! ## The items of a loop -/

section

variable {render : Value → Except Problem String} {items done : List Value} {failing : Value}
  {texts : List String} {problem : Problem}

/-- Writes items to an output, each but the first behind a line feed. -/
def writeItems (render : Value → Except Problem String) (index : Nat) (output : String) :
    List Value → String × Option Problem
  | [] => (output, none)
  | item :: rest =>
    let output := if 0 < index then output.push '\n' else output
    match render item with
    | .error problem => (output, some problem)
    | .ok text => writeItems render (index + 1) (output ++ text) rest

theorem writeItems_eq (index : Nat) (output : String) :
    writeItems render index output items =
      (output ++ (if 0 < index ∧ items ≠ [] then "\n" else "") ++ (renderItems render items).1,
        (renderItems render items).2) := by
  induction items generalizing index output with
  | nil => simp [writeItems, renderItems]
  | cons item rest ih =>
    have begun : (if 0 < index then output.push '\n' else output) =
        output ++ (if 0 < index ∧ item :: rest ≠ [] then "\n" else "") := by
      by_cases behind : 0 < index
      · simp only [behind, ne_eq, reduceCtorEq, not_false_eq_true, and_self, if_true]
        rfl
      · simp [behind]
    rw [writeItems, renderItems, begun]
    cases render item with
    | error problem => simp
    | ok text =>
      simp only [ih, Nat.succ_pos, true_and]
      cases rest with
      | nil => simp [renderItems]
      | cons next rest => simp [String.append_assoc]

/-- Items that can all be rendered are joined by line feeds. -/
theorem renderItems_of_all
    (all : List.Forall₂ (fun item text => render item = .ok text) items texts) :
    renderItems render items = ("\n".intercalate texts, none) := by
  induction all with
  | nil => simp [renderItems]
  | @cons item text rest texts first others ih =>
    rw [renderItems, first]
    cases others with
    | nil => simp
    | cons second others => simp [ih, String.intercalate_cons_cons]

/-- Of the first item that cannot be rendered nothing is left but the line feed in front of it. -/
theorem renderItems_of_failing
    (all : List.Forall₂ (fun item text => render item = .ok text) done texts)
    (failed : render failing = .error problem) (later : List Value) :
    renderItems render (done ++ failing :: later) =
      ("\n".intercalate texts ++ (if done = [] then "" else "\n"), some problem) := by
  induction all with
  | nil => simp [renderItems, failed]
  | @cons item text rest texts first others ih =>
    have more : (rest ++ failing :: later).isEmpty = false := by simp
    simp only [List.cons_append, renderItems, first, more, ih, Bool.false_eq_true, if_false]
    cases others with
    | nil => simp
    | cons second others => simp [String.intercalate_cons_cons, String.append_assoc]

theorem all_or_failing (render : Value → Except Problem String) (items : List Value) :
    (∃ texts, List.Forall₂ (fun item text => render item = .ok text) items texts) ∨
      ∃ done failing later texts problem, items = done ++ failing :: later ∧
        List.Forall₂ (fun item text => render item = .ok text) done texts ∧
        render failing = .error problem := by
  induction items with
  | nil => exact .inl ⟨[], .nil⟩
  | cons item rest ih =>
    cases found : render item with
    | error problem => exact .inr ⟨[], item, rest, [], problem, rfl, .nil, found⟩
    | ok text =>
      obtain ⟨texts, all⟩ | ⟨done, failing, later, texts, problem, rfl, all, failed⟩ := ih
      · exact .inl ⟨text :: texts, .cons found all⟩
      · refine .inr ⟨item :: done, failing, later, text :: texts, problem, rfl, ?_, failed⟩
        exact .cons found all

end

/-! ## Tags -/

namespace Tag

/-- Writes a tag to an output: what is written then, and the problem that kept it from going on. -/
def writeTo (tree : Tree) (tag : Tag) (output : String) : String × Option Problem :=
  let place := tag.span.start
  match tag.content with
  | .field reference fields =>
    match fieldText tree reference fields place with
    | .error problem => (output, some problem)
    | .ok text => (output ++ text, none)
  | .loop item collection body bodySpan =>
    match loopParts tree collection body bodySpan.start place with
    | .error problem => (output, some problem)
    | .ok (items, parts) =>
      writeItems (fun value => LoopBody.writeParts item value tree "" parts) 0 output items

theorem writeTo_eq (tree : Tree) (tag : Tag) (output : String) :
    tag.writeTo tree output = (output ++ (tag.render tree).text, (tag.render tree).problem?) := by
  obtain ⟨content, span⟩ := tag
  cases content with
  | field reference fields =>
    simp only [writeTo, render]
    cases fieldText tree reference fields span.start with
    | error problem => simp
    | ok text => rfl
  | loop item collection body bodySpan =>
    simp only [writeTo, render]
    cases loopParts tree collection body bodySpan.start span.start with
    | error problem => simp
    | ok found =>
      obtain ⟨items, parts⟩ := found
      have same : (fun value => LoopBody.writeParts item value tree "" parts) =
          fun value => LoopBody.render item value tree parts := by
        funext value
        rw [LoopBody.writeParts_eq]
        cases LoopBody.render item value tree parts <;> simp [Except.map]
      simp only [same, writeItems_eq]
      rcases renderItems (fun value => LoopBody.render item value tree parts) items with
        ⟨text, _ | problem⟩
      · simp
      · simp

/-- What a tag that begins at a point adds to an output, and the problem that kept it from adding
more. -/
inductive Adds (tree : Tree) (p : Point) : Content → String → Option Problem → Prop
  /-- A field tag adds its text. -/
  | text {reference fields text} : fieldText tree reference fields p = .ok text →
    Adds tree p (.field reference fields) text none
  | noText {reference fields problem} : fieldText tree reference fields p = .error problem →
    Adds tree p (.field reference fields) "" (some problem)
  | unbound {item collection body bodySpan} : tree.get? collection = none →
    Adds tree p (.loop item collection body bodySpan) ""
      (some (.referenceNotFound collection p.line p.column))
  | noCollection {item collection body bodySpan value} : tree.get? collection = some value →
    (∀ items, value ≠ .collection items) →
    Adds tree p (.loop item collection body bodySpan) ""
      (some (.notACollection collection p.line p.column))
  | noBody {item collection body bodySpan items problem} :
    tree.get? collection = some (.collection items) →
    LoopBody.parse body.toList bodySpan.start = .error problem →
    Adds tree p (.loop item collection body bodySpan) "" (some problem)
  /-- A loop adds its body for every item, with a line feed between each two. -/
  | all {item collection body bodySpan items parts texts} :
    tree.get? collection = some (.collection items) →
    LoopBody.parse body.toList bodySpan.start = .ok parts →
    List.Forall₂ (fun value text => LoopBody.Renders item value tree parts text) items texts →
    Adds tree p (.loop item collection body bodySpan) ("\n".intercalate texts) none
  /-- Up to the first item that has no body, with a line feed behind each item in front of it. -/
  | upTo {item collection body bodySpan done failing later parts texts problem} :
    tree.get? collection = some (.collection (done ++ failing :: later)) →
    LoopBody.parse body.toList bodySpan.start = .ok parts →
    List.Forall₂ (fun value text => LoopBody.Renders item value tree parts text) done texts →
    LoopBody.FailsFirst item failing tree parts problem →
    Adds tree p (.loop item collection body bodySpan)
      ("\n".intercalate texts ++ (if done = [] then "" else "\n")) (some problem)

theorem loopParts_eq_ok {tree : Tree} {collection body : String} {bodyStart p : Point}
    {items : List Value} {parts : List BodyPart}
    (bound : tree.get? collection = some (.collection items))
    (read : LoopBody.parse body.toList bodyStart = .ok parts) :
    loopParts tree collection body bodyStart p = .ok (items, parts) := by
  simp [loopParts, Tree.reference, bound, Except.bind, Value.items?, read, Except.map]

/-- What is said of a tag is what it is rendered to. -/
theorem Adds.render {tree : Tree} {content : Content} {span : Span} {text : String}
    {problem? : Option Problem} (adds : Adds tree span.start content text problem?) :
    (Tag.render tree ⟨content, span⟩).text = text ∧
      (Tag.render tree ⟨content, span⟩).problem? = problem? := by
  cases adds with
  | text found => simp [Tag.render, found]
  | noText failed => simp [Tag.render, failed]
  | unbound absent => simp [Tag.render, loopParts, Tree.reference, absent, Except.bind]
  | @noCollection _ _ _ _ value bound other =>
    have none : value.items? = none := by
      cases value with
      | collection items => exact absurd rfl (other items)
      | text content => rfl
      | document members => rfl
    simp [Tag.render, loopParts, Tree.reference, bound, Except.bind, none]
  | noBody bound failed =>
    simp [Tag.render, loopParts, Tree.reference, bound, Except.bind, Value.items?, failed,
      Except.map]
  | all bound read all =>
    have rendered := renderItems_of_all (all.imp fun _ _ renders => renders.render)
    simp only [Tag.render, loopParts_eq_ok bound read, rendered, and_self]
  | upTo bound read all fails =>
    have rendered :=
      renderItems_of_failing (all.imp fun _ _ renders => renders.render) fails.render
    simp only [Tag.render, loopParts_eq_ok bound read, rendered, and_self]

/-- One of the things that can be said of a tag is always true. -/
theorem exists_adds (tree : Tree) (p : Point) (content : Content) :
    ∃ text problem?, Adds tree p content text problem? := by
  cases content with
  | field reference fields =>
    cases found : fieldText tree reference fields p with
    | error problem => exact ⟨_, _, .noText found⟩
    | ok text => exact ⟨_, _, .text found⟩
  | loop item collection body bodySpan =>
    cases bound : tree.get? collection with
    | none => exact ⟨_, _, .unbound bound⟩
    | some value =>
      cases value with
      | text content => exact ⟨_, _, .noCollection bound fun _ => nofun⟩
      | document members => exact ⟨_, _, .noCollection bound fun _ => nofun⟩
      | collection items =>
        cases read : LoopBody.parse body.toList bodySpan.start with
        | error problem => exact ⟨_, _, .noBody bound read⟩
        | ok parts =>
          obtain ⟨texts, all⟩ | ⟨done, failing, later, texts, problem, rfl, all, failed⟩ :=
            all_or_failing (fun value => LoopBody.render item value tree parts) items
          · exact ⟨_, _, .all bound read (all.imp fun _ _ => LoopBody.render_eq_ok_iff.mp)⟩
          · exact ⟨_, _, .upTo bound read (all.imp fun _ _ => LoopBody.render_eq_ok_iff.mp)
              (LoopBody.render_eq_error_iff.mp failed)⟩

/-- Whatever an output holds, a tag puts behind it what it is rendered to, and that is what is said
of the tag and nothing else. -/
theorem writing_appends (tree : Tree) (tag : Tag) :
    (∀ output, tag.writeTo tree output =
      (output ++ (tag.render tree).text, (tag.render tree).problem?)) ∧
    ∀ text problem?, Adds tree tag.span.start tag.content text problem? ↔
      (tag.render tree).text = text ∧ (tag.render tree).problem? = problem? := by
  refine ⟨tag.writeTo_eq tree, fun text problem? => ⟨Adds.render, ?_⟩⟩
  rintro ⟨rfl, rfl⟩
  obtain ⟨text, problem?, adds⟩ := exists_adds tree tag.span.start tag.content
  obtain ⟨sameText, sameProblem⟩ := Adds.render adds
  rwa [← sameText, ← sameProblem] at adds

end Tag

end Fieldmark
