import Fieldmark.Binding
import Fieldmark.Event
import Fieldmark.LoopBody

/-!
# Substitution

Puts data into a page: bindings are removed, the rest is scanned once, and every tag gives way to
its text. Output only grows, and inserted text is never read again. Where a tag cannot be
rendered, its `Rendering` holds what was written before the problem.
-/

namespace Fieldmark

/-- What a tag adds to a page, and the problem that kept it from adding more. -/
structure Rendering where
  text : String
  events : List Event
  problem? : Option Problem
  deriving DecidableEq, Repr

/-- The renderings of the items of a collection, joined by line feeds, up to the first that fails.
The line feed before an item is written whether or not the item can be rendered. -/
def renderItems (render : Value → Except Problem String) : List Value → String × Option Problem
  | [] => ("", none)
  | item :: rest =>
    match render item with
    | .error problem => ("", some problem)
    | .ok text =>
      if rest.isEmpty then (text, none)
      else
        let (more, problem?) := renderItems render rest
        (text ++ "\n" ++ more, problem?)

namespace Tag

/-- The text of a field tag. -/
def fieldText (tree : Tree) (reference : String) (fields : List String) (place : Point) :
    Except Problem String :=
  (tree.reference reference place).bind fun value => value.resolveText reference place fields

/-- The items and the parts of the body of a loop. -/
def loopParts (tree : Tree) (collection body : String) (bodyStart place : Point) :
    Except Problem (List Value × List BodyPart) :=
  (tree.reference collection place).bind fun value =>
    match value.items? with
    | none => .error (.notACollection collection place.line place.column)
    | some items => (LoopBody.parse body.toList bodyStart).map fun parts => (items, parts)

/-- What a tag adds to the output. -/
def render (tree : Tree) (tag : Tag) : Rendering :=
  let place := tag.span.start
  match tag.content with
  | .field reference fields =>
    match fieldText tree reference fields place with
    | .error problem => ⟨"", [], some problem⟩
    | .ok text => ⟨text, [.resolvedField reference fields place.line], none⟩
  | .loop item collection body bodySpan =>
    match loopParts tree collection body bodySpan.start place with
    | .error problem => ⟨"", [], some problem⟩
    | .ok (items, parts) =>
      match renderItems (fun value => LoopBody.render item value tree parts) items with
      | (text, some problem) => ⟨text, [], some problem⟩
      | (text, none) => ⟨text, [.renderedLoop collection items.length place.line], none⟩

end Tag

/-- The texts of segments in order, up to the first tag that cannot be rendered. -/
def renderSegments (tree : Tree) : List Segment → Rendering
  | [] => ⟨"", [], none⟩
  | .literal text :: rest =>
    let more := renderSegments tree rest
    ⟨text ++ more.text, more.events, more.problem?⟩
  | .tag tag :: rest =>
    match tag.render tree with
    | ⟨text, events, some problem⟩ => ⟨text, events, some problem⟩
    | ⟨text, events, none⟩ =>
      let more := renderSegments tree rest
      ⟨text ++ more.text, events ++ more.events, more.problem?⟩

/-- A filled page, and what was odd about its tags. -/
structure Substitution where
  output : String
  warnings : List Warning
  deriving DecidableEq, Repr

def Substitution.hasWarnings (substitution : Substitution) : Bool :=
  !substitution.warnings.isEmpty

/-- A skipped `<:` as an event. -/
def Warning.event (warning : Warning) : Event := .skippedOpen warning.line warning.column

/-- Fills a page from a tree. -/
def substitute (policy : NestedOpenPolicy) (page : List Char) (tree : Tree) :
    Report Substitution :=
  let stripped := Binding.strip page
  let skipped := (scanWarnings policy stripped).map Warning.event
  match scan policy stripped with
  | .error problem => ⟨skipped, .error problem⟩
  | .ok scanned =>
    match renderSegments tree scanned.segments with
    | ⟨_, events, some problem⟩ => ⟨skipped ++ events, .error problem⟩
    | ⟨text, events, none⟩ => ⟨skipped ++ events, .ok ⟨text, scanned.warnings⟩⟩

/-- What filling a page comes to, without what is told on the way. -/
theorem result_substitute (policy : NestedOpenPolicy) (page : List Char) (tree : Tree) :
    (substitute policy page tree).result =
      (scan policy (Binding.strip page)).bind fun scanned =>
        match (renderSegments tree scanned.segments).problem? with
        | some problem => .error problem
        | none => .ok ⟨(renderSegments tree scanned.segments).text, scanned.warnings⟩ := by
  cases scanned : scan policy (Binding.strip page) with
  | error problem => simp only [substitute, scanned, Except.bind]
  | ok found =>
    cases rendered : renderSegments tree found.segments with
    | mk text events problem? =>
      simp only [substitute, scanned, Except.bind, rendered]
      cases problem? <;> rfl

/-- What is told while a page is filled: the openings that are skipped, then the tags rendered. -/
theorem events_substitute (policy : NestedOpenPolicy) (page : List Char) (tree : Tree) :
    (substitute policy page tree).events =
      (scanWarnings policy (Binding.strip page)).map Warning.event ++
        match scan policy (Binding.strip page) with
        | .error _ => []
        | .ok scanned => (renderSegments tree scanned.segments).events := by
  cases scanned : scan policy (Binding.strip page) with
  | error problem => simp only [substitute, scanned, List.append_nil]
  | ok found =>
    cases rendered : renderSegments tree found.segments with
    | mk text events problem? =>
      simp only [substitute, scanned, rendered]
      cases problem? <;> rfl

end Fieldmark
