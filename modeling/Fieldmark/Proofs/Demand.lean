import Fieldmark.Proofs.Blindness
import Mathlib.Tactic.SplitIfs

/-!
# What a page asks for

Filling a page looks up the names in its tags and no others (`asked`), so what else a tree holds
makes no difference (`substitute_reads_asked`). A loop variable is not looked up: in the body of its
loop it names the item, whatever the tree has under that name.
-/

namespace Fieldmark

/-- The name that a part of a loop body looks up, unless it is that of the loop variable. -/
def BodyPart.asked? (item : String) : BodyPart → Option String
  | .text _ => none
  | .field reference _ _ => if reference = item then none else some reference

/-- The names that a tag looks up. A body that cannot be taken apart adds none. -/
def Tag.asked (tag : Tag) : List String :=
  match tag.content with
  | .field reference _ => [reference]
  | .loop item collection body bodySpan =>
    collection ::
      match LoopBody.parse body.toList bodySpan.start with
      | .ok parts => parts.filterMap (BodyPart.asked? item)
      | .error _ => []

/-- The names that the tags of a page look up. -/
def Scan.asked (scanned : Scan) : List String := scanned.tags.flatMap Tag.asked

/-- The names that filling a page looks up: none if the page cannot be scanned. -/
def asked (policy : NestedOpenPolicy) (page : List Char) : List String :=
  match scan policy (Binding.strip page) with
  | .ok scanned => scanned.asked
  | .error _ => []

/-- Two trees hold the same value under each of some names, or both hold none. -/
def Tree.AgreeOn (names : List String) (a b : Tree) : Prop := ∀ name ∈ names, a.get? name = b.get? name

/-- Two trees differ at one name at most. -/
def Tree.AgreeBeside (name : String) (a b : Tree) : Prop :=
  ∀ other, other ≠ name → a.get? other = b.get? other

variable {a b : Tree}

theorem Tree.AgreeOn.mono {small large : List String} (agree : Tree.AgreeOn large a b)
    (inside : small ⊆ large) : Tree.AgreeOn small a b :=
  fun name member => agree name (inside member)

theorem reference_congr {name : String} (same : a.get? name = b.get? name) (place : Point) :
    a.reference name place = b.reference name place := by
  unfold Tree.reference
  rw [same]

theorem fieldText_congr {reference : String} (same : a.get? reference = b.get? reference)
    (fields : List String) (place : Point) :
    Tag.fieldText a reference fields place = Tag.fieldText b reference fields place := by
  unfold Tag.fieldText
  rw [reference_congr same]

theorem loopParts_congr {collection : String} (same : a.get? collection = b.get? collection)
    (body : String) (bodyStart place : Point) :
    Tag.loopParts a collection body bodyStart place =
      Tag.loopParts b collection body bodyStart place := by
  unfold Tag.loopParts
  rw [reference_congr same]

/-! ## Bodies -/

theorem renderPart_congr {name : String} {part : BodyPart}
    (agree : ∀ other, part.asked? name = some other → a.get? other = b.get? other) (item : Value) :
    LoopBody.renderPart name item a part = LoopBody.renderPart name item b part := by
  cases part with
  | text content => rfl
  | field reference fields place =>
    simp only [LoopBody.renderPart]
    split_ifs with own
    · rfl
    · have same : a.get? reference = b.get? reference := agree reference (by simp [BodyPart.asked?, own])
      rw [reference_congr same]

theorem renderBody_congr {name : String} {parts : List BodyPart}
    (agree : Tree.AgreeOn (parts.filterMap (BodyPart.asked? name)) a b) (item : Value) :
    LoopBody.render name item a parts = LoopBody.render name item b parts := by
  induction parts with
  | nil => rfl
  | cons part rest ih =>
    have here : LoopBody.renderPart name item a part = LoopBody.renderPart name item b part := by
      refine renderPart_congr (fun other asks => agree other ?_) item
      exact List.mem_filterMap.mpr ⟨part, List.mem_cons_self .., asks⟩
    have later : Tree.AgreeOn (rest.filterMap (BodyPart.asked? name)) a b :=
      agree.mono (List.filterMap_subset _ (List.subset_cons_self part rest))
    rw [LoopBody.render, LoopBody.render, here, ih later]

/-- The loop variable is never looked up. -/
theorem agreeOn_of_agreeBeside {name : String} (agree : Tree.AgreeBeside name a b)
    (parts : List BodyPart) : Tree.AgreeOn (parts.filterMap (BodyPart.asked? name)) a b := by
  intro other member
  obtain ⟨part, _, asks⟩ := List.mem_filterMap.mp member
  refine agree other ?_
  cases part with
  | text content => contradiction
  | field reference fields place =>
    simp only [BodyPart.asked?] at asks
    split_ifs at asks with own
    cases asks
    exact own

/-! ## Pages -/

theorem renderTag_congr {tag : Tag} (agree : Tree.AgreeOn tag.asked a b) :
    tag.render a = tag.render b := by
  obtain ⟨content, span⟩ := tag
  cases content with
  | field reference fields =>
    have same : a.get? reference = b.get? reference := agree reference (List.mem_singleton.mpr rfl)
    simp only [Tag.render, fieldText_congr same]
  | loop item collection body bodySpan =>
    have same : a.get? collection = b.get? collection := agree collection (List.mem_cons_self ..)
    simp only [Tag.render, loopParts_congr same]
    cases found : Tag.loopParts b collection body bodySpan.start span.start with
    | error problem => rfl
    | ok loop =>
      obtain ⟨items, parts⟩ := loop
      have parsed := (of_loopParts found).2
      have inner : Tree.AgreeOn (parts.filterMap (BodyPart.asked? item)) a b := by
        refine agree.mono fun name member => ?_
        simp only [Tag.asked, parsed]
        exact List.mem_cons_of_mem collection member
      simp only [renderBody_congr inner]

theorem renderSegments_congr {segments : List Segment}
    (agree : ∀ tag, .tag tag ∈ segments → Tree.AgreeOn tag.asked a b) :
    renderSegments a segments = renderSegments b segments := by
  induction segments with
  | nil => rfl
  | cons segment rest ih =>
    have later := ih fun tag member => agree tag (List.mem_cons_of_mem segment member)
    cases segment with
    | literal text => rw [renderSegments, renderSegments, later]
    | tag tag =>
      have here := renderTag_congr (agree tag (List.mem_cons_self ..))
      rw [renderSegments, renderSegments, here, later]

/-- Two trees that agree on the names in the tags of a page fill it alike, down to what is told on
the way, or fail alike; and an item fills the body of a loop alike whatever the trees hold under the
name of the loop variable. -/
theorem substitute_reads_asked (policy : NestedOpenPolicy) (page : List Char) (a b : Tree) :
    (Tree.AgreeOn (asked policy page) a b → substitute policy page a = substitute policy page b) ∧
    ∀ name item parts, Tree.AgreeBeside name a b →
      LoopBody.render name item a parts = LoopBody.render name item b parts := by
  constructor
  · intro agree
    cases scanned : scan policy (Binding.strip page) with
    | error problem => simp only [substitute, scanned]
    | ok found =>
      simp only [asked, scanned] at agree
      have rendered : renderSegments a found.segments = renderSegments b found.segments := by
        refine renderSegments_congr fun tag member => agree.mono fun name asks => ?_
        exact List.mem_flatMap.mpr ⟨tag, List.mem_filterMap.mpr ⟨_, member, rfl⟩, asks⟩
      simp only [substitute, scanned, rendered]
  · intro name item parts agree
    exact renderBody_congr (agreeOn_of_agreeBeside agree parts) item

/-- A loop whose variable is bound in one tree and not in the other, with a tag of the tree's own
in its body; and that body, filled from trees that hold nothing else. -/
theorem substitute_reads_asked_shadowed :
    asked .warn "<:for a : l: ><:a.x:><:b.y:></:>".toList = ["l", "b"] ∧
    substitute .warn "<:for a : l: ><:a.x:><:b.y:></:>".toList
        (.ofPairs [("a", .text "<:"), ("b", .document [("y", .text "2")]),
          ("l", .collection [.document [("x", .text "1")]])]) =
      substitute .warn "<:for a : l: ><:a.x:><:b.y:></:>".toList
        (.ofPairs [("b", .document [("y", .text "2")]),
          ("l", .collection [.document [("x", .text "1")]]), ("z", .text "")]) ∧
    Tree.AgreeBeside "a" (.ofPairs [("a", .text "<:")]) (.ofPairs []) ∧
    LoopBody.render "a" (.text "1") (.ofPairs [("a", .text "<:")]) [.field "a" [] .start] =
      LoopBody.render "a" (.text "1") (.ofPairs []) [.field "a" [] .start] := by
  have names : asked .warn "<:for a : l: ><:a.x:><:b.y:></:>".toList = ["l", "b"] := by
    with_unfolding_all rfl
  have beside : Tree.AgreeBeside "a" (.ofPairs [("a", .text "<:")]) (.ofPairs []) := by
    intro other differs
    exact Fields.lookup_insert_of_ne differs (Value.text "<:") []
  refine ⟨names, (substitute_reads_asked _ _ _ _).1 ?_, beside,
    (substitute_reads_asked .warn [] _ _).2 _ _ _ beside⟩
  rw [names]
  intro name member
  rw [List.mem_cons, List.mem_singleton] at member
  rcases member with rfl | rfl
  · rfl
  · rfl

end Fieldmark
