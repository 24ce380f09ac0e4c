import Fieldmark.Proofs.Plain

/-!
# Plain tags in loops

A plain tag says the same on a page and in the body of a loop. A loop that does nothing but repeat
one writes what the tag alone writes, once for every item, or fails for the same reason
(`plain_tag_repeated`).
-/

namespace Fieldmark

/-! ## The same problem elsewhere -/

/-- The problem as a tag at another place has it. -/
def Problem.movedTo (p : Point) : Problem → Problem
  | .parse _ _ fault => .parse p.line p.column fault
  | .referenceNotFound name _ _ => .referenceNotFound name p.line p.column
  | .fieldNotFound path _ _ => .fieldNotFound path p.line p.column
  | .typeMismatch path expected found _ _ => .typeMismatch path expected found p.line p.column
  | .notACollection name _ _ => .notACollection name p.line p.column
  | problem => problem

theorem resolveText_movedTo (p q : Point) (value : Value) (label : String) (fields : List String) :
    value.resolveText label q fields = (value.resolveText label p fields).mapError (Problem.movedTo q) := by
  induction fields generalizing value label with
  | nil => cases value <;> rfl
  | cons field rest ih =>
    cases value with
    | text content => rfl
    | collection items => rfl
    | document members =>
      simp only [Value.resolveText]
      cases members.lookup field with
      | none => rfl
      | some value => exact ih value _

/-- A tag finds the same wherever it stands. -/
theorem fieldText_movedTo (p q : Point) (tree : Tree) (reference : String) (fields : List String) :
    Tag.fieldText tree reference fields q =
      (Tag.fieldText tree reference fields p).mapError (Problem.movedTo q) := by
  unfold Tag.fieldText Tree.reference
  cases tree.get? reference with
  | none => rfl
  | some value => exact resolveText_movedTo p q value reference fields

/-! ## Rendering -/

theorem renderItems_const (text : String) {items : List Value} (nonempty : items ≠ []) :
    renderItems (fun _ => .ok text) items =
      ("\n".intercalate (List.replicate items.length text), none) := by
  induction items with
  | nil => contradiction
  | cons item rest ih =>
    cases rest with
    | nil => simp [renderItems]
    | cons next rest =>
      rw [renderItems, ih (by simp)]
      simp [List.replicate_succ, String.intercalate_cons_cons]

theorem renderItems_error {render : Value → Except Problem String} {problem : Problem}
    {items : List Value} (nonempty : items ≠ []) (fails : ∀ item, render item = .error problem) :
    renderItems render items = ("", some problem) := by
  obtain ⟨item, rest, rfl⟩ := List.exists_cons_of_ne_nil nonempty
  rw [renderItems, fails]

theorem render_other {name reference : String} {fields : List String} {p : Point} {tree : Tree}
    (other : reference ≠ name) (value : Value) :
    LoopBody.render name value tree [.field reference fields p] =
      Tag.fieldText tree reference fields p := by
  have part : LoopBody.renderPart name value tree (.field reference fields p) =
      Tag.fieldText tree reference fields p := by
    rw [LoopBody.renderPart, if_neg other, Tag.fieldText]
  rw [LoopBody.render, part]
  cases Tag.fieldText tree reference fields p with
  | error problem => rfl
  | ok text => simp [LoopBody.render, Except.bind, Except.map]

variable {policy : NestedOpenPolicy} {tree : Tree}

theorem scan_of_written {page : List Char} {tag : Tag} (written : Scan.Written .start tag [] page) :
    scan policy page = .ok ⟨[.tag tag], []⟩ := by
  have reads : Scan.Reads .start [.tag tag] ([] ++ []) (page ++ []) := .tag written .nil
  rw [List.append_nil, List.append_nil] at reads
  exact Scan.scan_eq_ok_iff.mpr ⟨reads, fun _ => rfl⟩

/-- What a page comes to that is one tag. -/
theorem result_of_written {page : List Char} {tag : Tag} (written : Scan.Written .start tag [] page)
    (plain : '=' ∉ page) :
    (substitute policy page tree).result =
      match (tag.render tree).problem? with
      | some problem => .error problem
      | none => .ok ⟨(tag.render tree).text, []⟩ := by
  rw [result_substitute, Binding.strip_eq_self plain, scan_of_written written]
  cases rendered : tag.render tree with
  | mk text events problem? =>
    simp only [Except.bind, renderSegments, rendered]
    cases problem? with
    | none => simp
    | some problem => rfl

/-! ## Plain tags on a page and in a loop -/

namespace PlainTag

theorem written (tag : PlainTag) (p : Point) :
    Scan.Written p ⟨.field tag.reference.word tag.names, ⟨p, p.after tag.text⟩⟩ [] tag.text := by
  have written := tag.typed.written p
  rw [FieldTag.tagAt, typed, List.map_map] at written
  exact written

theorem result (tag : PlainTag) :
    (substitute policy tag.text tree).result =
      (Tag.fieldText tree tag.reference.word tag.names .start).map fun text => ⟨text, []⟩ := by
  rw [result_of_written (tag.written .start)
    (tag.not_mem_text (by decide) (by decide) (by decide) (by decide) (by decide))]
  simp only [Tag.render]
  cases Tag.fieldText tree tag.reference.word tag.names .start <;> rfl

theorem isBlanks_space : IsBlanks [' '] := by decide

theorem isSeparator_colon : IsSeparator ":" := by decide

/-- One blank, as it is usually typed. -/
def space : Gap := ⟨[' '], isBlanks_space⟩

/-- A loop with the tag for its body. -/
def loop (tag : PlainTag) (item collection : String) (named : IsPlainWord item)
    (collected : IsPlainWord collection) : LoopTag where
  lead := space
  item := ⟨space, item, space, named.isName⟩
  separator := ":"
  ahead := space
  collection := collection
  behind := ⟨[], List.forall_mem_nil _⟩
  close := space
  body := String.ofList tag.text
  last := space
  before_nonempty := List.cons_ne_nil _ _
  behind_nonempty := List.cons_ne_nil _ _
  separated := isSeparator_colon
  ahead_nonempty := List.cons_ne_nil _ _
  collected := collected.isCollection
  plain := by
    intro inside
    have angle := inside.mem (show '<' ∈ opening by decide)
    simp [Spaced.text, space, loopKeyword, named.not_mem (c := '<') (by decide),
      collected.not_mem (c := '<') (by decide)] at angle
  opened := by
    rw [String.toList_ofList]
    exact tag.unclosed

end PlainTag

/-- The header of a loop as it is usually typed. -/
def loopFront (item collection : String) : List Char :=
  "<: for ".toList ++ item.toList ++ " : ".toList ++ collection.toList ++ ": >".toList

/-- A loop as it is usually typed. -/
def loopOver (item collection : String) (body : List Char) : List Char :=
  loopFront item collection ++ body ++ "</: >".toList

namespace PlainTag

variable {item collection : String} {items : List Value}

theorem written_loop (tag : PlainTag) (named : IsPlainWord item) (collected : IsPlainWord collection) :
    Scan.Written .start
      ⟨.loop item collection (String.ofList tag.text)
          ⟨Point.start.after (loopFront item collection),
            Point.start.after (loopFront item collection ++ tag.text)⟩,
        ⟨.start, Point.start.after (loopOver item collection tag.text)⟩⟩ []
      (loopOver item collection tag.text) := by
  have front : (tag.loop item collection named collected).front = loopFront item collection := by
    unfold loopFront
    simp [LoopTag.front, LoopTag.header, loop, space, Spaced.text, loopKeyword, opening]
  have body : (tag.loop item collection named collected).body.toList = tag.text := String.toList_ofList
  have whole : (tag.loop item collection named collected).text = loopOver item collection tag.text := by
    rw [LoopTag.text, front, body]
    rfl
  have written := (tag.loop item collection named collected).written .start
  rw [LoopTag.tagAt, whole, front, body] at written
  exact written

/-- A loop that repeats a tag gets from each item what the tag alone would get. -/
theorem result_loop (tag : PlainTag) (named : IsPlainWord item) (collected : IsPlainWord collection)
    (other : tag.reference.word ≠ item) (listed : tree.get? collection = some (.collection items))
    (nonempty : items ≠ []) :
    (substitute policy (loopOver item collection tag.text) tree).result =
      (Tag.fieldText tree tag.reference.word tag.names
        (Point.start.after (loopFront item collection))).map fun text =>
          ⟨"\n".intercalate (List.replicate items.length text), []⟩ := by
  have plain : '=' ∉ loopOver item collection tag.text := by
    unfold loopOver loopFront
    simp [named.not_mem (c := '=') (by decide), collected.not_mem (c := '=') (by decide),
      tag.not_mem_text (c := '=') (by decide) (by decide) (by decide) (by decide) (by decide)]
  rw [result_of_written (tag.written_loop named collected) plain]
  generalize Point.start.after (loopFront item collection) = place
  have parts : Tag.loopParts tree collection (String.ofList tag.text) place .start =
      .ok (items, [.field tag.reference.word tag.names place]) := by
    simp only [Tag.loopParts, Tree.reference, listed, Except.bind, Value.items?, String.toList_ofList,
      LoopBody.parse_plain, Except.map]
  simp only [Tag.render, parts, render_other other]
  cases Tag.fieldText tree tag.reference.word tag.names place with
  | error problem =>
    rw [renderItems_error nonempty fun _ => rfl]
    rfl
  | ok text =>
    rw [renderItems_const text nonempty]
    rfl

end PlainTag

/-- What a substitution comes to that is made several times over, each on a line of its own. -/
def Substitution.repeated (substitution : Substitution) (n : Nat) : Substitution :=
  ⟨"\n".intercalate (List.replicate n substitution.output), substitution.warnings⟩

/-- The scanner and the reader of loop bodies find the same in a plain tag, and a loop that repeats
one for each item of a collection comes to what the tag comes to, as often as there are items. -/
theorem plain_tag_repeated (tag : PlainTag) :
    (∀ policy, scan policy tag.text =
      .ok ⟨[.tag ⟨.field tag.reference.word tag.names, ⟨.start, Point.start.after tag.text⟩⟩], []⟩) ∧
    (∀ p, LoopBody.parse tag.text p = .ok [.field tag.reference.word tag.names p]) ∧
    ∀ policy tree item collection items, IsPlainWord item → IsPlainWord collection →
      item ≠ tag.reference.word → tree.get? collection = some (.collection items) → items ≠ [] →
      (substitute policy (loopOver item collection tag.text) tree).result =
        ((substitute policy tag.text tree).result.map (·.repeated items.length)).mapError
          (Problem.movedTo (Point.start.after (loopFront item collection))) := by
  refine ⟨fun policy => scan_of_written (tag.written .start), LoopBody.parse_plain tag, ?_⟩
  intro policy tree item collection items named collected other listed nonempty
  rw [tag.result_loop named collected (Ne.symm other) listed nonempty, tag.result,
    fieldText_movedTo .start (Point.start.after (loopFront item collection))]
  cases Tag.fieldText tree tag.reference.word tag.names .start <;> rfl

/-- A tag that names a reference `for`, over two lines. -/
private def plainSample : PlainTag where
  reference := ⟨⟨['\n'], by decide⟩, "for", ⟨[], by decide⟩, by decide⟩
  fields := [⟨⟨[' '], by decide⟩, "é", ⟨['\t'], by decide⟩, by decide⟩]
  close := ⟨['\r'], by decide⟩
  nonempty := by simp
  keyword := fun _ => rfl

theorem plain_tag_repeated_twice :
    IsPlainWord "i" ∧ IsPlainWord "l" ∧
      (substitute .error "<: for i : l: ><:\nfor. é\t:\r></: >".toList
        (.ofPairs [("for", .document [("é", .text "<:")]), ("l", .collection [.text "", .text ""])])).result =
          .ok ⟨"<:\n<:", []⟩ := by
  have alone : (substitute .error plainSample.text
      (.ofPairs [("for", .document [("é", .text "<:")]), ("l", .collection [.text "", .text ""])])).result =
        .ok ⟨"<:", []⟩ := by
    rw [PlainTag.result]
    rfl
  have repeated := (plain_tag_repeated plainSample).2.2 .error
    (.ofPairs [("for", .document [("é", .text "<:")]), ("l", .collection [.text "", .text ""])])
    "i" "l" [.text "", .text ""] (by decide) (by decide) (by decide) rfl (by simp)
  rw [alone] at repeated
  exact ⟨by decide, by decide, repeated⟩

end Fieldmark
