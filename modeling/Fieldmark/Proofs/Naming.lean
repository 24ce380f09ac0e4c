import Fieldmark.Proofs.BindingText
import Fieldmark.Proofs.BodyText
import Fieldmark.Proofs.Repetition
import Fieldmark.Proofs.Tiling

/-!
# Bound names in tags

A binding has its name from the reader of tokens, a tag of a page its reference from the scanner, and
the two do not have the same blanks. A bound name without blanks is the reference of a tag that is
typed for it. One that holds a blank is the reference of no tag that the scanner finds on any page
(`bound_name_in_tags`). The body of a loop goes through the reader of tokens again, so that a field
tag in it can ask for any bound name (`bound_name_in_body`).
-/

namespace Fieldmark

namespace Binding

variable {page : List Char} {b : Binding}

theorem isWord_of_mem_find (member : b ∈ find page) : IsWord b.name.toList := by
  obtain ⟨_, stretch, _, _, is, _⟩ := (parted_page page).mem member
  exact (stretch_iff_spelled.mp is).isWord

theorem isPlainWord_of_mem_find (member : b ∈ find page)
    (dark : ∀ c ∈ b.name.toList, isBlank c = false) : IsPlainWord b.name :=
  isPlainWord_iff.mpr ⟨isWord_of_mem_find member, dark⟩

end Binding

/-! ## The names of tags -/

/-- The name that a tag asks the tree for. -/
def Tag.Content.reference : Tag.Content → String
  | .field reference _ => reference
  | .loop _ collection _ _ => collection

/-- No tag that the scanner finds has a blank in the name that it asks for. -/
theorem dark_of_mem_tags {policy : NestedOpenPolicy} {page : List Char} {scanned : Scan} {tag : Tag}
    (h : scan policy page = .ok scanned) (member : tag ∈ scanned.tags) :
    ∀ c ∈ tag.content.reference.toList, isBlank c = false := by
  have reads := (Scan.scan_eq_ok_iff.mp h).1
  obtain ⟨_, _, _, _, _, _, _, _, writing, _, _⟩ := reads.tag_mem (Scan.tag_mem_segments member)
  cases writing with
  | field follow =>
    obtain ⟨_, named, _, _⟩ := Scan.spells_header follow
    intro c within
    exact (named.2 c within).1
  | loop follow _ _ =>
    obtain ⟨_, _, _, _, collected, _⟩ := Scan.spells_header follow
    intro c within
    exact (collected.2 c within).1

theorem isPlainBlanks_nil : IsPlainBlanks [] := List.forall_mem_nil _

theorem isPlainBlanks_space : IsPlainBlanks [' '] := List.forall_mem_singleton.mpr rfl

/-- A tag for one field of a reference as it is usually typed. -/
def fieldTagFor (reference field : String) : List Char :=
  ['<', ':', ' '] ++ reference.toList ++ ['.'] ++ field.toList ++ [' ', ':', '>']

namespace PlainTag

/-- The tag for one field of a reference, with its usual blanks. -/
def usual {reference field : String} (named : IsPlainWord reference) (plain : IsPlainWord field) :
    PlainTag where
  reference := ⟨⟨[' '], isPlainBlanks_space⟩, reference, ⟨[], isPlainBlanks_nil⟩, named⟩
  fields := [⟨⟨[], isPlainBlanks_nil⟩, field, ⟨[' '], isPlainBlanks_space⟩, plain⟩]
  close := ⟨[], isPlainBlanks_nil⟩
  nonempty := List.cons_ne_nil _ _
  keyword := fun _ => rfl

theorem text_usual {reference field : String} (named : IsPlainWord reference)
    (plain : IsPlainWord field) : (usual named plain).text = fieldTagFor reference field := by
  simp [text, header, usual, PlainSpaced.spaced, PlainGap.gap, Spaced.text, typedPath, opening,
    fieldTagFor]

end PlainTag

/-- A field tag for a bound name is found as that tag if there is no blank in the name. If there is
one, no tag that the scanner finds on any page asks for the name. -/
theorem bound_name_in_tags {page : List Char} {b : Binding} (member : b ∈ Binding.find page)
    {field : String} (plain : IsPlainWord field) :
    ((∀ c ∈ b.name.toList, isBlank c = false) → ∀ policy,
      scan policy (fieldTagFor b.name field) = .ok
        ⟨[.tag ⟨.field b.name [field],
          ⟨.start, Point.start.after (fieldTagFor b.name field)⟩⟩], []⟩) ∧
    ((∃ c ∈ b.name.toList, isBlank c = true) → ∀ policy other scanned,
      scan policy other = .ok scanned → ∀ tag ∈ scanned.tags, tag.content.reference ≠ b.name) := by
  constructor
  · intro dark policy
    have named := Binding.isPlainWord_of_mem_find member dark
    have written := (PlainTag.usual named plain).written .start
    rw [PlainTag.text_usual] at written
    exact scan_of_written written
  · rintro ⟨c, within, blank⟩ policy other scanned h tag listed same
    have dark := dark_of_mem_tags h listed
    rw [same] at dark
    rw [dark c within] at blank
    contradiction

theorem bound_name_in_tags_keyword :
    (⟨"for", "/p", ⟨⟨1, 1, 0⟩, ⟨1, 15, 14⟩⟩⟩ : Binding) ∈ Binding.find "<: for = /p :>".toList ∧
      IsPlainWord "é" ∧ (∀ c ∈ "for".toList, isBlank c = false) ∧
      scan .error "<: for.é :>".toList =
        .ok ⟨[.tag ⟨.field "for" ["é"], ⟨⟨1, 1, 0⟩, ⟨1, 12, 12⟩⟩⟩], []⟩ := by
  have member : (⟨"for", "/p", ⟨⟨1, 1, 0⟩, ⟨1, 15, 14⟩⟩⟩ : Binding) ∈
      Binding.find "<: for = /p :>".toList := by
    have found : Binding.find "<: for = /p :>".toList =
        [⟨"for", "/p", ⟨⟨1, 1, 0⟩, ⟨1, 15, 14⟩⟩⟩] := by
      with_unfolding_all rfl
    rw [found]
    exact List.mem_singleton_self _
  have plain : IsPlainWord "é" := by decide
  have named : IsPlainWord "for" := by decide
  have dark : ∀ c ∈ "for".toList, isBlank c = false := fun c within => (named.2 c within).1
  have typed : fieldTagFor "for" "é" = "<: for.é :>".toList := by decide
  have scanned := (bound_name_in_tags member plain).1 dark .error
  rw [typed] at scanned
  exact ⟨member, plain, dark, scanned⟩

/-- A name with a no-break space in it can be bound, and the tag that the scanner finds where one is
typed for it asks for another. -/
theorem blank_name_lost_in_tag :
    (Binding.find "<:a\u00a0b=p:>".toList).map Binding.name = ["a\u00a0b"] ∧
      IsPlainWord "f" ∧
      scan .warn (fieldTagFor "a\u00a0b" "f") =
        .ok ⟨[.tag ⟨.field "ab" ["f"], ⟨⟨1, 1, 0⟩, ⟨1, 12, 12⟩⟩⟩], []⟩ := by
  have found : (Binding.find "<:a\u00a0b=p:>".toList).map Binding.name = ["a\u00a0b"] := by
    with_unfolding_all rfl
  have scanned : scan .warn (fieldTagFor "a\u00a0b" "f") =
      .ok ⟨[.tag ⟨.field "ab" ["f"], ⟨⟨1, 1, 0⟩, ⟨1, 12, 12⟩⟩⟩], []⟩ := by
    with_unfolding_all rfl
  exact ⟨found, by decide, scanned⟩

/-! ## The names of tags in loops -/

namespace LoopBody

/-- A field tag as it is usually typed is one whatever blanks of the scanner its words hold. -/
theorem tagText_for {reference field : String} (named : IsWord reference.toList)
    (word : IsWord field.toList) :
    TagText reference [field] (' ' :: (reference.toList ++ '.' :: (field.toList ++ [' ', ':', '>']))) := by
  have path : FieldsText [field] ('.' :: (field.toList ++ [' ', ':', '>'])) :=
    .field isPlainBlanks_nil isPlainBlanks_nil word (.close isPlainBlanks_space isPlainBlanks_nil)
  refine .mk isPlainBlanks_space named (List.cons_ne_nil _ _) path fun _ c head => ?_
  rw [← Option.some.inj head]
  rfl

end LoopBody

/-- A field tag for a bound name in the body of a loop is read as that tag, blanks in the name or
not. Unless it is the name of the loop variable, the text of the tag comes from what is bound. -/
theorem bound_name_in_body {page : List Char} {b : Binding} (member : b ∈ Binding.find page)
    {field : String} (word : IsWord field.toList) (place : Point) :
    ∃ parts, LoopBody.parse (fieldTagFor b.name field) place = .ok parts ∧
      ∀ name item tree, b.name ≠ name → LoopBody.render name item tree parts =
        (tree.reference b.name place).bind fun value => value.resolveText b.name place [field] := by
  have typed := LoopBody.tagText_for (Binding.isWord_of_mem_find member) word
  have laid : LoopBody.Laid place [.field b.name [field] place] (fieldTagFor b.name field) := by
    simpa [fieldTagFor, opening] using LoopBody.Laid.field typed .nil
  refine ⟨_, laid.parse, fun name item tree other => ?_⟩
  rw [LoopBody.render, LoopBody.renderPart, if_neg other]
  cases (tree.reference b.name place).bind fun value => value.resolveText b.name place [field] with
  | error problem => rfl
  | ok text => simp [Except.bind, Except.map, LoopBody.render]

end Fieldmark
