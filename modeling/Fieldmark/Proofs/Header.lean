import Fieldmark.Proofs.Steps

/-!
# What a header says

A state in a header has gathered exactly what its text says once blanks and openings are left out
(`State.Spells`): no word is lost, none is made up, and none holds a character that ends it. One
step keeps that (`spells_of_consume`), so a whole stretch of header does (`spells_of_follow?`).
-/

namespace Fieldmark

/-- A character of a reference, a field or a loop variable. -/
def IsNameChar (c : Char) : Prop := isBlank c = false ∧ c ≠ '.' ∧ c ≠ ':'

/-- A character of the collection of a loop. -/
def IsCollectionChar (c : Char) : Prop := isBlank c = false ∧ c ≠ ':'

/-- A reference, a field or a loop variable. -/
def IsName (word : String) : Prop := word ≠ "" ∧ ∀ c ∈ word.toList, IsNameChar c

/-- The collection of a loop. -/
def IsCollection (word : String) : Prop := word ≠ "" ∧ ∀ c ∈ word.toList, IsCollectionChar c

/-- The word between the variable and the collection of a loop. -/
def IsSeparator (word : String) : Prop := word ≠ "" ∧ ∀ c ∈ word.toList, isBlank c = false

instance : DecidablePred IsNameChar := fun c =>
  inferInstanceAs (Decidable (isBlank c = false ∧ c ≠ '.' ∧ c ≠ ':'))

instance : DecidablePred IsCollectionChar := fun c =>
  inferInstanceAs (Decidable (isBlank c = false ∧ c ≠ ':'))

instance : DecidablePred IsName := fun word =>
  @instDecidableAnd _ _ _ (List.decidableBAll IsNameChar word.toList)

instance : DecidablePred IsCollection := fun word =>
  @instDecidableAnd _ _ _ (List.decidableBAll IsCollectionChar word.toList)

instance : DecidablePred IsSeparator := fun word =>
  @instDecidableAnd _ _ _ (List.decidableBAll (fun c => isBlank c = false) word.toList)

/-- A path of fields, each behind its dot. -/
def pathText (fields : List String) : List Char := fields.flatMap fun field => '.' :: field.toList

@[simp] theorem pathText_nil : pathText [] = [] := rfl

@[simp] theorem pathText_append (a b : List String) :
    pathText (a ++ b) = pathText a ++ pathText b := by
  simp [pathText]

@[simp] theorem pathText_singleton (field : String) : pathText [field] = '.' :: field.toList := by
  simp [pathText]

/-- Dots stand between the fields, and before the first. -/
theorem pathText_eq_intercalate {fields : List String} (some : fields ≠ []) :
    pathText fields = '.' :: ['.'].intercalate (fields.map String.toList) := by
  induction fields with
  | nil => contradiction
  | cons field rest ih =>
    cases rest with
    | nil => simp [pathText]
    | cons next rest =>
      have tail := ih (by simp)
      rw [pathText, List.flatMap_cons, ← pathText, tail]
      simp

private theorem forall_push {P : Char → Prop} {word : String} {c : Char}
    (all : ∀ d ∈ word.toList, P d) (last : P c) : ∀ d ∈ (word.push c).toList, P d := by
  intro d member
  rw [String.toList_push, List.mem_append, List.mem_singleton] at member
  rcases member with member | rfl
  · exact all d member
  · exact last

theorem IsName.push {word : String} {c : Char} (all : ∀ d ∈ word.toList, IsNameChar d)
    (last : IsNameChar c) : IsName (word.push c) :=
  ⟨String.push_ne_empty, forall_push all last⟩

theorem isName_singleton {c : Char} (h : IsNameChar c) : IsName (String.singleton c) := by
  refine ⟨by simp, fun d member => ?_⟩
  rw [String.toList_singleton, List.mem_singleton] at member
  exact member ▸ h

namespace Scan

/-- What a stretch of text adds to a header: all but its blanks. -/
def dark (text : List Char) : List Char := text.filter fun c => !isBlank c

theorem dark_append (a b : List Char) : dark (a ++ b) = dark a ++ dark b := List.filter_append ..

theorem dark_blank {c : Char} (h : isBlank c = true) : dark [c] = [] := by simp [dark, h]

theorem dark_of_not_blank {c : Char} (h : ¬ isBlank c = true) : dark [c] = [c] := by simp [dark, h]

/-- A state has gathered what a text behind `<:` says that holds no blanks. -/
def State.Spells (text : List Char) : State → Prop
  | .tagOpen => text = []
  | .name token => text = token.toList ∧ IsName token
  | .field reference fields segment =>
    text = reference.toList ++ pathText fields ++ '.' :: segment.toList ∧ IsName reference ∧
      (∀ field ∈ fields, IsName field) ∧ ∀ c ∈ segment.toList, IsNameChar c
  | .tagEnd reference fields =>
    text = reference.toList ++ pathText fields ++ [':'] ∧ IsName reference ∧ fields ≠ [] ∧
      ∀ field ∈ fields, IsName field
  | .loopVariable item =>
    text = loopKeyword.toList ++ item.toList ∧ ∀ c ∈ item.toList, IsNameChar c
  | .loopSeparator item separator =>
    text = loopKeyword.toList ++ item.toList ++ separator.toList ∧ IsName item ∧
      ∀ c ∈ separator.toList, isBlank c = false
  | .loopCollection item collection =>
    ∃ separator, text = loopKeyword.toList ++ item.toList ++ separator.toList ++ collection.toList ∧
      IsName item ∧ IsSeparator separator ∧ ∀ c ∈ collection.toList, IsCollectionChar c
  | .loopBody item collection body false =>
    ∃ separator, text =
        loopKeyword.toList ++ item.toList ++ separator.toList ++ collection.toList ++ [':'] ∧
      IsName item ∧ IsSeparator separator ∧ IsCollection collection ∧ body = ""
  | _ => False

theorem spells_of_consume {state next : State} {text : List Char} {c : Char}
    (spells : state.Spells text) (h : read state c = (next, .consume)) :
    next.Spells (text ++ dark [c]) := by
  cases state with
  | out => cases spells
  | tagOpen =>
    simp only [read] at h
    split_ifs at h with blank dot colon <;> cases h
    · rw [dark_blank blank, List.append_nil]
      exact spells
    · cases spells
      rw [dark_of_not_blank blank]
      rw [Bool.not_eq_true] at blank
      exact ⟨by simp, isName_singleton ⟨blank, dot, colon⟩⟩
  | name token =>
    obtain ⟨rfl, named⟩ := spells
    simp only [read] at h
    split_ifs at h with blank keyword dot colon <;> cases h
    · subst keyword
      rw [dark_blank blank]
      exact ⟨by simp, by simp⟩
    · rw [dark_blank blank, List.append_nil]
      exact ⟨rfl, named⟩
    · subst dot
      exact ⟨by simp [dark_of_not_blank blank], named, by simp, by simp⟩
    · rw [dark_of_not_blank blank]
      rw [Bool.not_eq_true] at blank
      exact ⟨by simp, .push named.2 ⟨blank, dot, colon⟩⟩
  | field reference fields segment =>
    obtain ⟨rfl, named, path, chars⟩ := spells
    have grown : segment ≠ "" → ∀ field ∈ fields ++ [segment], IsName field := by
      intro some field member
      rcases List.mem_append.mp member with member | member
      · exact path field member
      · rw [List.mem_singleton.mp member]
        exact ⟨some, chars⟩
    simp only [read] at h
    split_ifs at h with blank dot empty colon empty <;> cases h
    · rw [dark_blank blank, List.append_nil]
      exact ⟨rfl, named, path, chars⟩
    · subst dot
      exact ⟨by simp [dark_of_not_blank blank], named, grown empty, by simp⟩
    · subst colon
      exact ⟨by simp [dark_of_not_blank blank], named, by simp, grown empty⟩
    · rw [dark_of_not_blank blank]
      rw [Bool.not_eq_true] at blank
      exact ⟨by simp, named, path, forall_push chars ⟨blank, dot, colon⟩⟩
  | tagEnd reference fields =>
    simp only [read] at h
    split_ifs at h with close blank <;> cases h
    rw [dark_blank blank, List.append_nil]
    exact spells
  | loopVariable item =>
    obtain ⟨rfl, chars⟩ := spells
    simp only [read] at h
    split_ifs at h with blank empty ends <;> cases h
    · rw [dark_blank blank, List.append_nil]
      exact ⟨rfl, chars⟩
    · rw [dark_blank blank]
      exact ⟨by simp, ⟨empty, chars⟩, by simp⟩
    · rw [not_or] at ends
      rw [dark_of_not_blank blank]
      rw [Bool.not_eq_true] at blank
      exact ⟨by simp, forall_push chars ⟨blank, ends.2, ends.1⟩⟩
  | loopSeparator item separator =>
    obtain ⟨rfl, named, chars⟩ := spells
    simp only [read] at h
    split_ifs at h with blank empty <;> cases h
    · rw [dark_blank blank, List.append_nil]
      exact ⟨rfl, named, chars⟩
    · rw [dark_blank blank]
      exact ⟨separator, by simp, named, ⟨empty, chars⟩, by simp⟩
    · rw [dark_of_not_blank blank]
      rw [Bool.not_eq_true] at blank
      exact ⟨by simp, named, forall_push chars blank⟩
  | loopCollection item collection =>
    obtain ⟨separator, rfl, named, separated, chars⟩ := spells
    simp only [read] at h
    split_ifs at h with blank colon empty <;> cases h
    · rw [dark_blank blank, List.append_nil]
      exact ⟨separator, rfl, named, separated, chars⟩
    · subst colon
      exact ⟨separator, by simp [dark_of_not_blank blank], named, separated, ⟨empty, chars⟩, rfl⟩
    · rw [dark_of_not_blank blank]
      rw [Bool.not_eq_true] at blank
      exact ⟨separator, by simp, named, separated, forall_push chars ⟨blank, colon⟩⟩
  | loopBody item collection body opened =>
    cases opened with
    | true => cases spells
    | false =>
      simp only [read] at h
      split_ifs at h with close blank <;> cases h
      rw [dark_blank blank, List.append_nil]
      exact spells

theorem spells_of_follow? {state last : State} {text : List Char} {marks : List Mark}
    (spells : state.Spells text) (h : state.follow? marks = some last) :
    last.Spells (text ++ dark (Mark.chars marks)) := by
  induction marks generalizing state text with
  | nil =>
    cases h
    simpa [dark] using spells
  | cons mark marks ih =>
    cases mark with
    | opening => exact ih spells h
    | char c =>
      obtain ⟨next, found, more⟩ := of_follow?_char h
      have grown := ih (spells_of_consume spells found) more
      rw [List.append_assoc, ← dark_append] at grown
      exact grown

/-- What a whole header has been read as. -/
theorem spells_header {header : List Char} {state : State}
    (h : State.tagOpen.follow? (marks header) = some state) :
    state.Spells (dark (Mark.chars (marks header))) :=
  @spells_of_follow? .tagOpen state [] _ rfl h

end Scan

end Fieldmark
