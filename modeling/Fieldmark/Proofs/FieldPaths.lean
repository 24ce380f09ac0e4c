import Fieldmark.Value
import Mathlib.Logic.ExistsUnique
import Mathlib.Data.Nat.Basic

/-!
# Paths of fields

A path of fields is followed into a value as far as its documents have the fields. How it comes out
is one of four things (`PathEnd`), always exactly one, and the text or the problem that a tag gets
says which (`resolveText_classifies`). The path in a problem is the part of the tag's path that
could be followed, with the one missing field behind it where a field is missing.
-/

namespace Fieldmark

namespace Value

/-- The value at the end of a path, if each document on the way has the next field. -/
def follow? (value : Value) : List String → Option Value
  | [] => some value
  | field :: rest => (value.get? field).bind (·.follow? rest)

/-- How a path comes out in a value. `gone` counts the fields that could be followed. -/
inductive PathEnd where
  /-- The whole path leads to a text. -/
  | text (content : String)
  /-- The path comes to a document without the next field. -/
  | missing (gone : Nat)
  /-- The path comes to a value without fields and would go on. -/
  | noDocument (gone : Nat) (found : Value)
  /-- The whole path leads to a value that is no text. -/
  | noText (found : Value)

namespace PathEnd

/-- The fields that could be followed. -/
def gone (fields : List String) : PathEnd → Nat
  | text _ | noText _ => fields.length
  | missing gone | noDocument gone _ => gone

/-- When a path comes out in this way. -/
def Of (value : Value) (fields : List String) : PathEnd → Prop
  | text content => value.follow? fields = some (.text content)
  | missing gone => ∃ field members, fields[gone]? = some field ∧
      value.follow? (fields.take gone) = some (.document members) ∧ members.lookup field = none
  | noDocument gone found => gone < fields.length ∧
      value.follow? (fields.take gone) = some found ∧ ∀ members, found ≠ .document members
  | noText found => value.follow? fields = some found ∧ ∀ content, found ≠ .text content

/-- What a tag at `place` gets from a path that comes out in this way. -/
def result (label : String) (place : Point) (fields : List String) :
    PathEnd → Except Problem String
  | text content => .ok content
  | missing gone => .error (.fieldNotFound (".".intercalate (label :: fields.take (gone + 1)))
      place.line place.column)
  | noDocument gone found =>
    .error (.typeMismatch (".".intercalate (label :: fields.take gone)) "a document" found.kind
      place.line place.column)
  | noText found => .error (.typeMismatch (".".intercalate (label :: fields)) "text" found.kind
      place.line place.column)

/-- The same end, one field further on the way. -/
def onward : PathEnd → PathEnd
  | missing gone => missing (gone + 1)
  | noDocument gone found => noDocument (gone + 1) found
  | ending => ending

end PathEnd

/-- How a path comes out, found field by field. -/
def pathEnd (value : Value) : List String → PathEnd
  | [] =>
    match value with
    | text content => .text content
    | found => .noText found
  | field :: rest =>
    match value with
    | document members =>
      match members.lookup field with
      | some next => (next.pathEnd rest).onward
      | none => .missing 0
    | found => .noDocument 0 found

theorem PathEnd.result_onward (label field : String) (place : Point) (rest : List String)
    (ending : PathEnd) : ending.onward.result label place (field :: rest) =
      ending.result (label ++ "." ++ field) place rest := by
  cases ending <;> rfl

/-- What a tag gets is what the end of its path says. -/
theorem resolveText_eq (value : Value) (label : String) (place : Point) (fields : List String) :
    value.resolveText label place fields = (value.pathEnd fields).result label place fields := by
  induction fields generalizing value label with
  | nil => cases value <;> rfl
  | cons field rest ih =>
    cases value with
    | text content => rfl
    | collection items => rfl
    | document members =>
      simp only [resolveText, pathEnd]
      cases members.lookup field with
      | none => rfl
      | some next =>
        rw [PathEnd.result_onward]
        exact ih next _

/-! ## How far a path can be followed -/

theorem follow?_append (value : Value) (front behind : List String) :
    value.follow? (front ++ behind) = (value.follow? front).bind (·.follow? behind) := by
  induction front generalizing value with
  | nil => rfl
  | cons field rest ih =>
    simp only [List.cons_append, follow?, Option.bind_assoc, ih]

theorem follow?_cons_of_no_document {value : Value} (flat : ∀ members, value ≠ .document members)
    (field : String) (rest : List String) : value.follow? (field :: rest) = none := by
  cases value with
  | document members => exact absurd rfl (flat members)
  | text content => rfl
  | collection items => rfl

/-- A path that stops at a value cannot be followed any further. -/
theorem follow?_beyond {value reached : Value} {fields : List String} {gone n : Nat}
    (here : value.follow? (fields.take gone) = some reached)
    (stops : ∀ field rest, fields[gone]? = some field → reached.follow? (field :: rest) = none)
    (beyond : gone < n) (inside : n ≤ fields.length) : value.follow? (fields.take n) = none := by
  have split : fields.take n =
      fields.take gone ++ fields[gone] :: (fields.take n).drop (gone + 1) := by
    have again := List.take_append_drop gone (fields.take n)
    rw [List.take_take, Nat.min_eq_left (Nat.le_of_lt beyond),
      List.drop_eq_getElem_cons (by simpa [inside] using beyond), List.getElem_take] at again
    exact again.symm
  rw [split, follow?_append, here]
  exact stops _ _ (List.getElem?_eq_getElem _)

theorem follow?_within {value reached : Value} {fields : List String} {gone n : Nat}
    (here : value.follow? (fields.take gone) = some reached) (within : n ≤ gone) :
    (value.follow? (fields.take n)).isSome := by
  have split : fields.take gone = fields.take n ++ (fields.take gone).drop n := by
    have again := List.take_append_drop n (fields.take gone)
    rw [List.take_take, Nat.min_eq_left within] at again
    exact again.symm
  rw [split, follow?_append] at here
  exact Option.isSome_of_isSome_bind (by rw [here]; rfl)

namespace PathEnd

variable {value : Value} {fields : List String} {ending : PathEnd}

theorem Of.gone_le (of : ending.Of value fields) : ending.gone fields ≤ fields.length := by
  cases ending with
  | text content => exact Nat.le_refl _
  | noText found => exact Nat.le_refl _
  | missing gone =>
    obtain ⟨field, members, next, _⟩ := of
    exact Nat.le_of_lt (List.getElem?_eq_some_iff.mp next).1
  | noDocument gone found => exact Nat.le_of_lt of.1

/-- The fields gone are the longest part of the path that can be followed. -/
theorem Of.isSome_follow?_iff (of : ending.Of value fields) {n : Nat} (inside : n ≤ fields.length) :
    (value.follow? (fields.take n)).isSome ↔ n ≤ ending.gone fields := by
  cases ending with
  | text content =>
    have whole : value.follow? (fields.take fields.length) = some (.text content) := by
      rw [List.take_length]
      exact of
    exact iff_of_true (follow?_within whole inside) inside
  | noText found =>
    have whole : value.follow? (fields.take fields.length) = some found := by
      rw [List.take_length]
      exact of.1
    exact iff_of_true (follow?_within whole inside) inside
  | missing gone =>
    obtain ⟨field, members, next, here, absent⟩ := of
    refine ⟨fun reaches => Nat.le_of_not_lt fun beyond => ?_, follow?_within here⟩
    have stops (other : String) (rest : List String) (same : fields[gone]? = some other) :
        (document members).follow? (other :: rest) = none := by
      obtain rfl := Option.some.inj (next.symm.trans same)
      simp [follow?, get?, absent]
    simp [follow?_beyond here stops beyond inside] at reaches
  | noDocument gone found =>
    obtain ⟨_, here, flat⟩ := of
    refine ⟨fun reaches => Nat.le_of_not_lt fun beyond => ?_, follow?_within here⟩
    have stops (other : String) (rest : List String) (_ : fields[gone]? = some other) :=
      follow?_cons_of_no_document flat other rest
    simp [follow?_beyond here stops beyond inside] at reaches

theorem Of.gone_eq {other : PathEnd} (of : ending.Of value fields) (of' : other.Of value fields) :
    ending.gone fields = other.gone fields :=
  Nat.le_antisymm
    ((of'.isSome_follow?_iff of.gone_le).mp ((of.isSome_follow?_iff of.gone_le).mpr le_rfl))
    ((of.isSome_follow?_iff of'.gone_le).mp ((of'.isSome_follow?_iff of'.gone_le).mpr le_rfl))

/-- How a path comes out that can be followed for `gone` fields, up to the value `reached`. -/
def stopping (fields : List String) (gone : Nat) (reached : Value) : PathEnd :=
  if gone < fields.length then
    match reached with
    | document _ => missing gone
    | _ => noDocument gone reached
  else
    match reached with
    | .text content => text content
    | _ => noText reached

theorem Of.exists_reached (of : ending.Of value fields) :
    ∃ reached, value.follow? (fields.take (ending.gone fields)) = some reached ∧
      ending = stopping fields (ending.gone fields) reached := by
  cases ending with
  | text content =>
    refine ⟨.text content, ?_, ?_⟩
    · rw [gone, List.take_length]
      exact of
    · simp [gone, stopping]
  | noText found =>
    obtain ⟨whole, other⟩ := of
    refine ⟨found, ?_, ?_⟩
    · rw [gone, List.take_length]
      exact whole
    · cases found with
      | text content => exact absurd rfl (other content)
      | document members => simp [gone, stopping]
      | collection items => simp [gone, stopping]
  | missing gone =>
    obtain ⟨field, members, next, here, _⟩ := of
    exact ⟨_, here, by simp [stopping, PathEnd.gone, (List.getElem?_eq_some_iff.mp next).1]⟩
  | noDocument gone found =>
    obtain ⟨inside, here, flat⟩ := of
    refine ⟨found, here, ?_⟩
    cases found with
    | document members => exact absurd rfl (flat members)
    | text content => simp [stopping, PathEnd.gone, inside]
    | collection items => simp [stopping, PathEnd.gone, inside]

/-- A path comes out in one way only. -/
theorem Of.unique {other : PathEnd} (of : ending.Of value fields) (of' : other.Of value fields) :
    ending = other := by
  obtain ⟨reached, here, ends⟩ := of.exists_reached
  obtain ⟨reached', here', ends'⟩ := of'.exists_reached
  rw [← of.gone_eq of', here] at here'
  rw [ends, ends', ← of.gone_eq of', Option.some.inj here']

theorem Of.onward {members : List (String × Value)} {field : String} {next : Value}
    (found : members.lookup field = some next) (of : ending.Of next fields) :
    ending.onward.Of (document members) (field :: fields) := by
  have further (path : List String) :
      (document members).follow? (field :: path) = next.follow? path := by
    simp [follow?, get?, found]
  cases ending with
  | text content => exact (further fields).trans of
  | noText other => exact ⟨(further fields).trans of.1, of.2⟩
  | missing gone =>
    obtain ⟨field', members', at', here, absent⟩ := of
    exact ⟨field', members', at', (further _).trans here, absent⟩
  | noDocument gone other =>
    obtain ⟨inside, here, flat⟩ := of
    exact ⟨Nat.succ_lt_succ inside, (further _).trans here, flat⟩

end PathEnd

theorem of_pathEnd (value : Value) (fields : List String) :
    (value.pathEnd fields).Of value fields := by
  induction fields generalizing value with
  | nil =>
    cases value with
    | text content => rfl
    | document members => exact ⟨rfl, fun _ => Value.noConfusion⟩
    | collection items => exact ⟨rfl, fun _ => Value.noConfusion⟩
  | cons field rest ih =>
    cases value with
    | text content => exact ⟨Nat.succ_pos _, rfl, fun _ => Value.noConfusion⟩
    | collection items => exact ⟨Nat.succ_pos _, rfl, fun _ => Value.noConfusion⟩
    | document members =>
      simp only [pathEnd]
      cases found : members.lookup field with
      | none => exact ⟨field, members, rfl, rfl, found⟩
      | some next => exact (ih next).onward found

/-! ## What a tag gets -/

section

variable {value : Value} {label : String} {place : Point} {fields : List String}

/-- What a tag gets is a text or a problem exactly if its path comes out in the way that says so. -/
theorem resolveText_eq_iff {result : Except Problem String} :
    value.resolveText label place fields = result ↔
      ∃ ending : PathEnd, ending.Of value fields ∧ ending.result label place fields = result := by
  rw [resolveText_eq]
  constructor
  · rintro rfl
    exact ⟨_, of_pathEnd value fields, rfl⟩
  · rintro ⟨ending, of, rfl⟩
    rw [of.unique (of_pathEnd value fields)]

theorem resolveText_eq_ok_iff {text : String} :
    value.resolveText label place fields = .ok text ↔
      value.follow? fields = some (.text text) := by
  rw [resolveText_eq_iff]
  constructor
  · rintro ⟨ending, of, same⟩
    cases ending with
    | text content =>
      obtain rfl := Except.ok.inj same
      exact of
    | _ => contradiction
  · exact fun of => ⟨.text text, of, rfl⟩

theorem resolveText_eq_fieldNotFound_iff {path : String} {line column : Nat} :
    value.resolveText label place fields = .error (.fieldNotFound path line column) ↔
      ∃ gone field members, fields[gone]? = some field ∧
        value.follow? (fields.take gone) = some (.document members) ∧
        members.lookup field = none ∧
        path = ".".intercalate (label :: fields.take (gone + 1)) ∧
        line = place.line ∧ column = place.column := by
  rw [resolveText_eq_iff]
  constructor
  · rintro ⟨ending, of, same⟩
    cases ending with
    | missing gone =>
      obtain ⟨field, members, next, here, absent⟩ := of
      cases same
      exact ⟨gone, field, members, next, here, absent, rfl, rfl, rfl⟩
    | _ => simp [PathEnd.result] at same
  · rintro ⟨gone, field, members, next, here, absent, rfl, rfl, rfl⟩
    exact ⟨.missing gone, ⟨field, members, next, here, absent⟩, rfl⟩

theorem resolveText_eq_noDocument_iff {path : String} {kind : String} {line column : Nat} :
    value.resolveText label place fields =
        .error (.typeMismatch path "a document" kind line column) ↔
      ∃ gone reached, gone < fields.length ∧
        value.follow? (fields.take gone) = some reached ∧
        (∀ members, reached ≠ .document members) ∧
        path = ".".intercalate (label :: fields.take gone) ∧ kind = reached.kind ∧
        line = place.line ∧ column = place.column := by
  rw [resolveText_eq_iff]
  constructor
  · rintro ⟨ending, of, same⟩
    cases ending with
    | noDocument gone reached =>
      obtain ⟨inside, here, flat⟩ := of
      cases same
      exact ⟨gone, reached, inside, here, flat, rfl, rfl, rfl, rfl⟩
    | _ => simp [PathEnd.result] at same
  · rintro ⟨gone, reached, inside, here, flat, rfl, rfl, rfl, rfl⟩
    exact ⟨.noDocument gone reached, ⟨inside, here, flat⟩, rfl⟩

theorem resolveText_eq_noText_iff {path : String} {kind : String} {line column : Nat} :
    value.resolveText label place fields =
        .error (.typeMismatch path "text" kind line column) ↔
      ∃ reached, value.follow? fields = some reached ∧ (∀ content, reached ≠ .text content) ∧
        path = ".".intercalate (label :: fields) ∧ kind = reached.kind ∧
        line = place.line ∧ column = place.column := by
  rw [resolveText_eq_iff]
  constructor
  · rintro ⟨ending, of, same⟩
    cases ending with
    | noText reached =>
      cases same
      exact ⟨reached, of.1, of.2, rfl, rfl, rfl, rfl⟩
    | _ => simp [PathEnd.result] at same
  · rintro ⟨reached, whole, other, rfl, rfl, rfl, rfl⟩
    exact ⟨.noText reached, ⟨whole, other⟩, rfl⟩

end

/-- A tag gets a text, or a problem with the field that is missing, with the value that has no
fields or with the value that is no text, each exactly if its path comes out so. A path comes out in
exactly one way, and the fields it has gone are the longest part of it that can be followed. -/
theorem resolveText_classifies (value : Value) (label : String) (place : Point)
    (fields : List String) :
    (∀ text, value.resolveText label place fields = .ok text ↔
      value.follow? fields = some (.text text)) ∧
    (∀ path line column,
      value.resolveText label place fields = .error (.fieldNotFound path line column) ↔
      ∃ gone field members, fields[gone]? = some field ∧
        value.follow? (fields.take gone) = some (.document members) ∧
        members.lookup field = none ∧
        path = ".".intercalate (label :: fields.take (gone + 1)) ∧
        line = place.line ∧ column = place.column) ∧
    (∀ path kind line column,
      value.resolveText label place fields =
        .error (.typeMismatch path "a document" kind line column) ↔
      ∃ gone reached, gone < fields.length ∧
        value.follow? (fields.take gone) = some reached ∧
        (∀ members, reached ≠ .document members) ∧
        path = ".".intercalate (label :: fields.take gone) ∧ kind = reached.kind ∧
        line = place.line ∧ column = place.column) ∧
    (∀ path kind line column,
      value.resolveText label place fields =
        .error (.typeMismatch path "text" kind line column) ↔
      ∃ reached, value.follow? fields = some reached ∧ (∀ content, reached ≠ .text content) ∧
        path = ".".intercalate (label :: fields) ∧ kind = reached.kind ∧
        line = place.line ∧ column = place.column) ∧
    (∃! ending : PathEnd, ending.Of value fields) ∧
    ∀ ending : PathEnd, ending.Of value fields →
      value.resolveText label place fields = ending.result label place fields ∧
      ∀ n ≤ fields.length, (value.follow? (fields.take n)).isSome ↔ n ≤ ending.gone fields := by
  refine ⟨fun _ => resolveText_eq_ok_iff, fun _ _ _ => resolveText_eq_fieldNotFound_iff,
    fun _ _ _ _ => resolveText_eq_noDocument_iff, fun _ _ _ _ => resolveText_eq_noText_iff, ?_, ?_⟩
  · exact ⟨value.pathEnd fields, of_pathEnd value fields,
      fun _ of => of.unique (of_pathEnd value fields)⟩
  · intro ending of
    exact ⟨resolveText_eq_iff.mpr ⟨ending, of, rfl⟩, fun n inside => of.isSome_follow?_iff inside⟩

end Value

end Fieldmark
