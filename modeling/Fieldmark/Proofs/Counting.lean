import Fieldmark.Proofs.Offsets
import Mathlib.Data.List.DropRight
import Mathlib.Data.Prod.Lex

/-!
# Counting lines and columns

Where a text takes a point can be counted: its bytes, its line feeds, and the characters on its last
line (`Point.column_after`). Line and column, in the order of reading, are ordered as the bytes are
(`Point.reported_lt_of_lt`), so what is reported of a place belongs to no other place of the page.
-/

namespace Fieldmark

theorem utf8ByteSize_ofList (text : List Char) : (String.ofList text).utf8ByteSize = byteCount text := by
  induction text with
  | nil => rfl
  | cons c text ih =>
    rw [String.ofList_cons, String.utf8ByteSize_append, String.utf8ByteSize_singleton, ih, byteCount_cons]

namespace Point

/-- Only what stands behind the last line feed counts for the column. -/
theorem column_after (p : Point) (text : List Char) :
    (p.after text).column =
      if '\n' ∈ text then 1 + (text.rtakeWhile (· != '\n')).length else p.column + text.length := by
  -- from the end, since each line feed starts the count again
  induction text using List.reverseRecOn with
  | nil => simp
  | append_singleton text c ih =>
    rw [after_append, after_cons, after_nil, advance, List.rtakeWhile_concat]
    by_cases feed : c = '\n'
    · simp [feed]
    · have further : '\n' ∈ text ++ [c] ↔ '\n' ∈ text := by simp [Ne.symm feed]
      simp only [feed, if_false, further, bne_iff_ne, ne_eq, not_false_eq_true, if_true,
        List.length_append, List.length_singleton, ih]
      split <;> omega

/-- What is reported of a point: line and column, in the order of reading. -/
def reported (p : Point) : Nat ×ₗ Nat := toLex (p.line, p.column)

theorem reported_lt_iff {p q : Point} : p.reported < q.reported ↔ p.Before q :=
  Prod.Lex.toLex_lt_toLex

/-- More bytes of a page end at a later place of it. -/
theorem reported_lt_of_lt {page a b : List Char} {i j : Nat} (first : takeBytes? page i = some a)
    (second : takeBytes? page j = some b) (order : i < j) :
    (start.after a).reported < (start.after b).reported := by
  obtain ⟨rest, rfl, rfl⟩ := takeBytes?_eq_some_iff.mp first
  obtain ⟨rest', whole, rfl⟩ := takeBytes?_eq_some_iff.mp second
  rcases List.append_eq_append_iff.mp whole with ⟨more, rfl, _⟩ | ⟨more, rfl, _⟩
  · have nonempty : more ≠ [] := by
      rintro rfl
      simp at order
    rw [reported_lt_iff, after_append]
    exact before_after _ nonempty
  · rw [byteCount_append] at order
    omega

/-- Where a text takes a point, by counting, and one part of the text after the other. Two places
between characters of a page are reported as different, the one with fewer bytes before it first. -/
theorem places_told_apart :
    (∀ (p : Point) (text : List Char),
      (p.after text).offset = p.offset + (String.ofList text).utf8ByteSize ∧
      (p.after text).line = p.line + text.count '\n' ∧
      (p.after text).column =
        if '\n' ∈ text then 1 + (text.rtakeWhile (· != '\n')).length else p.column + text.length) ∧
    (∀ (p : Point) (a b : List Char), p.after (a ++ b) = (p.after a).after b) ∧
    ∀ {page a b : List Char} {i j : Nat}, takeBytes? page i = some a → takeBytes? page j = some b →
      (i ≠ j → (start.after a).reported ≠ (start.after b).reported) ∧
      (i < j ↔ (start.after a).reported < (start.after b).reported) := by
  refine ⟨fun p text => ⟨?_, line_after p text, column_after p text⟩, after_append, ?_⟩
  · rw [utf8ByteSize_ofList, offset_after]
  · intro page a b i j first second
    rcases Nat.lt_trichotomy i j with less | same | more
    · have order := reported_lt_of_lt first second less
      exact ⟨fun _ => order.ne, iff_of_true less order⟩
    · subst same
      obtain rfl := Option.some.inj (first.symm.trans second)
      exact ⟨fun apart => absurd rfl apart, iff_of_false (lt_irrefl i) (lt_irrefl _)⟩
    · have order := reported_lt_of_lt second first more
      exact ⟨fun _ => order.ne', iff_of_false more.asymm order.asymm⟩

/-- In front of a line feed and behind it, with a character of two bytes before them. -/
theorem places_told_apart_line_feed :
    takeBytes? ['é', '\n', 'b'] 2 = some ['é'] ∧ takeBytes? ['é', '\n', 'b'] 3 = some ['é', '\n'] ∧
      (start.after ['é']).reported = toLex (1, 2) ∧ (start.after ['é', '\n']).reported = toLex (2, 1) ∧
      (start.after ['é']).reported < (start.after ['é', '\n']).reported := by
  have first : takeBytes? ['é', '\n', 'b'] 2 = some ['é'] := rfl
  have second : takeBytes? ['é', '\n', 'b'] 3 = some ['é', '\n'] := rfl
  exact ⟨first, second, rfl, rfl, (places_told_apart.2.2 first second).2.mp (by decide)⟩

end Point

end Fieldmark
