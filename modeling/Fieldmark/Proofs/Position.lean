import Fieldmark.Point

/-!
# Places of a text

A point that moves past a text moves forward: to a later line, or further right on its own
(`Point.before_after`), so that line and column tell the places of one text apart. Byte offsets
cut a text where points were (`slice?_after`).
-/

namespace Fieldmark

/-- How many bytes a text takes. -/
def byteCount : List Char → Nat
  | [] => 0
  | c :: text => c.utf8Size + byteCount text

@[simp] theorem byteCount_nil : byteCount [] = 0 := rfl

@[simp] theorem byteCount_cons (c : Char) (text : List Char) :
    byteCount (c :: text) = c.utf8Size + byteCount text := rfl

@[simp] theorem byteCount_append (a b : List Char) :
    byteCount (a ++ b) = byteCount a + byteCount b := by
  induction a with
  | nil => simp
  | cons c a ih => rw [List.cons_append, byteCount_cons, ih, byteCount_cons, Nat.add_assoc]

theorem byteCount_pos {text : List Char} (nonempty : text ≠ []) : 0 < byteCount text := by
  cases text with
  | nil => contradiction
  | cons c text => exact Nat.add_pos_left c.utf8Size_pos _

namespace Point

theorem offset_advance (p : Point) (c : Char) : (p.advance c).offset = p.offset + c.utf8Size := by
  unfold advance
  split <;> rfl

theorem offset_after (p : Point) (text : List Char) :
    (p.after text).offset = p.offset + byteCount text := by
  induction text generalizing p with
  | nil => rfl
  | cons c text ih => rw [after_cons, ih, offset_advance, byteCount_cons, Nat.add_assoc]

theorem offset_le_after (p : Point) (text : List Char) : p.offset ≤ (p.after text).offset := by
  rw [offset_after]
  exact Nat.le_add_right _ _

theorem offset_lt_advance (p : Point) (c : Char) : p.offset < (p.advance c).offset := by
  rw [offset_advance]
  exact Nat.lt_add_of_pos_right c.utf8Size_pos

theorem line_after (p : Point) (text : List Char) :
    (p.after text).line = p.line + text.count '\n' := by
  induction text generalizing p with
  | nil => rfl
  | cons c text ih =>
    rw [after_cons, ih, List.count_cons, advance]
    by_cases feed : c = '\n'
    · simp only [feed, if_true, beq_self_eq_true]
      omega
    · simp [feed]

theorem after_of_no_lineFeed (p : Point) {text : List Char} (inline : '\n' ∉ text) :
    (p.after text).line = p.line ∧ (p.after text).column = p.column + text.length := by
  induction text generalizing p with
  | nil => exact ⟨rfl, rfl⟩
  | cons c text ih =>
    simp only [List.mem_cons, not_or] at inline
    obtain ⟨line, column⟩ := ih (p.advance c) inline.2
    have step : p.advance c = ⟨p.line, p.column + 1, p.offset + c.utf8Size⟩ :=
      if_neg fun feed => inline.1 feed.symm
    rw [after_cons, line, column, step]
    exact ⟨rfl, Nat.add_right_comm ..⟩

/-! ## The order of reading -/

/-- On an earlier line, or further left on the same one. -/
def Before (p q : Point) : Prop := p.line < q.line ∨ p.line = q.line ∧ p.column < q.column

theorem Before.trans {p q r : Point} (first : p.Before q) (second : q.Before r) : p.Before r := by
  unfold Before at *
  omega

theorem before_advance (p : Point) (c : Char) : p.Before (p.advance c) := by
  unfold Before advance
  split
  · exact .inl (Nat.lt_succ_self _)
  · exact .inr ⟨rfl, Nat.lt_succ_self _⟩

theorem before_after (p : Point) {text : List Char} (nonempty : text ≠ []) :
    p.Before (p.after text) := by
  induction text generalizing p with
  | nil => contradiction
  | cons c text ih =>
    rw [after_cons]
    by_cases last : text = []
    · subst last
      exact before_advance p c
    · exact (before_advance p c).trans (ih (p.advance c) last)

end Point

/-! ## Cutting where points are -/

private theorem byteCount_cons_eq_succ (c : Char) (text : List Char) :
    ∃ n, byteCount (c :: text) = n + 1 :=
  Nat.exists_eq_succ_of_ne_zero (by have := c.utf8Size_pos; rw [byteCount_cons]; omega)

theorem dropBytes?_append (a b : List Char) : dropBytes? (a ++ b) (byteCount a) = some b := by
  induction a with
  | nil => simp [dropBytes?]
  | cons c a ih =>
    obtain ⟨n, count⟩ := byteCount_cons_eq_succ c a
    have split : n + 1 = c.utf8Size + byteCount a := by rw [← count, byteCount_cons]
    rw [count, List.cons_append, dropBytes?, if_pos (by omega), ← ih]
    congr 1
    omega

theorem takeBytes?_append (a b : List Char) : takeBytes? (a ++ b) (byteCount a) = some a := by
  induction a with
  | nil => simp [takeBytes?]
  | cons c a ih =>
    obtain ⟨n, count⟩ := byteCount_cons_eq_succ c a
    have split : n + 1 - c.utf8Size = byteCount a := by rw [← count, byteCount_cons]; omega
    rw [count, List.cons_append, takeBytes?, if_pos (by rw [← count, byteCount_cons]; omega),
      split, ih, Option.map_some]

/-- The bytes between two points of a text are the characters between them. -/
theorem slice?_after (before text behind : List Char) :
    slice? (before ++ text ++ behind) (Point.start.after before).offset
      (Point.start.after (before ++ text)).offset = some text := by
  have lo : (Point.start.after before).offset = byteCount before := by
    rw [Point.offset_after]; exact Nat.zero_add _
  have hi : (Point.start.after (before ++ text)).offset = byteCount before + byteCount text := by
    rw [Point.offset_after, byteCount_append]; exact Nat.zero_add _
  rw [slice?, lo, hi, if_pos (Nat.le_add_right _ _), List.append_assoc, dropBytes?_append,
    Option.bind_some, Nat.add_sub_cancel_left, takeBytes?_append]

namespace Point

/-- A point of a text: where one gets to from its start, past as many bytes as the point counts. -/
def Of (text : List Char) (p : Point) : Prop :=
  ∃ before, takeBytes? text p.offset = some before ∧ p = start.after before

theorem of_after (before behind : List Char) : (start.after before).Of (before ++ behind) := by
  refine ⟨before, ?_, rfl⟩
  rw [offset_after]
  simpa [start] using takeBytes?_append before behind

end Point

end Fieldmark
