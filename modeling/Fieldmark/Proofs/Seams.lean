import Fieldmark.Proofs.Lines

/-!
# Seams

Bindings are removed in one pass, and the text around them stays as it is. Where one was removed,
what stood in front of it meets what stood behind, and the two together may read as a binding
(`find_strip_rejoined`). Nothing else is left to find (`find_strip_seams`): a page in which every
`<` is closed before a binding follows has no bindings once it is stripped.
-/

namespace Fieldmark

namespace Binding

variable {p : Point} {bindings : List Binding} {kept text : List Char}

namespace Parted

/-- What is left at the front of a text stands there in one piece, or is cut by a binding. -/
theorem prefix_or_seam {front back : List Char} (parted : Parted p bindings (front ++ back) text) :
    front <+: text ∨ ∃ left right, front = left ++ right ∧ right ≠ [] ∧ left <+: text ∧
      ∃ b ∈ bindings, b.span.start = p.after left := by
  generalize whole : front ++ back = kept at parted
  induction parted generalizing front with
  | nil =>
    obtain ⟨rfl, _⟩ := List.append_eq_nil_iff.mp whole
    exact .inl List.nil_prefix
  | @kept p c bindings kept rest parted ih =>
    cases front with
    | nil => exact .inl List.nil_prefix
    | cons d front =>
      obtain ⟨rfl, more⟩ := List.cons.inj whole
      rcases ih more with piece | ⟨left, right, rfl, some, piece, b, member, start⟩
      · exact .inl ((List.prefix_cons_inj d).mpr piece)
      · exact .inr ⟨d :: left, right, rfl, some, (List.prefix_cons_inj d).mpr piece, b, member, start⟩
  | @binding p name path text bindings kept rest is parted ih =>
    cases front with
    | nil => exact .inl List.nil_prefix
    | cons d front =>
      exact .inr ⟨[], d :: front, rfl, by simp, List.nil_prefix, _, List.mem_cons_self .., rfl⟩

end Parted

/-- A binding of a stripped page is put together from `left`, which stands in the page in front of
a binding, and `right`, which follows once that is removed. -/
def SpansSeam (page left right : List Char) (b : Binding) : Prop :=
  left ≠ [] ∧ right ≠ [] ∧ b.span.slice? (strip page) = some (left ++ right) ∧
    ∃ a ∈ find page, ∃ front behind, page = front ++ left ++ behind ∧
      b.span.start = Point.start.after (uncovered (spans page) .start front) ∧
      a.span.start = Point.start.after (front ++ left)

/-- A stretch of a stripped page that is a binding spans a seam. -/
theorem seam_of_stretch {page front stretch behind : List Char} {name path : String}
    (whole : strip page = front ++ stretch ++ behind) (is : Stretch name path stretch) :
    ∃ left right, stretch = left ++ right ∧ left ≠ [] ∧ right ≠ [] ∧
      ∃ a ∈ find page, ∃ before rest, page = before ++ left ++ rest ∧
        uncovered (spans page) .start before = front ∧
        a.span.start = Point.start.after (before ++ left) := by
  obtain ⟨c, more, first⟩ := List.exists_cons_of_ne_nil is.ne_nil
  have left : uncovered (spans page) .start page = front ++ c :: (more ++ behind) := by
    rw [← strip_eq_uncovered, whole, first, List.append_assoc, List.cons_append]
  obtain ⟨before, rest, cut, rfl, outside, _⟩ := exists_of_uncovered left
  have parted : Parted .start (find page) (strip page) (before ++ c :: rest) := by
    rw [← cut]
    exact parted_page page
  obtain ⟨bindings₁, bindings₂, kept₁, kept₂, listed, left', early, later⟩ := parted.split outside
  have same : uncovered (spans page) .start before = kept₁ := by
    rw [spans, listed]
    exact early.uncovered_front later
  have rest' : kept₂ = stretch ++ behind := by
    rw [whole, same, List.append_assoc] at left'
    exact (List.append_cancel_left left').symm
  subst rest'
  have inside {a : Binding} (member : a ∈ bindings₂) : a ∈ find page :=
    listed ▸ List.mem_append_right _ member
  rcases later.prefix_or_seam with ⟨rest', piece⟩ | ⟨left, right, rfl, some, ⟨rest', piece⟩, a, member, start⟩
  · -- in one piece it would have been found
    have member := @mem_find before stretch rest' name path is
    rw [List.append_assoc, piece, ← cut] at member
    refine absurd ⟨Nat.le_refl _, ?_⟩ (outside _ (List.mem_map_of_mem member))
    have size := byteCount_pos is.ne_nil
    simp only [Point.offset_after, byteCount_append]
    omega
  · refine ⟨left, right, rfl, ?_, some, a, inside member, before, rest', by simp [cut, piece], rfl, ?_⟩
    · rintro rfl
      refine outside a.span (List.mem_map_of_mem (inside member)) ?_
      have := later.within member
      rw [start] at this
      exact ⟨Nat.le_of_eq (by rw [start]; rfl), this.2.1⟩
    · rw [start, Point.after_append]

theorem spansSeam_of_mem {page : List Char} {b : Binding} (member : b ∈ find (strip page)) :
    ∃ left right, SpansSeam page left right b := by
  obtain ⟨front, stretch, behind, whole, is, place⟩ := (parted_page (strip page)).mem member
  obtain ⟨left, right, rfl, some, some', a, listed, before, rest, page', rfl, start⟩ :=
    seam_of_stretch whole is
  refine ⟨left, right, some, some', ?_, a, listed, before, rest, page', by rw [place], start⟩
  rw [Span.slice?, place, whole]
  exact slice?_after _ (left ++ right) behind

/-- Every `<` of a text has a `>` behind it, or the end of its line. -/
def AnglesClosed : List Char → Prop
  | [] => True
  | c :: rest => (c = '<' → '>' ∈ rest ∨ '\n' ∈ rest) ∧ AnglesClosed rest

instance decidableAnglesClosed : DecidablePred AnglesClosed
  | [] => instDecidableTrue
  | c :: rest =>
    have := decidableAnglesClosed rest
    inferInstanceAs (Decidable ((c = '<' → '>' ∈ rest ∨ '\n' ∈ rest) ∧ AnglesClosed rest))

theorem AnglesClosed.behind {front rest : List Char} (closed : AnglesClosed (front ++ '<' :: rest)) :
    '>' ∈ rest ∨ '\n' ∈ rest := by
  induction front with
  | nil => exact closed.1 rfl
  | cons c front ih => exact ih closed.2

/-- What begins like a binding and ends before it does leaves its `<` open. -/
theorem Stretch.not_anglesClosed {name path : String} {left right : List Char} (front : List Char)
    (is : Stretch name path (left ++ right)) (some : left ≠ []) (some' : right ≠ []) :
    ¬ AnglesClosed (front ++ left) := by
  obtain ⟨inner, shape, inline, _⟩ := is.shape
  have split : left ++ right = (opening ++ inner ++ [':']) ++ ['>'] := by simp [shape]
  rcases List.prefix_concat_iff.mp (split ▸ List.prefix_append left right) with rfl | ⟨more, whole⟩
  · exact absurd (by simpa using split) some'
  obtain ⟨c, rest, rfl⟩ := List.exists_cons_of_ne_nil some
  obtain rfl : c = '<' := (List.cons.inj whole).1
  have tail : rest ++ more = [':'] ++ inner ++ [':'] := (List.cons.inj whole).2
  have colon : Inline [':'] := by simp [Inline]
  have plain : Inline rest := by
    have all : Inline (rest ++ more) := by
      rw [tail, inline_append, inline_append]
      exact ⟨⟨colon, inline⟩, colon⟩
    exact (inline_append.mp all).1
  intro closed
  rcases closed.behind with angle | feed
  · exact plain.1 angle
  · exact plain.2 feed

/-- Whatever binding is found in a stripped page spans a seam. Where every `<` in front of a binding is
closed there is none, and where there is none a second pass changes nothing. -/
theorem find_strip_seams (page : List Char) :
    (∀ b ∈ find (strip page), ∃ left right, SpansSeam page left right b) ∧
    ((∀ a ∈ find page, ∀ front, takeBytes? page a.span.start.offset = some front →
      AnglesClosed front) → find (strip page) = []) ∧
    (strip (strip page) = strip page ↔ find (strip page) = []) := by
  refine ⟨fun b member => spansSeam_of_mem member, fun closed => ?_, strip_eq_self_iff⟩
  by_contra found
  obtain ⟨b, member⟩ := List.exists_mem_of_ne_nil _ found
  obtain ⟨front, stretch, behind, whole, is, _⟩ := (parted_page (strip page)).mem member
  obtain ⟨left, right, rfl, some, some', a, listed, before, rest, cut, _, start⟩ :=
    seam_of_stretch whole is
  have front' : takeBytes? page a.span.start.offset = .some (before ++ left) := by
    rw [start, Point.offset_after, cut]
    simpa [Point.start] using takeBytes?_append (before ++ left) rest
  exact is.not_anglesClosed before some some' (closed a listed _ front')

/-- A binding behind a closed tag on its line, with half a binding behind it. -/
theorem find_strip_seams_closed :
    (∀ a ∈ find "<p><:a=b:>x=c:>".toList, ∀ front,
      takeBytes? "<p><:a=b:>x=c:>".toList a.span.start.offset = some front → AnglesClosed front) ∧
    find (strip "<p><:a=b:>x=c:>".toList) = [] := by
  have found : find "<p><:a=b:>x=c:>".toList = [⟨"a", "b", ⟨⟨1, 4, 3⟩, ⟨1, 11, 10⟩⟩⟩] := by
    with_unfolding_all rfl
  have closed : ∀ a ∈ find "<p><:a=b:>x=c:>".toList, ∀ front,
      takeBytes? "<p><:a=b:>x=c:>".toList a.span.start.offset = some front → AnglesClosed front := by
    intro a member front cut
    rw [found, List.mem_singleton] at member
    subst member
    obtain rfl : "<p>".toList = front := Option.some.inj cut
    decide
  exact ⟨closed, (find_strip_seams "<p><:a=b:>x=c:>".toList).2.1 closed⟩

/-- The `<:` in front of a binding and the text behind it make another one. -/
theorem find_strip_rejoined :
    find (strip "<:<:a=b:>x=c:>".toList) ≠ [] ∧
      strip (strip "<:<:a=b:>x=c:>".toList) ≠ strip "<:<:a=b:>x=c:>".toList := by
  have found : find (strip "<:<:a=b:>x=c:>".toList) = [⟨"x", "c", ⟨⟨1, 1, 0⟩, ⟨1, 8, 7⟩⟩⟩] := by
    with_unfolding_all rfl
  have some : find (strip "<:<:a=b:>x=c:>".toList) ≠ [] := by
    rw [found]
    exact List.cons_ne_nil _ _
  exact ⟨some, fun same => some (strip_eq_self_iff.mp same)⟩

end Binding

end Fieldmark
