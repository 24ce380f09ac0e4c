import Fieldmark.Proofs.Bindings

/-!
# Lines outlive bindings

A stripped page is what stands outside of the spans of its bindings (`strip_eq_uncovered`). A binding
stays on its line, so a page has as many lines with its bindings as without. A character outside of
them is on the same line of both, and further right with them by what they take in front of it on
that line (`kept_of_outside`).
-/

namespace Fieldmark

/-! ## Outside of spans -/

/-- A point that no span covers. -/
def Outside (spans : List Span) (p : Point) : Prop := ∀ s ∈ spans, ¬ s.Covers p

instance (spans : List Span) (p : Point) : Decidable (Outside spans p) :=
  inferInstanceAs (Decidable (∀ s ∈ spans, ¬ s.Covers p))

/-- The characters of a text outside of spans; the text begins at a point. -/
def uncovered (spans : List Span) (p : Point) : List Char → List Char
  | [] => []
  | c :: text =>
    if Outside spans p then c :: uncovered spans (p.advance c) text
    else uncovered spans (p.advance c) text

theorem outside_cons {s : Span} {spans : List Span} {p : Point} :
    Outside (s :: spans) p ↔ ¬ s.Covers p ∧ Outside spans p :=
  List.forall_mem_cons

section

variable {spans : List Span} {p : Point}

theorem uncovered_append (spans : List Span) (p : Point) (a b : List Char) :
    uncovered spans p (a ++ b) = uncovered spans p a ++ uncovered spans (p.after a) b := by
  induction a generalizing p with
  | nil => rfl
  | cons c a ih =>
    rw [List.cons_append, uncovered, uncovered, ih]
    split <;> rfl

theorem uncovered_congr {others : List Span} {text : List Char}
    (same : ∀ q, p.offset ≤ q.offset → q.offset < (p.after text).offset →
      (Outside spans q ↔ Outside others q)) : uncovered spans p text = uncovered others p text := by
  induction text generalizing p with
  | nil => rfl
  | cons c text ih =>
    have here : Outside spans p ↔ Outside others p :=
      same p (Nat.le_refl _) (Nat.lt_of_lt_of_le (Point.offset_lt_advance p c) (Point.offset_le_after _ _))
    have more : uncovered spans (p.advance c) text = uncovered others (p.advance c) text :=
      ih fun q front behind => same q (by have := Point.offset_lt_advance p c; omega) behind
    simp only [uncovered, here, more]

theorem uncovered_eq_nil {s : Span} {text : List Char} (member : s ∈ spans)
    (front : s.start.offset ≤ p.offset) (behind : (p.after text).offset ≤ s.stop.offset) :
    uncovered spans p text = [] := by
  induction text generalizing p with
  | nil => rfl
  | cons c text ih =>
    have step := Point.offset_lt_advance p c
    have inside := Point.offset_le_after (p.advance c) text
    rw [Point.after_cons] at behind
    have covered : ¬ Outside spans p := fun outside => outside s member ⟨front, by omega⟩
    rw [uncovered, if_neg covered, ih (by omega) behind]

/-- What is left of a text can be split where the text can. -/
theorem exists_of_uncovered {text a b : List Char} {c : Char}
    (h : uncovered spans p text = a ++ c :: b) :
    ∃ before behind, text = before ++ c :: behind ∧ uncovered spans p before = a ∧
      Outside spans (p.after before) ∧ uncovered spans ((p.after before).advance c) behind = b := by
  induction text generalizing p a with
  | nil => simp [uncovered] at h
  | cons d text ih =>
    rw [uncovered] at h
    split at h
    · rename_i outside
      cases a with
      | nil =>
        obtain ⟨rfl, rest⟩ := List.cons.inj h
        exact ⟨[], text, rfl, rfl, outside, rest⟩
      | cons e a =>
        obtain ⟨rfl, rest⟩ := List.cons.inj h
        obtain ⟨before, behind, rfl, rfl, outside', rest'⟩ := ih rest
        exact ⟨d :: before, behind, rfl, by rw [uncovered, if_pos outside], outside', rest'⟩
    · rename_i covered
      obtain ⟨before, behind, rfl, rfl, outside, rest⟩ := ih h
      exact ⟨d :: before, behind, rfl, by rw [uncovered, if_neg covered], outside, rest⟩

end

/-! ## Pages without their bindings -/

variable {p : Point}

namespace Binding

/-- How many columns a binding takes. -/
def width (b : Binding) : Nat := b.span.stop.column - b.span.start.column

/-- How many columns the bindings take that end in front of a point, on its line. -/
def passed : List Binding → Point → Nat
  | [], _ => 0
  | b :: rest, p =>
    if b.span.stop.line = p.line ∧ b.span.stop.offset ≤ p.offset then b.width + passed rest p
    else passed rest p

theorem passed_append (a b : List Binding) (p : Point) :
    passed (a ++ b) p = passed a p + passed b p := by
  induction a with
  | nil => exact (Nat.zero_add _).symm
  | cons first a ih =>
    rw [List.cons_append, passed, passed, ih]
    split
    · exact (Nat.add_assoc ..).symm
    · rfl

theorem passed_eq_zero {bindings : List Binding} {p : Point}
    (none : ∀ b ∈ bindings, b.span.stop.line = p.line → p.offset < b.span.stop.offset) :
    passed bindings p = 0 := by
  induction bindings with
  | nil => rfl
  | cons b rest ih =>
    obtain ⟨first, others⟩ := List.forall_mem_cons.mp none
    rw [passed, if_neg fun ends => Nat.not_lt.mpr ends.2 (first ends.1)]
    exact ih others

namespace Parted

variable {bindings : List Binding} {kept text : List Char}

/-- The bindings of a text begin and end in it. -/
theorem within (parted : Parted p bindings kept text) {b : Binding} (member : b ∈ bindings) :
    p.offset ≤ b.span.start.offset ∧ b.span.start.offset < b.span.stop.offset ∧
      b.span.stop.offset ≤ (p.after text).offset := by
  obtain ⟨before, stretch, behind, rfl, is, span⟩ := parted.mem member
  have some := byteCount_pos is.ne_nil
  simp only [span, Point.offset_after, byteCount_append]
  omega

theorem outside_of_lt (parted : Parted p bindings kept text) {q : Point} (front : q.offset < p.offset) :
    Outside (bindings.map span) q := by
  intro s member
  obtain ⟨b, inside, rfl⟩ := List.mem_map.mp member
  have := (parted.within inside).1
  exact fun covers => absurd covers.1 (by omega)

theorem uncovered_eq (parted : Parted p bindings kept text) :
    uncovered (bindings.map span) p text = kept := by
  induction parted with
  | nil => rfl
  | @kept p c bindings kept rest parted ih =>
    rw [uncovered, if_pos (parted.outside_of_lt (Point.offset_lt_advance p c)), ih]
  | @binding p name path text bindings kept rest is parted ih =>
    have first : uncovered (List.map span (⟨name, path, ⟨p, p.after text⟩⟩ :: bindings)) p text = [] :=
      uncovered_eq_nil (List.mem_cons_self ..) (Nat.le_refl _) (Nat.le_refl _)
    have others : uncovered (List.map span (⟨name, path, ⟨p, p.after text⟩⟩ :: bindings))
        (p.after text) rest = uncovered (bindings.map span) (p.after text) rest := by
      refine uncovered_congr fun q behind _ => ?_
      rw [List.map_cons, outside_cons]
      exact and_iff_right fun covers => absurd covers.2 (by simpa using behind)
    rw [uncovered_append, first, others, ih, List.nil_append]

/-- Bindings further on take nothing from the front of a text. -/
theorem uncovered_front {bindings' : List Binding} {kept' before behind : List Char}
    (front : Parted p bindings kept before) (later : Parted (p.after before) bindings' kept' behind) :
    uncovered ((bindings ++ bindings').map span) p before = kept := by
  rw [← front.uncovered_eq]
  refine uncovered_congr fun q _ early => ?_
  rw [List.map_append, Outside, Outside, List.forall_mem_append]
  exact and_iff_left (later.outside_of_lt early)

theorem count_lineFeed (parted : Parted p bindings kept text) : kept.count '\n' = text.count '\n' := by
  induction parted with
  | nil => rfl
  | kept _ ih => rw [List.count_cons, List.count_cons, ih]
  | binding is _ ih => rw [List.count_append, List.count_eq_zero_of_not_mem is.no_lineFeed, ih, Nat.zero_add]

/-- A text can be parted in front of a character outside of its bindings. -/
theorem split {before behind : List Char} {c : Char}
    (parted : Parted p bindings kept (before ++ c :: behind))
    (outside : Outside (bindings.map span) (p.after before)) :
    ∃ bindings₁ bindings₂ kept₁ kept₂, bindings = bindings₁ ++ bindings₂ ∧ kept = kept₁ ++ kept₂ ∧
      Parted p bindings₁ kept₁ before ∧ Parted (p.after before) bindings₂ kept₂ (c :: behind) := by
  generalize whole : before ++ c :: behind = text at parted
  induction parted generalizing before with
  | nil => simp at whole
  | @kept p d bindings kept rest parted ih =>
    cases before with
    | nil =>
      obtain ⟨rfl, rfl⟩ := List.cons.inj whole
      exact ⟨[], bindings, [], c :: kept, rfl, rfl, .nil, .kept parted⟩
    | cons e before =>
      obtain ⟨rfl, rest⟩ := List.cons.inj whole
      obtain ⟨bindings₁, bindings₂, kept₁, kept₂, rfl, rfl, front, behind⟩ := ih outside rest
      exact ⟨bindings₁, bindings₂, e :: kept₁, kept₂, rfl, rfl, .kept front, behind⟩
  | @binding p name path text bindings kept rest is parted ih =>
    rw [List.map_cons, outside_cons] at outside
    rcases List.append_eq_append_iff.mp whole with ⟨more, rfl, rest'⟩ | ⟨more, rfl, rest'⟩
    · cases more with
      | nil =>
        rw [List.append_nil] at is parted outside ih ⊢
        obtain rfl := rest'
        have front : Parted p [⟨name, path, ⟨p, p.after before⟩⟩] [] (before ++ []) := .binding is .nil
        rw [List.append_nil] at front
        exact ⟨_, bindings, [], kept, rfl, rfl, front, parted⟩
      | cons d more =>
        -- the character would lie within the binding
        refine absurd ⟨Point.offset_le_after p before, ?_⟩ outside.1
        simp only [Point.after_append, Point.after_cons]
        exact Nat.lt_of_lt_of_le (Point.offset_lt_advance _ d) (Point.offset_le_after _ _)
    · rw [Point.after_append] at outside ⊢
      obtain ⟨bindings₁, bindings₂, kept₁, kept₂, rfl, rfl, front, behind⟩ := ih outside.2 rest'.symm
      exact ⟨_ :: bindings₁, bindings₂, kept₁, kept₂, rfl, rfl, .binding is front, behind⟩

/-- Without its bindings a text ends on the same line, and further left by what they take of it. The
text before it may have lost `shift` columns of the line on which it begins. -/
theorem column_after (parted : Parted p bindings kept text) {q : Point} {shift : Nat}
    (column : q.column + shift = p.column) :
    (q.after kept).column + passed bindings (p.after text) +
      (if (p.after text).line = p.line then shift else 0) = (p.after text).column := by
  induction parted generalizing q shift with
  | nil => simpa [passed] using column
  | @kept p c bindings kept rest parted ih =>
    rw [Point.after_cons, Point.after_cons]
    by_cases feed : c = '\n'
    · subst feed
      have later : ((p.advance '\n').after rest).line ≠ p.line := by
        rw [Point.line_after]
        exact Nat.ne_of_gt (Nat.lt_of_lt_of_le (Nat.lt_succ_self _) (Nat.le_add_right _ _))
      have fresh := @ih (q.advance '\n') 0 rfl
      rw [ite_self, Nat.add_zero] at fresh
      rw [if_neg later]
      exact fresh
    · have step (r : Point) : r.advance c = ⟨r.line, r.column + 1, r.offset + c.utf8Size⟩ := if_neg feed
      have moved := @ih (q.advance c) shift (by rw [step, step]; simp only; omega)
      have line : (p.advance c).line = p.line := by rw [step]
      rwa [line] at moved
  | @binding p name path text bindings kept rest is parted ih =>
    obtain ⟨line, column'⟩ := p.after_of_no_lineFeed is.no_lineFeed
    have moved := @ih q (shift + text.length) (by omega)
    have inside := Point.offset_le_after (p.after text) rest
    rw [← Point.after_append] at moved inside
    rw [line] at moved
    have taken : width ⟨name, path, ⟨p, p.after text⟩⟩ = text.length := by
      simp only [width, column']
      omega
    rw [passed, taken]
    simp only [line, inside, and_true, eq_comm (a := p.line)]
    split_ifs at moved ⊢ <;> omega

end Parted

/-! ## What stripping keeps -/

/-- The stretches of a page that its bindings take. -/
def spans (page : List Char) : List Span := (find page).map span

theorem strip_eq_uncovered (page : List Char) : strip page = uncovered (spans page) .start page :=
  (parted_page page).uncovered_eq.symm

theorem exists_slice {page : List Char} {b : Binding} (member : b ∈ find page) :
    ∃ text, b.span.slice? page = some text ∧ '\n' ∉ text ∧ text.length = b.width := by
  obtain ⟨before, stretch, behind, whole, is, places⟩ := (parted_page page).mem member
  refine ⟨stretch, ?_, is.no_lineFeed, ?_⟩
  · rw [Span.slice?, places, whole]
    exact slice?_after before stretch behind
  · obtain ⟨_, column⟩ := (Point.start.after before).after_of_no_lineFeed is.no_lineFeed
    rw [width, places]
    simp only [Point.after_append, column]
    omega

/-- A character with what stands in front of it in a page and in the stripped page: on the same line
of both, and further left in the one by what bindings take in the other. -/
structure Kept (page before : List Char) (c : Char) (front : List Char) : Prop where
  whole : before ++ [c] <+: page
  left : front ++ [c] <+: strip page
  line : (Point.start.after front).line = (Point.start.after before).line
  column : (Point.start.after front).column + passed (find page) (Point.start.after before) =
    (Point.start.after before).column

/-- A character outside of bindings is kept, behind what is kept of the text in front of it. -/
theorem kept_of_outside {page before behind : List Char} {c : Char} (whole : page = before ++ c :: behind)
    (outside : Outside (spans page) (Point.start.after before)) :
    Kept page before c (uncovered (spans page) .start before) := by
  have parted : Parted .start (find page) (strip page) (before ++ c :: behind) := by
    rw [← whole]
    exact parted_page page
  obtain ⟨bindings₁, bindings₂, kept₁, kept₂, found, left, early, later⟩ := parted.split outside
  have front : uncovered (spans page) .start before = kept₁ := by
    rw [spans, found]
    exact early.uncovered_front later
  refine ⟨⟨behind, by simp [whole]⟩, ?_, ?_, ?_⟩
  · have split : strip page = uncovered (spans page) .start before ++ [c] ++
        uncovered (spans page) ((Point.start.after before).advance c) behind := calc
      strip page = uncovered (spans page) .start (before ++ c :: behind) := by
        rw [← whole]
        exact strip_eq_uncovered page
      _ = _ := by
        rw [uncovered_append, uncovered, if_pos outside, List.append_cons]
    exact ⟨_, split.symm⟩
  · rw [front, Point.line_after, Point.line_after, early.count_lineFeed]
  · have behind : passed bindings₂ (Point.start.after before) = 0 :=
      passed_eq_zero fun b member _ => by have := later.within member; omega
    have moved := @Parted.column_after _ _ _ _ early .start 0 rfl
    rw [ite_self, Nat.add_zero] at moved
    rw [front, found, passed_append, behind, Nat.add_zero]
    exact moved

end Binding

end Fieldmark
