import Fieldmark.Scan

/-!
# Openings

The two characters `<:` in a text, and how a header is read past them: `marks` takes every opening
of a text whole, `skipped` tells where they stand. Where two texts meet no opening arises if they
are `Apart`.
-/

namespace Fieldmark

/-- The characters that open a tag. -/
def opening : List Char := ['<', ':']

/-- No opening arises where two texts meet. -/
def Apart (a b : List Char) : Prop := a.getLast? = some '<' → b.head? ≠ some ':'

theorem apart_nil_left (b : List Char) : Apart [] b := by simp [Apart]

theorem apart_of_head {a b : List Char} (h : b.head? ≠ some ':') : Apart a b := fun _ => h

theorem apart_singleton {c : Char} {b : List Char} :
    Apart [c] b ↔ ¬ (c = '<' ∧ b.head? = some ':') := by
  simp [Apart]

/-- A seam further right is a seam of what stands left of it. -/
theorem apart_append_left {a b c : List Char} (nonempty : b ≠ []) : Apart (a ++ b) c ↔ Apart b c := by
  obtain ⟨front, last, rfl⟩ := List.eq_nil_or_concat b |>.resolve_left nonempty
  rw [List.concat_eq_append, ← List.append_assoc]
  simp [Apart]

theorem Apart.of_cons {c : Char} {a b : List Char} (h : Apart (c :: a) b) : Apart a b := by
  cases a with
  | nil => exact apart_nil_left b
  | cons d a => simpa [Apart] using h

theorem Apart.of_append {a b c : List Char} (h : Apart (a ++ b) c) : Apart b c := by
  cases b with
  | nil => exact apart_nil_left c
  | cons d b => exact (apart_append_left (by simp)).mp h

theorem Apart.of_append_right {a b c : List Char} (h : Apart a (b ++ c)) : Apart a b :=
  fun last head => h last (by rw [List.head?_append, head]; rfl)

/-- What opens nothing before a seam opens nothing once the texts are joined. -/
theorem Apart.plain_append {c : Char} {a b : List Char} (apart : Apart (c :: a) b)
    (plain : ¬ (c = '<' ∧ a.head? = some ':')) : ¬ (c = '<' ∧ (a ++ b).head? = some ':') := by
  rintro ⟨rfl, head⟩
  cases a with
  | nil => exact apart rfl head
  | cons d a => exact plain ⟨rfl, head⟩

theorem plain_iff {c : Char} {rest : List Char} :
    ¬ (c = '<' ∧ rest.head? = some ':') ↔ ∀ tail, c = '<' → rest = ':' :: tail → False := by
  rw [not_and, List.head?_eq_some_iff]
  exact ⟨fun plain tail sign whole => plain sign ⟨tail, whole⟩,
    fun plain sign ⟨tail, whole⟩ => plain tail sign whole⟩

theorem opening_prefix_cons {c : Char} {rest : List Char} :
    opening <+: c :: rest ↔ c = '<' ∧ rest.head? = some ':' := by
  cases rest with
  | nil => simp [opening]
  | cons d rest => simp [opening, List.cons_prefix_cons, eq_comm]

theorem opening_infix_cons {c : Char} {rest : List Char} :
    opening <:+: c :: rest ↔ (c = '<' ∧ rest.head? = some ':') ∨ opening <:+: rest := by
  rw [List.infix_cons_iff, opening_prefix_cons]

/-- An opening of a joined text stands in one of its halves or across the seam. -/
theorem opening_infix_append {a b : List Char} :
    opening <:+: a ++ b ↔ opening <:+: a ∨ opening <:+: b ∨ ¬ Apart a b := by
  induction a with
  | nil => simp [apart_nil_left, opening]
  | cons c a ih =>
    rw [List.cons_append, opening_infix_cons, opening_infix_cons, ih]
    cases a with
    | nil =>
      rw [List.nil_append, apart_singleton, Classical.not_not]
      have none : ¬ opening <:+: [] := by simp [opening]
      simp only [List.head?_nil, reduceCtorEq, and_false, none, apart_nil_left, not_true_eq_false,
        or_false, false_or, or_comm]
    | cons d a =>
      have seam : Apart (c :: d :: a) b ↔ Apart (d :: a) b := by simp [Apart]
      rw [seam, List.cons_append, List.head?_cons, List.head?_cons, or_assoc]

theorem opensTag_iff {c : Char} {next : Option Char} :
    Scan.opensTag c next = true ↔ c = '<' ∧ next = some ':' := by
  simp [Scan.opensTag]

/-- The warning that names a point. -/
def Point.warning (p : Point) : Warning := ⟨p.line, p.column⟩

namespace Scan

/-- What the header of a tag is read as: characters, and openings that are passed over. -/
inductive Mark where
  | char (c : Char)
  | opening
  deriving DecidableEq, Repr

/-- The marks of a text, from left to right. -/
def marks : List Char → List Mark
  | '<' :: ':' :: rest => .opening :: marks rest
  | c :: rest => .char c :: marks rest
  | [] => []

/-- The text that marks stand for. -/
def Mark.text (marks : List Mark) : List Char :=
  marks.flatMap fun
    | .char c => [c]
    | .opening => Fieldmark.opening

@[simp] theorem Mark.text_nil : Mark.text [] = [] := rfl

@[simp] theorem Mark.text_char (c : Char) (rest : List Mark) :
    Mark.text (.char c :: rest) = c :: Mark.text rest := rfl

@[simp] theorem Mark.text_opening (rest : List Mark) :
    Mark.text (.opening :: rest) = Fieldmark.opening ++ Mark.text rest := rfl

/-- The characters among marks. -/
def Mark.chars (marks : List Mark) : List Char :=
  marks.filterMap fun
    | .char c => some c
    | .opening => none

@[simp] theorem Mark.chars_nil : Mark.chars [] = [] := rfl

@[simp] theorem Mark.chars_char (c : Char) (rest : List Mark) :
    Mark.chars (.char c :: rest) = c :: Mark.chars rest := rfl

@[simp] theorem Mark.chars_opening (rest : List Mark) :
    Mark.chars (.opening :: rest) = Mark.chars rest := rfl

theorem Mark.chars_append (a b : List Mark) : Mark.chars (a ++ b) = Mark.chars a ++ Mark.chars b :=
  List.filterMap_append ..

@[simp] theorem marks_nil : marks [] = [] := rfl

theorem marks_opening (rest : List Char) : marks ('<' :: ':' :: rest) = .opening :: marks rest := by
  rw [marks]

theorem marks_cons {c : Char} {rest : List Char} (plain : ¬ (c = '<' ∧ rest.head? = some ':')) :
    marks (c :: rest) = .char c :: marks rest := by
  rw [marks]
  exact plain_iff.mp plain

theorem text_marks (text : List Char) : Mark.text (marks text) = text := by
  fun_induction marks text with
  | case1 rest ih => rw [Mark.text_opening, ih]; rfl
  | case2 c rest plain ih => rw [Mark.text_char, ih]
  | case3 => rfl

theorem marks_append {a b : List Char} (apart : Apart a b) :
    marks (a ++ b) = marks a ++ marks b := by
  fun_induction marks a with
  | case1 rest ih =>
    rw [List.cons_append, List.cons_append, marks_opening, ih apart.of_cons.of_cons,
      List.cons_append]
  | case2 c rest plain ih =>
    rw [List.cons_append, marks_cons (apart.plain_append (plain_iff.mpr plain)), ih apart.of_cons,
      List.cons_append]
  | case3 => rfl

/-- A text without openings is its characters. -/
theorem marks_eq_map {text : List Char} (plain : ¬ opening <:+: text) :
    marks text = text.map .char := by
  induction text with
  | nil => rfl
  | cons c rest ih =>
    rw [opening_infix_cons, not_or] at plain
    rw [marks_cons plain.1, ih plain.2, List.map_cons]

/-- The openings among marks that begin at a point. -/
def skipped (p : Point) : List Mark → List Warning
  | [] => []
  | .char c :: rest => skipped (p.advance c) rest
  | .opening :: rest => p.warning :: skipped (p.after Fieldmark.opening) rest

theorem skipped_map_char (p : Point) (text : List Char) : skipped p (text.map .char) = [] := by
  induction text generalizing p with
  | nil => rfl
  | cons c rest ih => exact ih (p.advance c)

theorem skipped_append (p : Point) (a b : List Mark) :
    skipped p (a ++ b) = skipped p a ++ skipped (p.after (Mark.text a)) b := by
  induction a generalizing p with
  | nil => rfl
  | cons mark a ih =>
    cases mark with
    | char c => exact ih (p.advance c)
    | opening => rw [List.cons_append, skipped, skipped, ih, Mark.text_opening, Point.after_append]; rfl

theorem skipped_marks_append (p : Point) {a b : List Char} (apart : Apart a b) :
    skipped p (marks (a ++ b)) = skipped p (marks a) ++ skipped (p.after a) (marks b) := by
  rw [marks_append apart, skipped_append, text_marks]

end Scan

end Fieldmark
