import Fieldmark.Path
import Mathlib.Data.List.Basic
import Mathlib.Tactic.SplitIfs

/-!
# Parts of joined paths

A path that goes on behind another one has the parts of both (`parts_join`), so it names what the
first one names and then what the second one names (`components_join`). A path leads up where one of
its parts is a pair of dots, and nowhere else (`parent_mem_components`).
-/

namespace Fieldmark

namespace Path

/-! ## Parts -/

theorem parts_ne_nil (path : List Char) : parts path ≠ [] := by
  cases path with
  | nil => simp [parts]
  | cons c rest =>
    rw [parts]
    split_ifs
    · simp
    · split <;> simp

theorem parts_slash (rest : List Char) : parts ('/' :: rest) = [] :: parts rest := by
  rw [parts, if_pos rfl]

/-- A character that is no slash belongs to the first part. -/
theorem parts_cons {c : Char} (plain : c ≠ '/') {rest first : List Char} {others : List (List Char)}
    (h : parts rest = first :: others) : parts (c :: rest) = (c :: first) :: others := by
  rw [parts, if_neg plain, h]

theorem parts_append_slash (a b : List Char) : parts (a ++ '/' :: b) = parts a ++ parts b := by
  induction a with
  | nil => exact parts_slash b
  | cons c a ih =>
    by_cases slash : c = '/'
    · subst slash
      rw [List.cons_append, parts_slash, ih, parts_slash, List.cons_append]
    · obtain ⟨first, others, front⟩ := List.exists_cons_of_ne_nil (parts_ne_nil a)
      have joined : parts (a ++ '/' :: b) = first :: (others ++ parts b) := by rw [ih, front]; rfl
      rw [List.cons_append, parts_cons slash joined, parts_cons slash front, List.cons_append]

/-- What has no slash in it extends the last part. -/
theorem exists_parts_append (a : List Char) {b : List Char} (plain : '/' ∉ b) :
    ∃ front last, parts a = front ++ [last] ∧ parts (a ++ b) = front ++ [last ++ b] := by
  induction a with
  | nil =>
    refine ⟨[], [], rfl, ?_⟩
    induction b with
    | nil => rfl
    | cons c b ih =>
      rw [List.mem_cons, not_or] at plain
      exact parts_cons (Ne.symm plain.1) (ih plain.2)
  | cons c a ih =>
    obtain ⟨front, last, whole, joined⟩ := ih
    by_cases slash : c = '/'
    · subst slash
      refine ⟨[] :: front, last, ?_, ?_⟩
      · rw [parts_slash, whole, List.cons_append]
      · rw [List.cons_append, parts_slash, joined, List.cons_append]
    · cases front with
      | nil => exact ⟨[], c :: last, parts_cons slash whole, parts_cons slash joined⟩
      | cons first front =>
        exact ⟨(c :: first) :: front, last, parts_cons slash whole, parts_cons slash joined⟩

theorem parts_eq_singleton {name : List Char} (plain : '/' ∉ name) : parts name = [name] := by
  obtain ⟨front, last, whole, joined⟩ := exists_parts_append [] plain
  cases front with
  | nil =>
    obtain rfl := List.singleton_inj.mp whole
    exact joined
  | cons first front => simp [parts] at whole

/-! ## What parts name -/

@[simp] theorem inner_append (a b : List (List Char)) : inner (a ++ b) = inner a ++ inner b :=
  List.filterMap_append ..

theorem parent_mem_inner {parts : List (List Char)} : .parent ∈ inner parts ↔ ['.', '.'] ∈ parts := by
  unfold inner
  rw [List.mem_filterMap]
  constructor
  · rintro ⟨part, member, named⟩
    split_ifs at named with void up
    · exact up ▸ member
    · simp at named
  · exact fun member => ⟨_, member, rfl⟩

/-- Behind its beginning a path names nothing but names and directories further up. -/
theorem name_of_mem_inner {parts : List (List Char)} {component : Component}
    (member : component ∈ inner parts) (inside : ['.', '.'] ∉ parts) :
    ∃ name, component = .name name := by
  obtain ⟨part, among, named⟩ := List.mem_filterMap.mp member
  split_ifs at named with void up
  · exact absurd (up ▸ among) inside
  · exact ⟨_, (Option.some.inj named).symm⟩

/-- What the first part of a path names. -/
def lead (first : List Char) : List Component :=
  if first = [] then [.root] else if first = ['.'] then [.current] else inner [first]

theorem components_eq {path : String} {first : List Char} {others : List (List Char)}
    (h : parts path.toList = first :: others) (nonempty : first ≠ [] ∨ others ≠ []) :
    components path = lead first ++ inner others := by
  by_cases empty : first = []
  · subst empty
    obtain ⟨second, others, rfl⟩ := List.exists_cons_of_ne_nil (nonempty.resolve_left (by simp))
    simp [components, beginning, h, lead]
  · by_cases dot : first = ['.']
    · subst dot
      simp [components, beginning, h, lead]
    · have plain : beginning path.toList = (none, first :: others) := by
        unfold beginning
        rw [h]
        split
        · simp_all
        · simp_all
        · rfl
      have whole : inner (first :: others) = inner [first] ++ inner others := inner_append [first] others
      rw [components, plain, lead, if_neg empty, if_neg dot]
      exact whole

theorem components_empty : components "" = [] := rfl

theorem parts_eq_empty_iff {path : String} : parts path.toList = [[]] ↔ path = "" := by
  constructor
  · intro h
    cases whole : path.toList with
    | nil => exact String.toList_eq_nil_iff.mp whole
    | cons c rest =>
      rw [whole] at h
      by_cases slash : c = '/'
      · subst slash
        rw [parts_slash] at h
        exact absurd (List.cons.inj h).2 (parts_ne_nil rest)
      · obtain ⟨first, others, front⟩ := List.exists_cons_of_ne_nil (parts_ne_nil rest)
        rw [parts_cons slash front] at h
        simp at h
  · rintro rfl
    rfl

theorem parent_mem_lead {first : List Char} : .parent ∈ lead first ↔ first = ['.', '.'] := by
  unfold lead
  split_ifs with empty dot
  · simp [empty]
  · simp [dot]
  · rw [parent_mem_inner, List.mem_singleton, eq_comm]

/-- A path leads up where a part of it does. -/
theorem parent_mem_components {path : String} :
    .parent ∈ components path ↔ ['.', '.'] ∈ parts path.toList := by
  by_cases empty : path = ""
  · subst empty
    decide
  · obtain ⟨first, others, front⟩ := List.exists_cons_of_ne_nil (parts_ne_nil path.toList)
    have nonempty : first ≠ [] ∨ others ≠ [] := by
      by_contra void
      rw [not_or, not_not, not_not] at void
      exact empty (parts_eq_empty_iff.mp (by rw [front, void.1, void.2]))
    rw [components_eq front nonempty, front, List.mem_append, List.mem_cons, parent_mem_lead,
      parent_mem_inner, eq_comm]

/-! ## Joined paths -/

/-- A path that begins at no root. -/
def Relative (path : String) : Prop := path.toList.head? ≠ some '/'

instance (path : String) : Decidable (Relative path) := inferInstanceAs (Decidable (_ ≠ _))

theorem relative_iff {path : String} : Relative path ↔ path.startsWith "/" = false := by
  rw [String.startsWith_string_eq_false_iff, Relative]
  cases path.toList with
  | nil => simp
  | cons c rest => simp [List.cons_prefix_cons, eq_comm]

theorem root_not_mem_components {path : String} (relative : Relative path) :
    .root ∉ components path := by
  by_cases empty : path = ""
  · subst empty
    decide
  · obtain ⟨first, others, front⟩ := List.exists_cons_of_ne_nil (parts_ne_nil path.toList)
    have named : first ≠ [] := by
      rintro rfl
      cases whole : path.toList with
      | nil => exact empty (String.toList_eq_nil_iff.mp whole)
      | cons c rest =>
        have plain : c ≠ '/' := by simpa [Relative, whole] using relative
        obtain ⟨first, others, front'⟩ := List.exists_cons_of_ne_nil (parts_ne_nil rest)
        rw [whole, parts_cons plain front'] at front
        simp at front
    have inside : ∀ parts, Component.root ∉ inner parts := by
      intro parts member
      obtain ⟨part, _, named⟩ := List.mem_filterMap.mp member
      split_ifs at named
      · simp at named
      · simp at named
    rw [components_eq front (.inl named), List.mem_append, lead, if_neg named]
    split_ifs
    · simp [inside]
    · simp [inside]

theorem endsWith_slash_iff {path : String} :
    path.endsWith "/" = true ↔ ∃ front, path.toList = front ++ ['/'] := by
  rw [String.endsWith_eq_endsWith_toSlice, String.Slice.endsWith_string_iff, String.copy_toSlice]
  exact ⟨fun ⟨front, whole⟩ => ⟨front, whole.symm⟩, fun ⟨front, whole⟩ => ⟨front, whole.symm⟩⟩

/-- What stands between a path and a relative one that goes on behind it. -/
def seam (path : String) : String := if path = "" ∨ path.endsWith "/" then "" else "/"

theorem join_eq {root rest : String} (relative : Relative rest) :
    join root rest = root ++ seam root ++ rest := by
  rw [join, relative_iff.mp relative, if_neg (by simp), seam]
  split_ifs
  · rw [String.append_empty]
  · rfl

theorem join_empty {rest : String} (relative : Relative rest) : join "" rest = rest := by
  rw [join_eq relative, seam, if_pos (.inl rfl), String.append_empty, String.empty_append]

theorem seam_append {front rest : String} (nonempty : rest ≠ "") : seam (front ++ rest) = seam rest := by
  have ends : (front ++ rest).endsWith "/" = true ↔ rest.endsWith "/" = true := by
    rw [endsWith_slash_iff, endsWith_slash_iff, ← List.getLast?_eq_some_iff,
      ← List.getLast?_eq_some_iff, String.toList_append,
      List.getLast?_append_of_ne_nil _ (by simpa using nonempty)]
  have whole : front ++ rest ≠ "" := fun none => nonempty (String.append_eq_empty_iff.mp none).2
  unfold seam
  simp only [whole, nonempty, ends]

theorem seam_append_seam (path : String) : seam (path ++ seam path) = "" := by
  by_cases ends : path = "" ∨ path.endsWith "/"
  · rw [seam, seam, if_pos ends, String.append_empty, if_pos ends]
  · rw [seam, seam, if_neg ends]
    exact if_pos (.inr (endsWith_slash_iff.mpr ⟨path.toList, String.toList_append⟩))

theorem relative_append {path tail : String} (relative : Relative path) (relative' : Relative tail) :
    Relative (path ++ tail) := by
  unfold Relative at *
  rw [String.toList_append, List.head?_append]
  cases whole : path.toList with
  | nil => exact relative'
  | cons c rest =>
    rw [whole] at relative
    exact relative

theorem relative_seam {path : String} (relative : Relative path) (nonempty : path ≠ "") :
    Relative (path ++ seam path) := by
  obtain ⟨c, rest, whole⟩ := List.exists_cons_of_ne_nil (mt String.toList_eq_nil_iff.mp nonempty)
  unfold Relative at *
  rw [String.toList_append, whole]
  rwa [whole] at relative

theorem relative_join {path rest : String} (relative : Relative path) (relative' : Relative rest) :
    Relative (join path rest) := by
  rw [join_eq relative']
  by_cases empty : path = ""
  · subst empty
    exact relative'
  · exact relative_append (relative_seam relative empty) relative'

/-- What is put behind the end of a path that stands behind a root is put behind the path. -/
theorem join_append {root path tail : String} (relative : Relative path) (relative' : Relative tail) :
    join root path ++ tail = join root (path ++ tail) := by
  rw [join_eq relative, join_eq (relative_append relative relative'), String.append_assoc]

/-- What goes on behind a path behind a root goes on behind the root. -/
theorem join_assoc {root path rest : String} (relative : Relative path) (relative' : Relative rest) :
    join (join root path) rest = join root (join path rest) := by
  rw [join_eq relative', join_eq relative, join_eq (relative_join relative relative')]
  by_cases empty : path = ""
  · subst empty
    rw [String.append_empty, seam_append_seam, String.append_empty, join_empty relative']
  · rw [seam_append empty, join_eq relative']
    simp only [String.append_assoc]

theorem parts_join {root rest : String} (relative : Relative rest) (rooted : root ≠ "") :
    ∃ front, front ≠ [] ∧ (parts root.toList = front ∨ parts root.toList = front ++ [[]]) ∧
      parts (join root rest).toList = front ++ parts rest.toList := by
  rw [join_eq relative, String.toList_append, String.toList_append]
  by_cases ends : root.endsWith "/"
  · obtain ⟨front, slash⟩ := endsWith_slash_iff.mp ends
    refine ⟨parts front, parts_ne_nil front, .inr ?_, ?_⟩
    · rw [slash, parts_append_slash]
      rfl
    · rw [seam, if_pos (.inr ends), slash, ← parts_append_slash]
      simp
  · refine ⟨parts root.toList, parts_ne_nil _, .inl rfl, ?_⟩
    rw [seam, if_neg (by simp [rooted, ends]), ← parts_append_slash]
    simp

/-- A joined path names what its root names, and then what follows. -/
theorem components_join {root rest : String} (relative : Relative rest) (rooted : root ≠ "") :
    components (join root rest) = components root ++ inner (parts rest.toList) := by
  obtain ⟨front, nonempty, whole, joined⟩ := parts_join relative rooted
  obtain ⟨first, others, rfl⟩ := List.exists_cons_of_ne_nil nonempty
  have behind : others ++ parts rest.toList ≠ [] :=
    fun none => parts_ne_nil _ (List.append_eq_nil_iff.mp none).2
  have joined' : components (join root rest) = lead first ++ inner others ++ inner (parts rest.toList) := by
    have joined' : parts (join root rest).toList = first :: (others ++ parts rest.toList) := joined
    rw [components_eq joined' (.inr behind), inner_append, List.append_assoc]
  rw [joined']
  congr 1
  rcases whole with whole | whole
  · refine (components_eq whole ?_).symm
    by_contra void
    rw [not_or, not_not, not_not] at void
    exact rooted (parts_eq_empty_iff.mp (by rw [whole, void.1, void.2]))
  · have void : inner [[]] = [] := rfl
    have whole' : parts root.toList = first :: (others ++ [[]]) := whole
    rw [components_eq whole' (.inr (by simp)), inner_append, void, List.append_nil]

end Path

end Fieldmark
