import Fieldmark.FileTree
import Fieldmark.Proofs.Paths

/-!
# Trees that grow

A path that leads somewhere in a tree leads to the same place in any tree that has kept the
directories and the names on the way (`Keeps.follow`). One that leads nowhere may lead somewhere
later. It cannot if it goes on behind a directory without leading up, and nothing has changed at or
below this directory (`AgreeBelow.follow`).
-/

namespace Fieldmark

namespace FileTree

variable {tree after : FileTree} {directory place other : Place} {parts : List (List Char)}

/-! ## Entries -/

@[simp] theorem entry?_root (tree : FileTree) : tree.entry? [] = some .directory := if_pos rfl

theorem isDirectoryAt_iff : tree.isDirectoryAt place = true ↔ tree.entry? place = some .directory := by
  unfold isDirectoryAt
  cases tree.entry? place with
  | none => simp
  | some entry => cases entry <;> simp [FileEntry.isDirectory, FileEntry.isFile]

/-- The entries of a tree, less the one at a place and with another one there. -/
theorem lookup_replace (entries : List (Place × FileEntry)) (place : Place) (entry : FileEntry)
    (other : Place) :
    (entries.map fun old => if old.1 == place then (place, entry) else old).lookup other =
      if other = place then (entries.lookup place).map fun _ => entry else entries.lookup other := by
  induction entries with
  | nil => simp
  | cons old rest ih =>
    obtain ⟨at', was⟩ := old
    rw [List.map_cons]
    by_cases here : at' = place
    · subst here
      by_cases same : other = at'
      · subst same
        simp
      · simpa [List.lookup_cons, same, beq_eq_false_iff_ne.mpr same] using ih
    · by_cases same : other = at'
      · subst same
        simp [here]
      · by_cases target : other = place
        · subst target
          simpa [List.lookup_cons, here, beq_eq_false_iff_ne.mpr same] using ih
        · simpa [List.lookup_cons, here, target, beq_eq_false_iff_ne.mpr same] using ih

theorem entry?_put (proper : place ≠ []) (entry : FileEntry) (other : Place) :
    FileTree.entry? (tree.put place entry) other =
      if other = place then some entry else tree.entry? other := by
  by_cases root : other = []
  · subst root
    rw [entry?_root, if_neg proper.symm, entry?_root]
  · unfold put
    split_ifs with there same same
    · subst same
      rw [ entry?, if_neg root, lookup_replace, if_pos rfl]
      obtain ⟨old, member, same⟩ := List.any_eq_true.mp there
      cases found : tree.entries.lookup other with
      | some was => rfl
      | none =>
        have absent := List.lookup_eq_none_iff.mp found old member
        rw [eq_of_beq same] at absent
        simp at absent
    · rw [ entry?, if_neg root, lookup_replace, if_neg same, entry?, if_neg root]
    · subst same
      have absent : tree.entries.lookup other = none := by
        refine List.lookup_eq_none_iff.mpr fun old member => bne_iff_ne.mpr fun same => there ?_
        exact List.any_eq_true.mpr ⟨old, member, beq_iff_eq.mpr same.symm⟩
      rw [ entry?, if_neg root, List.lookup_append, absent, Option.none_or]
      simp
    · rw [ entry?, if_neg root, List.lookup_append, entry?, if_neg root]
      simp [List.lookup_cons, beq_eq_false_iff_ne.mpr same]

theorem entry?_put_of_ne (proper : place ≠ []) (entry : FileEntry) (ne : other ≠ place) :
    FileTree.entry? (tree.put place entry) other = tree.entry? other := by
  rw [entry?_put proper, if_neg ne]

@[simp] theorem entry?_put_self (proper : place ≠ []) (entry : FileEntry) :
    FileTree.entry? (tree.put place entry) place = some entry := by
  rw [entry?_put proper, if_pos rfl]

/-- What is read off all entries does not change with one that counts for nothing. -/
theorem filterMap_put {β : Type} {f : Place × FileEntry → Option β} {entry : FileEntry}
    (silent : ∀ entry, f (place, entry) = none) :
    (tree.put place entry).entries.filterMap f = tree.entries.filterMap f := by
  unfold put
  split_ifs
  · rw [List.filterMap_map]
    refine List.filterMap_congr fun old _ => ?_
    rw [Function.comp_apply]
    split_ifs with here
    · obtain ⟨at', was⟩ := old
      obtain rfl := eq_of_beq here
      rw [silent, silent]
    · rfl
  · rw [List.filterMap_append]
    simp [silent]

/-! ## Following paths -/

/-- Where one part leads from a directory. -/
inductive Enters (tree : FileTree) (place : Place) : List Char → Place → Prop
  | void {part} : Path.isVoid part = true → Enters tree place part place
  | up : Enters tree place ['.', '.'] place.dropLast
  | name {part} : isName part = true → (String.ofList part).utf8ByteSize ≤ maxName →
    (tree.entry? (place ++ [String.ofList part])).isSome →
    Enters tree place part (place ++ [String.ofList part])

/-- The place that one part leads to. -/
def enter (tree : FileTree) (place : Place) (part : List Char) : Except FileFault Place :=
  if !tree.isDirectoryAt place then .error .notDirectory
  else if Path.isVoid part then .ok place
  else if part = ['.', '.'] then .ok place.dropLast
  else if maxName < (String.ofList part).utf8ByteSize then .error .nameTooLong
  else if (tree.entry? (place ++ [String.ofList part])).isSome then .ok (place ++ [String.ofList part])
  else .error .notFound

theorem enter_eq_ok_iff {part : List Char} {found : Place} : tree.enter place part = .ok found ↔
    tree.isDirectoryAt place = true ∧ tree.Enters place part found := by
  unfold enter
  constructor
  · intro h
    split_ifs at h with file void up long there
    · cases h
      exact ⟨by simpa using file, .void void⟩
    · cases h
      subst up
      exact ⟨by simpa using file, .up⟩
    · cases h
      exact ⟨by simpa using file, .name (by simp [isName, void, up]) (Nat.le_of_not_lt long) there⟩
  · rintro ⟨within, enters⟩
    rw [if_neg (by simp [within])]
    cases enters with
    | void void => rw [if_pos void]
    | up => rw [if_neg (by decide), if_pos rfl]
    | name named short there =>
      simp only [isName, Bool.and_eq_true, Bool.not_eq_true', bne_iff_ne] at named
      rw [if_neg (by simp [named.1]), if_neg named.2, if_neg (Nat.not_lt.mpr short), if_pos there]

theorem follow_cons (tree : FileTree) (place : Place) (part : List Char) (rest : List (List Char)) :
    tree.follow place (part :: rest) =
      (tree.enter place part).bind fun place' => tree.follow place' rest := by
  simp only [follow, enter]
  split_ifs with file void up long there
  · rfl
  · rfl
  · rfl
  · rfl
  · obtain ⟨entry, found⟩ := Option.isSome_iff_exists.mp there
    rw [found]
    rfl
  · rw [Option.not_isSome_iff_eq_none.mp there]
    rfl

theorem follow_append (tree : FileTree) (place : Place) (a b : List (List Char)) :
    tree.follow place (a ++ b) = (tree.follow place a).bind fun place' => tree.follow place' b := by
  induction a generalizing place with
  | nil => rfl
  | cons part rest ih =>
    rw [List.cons_append, follow_cons, follow_cons]
    cases tree.enter place part with
    | error fault => rfl
    | ok place' => exact ih place'

/-- A path is followed by one part and then by the rest. -/
theorem follow_cons_eq_ok_iff {part : List Char} {found : Place} :
    tree.follow place (part :: parts) = .ok found ↔
      ∃ place', tree.enter place part = .ok place' ∧ tree.follow place' parts = .ok found := by
  rw [follow_cons]
  cases tree.enter place part with
  | error fault => simp [Except.bind]
  | ok place' => simp [Except.bind]

/-- Parts that name nothing lead from a directory to itself. -/
theorem follow_void (within : tree.isDirectoryAt place = true) (void : ∀ part ∈ parts, part = []) :
    tree.follow place parts = .ok place := by
  induction parts with
  | nil => rfl
  | cons part rest ih =>
    rw [List.forall_mem_cons] at void
    obtain ⟨rfl, void⟩ := void
    exact follow_cons_eq_ok_iff.mpr ⟨place, enter_eq_ok_iff.mpr ⟨within, .void rfl⟩, ih void⟩

theorem eq_of_follow_void {found : Place} (void : ∀ part ∈ parts, part = [])
    (h : tree.follow place parts = .ok found) : found = place := by
  induction parts with
  | nil => exact (Except.ok.inj h).symm
  | cons part rest ih =>
    rw [List.forall_mem_cons] at void
    obtain ⟨rfl, void⟩ := void
    obtain ⟨next, entered, followed⟩ := follow_cons_eq_ok_iff.mp h
    cases (enter_eq_ok_iff.mp entered).2 with
    | void => exact ih void followed
    | name named => contradiction

/-- Whatever is in one tree is in the other, and where there is a directory there is one. -/
structure Keeps (tree after : FileTree) : Prop where
  directory : ∀ place, tree.isDirectoryAt place = true → after.isDirectoryAt place = true
  entry : ∀ place, (tree.entry? place).isSome → (after.entry? place).isSome

namespace Keeps

theorem refl (tree : FileTree) : Keeps tree tree := ⟨fun _ => id, fun _ => id⟩

theorem trans {last : FileTree} (keeps : Keeps tree after) (keeps' : Keeps after last) :
    Keeps tree last where
  directory place within := keeps'.directory place (keeps.directory place within)
  entry place there := keeps'.entry place (keeps.entry place there)

/-- Putting something where no directory is keeps what is there, and so does putting a directory
anywhere. -/
theorem put (proper : place ≠ []) {entry : FileEntry}
    (free : tree.entry? place ≠ some .directory ∨ entry = .directory) :
    Keeps tree (tree.put place entry) where
  directory other within := by
    rw [isDirectoryAt_iff] at within ⊢
    rw [entry?_put proper]
    split_ifs with here
    · subst here
      rcases free with none | rfl
      · exact absurd within none
      · rfl
    · exact within
  entry other there := by
    rw [entry?_put proper]
    split_ifs
    · rfl
    · exact there

theorem enter (keeps : Keeps tree after) {part : List Char} {found : Place}
    (h : tree.enter place part = .ok found) : after.enter place part = .ok found := by
  obtain ⟨within, enters⟩ := enter_eq_ok_iff.mp h
  refine enter_eq_ok_iff.mpr ⟨keeps.directory place within, ?_⟩
  cases enters with
  | void void => exact .void void
  | up => exact .up
  | name named short there => exact .name named short (keeps.entry _ there)

theorem follow (keeps : Keeps tree after) {found : Place} (h : tree.follow place parts = .ok found) :
    after.follow place parts = .ok found := by
  induction parts generalizing place with
  | nil => exact h
  | cons part rest ih =>
    obtain ⟨next, entered, followed⟩ := follow_cons_eq_ok_iff.mp h
    exact follow_cons_eq_ok_iff.mpr ⟨next, keeps.enter entered, ih followed⟩

end Keeps

/-! ## Below a directory -/

/-- Without a way up, parts lead further down. -/
theorem below_of_follow {found : Place} (inside : ['.', '.'] ∉ parts)
    (h : tree.follow place parts = .ok found) : place <+: found := by
  induction parts generalizing place with
  | nil =>
    cases h
    exact List.prefix_refl _
  | cons part rest ih =>
    rw [List.mem_cons, not_or] at inside
    obtain ⟨next, entered, followed⟩ := follow_cons_eq_ok_iff.mp h
    have down : place <+: next := by
      cases (enter_eq_ok_iff.mp entered).2 with
      | void => exact List.prefix_refl place
      | up => exact absurd rfl inside.1
      | name => exact List.prefix_append ..
    exact down.trans (ih inside.2 followed)

/-- Two trees have the same at a place and below it. -/
structure AgreeBelow (root : Place) (tree after : FileTree) : Prop where
  entry (place : Place) : root <+: place → after.entry? place = tree.entry? place
  /-- What is read off these entries comes in the same order. -/
  filterMap {β : Type} (f : Place × FileEntry → Option β) :
    (∀ place entry, ¬ root <+: place → f (place, entry) = none) →
    after.entries.filterMap f = tree.entries.filterMap f

namespace AgreeBelow

variable {root : Place}

theorem refl (root : Place) (tree : FileTree) : AgreeBelow root tree tree :=
  ⟨fun _ _ => rfl, fun _ _ => rfl⟩

theorem put {place : Place} (agree : AgreeBelow root tree after) (proper : place ≠ [])
    (outside : ¬ root <+: place) (entry : FileEntry) :
    AgreeBelow root tree (after.put place entry) where
  entry other below := by
    have ne : other ≠ place := fun same => outside (same ▸ below)
    rw [entry?_put_of_ne proper entry ne]
    exact agree.entry other below
  filterMap f silent := by
    rw [filterMap_put fun entry => silent place entry outside]
    exact agree.filterMap f silent

theorem isDirectoryAt (agree : AgreeBelow root tree after) (below : root <+: place) :
    after.isDirectoryAt place = tree.isDirectoryAt place := by
  unfold FileTree.isDirectoryAt
  rw [agree.entry place below]

theorem enter (agree : AgreeBelow root tree after) (below : root <+: place) (part : List Char) :
    after.enter place part = tree.enter place part := by
  unfold FileTree.enter
  rw [agree.isDirectoryAt below, agree.entry _ (below.trans (List.prefix_append ..))]

theorem follow (agree : AgreeBelow root tree after) (below : root <+: place)
    (inside : ['.', '.'] ∉ parts) : after.follow place parts = tree.follow place parts := by
  induction parts generalizing place with
  | nil => rfl
  | cons part rest ih =>
    rw [List.mem_cons, not_or] at inside
    rw [follow_cons, follow_cons, agree.enter below]
    cases entered : tree.enter place part with
    | error fault => rfl
    | ok next =>
      have single : ['.', '.'] ∉ [part] := by simpa using inside.1
      have down : place <+: next :=
        below_of_follow single (follow_cons_eq_ok_iff.mpr ⟨next, entered, rfl⟩)
      exact ih (below.trans down) inside.2

end AgreeBelow

/-! ## Places of paths -/

/-- Where the parts of a path lead, whatever its length. -/
def reach (tree : FileTree) (directory : Place) (path : String) : Except FileFault Place :=
  tree.follow (origin directory path) (Path.parts path.toList)

theorem locate_eq (tree : FileTree) (directory : Place) (path : String) :
    tree.locate directory path = (checkPath path).bind fun _ => tree.reach directory path := rfl

theorem locate_eq_ok_iff {path : String} : tree.locate directory path = .ok place ↔
    checkPath path = .ok () ∧ tree.reach directory path = .ok place := by
  rw [locate_eq]
  cases checkPath path with
  | error fault => simp [Except.bind]
  | ok nothing => simp [Except.bind]

theorem Keeps.locate (keeps : Keeps tree after) {path : String}
    (h : tree.locate directory path = .ok place) : after.locate directory path = .ok place := by
  obtain ⟨fine, reached⟩ := locate_eq_ok_iff.mp h
  exact locate_eq_ok_iff.mpr ⟨fine, keeps.follow reached⟩

/-- Where a path begins does not change with what is put behind it. -/
theorem origin_append {path : String} (nonempty : path ≠ "") (tail : String) :
    origin directory (path ++ tail) = origin directory path := by
  obtain ⟨c, more, whole⟩ := List.exists_cons_of_ne_nil (mt String.toList_eq_nil_iff.mp nonempty)
  have front : Path.Relative (path ++ tail) ↔ Path.Relative path := by
    rw [Path.Relative, Path.Relative, String.toList_append, whole]
    exact Iff.rfl
  have slash : (path ++ tail).startsWith "/" = path.startsWith "/" := by
    rw [Path.relative_iff, Path.relative_iff] at front
    exact Bool.eq_iff_iff.mpr (by simpa using not_congr front)
  rw [origin, origin, slash]

theorem origin_join {root rest : String} (relative : Path.Relative rest) :
    origin directory (Path.join root rest) = origin directory root := by
  by_cases empty : root = ""
  · subst empty
    rw [Path.join_empty relative, origin, origin, Path.relative_iff.mp relative]
    rfl
  · rw [Path.join_eq relative, String.append_assoc, origin_append empty]

/-- A path that goes on behind a root goes on from where the root leads. -/
theorem reach_join {root rest : String} (relative : Path.Relative rest) :
    tree.reach directory (Path.join root rest) =
      (tree.reach directory root).bind fun place => tree.follow place (Path.parts rest.toList) := by
  have void (place : Place) : tree.follow place (Path.parts rest.toList) =
      (tree.follow place [[]]).bind fun place' => tree.follow place' (Path.parts rest.toList) := by
    by_cases within : tree.isDirectoryAt place = true
    · have empty : ∀ part ∈ [([] : List Char)], part = [] := by simp
      rw [follow_void within empty]
      rfl
    · obtain ⟨part, more, whole⟩ := List.exists_cons_of_ne_nil (Path.parts_ne_nil rest.toList)
      have refused (part : List Char) : tree.enter place part = .error .notDirectory :=
        if_pos (by simpa using within)
      rw [whole, follow_cons, follow_cons, refused, refused]
      rfl
  unfold reach
  rw [origin_join relative]
  by_cases empty : root = ""
  · subst empty
    rw [Path.join_empty relative]
    exact void _
  · obtain ⟨front, _, whole, joined⟩ := Path.parts_join relative empty
    rw [joined, follow_append]
    rcases whole with whole | whole
    · rw [whole]
    · rw [whole, follow_append]
      cases tree.follow (origin directory root) front with
      | error fault => rfl
      | ok place => exact void place

/-- Only where a root leads somewhere does a path behind it. -/
theorem exists_reach_of_locate {root rest : String} (relative : Path.Relative rest)
    (h : tree.locate directory (Path.join root rest) = .ok place) :
    ∃ base, tree.reach directory root = .ok base := by
  have reached := (locate_eq_ok_iff.mp h).2
  rw [reach_join relative] at reached
  cases from' : tree.reach directory root with
  | error fault =>
    rw [from'] at reached
    contradiction
  | ok base => exact ⟨base, rfl⟩

section

variable {root : String} {base : Place} {path : String}

/-- Behind a root below which nothing has changed, a path that does not lead up leads where it led,
and this is below the root. -/
theorem AgreeBelow.locate (agree : AgreeBelow base tree after) (keeps : Keeps tree after)
    (reached : tree.reach directory root = .ok base) {rest : String} (relative : Path.Relative rest)
    (inside : ['.', '.'] ∉ Path.parts rest.toList) :
    after.locate directory (Path.join root rest) = tree.locate directory (Path.join root rest) ∧
      ∀ place, tree.locate directory (Path.join root rest) = .ok place → base <+: place := by
  have reached' : after.reach directory root = .ok base := keeps.follow reached
  have same : after.reach directory (Path.join root rest) =
      tree.reach directory (Path.join root rest) := by
    rw [reach_join relative, reach_join relative, reached, reached']
    exact agree.follow (List.prefix_refl base) inside
  refine ⟨by rw [locate_eq, locate_eq, same], fun place h => ?_⟩
  have found := (locate_eq_ok_iff.mp h).2
  rw [reach_join relative, reached] at found
  exact below_of_follow inside found

end

end FileTree

end Fieldmark
