import Fieldmark.Proofs.ByteOrder
import Fieldmark.Proofs.Frame

/-!
# The order of entries

A file system tells the entries of a directory in any order. What stands at a place does not depend
on it as long as no place is told twice (`entry?_perm`), and the data files of a directory are put
in order by their names, so that every lookup has the same answer (`lookup_perm`).
-/

namespace Fieldmark

namespace FileTree

variable {tree after : FileTree} {directory place : Place} {path : String}

/-- The entries of a file system: each place once, and made of names. -/
structure Proper (tree : FileTree) : Prop where
  distinct : (tree.entries.map Prod.fst).Nodup
  name : ∀ found ∈ tree.entries, ∀ name ∈ found.1,
    isName name.toList = true ∧ '/' ∉ name.toList ∧ name.utf8ByteSize ≤ maxName

instance (tree : FileTree) : Decidable tree.Proper :=
  decidable_of_iff ((tree.entries.map Prod.fst).Nodup ∧ ∀ found ∈ tree.entries, ∀ name ∈ found.1,
      isName name.toList = true ∧ '/' ∉ name.toList ∧ name.utf8ByteSize ≤ maxName)
    ⟨fun ⟨distinct, name⟩ => ⟨distinct, name⟩, fun proper => ⟨proper.distinct, proper.name⟩⟩

/-! ## What stands where -/

theorem lookup_eq_some_iff {entries : List (Place × FileEntry)} {entry : FileEntry}
    (distinct : (entries.map Prod.fst).Nodup) :
    entries.lookup place = some entry ↔ (place, entry) ∈ entries := by
  induction entries with
  | nil => simp
  | cons first rest ih =>
    obtain ⟨other, there⟩ := first
    rw [List.map_cons, List.nodup_cons] at distinct
    rw [List.lookup_cons, List.mem_cons, ← ih distinct.2]
    by_cases here : place = other
    · subst here
      have absent : rest.lookup place = none :=
        List.lookup_eq_none_iff.mpr fun found member => bne_iff_ne.mpr fun same =>
          distinct.1 (List.mem_map.mpr ⟨found, member, same.symm⟩)
      simp [absent, eq_comm]
    · simp [here, beq_eq_false_iff_ne.mpr here]

theorem entry?_eq_some_iff (proper : tree.Proper) (inner : place ≠ []) {entry : FileEntry} :
    tree.entry? place = some entry ↔ (place, entry) ∈ tree.entries := by
  rw [ entry?, if_neg inner, lookup_eq_some_iff proper.distinct]

theorem lookup_perm {entries entries' : List (Place × FileEntry)} (same : entries'.Perm entries)
    (distinct : (entries.map Prod.fst).Nodup) (place : Place) :
    entries'.lookup place = entries.lookup place := by
  have distinct' : (entries'.map Prod.fst).Nodup := (same.map Prod.fst).nodup_iff.mpr distinct
  refine Option.ext fun entry => ?_
  rw [lookup_eq_some_iff distinct', lookup_eq_some_iff distinct, same.mem_iff]

theorem entry?_perm (same : after.entries.Perm tree.entries) (proper : tree.Proper) (place : Place) :
    after.entry? place = tree.entry? place := by
  rw [ entry?, entry?, lookup_perm same proper.distinct]

/-! ## Where paths lead -/

section

variable (same : ∀ place, after.entry? place = tree.entry? place)

include same

theorem isDirectoryAt_congr (place : Place) : after.isDirectoryAt place = tree.isDirectoryAt place := by
  rw [isDirectoryAt, isDirectoryAt, same]

theorem follow_congr (place : Place) (parts : List (List Char)) :
    after.follow place parts = tree.follow place parts := by
  induction parts generalizing place with
  | nil => rfl
  | cons part rest ih =>
    have entered : after.enter place part = tree.enter place part := by
      rw [enter, enter, isDirectoryAt_congr same, same]
    rw [follow_cons, follow_cons, entered]
    simp only [ih]

theorem locate_congr (directory : Place) (path : String) :
    after.locate directory path = tree.locate directory path := by
  rw [locate_eq, locate_eq, reach, reach, follow_congr same]

theorem stat_congr (directory : Place) (path : String) :
    after.stat directory path = tree.stat directory path := by
  rw [stat_eq, stat_eq, locate_congr same]
  simp only [same]

end

end FileTree

namespace FileStore

variable {tree after : FileTree} {directory place : Place} {root : String} {delays : Delays}

/-! ## The data files of a directory -/

theorem pairwise_le_documentNames (names : List (String × FileEntry)) :
    (documentNames names).Pairwise (· ≤ ·) := by
  rw [documentNames]
  refine (@List.pairwise_mergeSort String (fun a b => decide (a ≤ b)) (fun a b c => ?_)
    (fun a b => ?_) _).imp of_decide_eq_true
  · simpa using le_trans
  · simpa using le_total a b

theorem documentNames_perm {names names' : List (String × FileEntry)} (same : names'.Perm names) :
    documentNames names' = documentNames names := by
  refine List.Perm.eq_of_pairwise (fun a b _ _ => le_antisymm) (pairwise_le_documentNames names')
    (pairwise_le_documentNames names) ?_
  refine (List.mergeSort_perm _ _).trans (.trans ?_ (List.mergeSort_perm _ _).symm)
  exact (same.filter _).map _

theorem sameAt_perm (same : after.entries.Perm tree.entries) (proper : tree.Proper)
    (directory : Place) (path : String) : FileTree.SameAt directory tree after path := by
  have entry := FileTree.entry?_perm same proper
  constructor
  · exact FileTree.stat_congr entry directory path
  · rw [FileTree.list_eq, FileTree.list_eq, FileTree.locate_congr entry]
    cases tree.locate directory path with
    | error fault => rfl
    | ok place =>
      have listing : documentNames (after.entries.filterMap (FileTree.listed place)) =
          documentNames (tree.entries.filterMap (FileTree.listed place)) :=
        documentNames_perm (same.filterMap _)
      simp only [Except.bind, FileTree.isDirectoryAt_congr entry]
      split_ifs
      · rfl
      · simp only [Except.map, listing]

/-- The order in which entries are told makes no difference. -/
theorem lookup_perm (same : after.entries.Perm tree.entries) (proper : tree.Proper) (path : String) :
    (FileStore.mk after directory root delays).lookup path =
      (FileStore.mk tree directory root delays).lookup path :=
  lookup_congr path fun touched _ => sameAt_perm same proper directory touched

theorem listed_eq_some_iff {found : Place × FileEntry} {name : String} {entry : FileEntry} :
    FileTree.listed place found = some (name, entry) ↔ found = (place ++ [name], entry) := by
  obtain ⟨other, there⟩ := found
  unfold FileTree.listed
  split
  · rename_i last ends
    obtain ⟨front, rfl⟩ := List.getLast?_eq_some_iff.mp ends
    by_cases here : front = place
    · simp [here]
    · simp [here]
  · rename_i none
    obtain rfl := List.getLast?_eq_none_iff.mp none
    simp

/-- The data files of a directory are those that stand in it. -/
theorem mem_documentNames_listed {name : String} :
    name ∈ documentNames (tree.entries.filterMap (FileTree.listed place)) ↔
      (formatName? name).isSome ∧ ∃ content, (place ++ [name], FileEntry.file content) ∈ tree.entries := by
  have listed (entry : FileEntry) :
      (name, entry) ∈ tree.entries.filterMap (FileTree.listed place) ↔
        (place ++ [name], entry) ∈ tree.entries := by
    simp only [List.mem_filterMap, listed_eq_some_iff, exists_eq_right]
  simp only [mem_documentNames, listed]
  constructor
  · rintro ⟨entry, inside, isFile, format⟩
    cases entry with
    | file content => exact ⟨format, content, inside⟩
    | directory => contradiction
  · rintro ⟨format, content, inside⟩
    exact ⟨_, inside, rfl, format⟩

/-- They are named in the order of the bytes of their names, each once. -/
theorem pairwise_documentNames (proper : tree.Proper) :
    (documentNames (tree.entries.filterMap (FileTree.listed place))).Pairwise
      fun a b => bytes a < bytes b := by
  have distinct : (documentNames (tree.entries.filterMap (FileTree.listed place))).Nodup := by
    refine (List.mergeSort_perm _ _).nodup_iff.mpr ?_
    refine List.Pairwise.map _ (fun _ _ ne => ne) (List.Pairwise.filter _ ?_)
    refine List.Pairwise.filterMap _ ?_ (List.pairwise_map.mp proper.distinct)
    rintro a a' ne ⟨name, entry⟩ here ⟨name', entry'⟩ here' same
    obtain rfl := listed_eq_some_iff.mp here
    obtain rfl := listed_eq_some_iff.mp here'
    exact ne (by rw [show name = name' from same])
  refine ((pairwise_le_documentNames _).and distinct).imp fun ⟨le, ne⟩ => ?_
  exact bytes_lt_bytes (lt_of_le_of_ne le ne)

end FileStore

end Fieldmark
