import Fieldmark.Proofs.Enumeration
import Fieldmark.Proofs.PathEnds
import Mathlib.Data.List.Forall2

/-!
# Collections are their documents

A lookup of a directory reads the data files that stand in it, and a lookup of one of them by its own
path comes to the same file and takes it for the same format (`result_lookup_child`). So a collection
is the list of what the lookups of its files give, in the order of their names
(`collection_is_its_documents`). Only where slashes make the path of a file too long to be followed
do the two differ.
-/

namespace Fieldmark

namespace Lookup

variable {α : Type} {join : Load.Join} {lookups : List (Lookup α)} {problem : Problem}

/-! ## Lookups made at once -/

section

variable {l : Lookup α} {others : Lookup (List α)}

theorem result_all_cons (join : Load.Join) (l : Lookup α) (lookups : List (Lookup α)) :
    (all join (l :: lookups)).result = (l.ending join (all join lookups)).2 := rfl

theorem time_all_cons (join : Load.Join) (l : Lookup α) (lookups : List (Lookup α)) :
    (all join (l :: lookups)).time = (l.ending join (all join lookups)).1 := rfl

theorem ending_ok_iff {found : List α} : (l.ending join others).2 = .ok found ↔
    ∃ a rest, l.result = .ok a ∧ others.result = .ok rest ∧ a :: rest = found := by
  unfold ending
  cases l.result with
  | ok a => cases others.result <;> cases join <;> simp
  | error own =>
    cases others.result <;> cases join
    case error.eager => split_ifs <;> simp
    all_goals simp

/-- Where problems are told of as they come, it is the earlier one of two. -/
theorem ending_eager_error (failed : (l.ending .eager others).2 = .error problem) :
    l.result = .error problem ∧ (l.ending .eager others).1 = l.time ∧
      (∀ other, others.result = .error other → l.time.nanoseconds ≤ others.time.nanoseconds) ∨
    others.result = .error problem ∧ (l.ending .eager others).1 = others.time ∧
      ∀ own, l.result = .error own → others.time.nanoseconds ≤ l.time.nanoseconds := by
  unfold ending at failed ⊢
  cases first : l.result with
  | ok a =>
    cases more : others.result with
    | ok rest => simp [first, more] at failed
    | error other =>
      rw [first, more] at failed
      exact .inr ⟨failed, rfl, nofun⟩
  | error own =>
    cases more : others.result with
    | ok rest =>
      rw [first, more] at failed
      cases failed
      exact .inl ⟨rfl, rfl, nofun⟩
    | error other =>
      rw [first, more] at failed
      dsimp only at failed ⊢
      split_ifs at failed ⊢ with earlier
      · cases failed
        exact .inl ⟨rfl, rfl, fun _ _ => earlier⟩
      · cases failed
        exact .inr ⟨rfl, rfl, fun _ _ => Nat.le_of_not_le earlier⟩

/-- Where they are told of in order, the first lookup has to be fine for another one to be blamed. -/
theorem ending_ordered_error (failed : (l.ending .ordered others).2 = .error problem) :
    l.result = .error problem ∨ (∃ a, l.result = .ok a) ∧ others.result = .error problem := by
  unfold ending at failed
  cases first : l.result with
  | ok a =>
    cases more : others.result with
    | ok rest => simp [first, more] at failed
    | error other =>
      rw [first, more] at failed
      exact .inr ⟨⟨a, rfl⟩, failed⟩
  | error own =>
    left
    cases more : others.result <;> simpa [first, more] using failed

end

/-- What is found at once, if all of it is found. -/
theorem result_all_ok_iff {found : List α} : (all join lookups).result = .ok found ↔
    List.Forall₂ (fun l a => l.result = .ok a) lookups found := by
  induction lookups generalizing found with
  | nil =>
    rw [List.forall₂_nil_left_iff]
    constructor
    · exact fun h => (Except.ok.inj h).symm
    · rintro rfl
      rfl
  | cons l rest ih =>
    rw [result_all_cons, ending_ok_iff, List.forall₂_cons_left_iff]
    constructor
    · rintro ⟨a, others, first, more, rfl⟩
      exact ⟨a, others, first, ih.mp more, rfl⟩
    · rintro ⟨a, others, first, more, rfl⟩
      exact ⟨a, others, first, ih.mpr more, rfl⟩

/-- All is found if every part of it is. -/
theorem exists_all_ok_iff :
    (∃ found, (all join lookups).result = .ok found) ↔ ∀ l ∈ lookups, ∃ a, l.result = .ok a := by
  simp only [result_all_ok_iff]
  constructor
  · rintro ⟨found, each⟩
    have each' : List.Forall₂ (fun (l : Lookup α) a => (∃ a, l.result = .ok a) ∧
        l.result = .ok a) lookups found :=
      each.imp fun l a visited => ⟨⟨a, visited⟩, visited⟩
    exact ((List.forall₂_and_left _ _).mp each').1
  · intro all
    induction lookups with
    | nil => exact ⟨[], .nil⟩
    | cons l rest ih =>
      obtain ⟨⟨a, first⟩, all⟩ := List.forall_mem_cons.mp all
      obtain ⟨found, each⟩ := ih all
      exact ⟨a :: found, .cons first each⟩

/-- The problem that is told of as it comes is that of a lookup which no other one has failed
before. -/
theorem exists_first_of_eager (failed : (all .eager lookups).result = .error problem) :
    ∃ l ∈ lookups, l.result = .error problem ∧ l.time = (all .eager lookups).time ∧
      ∀ other ∈ lookups, ∀ problem', other.result = .error problem' →
        l.time.nanoseconds ≤ other.time.nanoseconds := by
  induction lookups generalizing problem with
  | nil => contradiction
  | cons l rest ih =>
    rcases ending_eager_error failed with ⟨own, now, least⟩ | ⟨later, now, least⟩
    · refine ⟨l, List.mem_cons_self .., own, now.symm,
        List.forall_mem_cons.mpr ⟨fun _ _ => Nat.le_refl _, fun other member problem' failed' => ?_⟩⟩
      cases more : (all .eager rest).result with
      | ok others =>
        obtain ⟨a, found⟩ := exists_all_ok_iff.mp ⟨others, more⟩ other member
        cases found.symm.trans failed'
      | error problem'' =>
        obtain ⟨l', _, _, now', least'⟩ := ih more
        exact Nat.le_trans (least _ more) (now' ▸ least' other member problem' failed')
    · obtain ⟨l', member, same, now', least'⟩ := ih later
      exact ⟨l', List.mem_cons_of_mem l member, same, now'.trans now.symm,
        List.forall_mem_cons.mpr ⟨fun own failed' => now' ▸ least own failed', least'⟩⟩

/-- The problem that is told of in order is that of the first lookup that fails. -/
theorem exists_first_of_ordered (failed : (all .ordered lookups).result = .error problem) :
    ∃ before l behind, lookups = before ++ l :: behind ∧ l.result = .error problem ∧
      ∀ other ∈ before, ∃ a, other.result = .ok a := by
  induction lookups with
  | nil => contradiction
  | cons l rest ih =>
    rcases ending_ordered_error failed with own | ⟨fine, later⟩
    · exact ⟨[], l, rest, rfl, own, List.forall_mem_nil _⟩
    · obtain ⟨before, l', behind, rfl, same, found⟩ := ih later
      exact ⟨l :: before, l', behind, rfl, same, List.forall_mem_cons.mpr ⟨fine, found⟩⟩

/-- If not all is found, the answer is the problem with a part of it. -/
theorem exists_of_all_error (failed : (all join lookups).result = .error problem) :
    ∃ l ∈ lookups, l.result = .error problem := by
  cases join with
  | eager =>
    obtain ⟨l, member, same, _⟩ := exists_first_of_eager failed
    exact ⟨l, member, same⟩
  | ordered =>
    obtain ⟨before, l, behind, rfl, same, _⟩ := exists_first_of_ordered failed
    exact ⟨l, List.mem_append_cons_self, same⟩

end Lookup

namespace FileTree

variable {tree : FileTree} {directory place : Place} {path name : String} {entry : FileEntry}

theorem stat_of_isDirectoryAt (located : tree.locate directory path = .ok place)
    (within : tree.isDirectoryAt place = true) : tree.stat directory path = .ok .directory := by
  rw [stat_eq, located]
  simp [Except.bind, isDirectoryAt_iff.mp within]

/-! ## Entries of a directory by their paths -/

/-- Slashes behind the path of a directory lead nowhere else. -/
theorem reach_slashes {slashes : List Char} (slash : ∀ c ∈ slashes, c = '/')
    (nonempty : slashes ≠ [] → path ≠ "") (reached : tree.reach directory path = .ok place)
    (within : tree.isDirectoryAt place = true) :
    tree.reach directory (path ++ String.ofList slashes) = .ok place := by
  by_cases none : slashes = []
  · rwa [none, String.ofList_nil, String.append_empty]
  · obtain ⟨voids, void, whole⟩ := Path.parts_slashes path.toList slash
    have split : Path.parts (path ++ String.ofList slashes).toList = Path.parts path.toList ++ voids := by
      rw [String.toList_append, String.toList_ofList, whole]
    rw [reach] at reached
    rw [reach, origin_append (nonempty none), split, follow_append, reached]
    exact follow_void within void

/-- The path of a directory and a name lead to what has this name in it. -/
theorem reach_child (proper : tree.Proper) (reached : tree.reach directory path = .ok place)
    (within : tree.isDirectoryAt place = true) (member : (place ++ [name], entry) ∈ tree.entries) :
    tree.reach directory (Path.join path name) = .ok (place ++ [name]) := by
  obtain ⟨named, plain, short⟩ := proper.name _ member name (by simp)
  have relative : Path.Relative name := fun head => plain (List.mem_of_mem_head? head)
  have there : tree.entry? (place ++ [name]) = some entry :=
    (entry?_eq_some_iff proper (by simp)).mpr member
  have enters : tree.Enters place name.toList (place ++ [name]) := by
    have enters := @Enters.name tree place name.toList named
    rw [String.ofList_toList] at enters
    exact enters short (by rw [there]; rfl)
  rw [reach_join relative, reached, Path.parts_eq_singleton plain]
  exact follow_cons_eq_ok_iff.mpr ⟨_, enter_eq_ok_iff.mpr ⟨within, enters⟩, rfl⟩

theorem stat_child (proper : tree.Proper) (reached : tree.reach directory path = .ok place)
    (within : tree.isDirectoryAt place = true) (member : (place ++ [name], entry) ∈ tree.entries) :
    tree.stat directory (Path.join path name) =
      (checkPath (Path.join path name)).map fun _ => entry := by
  have there : tree.entry? (place ++ [name]) = some entry :=
    (entry?_eq_some_iff proper (by simp)).mpr member
  rw [stat_eq, locate_eq, reach_child proper reached within member]
  cases checkPath (Path.join path name) with
  | error fault => rfl
  | ok nothing => simp [Except.bind, Except.map, there]

theorem checkPath_eq_ok_iff : checkPath path = .ok () ↔
    '\x00' ∉ path.toList ∧ path ≠ "" ∧ path.utf8ByteSize < maxPath := by
  unfold checkPath
  split_ifs with zero empty long
  · simpa using fun absent => absurd zero (by simpa using absent)
  · simp [empty]
  · simp [long]
  · simpa [empty] using ⟨by simpa using zero, Nat.lt_of_not_le long⟩

/-- Slashes can make a path too long, and nothing else is wrong with them. -/
theorem checkPath_slashes {slashes : List Char} (slash : ∀ c ∈ slashes, c = '/')
    (relative : Path.Relative name) (fine : checkPath (Path.join path name) = .ok ())
    (nonempty : name ≠ "")
    (short : (Path.join (path ++ String.ofList slashes) name).utf8ByteSize < maxPath) :
    checkPath (Path.join (path ++ String.ofList slashes) name) = .ok () := by
  obtain ⟨zero, _, _⟩ := checkPath_eq_ok_iff.mp fine
  have seam (text : String) : '\x00' ∉ (Path.seam text).toList := by
    unfold Path.seam
    split_ifs <;> decide
  rw [Path.join_eq relative] at zero short ⊢
  refine checkPath_eq_ok_iff.mpr ⟨?_, ?_, short⟩
  · simp only [String.toList_append, String.toList_ofList, List.mem_append, not_or] at zero ⊢
    refine ⟨⟨⟨zero.1.1, fun member => ?_⟩, seam _⟩, zero.2⟩
    exact absurd (slash _ member) (by decide)
  · exact fun empty => nonempty (String.append_eq_empty_iff.mp empty).2

end FileTree

theorem DataFormat.read_json (text : List Char) : DataFormat.json.read text =
    ((Json.read text Json.maxDepth).mapError Json.Misreading.message).map
      (·.toValue Json.Number.text) := rfl

/-- The content of a data file with this name is text of the format that the name tells, and the record
is its value. -/
def Means (name : String) (content : ByteArray) (record : Value) : Prop :=
  ∃ text extension format, String.fromUTF8? content = some text ∧ HasExtension name extension ∧
    DataFormat.ofName? extension = some format ∧ format.read text.toList = .ok record

namespace FileStore

variable {store : FileStore} {path name : String} {content : ByteArray} {record : Value}

/-! ## Documents by their paths -/

theorem mem_names_of_ofName? {extension : String} {format : DataFormat}
    (h : DataFormat.ofName? extension = some format) : extension ∈ DataFormat.names := by
  unfold DataFormat.ofName? at h
  split at h <;> first | decide | contradiction

theorem readDataFile_ok_iff {text : List Char} {label : String} (named : Path.name? path = some name) :
    readDataFile text ((formatName? path).getD "") label = .ok record ↔ ∃ extension format,
      HasExtension name extension ∧ DataFormat.ofName? extension = some format ∧
        format.read text = .ok record := by
  have read {extension : String} {format : DataFormat} (known : DataFormat.ofName? extension = some format) :
      readDataFile text extension label = .ok record ↔ format.read text = .ok record := by
    simp only [readDataFile, Parsers.readDataFile, known, DataFormat.read]
    cases Parsers.own.read format text <;> simp [Except.mapError]
  constructor
  · intro h
    cases found : formatName? path with
    | none =>
      rw [found] at h
      contradiction
    | some extension =>
      obtain ⟨_, ends⟩ := (formatName?_eq_some_iff named).mp found
      rw [found, Option.getD_some] at h
      cases known : DataFormat.ofName? extension with
      | none => simp [readDataFile, Parsers.readDataFile, known] at h
      | some format => exact ⟨extension, format, ends, known, (read known).mp h⟩
  · rintro ⟨extension, format, ends, known, h⟩
    rw [(formatName?_eq_some_iff named).mpr ⟨mem_names_of_ofName? known, ends⟩, Option.getD_some]
    exact (read known).mpr h

/-- A file that can be opened reads as what it means. -/
theorem result_readDocument_ok_iff
    (stated : store.tree.stat store.directory path = .ok (.file content))
    (named : Path.name? path = some name) :
    (store.readDocument path).result = .ok record ↔ Means name content record := by
  rw [readDocument, Lookup.result_bind, FileTree.readText_eq, stated]
  cases decoded : String.fromUTF8? content with
  | none => simp [Lookup.touch, Except.bind, Except.mapError, Means, decoded]
  | some text =>
    simp only [Lookup.touch, Lookup.ofExcept, Except.bind, Except.mapError, decoded,
      readDataFile_ok_iff named, Means, Option.some.injEq]
    constructor
    · rintro ⟨extension, format, rest⟩
      exact ⟨text, extension, format, rfl, rest⟩
    · rintro ⟨_, extension, format, rfl, rest⟩
      exact ⟨extension, format, rest⟩

/-- A file that cannot be opened reads as nothing. -/
theorem opens_of_readDocument_ok (h : (store.readDocument path).result = .ok record) :
    FileTree.checkPath path = .ok () := by
  obtain ⟨place, located⟩ := exists_locate_of_readDocument h
  exact (FileTree.locate_eq_ok_iff.mp located).1

theorem result_isKind {entry : FileEntry} (stated : store.tree.stat store.directory path = .ok entry)
    (kind : FileEntry → Bool) : (store.isKind kind path).result = .ok (kind entry) := by
  rw [isKind, stated]
  rfl

/-- The path of a lookup behind the root. -/
def base (store : FileStore) (path : String) : String := Path.join store.root (Path.trimSlashes path)

theorem result_lookup_of_directory (stays : escapes (Path.trimSlashes path) = false)
    (stated : store.tree.stat store.directory (store.base path) = .ok .directory) :
    (store.lookup path).result = (store.readCollection (store.base path) path).result := by
  have kind : (store.isKind FileEntry.isDirectory
      (Path.join store.root (Path.trimSlashes path))).result = .ok true := result_isKind stated _
  rw [lookup_eq stays, Lookup.result_bind, kind]
  simp only [Except.bind, if_true, base]

theorem result_lookup_of_file (stays : escapes (Path.trimSlashes path) = false)
    (stated : store.tree.stat store.directory (store.base path) = .ok (.file content))
    (format : (formatName? (store.base path)).isSome) :
    (store.lookup path).result = (store.readDocument (store.base path)).result := by
  have kind : (store.isKind FileEntry.isDirectory
      (Path.join store.root (Path.trimSlashes path))).result = .ok false := result_isKind stated _
  have file : (store.isKind FileEntry.isFile (store.base path)).result = .ok true :=
    result_isKind stated _
  rw [lookup_eq stays, Lookup.result_bind, kind]
  simp only [Except.bind, Bool.false_eq_true, if_false]
  rw [← base, lookupDocument, isDocument, if_pos format, Lookup.result_bind, file]
  simp only [Except.bind, if_true]

/-- A path that goes on with a name goes on with it behind the root, but for slashes between. -/
theorem base_child (store : FileStore) (path : String) (nonempty : name ≠ "") (plain : '/' ∉ name.toList) :
    ∃ slashes : List Char, (∀ c ∈ slashes, c = '/') ∧ (path.endsWith "/" = false → slashes = []) ∧
      (slashes ≠ [] → store.base path ≠ "") ∧
      store.base (path ++ "/" ++ name) = Path.join (store.base path ++ String.ofList slashes) name := by
  have relative : Path.Relative name := fun head => plain (List.mem_of_mem_head? head)
  have relative' := Path.relative_trimSlashes path
  obtain ⟨slashes, slash, open', inner, whole⟩ := Path.trimSlashes_child path nonempty plain
  refine ⟨slashes, slash, open', fun some empty => ?_, ?_⟩
  · rw [base, Path.join_eq relative'] at empty
    exact inner some (String.append_eq_empty_iff.mp empty).2
  · rw [base, whole, base]
    by_cases none : slashes = []
    · rw [none, String.ofList_nil, String.append_empty, String.append_empty,
        Path.join_assoc relative' relative]
    · have nonempty' := inner none
      have relative'' : Path.Relative (Path.trimSlashes path ++ String.ofList slashes) := by
        obtain ⟨c, rest, front⟩ := List.exists_cons_of_ne_nil (mt String.toList_eq_nil_iff.mp nonempty')
        rw [Path.Relative, String.toList_append, front]
        rwa [Path.Relative, front] at relative'
      rw [← Path.join_assoc relative'' relative, Path.join_eq relative'', Path.join_eq relative']
      simp only [String.append_assoc]

theorem stays_iff : escapes (Path.trimSlashes path) = false ↔
    ['.', '.'] ∉ Path.parts (Path.trimSlashes path).toList := by
  rw [← Path.parent_mem_components, ← escapes_iff (Path.relative_trimSlashes path), Bool.not_eq_true]

/-- A path that does not lead up does not either when it goes on with a name. -/
theorem stays_child (stays : escapes (Path.trimSlashes path) = false) (nonempty : name ≠ "")
    (plain : '/' ∉ name.toList) (down : name.toList ≠ ['.', '.']) :
    escapes (Path.trimSlashes (path ++ "/" ++ name)) = false := by
  have relative : Path.Relative name := fun head => plain (List.mem_of_mem_head? head)
  obtain ⟨slashes, slash, _, _, whole⟩ := Path.trimSlashes_child path nonempty plain
  obtain ⟨voids, void, split⟩ := Path.parts_slashes (Path.trimSlashes path).toList slash
  refine stays_iff.mpr ?_
  rw [whole]
  refine Path.parent_not_mem_join relative ?_ ?_
  · rw [String.toList_append, String.toList_ofList, split, List.mem_append, not_or]
    exact ⟨stays_iff.mp stays, fun member => List.cons_ne_nil _ _ (void _ member)⟩
  · rw [Path.parts_eq_singleton plain, List.mem_singleton]
    exact down.symm

/-! ## Documents of a directory -/

/-- A file in a directory can be opened by the path of the directory, and means a record. -/
structure Reads (store : FileStore) (base : String) (place : Place) (name : String) (record : Value) :
    Prop where
  opens : FileTree.checkPath (Path.join base name) = .ok ()
  means : ∃ content, (place ++ [name], FileEntry.file content) ∈ store.tree.entries ∧
    Means name content record

section

variable {place : Place} (proper : store.tree.Proper)
  (reached : store.tree.reach store.directory path = .ok place)
  (within : store.tree.isDirectoryAt place = true)

include proper reached within

theorem stat_of_opens (opens : FileTree.checkPath (Path.join path name) = .ok ())
    (member : (place ++ [name], FileEntry.file content) ∈ store.tree.entries) :
    store.tree.stat store.directory (Path.join path name) = .ok (.file content) := by
  rw [FileTree.stat_child proper reached within member, opens]
  rfl

theorem result_readDocument_of_opens (opens : FileTree.checkPath (Path.join path name) = .ok ())
    (member : (place ++ [name], FileEntry.file content) ∈ store.tree.entries) :
    (store.readDocument (Path.join path name)).result = .ok record ↔ Means name content record := by
  obtain ⟨named, plain, _⟩ := proper.name _ member name (by simp)
  exact result_readDocument_ok_iff (stat_of_opens proper reached within opens member)
    (Path.name?_join named plain)

theorem readDocument_ok_iff_reads
    (member : (place ++ [name], FileEntry.file content) ∈ store.tree.entries) :
    (store.readDocument (Path.join path name)).result = .ok record ↔
      store.Reads path place name record := by
  constructor
  · intro h
    have opens := opens_of_readDocument_ok h
    exact ⟨opens, content, member, (result_readDocument_of_opens proper reached within opens member).mp h⟩
  · rintro ⟨opens, content', member', means⟩
    exact (result_readDocument_of_opens proper reached within opens member').mpr means

end

/-- The data files in a directory. -/
def documents (tree : FileTree) (place : Place) : List String :=
  documentNames (tree.entries.filterMap (FileTree.listed place))

theorem mem_documents_iff {place : Place} (proper : store.tree.Proper) :
    name ∈ documents store.tree place ↔ (∃ extension ∈ DataFormat.names, HasExtension name extension) ∧
      ∃ content, (place ++ [name], FileEntry.file content) ∈ store.tree.entries := by
  rw [documents, mem_documentNames_listed]
  refine and_congr_left fun ⟨content, member⟩ => ?_
  obtain ⟨named, plain, _⟩ := proper.name _ member name (by simp)
  have alone := @Path.name?_join "" name named plain
  rw [Path.join_empty fun head => plain (List.mem_of_mem_head? head)] at alone
  simp only [Option.isSome_iff_exists, formatName?_eq_some_iff alone]

/-- The documents of a directory, all read at once. -/
def readDocuments (store : FileStore) (base : String) (place : Place) : Lookup (List Value) :=
  Lookup.all (.ofCount (documents store.tree place).length)
    ((documents store.tree place).map fun name => store.readDocument (Path.join base name))

theorem result_readDocuments_ok_iff {base : String} {place : Place} {records : List Value} :
    (store.readDocuments base place).result = .ok records ↔ List.Forall₂ (fun name record =>
      (store.readDocument (Path.join base name)).result = .ok record)
        (documents store.tree place) records := by
  rw [readDocuments, Lookup.result_all_ok_iff, List.forall₂_map_left_iff]

theorem exists_readDocuments_ok_iff {base : String} {place : Place} :
    (∃ records, (store.readDocuments base place).result = .ok records) ↔
      ∀ name ∈ documents store.tree place,
        ∃ record, (store.readDocument (Path.join base name)).result = .ok record := by
  rw [readDocuments, Lookup.exists_all_ok_iff, List.forall_mem_map]

theorem result_readCollection {base : String} {place : Place}
    (located : store.tree.locate store.directory base = .ok place)
    (within : store.tree.isDirectoryAt place = true) : (store.readCollection base path).result =
      (store.readDocuments base place).result.map .collection := by
  have listed : store.tree.list store.directory base =
      .ok (store.tree.entries.filterMap (FileTree.listed place)) := by
    rw [FileTree.list_eq, located]
    simp [Except.bind, within]
  rw [readCollection_eq, listed, Lookup.result_bind]
  simp only [Lookup.touch, Lookup.tell, Except.map, Except.mapError, Except.bind, Lookup.result_bind]
  rfl

section

variable {place : Place} (stays : escapes (Path.trimSlashes path) = false)
  (located : store.tree.locate store.directory (store.base path) = .ok place)
  (within : store.tree.isDirectoryAt place = true)

include stays located within

theorem result_lookup_directory : (store.lookup path).result =
    (store.readDocuments (store.base path) place).result.map .collection :=
  (result_lookup_of_directory stays (FileTree.stat_of_isDirectoryAt located within)).trans
    (result_readCollection located within)

theorem lookup_directory_ok_iff {value : Value} : (store.lookup path).result = .ok value ↔
    ∃ records, value = .collection records ∧
      (store.readDocuments (store.base path) place).result = .ok records := by
  rw [result_lookup_directory stays located within]
  generalize Lookup.result _ = result
  cases result <;> simp [Except.map, eq_comm]

theorem lookup_directory_error_iff {problem : Problem} : (store.lookup path).result = .error problem ↔
    (store.readDocuments (store.base path) place).result = .error problem := by
  rw [result_lookup_directory stays located within]
  generalize Lookup.result _ = result
  cases result <;> simp [Except.map]

end

/-- The lookup of a document by its own path gives its record. -/
theorem result_lookup_child {place : Place} (proper : store.tree.Proper)
    (stays : escapes (Path.trimSlashes path) = false)
    (reached : store.tree.reach store.directory (store.base path) = .ok place)
    (within : store.tree.isDirectoryAt place = true)
    (reads : store.Reads (store.base path) place name record)
    (short : path.endsWith "/" = true →
      (store.base (path ++ "/" ++ name)).utf8ByteSize < FileTree.maxPath) :
    (store.lookup (path ++ "/" ++ name)).result = .ok record := by
  obtain ⟨opens, content, member, means⟩ := reads
  obtain ⟨named, plain, _⟩ := proper.name _ member name (by simp)
  have relative : Path.Relative name := fun head => plain (List.mem_of_mem_head? head)
  have nonempty : name ≠ "" := by
    rintro rfl
    exact absurd named (by decide)
  have down : name.toList ≠ ['.', '.'] := by
    intro up
    exact absurd (up ▸ named) (by decide)
  obtain ⟨slashes, slash, open', inner, whole⟩ := base_child store path nonempty plain
  have reached' := FileTree.reach_slashes slash inner reached within
  have opens' : FileTree.checkPath (Path.join (store.base path ++ String.ofList slashes) name) = .ok () := by
    by_cases ends : path.endsWith "/" = true
    · have fits := short ends
      rw [whole] at fits
      exact FileTree.checkPath_slashes slash relative opens nonempty fits
    · rw [open' (Bool.eq_false_iff.mpr ends), String.ofList_nil, String.append_empty]
      exact opens
  have stated := stat_of_opens proper reached' within opens' member
  have format : (formatName? (Path.join (store.base path ++ String.ofList slashes) name)).isSome := by
    obtain ⟨_, extension, _, _, ends, known, _⟩ := means
    rw [(formatName?_eq_some_iff (Path.name?_join named plain)).mpr ⟨mem_names_of_ofName? known, ends⟩]
    rfl
  have read := (result_readDocument_of_opens proper reached' within opens' member).mpr means
  rw [← whole] at stated format read
  rw [result_lookup_of_file (stays_child stays nonempty plain down) stated format, read]

end FileStore

/-- A directory is the list of what its data files mean, in the order of the bytes of their names and
whatever the order in which they are told. There is such a list if all of them can be read, and it is
that of their own lookups, unless slashes behind the path make that of a file too long. If not all of
them can be read, the answer is the problem with one of them. -/
theorem collection_is_its_documents (store : FileStore) (path : String) (proper : store.tree.Proper)
    (stays : .parent ∉ Path.components (Path.trimSlashes path))
    (directory : store.tree.isDirectory store.directory (store.base path) = true) :
    ∃ place names, store.tree.locate store.directory (store.base path) = .ok place ∧
      names.Pairwise (fun a b => bytes a < bytes b) ∧
      (∀ name, name ∈ names ↔ (∃ extension ∈ DataFormat.names, HasExtension name extension) ∧
        ∃ content, (place ++ [name], FileEntry.file content) ∈ store.tree.entries) ∧
      ((∃ value, (store.lookup path).result = .ok value) ↔
        ∀ name ∈ names, ∃ record, store.Reads (store.base path) place name record) ∧
      (∀ value, (store.lookup path).result = .ok value → ∃ records, value = .collection records ∧
        List.Forall₂ (fun name record => store.Reads (store.base path) place name record ∧
          ((path.endsWith "/" = true →
              (store.base (path ++ "/" ++ name)).utf8ByteSize < FileTree.maxPath) →
            (store.lookup (path ++ "/" ++ name)).result = .ok record)) names records) ∧
      (∀ problem, (store.lookup path).result = .error problem → ∃ name ∈ names,
        (store.readDocument (Path.join (store.base path) name)).result = .error problem) ∧
      ∀ entries, entries.Perm store.tree.entries →
        { store with tree := ⟨entries⟩ }.lookup path = store.lookup path := by
  have inside : FileStore.escapes (Path.trimSlashes path) = false := by
    rwa [Bool.eq_false_iff, Ne, FileStore.escapes_iff (Path.relative_trimSlashes path)]
  obtain ⟨place, located, within⟩ := FileTree.isDirectory_iff.mp directory
  have reached := (FileTree.locate_eq_ok_iff.mp located).2
  have read {name : String} {record : Value} (member : name ∈ FileStore.documents store.tree place) :
      (store.readDocument (Path.join (store.base path) name)).result = .ok record ↔
        store.Reads (store.base path) place name record := by
    obtain ⟨_, content, there⟩ := (FileStore.mem_documents_iff proper).mp member
    exact FileStore.readDocument_ok_iff_reads proper reached within there
  refine ⟨place, FileStore.documents store.tree place, located,
    FileStore.pairwise_documentNames proper, fun name => FileStore.mem_documents_iff proper,
    ?_, ?_, ?_, fun entries same => FileStore.lookup_perm same proper path⟩
  · refine .trans ?_ (FileStore.exists_readDocuments_ok_iff.trans
      (forall₂_congr fun name member => exists_congr fun record => read member))
    simp only [FileStore.lookup_directory_ok_iff inside located within]
    rw [exists_comm]
    simp only [exists_eq_left]
  · intro value found
    obtain ⟨records, rfl, visited⟩ := (FileStore.lookup_directory_ok_iff inside located within).mp found
    have listed := (List.forall₂_and_left _ _).mpr
      ⟨fun _ => id, FileStore.result_readDocuments_ok_iff.mp visited⟩
    refine ⟨records, rfl, listed.imp fun name record ⟨member, found⟩ => ?_⟩
    have reads := (read member).mp found
    exact ⟨reads, FileStore.result_lookup_child proper inside reached within reads⟩
  · intro problem failed
    obtain ⟨l, member, same⟩ := Lookup.exists_of_all_error
      ((FileStore.lookup_directory_error_iff inside located within).mp failed)
    obtain ⟨name, listed, rfl⟩ := List.mem_map.mp member
    exact ⟨name, listed, same⟩

/-- A directory with two documents and with what is none: a name of an extension alone, another kind of
file and a directory that is named like a document. -/
def FileStore.mixed : FileStore :=
  ⟨⟨[(["data"], .directory), (["data", "d", "b.JSON"], .file "[]".toUTF8), (["data", "d"], .directory),
    (["data", "d", ".json"], .file "x".toUTF8), (["data", "d", "c.d.json"], .file "\"x\"".toUTF8),
    (["data", "d", "e.json"], .directory), (["data", "d", "f"], .file "x".toUTF8)]⟩, [], "data",
    fun _ => ⟨0⟩⟩

theorem FileStore.lookup_mixed {path : String} (trimmed : Path.trimSlashes path = "d") :
    FileStore.mixed.tree.isDirectory FileStore.mixed.directory (FileStore.mixed.base path) = true ∧
      (FileStore.mixed.lookup path).result = .ok (.collection [.collection [], .text "x"]) := by
  have stays : FileStore.escapes (Path.trimSlashes path) = false := by
    rw [trimmed]
    decide
  have base : FileStore.mixed.base path = "data/d" := by
    rw [FileStore.base, trimmed]
    with_unfolding_all rfl
  have located : FileStore.mixed.tree.locate FileStore.mixed.directory "data/d" = .ok ["data", "d"] := by
    with_unfolding_all rfl
  have within : FileStore.mixed.tree.isDirectoryAt ["data", "d"] = true := by decide
  have stated := FileTree.stat_of_isDirectoryAt located within
  have names : FileStore.documents FileStore.mixed.tree ["data", "d"] = ["b.JSON", "c.d.json"] := by
    have sorted : ["b.JSON", "c.d.json"].mergeSort (· ≤ ·) = ["b.JSON", "c.d.json"] :=
      List.mergeSort_of_pairwise (by decide +kernel)
    rw [← sorted]
    refine congrArg (fun names : List String => names.mergeSort (· ≤ ·)) ?_
    decide +kernel
  have first : (FileStore.mixed.readDocument (Path.join "data/d" "b.JSON")).result =
      .ok (.collection []) := by
    have named := @Path.name?_join "data/d" "b.JSON" (by decide) (by decide)
    refine (@result_readDocument_ok_iff _ _ _ "[]".toUTF8 _ ?_ named).mpr ?_
    · with_unfolding_all rfl
    · refine ⟨"[]", "json", .json, dif_pos (String.isValidUTF8 "[]"), ?_, rfl, ?_⟩
      · exact ⟨"b", "JSON", by decide, by decide, by decide +kernel⟩
      · rw [DataFormat.read_json, Json.read, Json.Reading.whole, Json.Reading.document.eq_def]
        with_unfolding_all rfl
  have second : (FileStore.mixed.readDocument (Path.join "data/d" "c.d.json")).result =
      .ok (.text "x") := by
    have named := @Path.name?_join "data/d" "c.d.json" (by decide) (by decide)
    refine (@result_readDocument_ok_iff _ _ _ "\"x\"".toUTF8 _ ?_ named).mpr ?_
    · with_unfolding_all rfl
    · refine ⟨"\"x\"", "json", .json, dif_pos (String.isValidUTF8 "\"x\""), ?_, rfl, ?_⟩
      · exact ⟨"c.d", "json", by decide, by decide, by decide +kernel⟩
      · rw [DataFormat.read_json, Json.read, Json.Reading.whole, Json.Reading.document.eq_def]
        with_unfolding_all rfl
  rw [← base] at stated
  refine ⟨by rw [FileTree.isDirectory, stated]; rfl, ?_⟩
  have read : (FileStore.mixed.readDocuments "data/d" ["data", "d"]).result =
      .ok [.collection [], .text "x"] := by
    rw [FileStore.result_readDocuments_ok_iff, names]
    exact .cons first (.cons second .nil)
  rw [← base] at located
  rw [FileStore.result_lookup_directory stays located within, base, read]
  rfl

theorem collection_is_its_documents_mixed :
    FileStore.mixed.tree.Proper ∧ .parent ∉ Path.components (Path.trimSlashes "/d/") ∧
      FileStore.mixed.tree.isDirectory FileStore.mixed.directory (FileStore.mixed.base "/d/") = true ∧
      ∀ entries, entries.Perm FileStore.mixed.tree.entries →
        ({ FileStore.mixed with tree := ⟨entries⟩ }.lookup "/d/").result =
          .ok (.collection [.collection [], .text "x"]) := by
  have proper : FileStore.mixed.tree.Proper := by decide
  have stays : .parent ∉ Path.components (Path.trimSlashes "/d/") := by decide
  obtain ⟨directory, found⟩ := FileStore.lookup_mixed (show Path.trimSlashes "/d/" = "d" by decide)
  obtain ⟨_, _, _, _, _, _, _, _, anyOrder⟩ :=
    collection_is_its_documents FileStore.mixed "/d/" proper stays directory
  refine ⟨proper, stays, directory, fun entries same => ?_⟩
  rw [← found]
  exact congrArg Lookup.result (anyOrder entries same)

/-- The path of a directory with slashes behind it. -/
def slashed (count : Nat) : String := "d" ++ String.ofList (List.replicate count '/')

theorem trimSlashes_slashed (count : Nat) : Path.trimSlashes (slashed count) = "d" := by
  have none : ∀ c ∈ ([] : List Char), c = '/' := List.forall_mem_nil _
  have slash : ∀ c ∈ List.replicate count '/', c = '/' := fun _ => List.eq_of_mem_replicate
  exact Path.trimSlashes_eq none slash (by simp [slashed]) (by decide) (by decide)

theorem utf8ByteSize_slashes (count : Nat) :
    (String.ofList (List.replicate count '/')).utf8ByteSize = count := by
  induction count with
  | zero => rfl
  | succ count ih =>
    rw [List.replicate_succ, String.ofList_cons, String.utf8ByteSize_append, ih, Nat.add_comm]
    rfl

/-- Enough slashes in front of a name make a path that cannot be followed. -/
theorem lookup_behind_slashes {count : Nat} (long : FileTree.maxPath ≤ count) :
    (FileStore.mixed.lookup (slashed count ++ "/" ++ "c.d.json")).result =
      .error (.transport ("data/" ++ (slashed count ++ "/" ++ "c.d.json"))
        "File name too long (os error 36)") := by
  have stays : FileStore.escapes (Path.trimSlashes (slashed count ++ "/" ++ "c.d.json")) = false := by
    refine FileStore.stays_child ?_ (by decide) (by decide) (by decide)
    rw [trimSlashes_slashed]
    decide
  have text : (slashed count ++ "/" ++ "c.d.json").toList =
      'd' :: (List.replicate count '/' ++ "/c.d.json".toList) := by
    simp [slashed]
  have size : FileTree.maxPath ≤ ("data/" ++ (slashed count ++ "/" ++ "c.d.json")).utf8ByteSize := by
    simp only [slashed, String.utf8ByteSize_append, utf8ByteSize_slashes]
    omega
  generalize slashed count ++ "/" ++ "c.d.json" = path at stays text size
  have none : ∀ c ∈ ([] : List Char), c = '/' := List.forall_mem_nil _
  have relative : Path.Relative path := by simp [Path.Relative, text]
  have trimmed : Path.trimSlashes path = path := by
    refine Path.trimSlashes_eq none none (by rw [List.nil_append, List.append_nil]) relative ?_
    rw [text, ← List.cons_append, List.getLast?_append_of_ne_nil _ (by simp)]
    decide
  have behind : Path.join FileStore.mixed.root (Path.trimSlashes path) = "data/" ++ path := by
    rw [trimmed, Path.join_eq relative]
    exact congrArg (· ++ path) (show FileStore.mixed.root ++ Path.seam FileStore.mixed.root = "data/" by
      with_unfolding_all rfl)
  have refused : FileTree.checkPath ("data/" ++ path) = .error .nameTooLong := by
    have letters : '\x00' ∉ ("data/" ++ path).toList := by
      simp [text]
    rw [FileTree.checkPath, if_neg (by simpa using letters), if_neg (by simp), if_pos size]
  have stated : FileStore.mixed.tree.stat FileStore.mixed.directory ("data/" ++ path) =
      .error .nameTooLong := by
    rw [FileTree.stat_eq, FileTree.locate_eq, refused]
    rfl
  rw [FileStore.lookup_eq stays, Lookup.result_bind, behind, FileStore.isKind, stated]
  rfl

/-- The document is in the collection, and cannot be looked up behind all these slashes. -/
theorem document_behind_slashes_too_long :
    .parent ∉ Path.components (Path.trimSlashes (slashed 5000)) ∧
      FileStore.mixed.tree.isDirectory FileStore.mixed.directory
        (FileStore.mixed.base (slashed 5000)) = true ∧
      (FileStore.mixed.lookup (slashed 5000)).result = .ok (.collection [.collection [], .text "x"]) ∧
      (FileStore.mixed.lookup (slashed 5000 ++ "/" ++ "c.d.json")).result =
        .error (.transport ("data/" ++ (slashed 5000 ++ "/" ++ "c.d.json"))
          "File name too long (os error 36)") := by
  obtain ⟨directory, found⟩ := FileStore.lookup_mixed (trimSlashes_slashed 5000)
  refine ⟨?_, directory, found, lookup_behind_slashes (by decide)⟩
  rw [trimSlashes_slashed]
  decide

end Fieldmark
