import Fieldmark.Proofs.Confinement
import Fieldmark.Proofs.Making

/-!
# What a lookup depends on

A lookup depends on nothing but what stands at the paths that it touches (`lookup_congr`). These lie
below the root of the store, and one of them leads somewhere if there is an answer, so the root does
too (`exists_reach_of_lookup`). A change that leaves this root alone, and all that is below it,
leaves every answer as it is (`lookup_eq_of_agreeBelow`).
-/

namespace Fieldmark

namespace Lookup

variable {α β : Type}

theorem result_bind_ok {l : Lookup α} {next : α → Lookup β} {b : β}
    (h : (l >>= next).result = .ok b) : ∃ a, l.result = .ok a ∧ (next a).result = .ok b := by
  obtain ⟨touched, events, time, result⟩ := l
  cases result with
  | error problem => contradiction
  | ok a => exact ⟨a, rfl, h⟩

theorem bind_congr_of_result {l : Lookup α} {next next' : α → Lookup β}
    (same : ∀ a, l.result = .ok a → next a = next' a) : l >>= next = l >>= next' := by
  obtain ⟨touched, events, time, result⟩ := l
  cases result with
  | error problem => rfl
  | ok a =>
    have here := same a rfl
    simp only [bind, here]

theorem result_bind (l : Lookup α) (next : α → Lookup β) :
    (l >>= next).result = l.result.bind fun a => (next a).result := by
  obtain ⟨touched, events, time, result⟩ := l
  cases result <;> rfl

theorem result_touch_ok {path : String} {time : Duration} {answer : Except FileFault α} {a : α}
    (h : (touch path time answer).result = .ok a) : answer = .ok a := by
  unfold touch at h
  cases answer with
  | error fault => contradiction
  | ok found => exact congrArg Except.ok (Except.ok.inj h)

end Lookup

namespace FileTree

variable {tree after : FileTree} {directory : Place} {path : String}

/-- What stands at a path, and which data files stand in it, is the same in two trees. -/
structure SameAt (directory : Place) (tree after : FileTree) (path : String) : Prop where
  stat : after.stat directory path = tree.stat directory path
  documents : (after.list directory path).map FileStore.documentNames =
    (tree.list directory path).map FileStore.documentNames

theorem stat_eq (tree : FileTree) (directory : Place) (path : String) :
    tree.stat directory path = (tree.locate directory path).bind fun place =>
      match tree.entry? place with
      | some entry => .ok entry
      | none => .error .notFound := rfl

/-- What is listed of an entry in a directory. -/
def listed (place : Place) (found : Place × FileEntry) : Option (String × FileEntry) :=
  match found.1.getLast? with
  | some name => if found.1.dropLast = place then some (name, found.2) else none
  | none => none

theorem list_eq (tree : FileTree) (directory : Place) (path : String) :
    tree.list directory path = (tree.locate directory path).bind fun place =>
      if !tree.isDirectoryAt place then .error .notDirectory
      else .ok (tree.entries.filterMap (listed place)) := rfl

theorem readText_eq (tree : FileTree) (directory : Place) (path : String) :
    tree.readText directory path = (tree.stat directory path).bind fun
      | .directory => .error .isDirectory
      | .file content =>
        match String.fromUTF8? content with
        | some text => .ok text
        | none => .error .notText := rfl

theorem SameAt.readText (same : SameAt directory tree after path) :
    after.readText directory path = tree.readText directory path := by
  rw [readText_eq, readText_eq, same.stat]

/-- What leads nowhere cannot be read. -/
theorem exists_locate_of_stat {entry : FileEntry} (h : tree.stat directory path = .ok entry) :
    ∃ place, tree.locate directory path = .ok place ∧ tree.entry? place = some entry := by
  rw [stat_eq] at h
  cases located : tree.locate directory path with
  | error fault =>
    rw [located] at h
    contradiction
  | ok place =>
    rw [located] at h
    cases found : tree.entry? place with
    | none => simp [Except.bind, found] at h
    | some entry => exact ⟨place, rfl, by simpa [Except.bind, found] using h⟩

theorem isFile_iff : tree.isFile directory path = true ↔
    ∃ content, tree.stat directory path = .ok (.file content) := by
  unfold isFile
  cases tree.stat directory path with
  | error fault => simp
  | ok entry => cases entry <;> simp [FileEntry.isFile]

theorem readText_eq_ok_iff {text : String} : tree.readText directory path = .ok text ↔
    ∃ content, tree.stat directory path = .ok (.file content) ∧
      String.fromUTF8? content = some text := by
  rw [readText_eq]
  cases tree.stat directory path with
  | error fault => simp [Except.bind]
  | ok entry =>
    cases entry with
    | directory => simp [Except.bind]
    | file content =>
      simp only [Except.bind, Except.ok.injEq, FileEntry.file.injEq, exists_eq_left']
      cases String.fromUTF8? content with
      | none => simp
      | some text => simp

theorem AgreeBelow.sameAt {base : Place} {root rest : String} (agree : AgreeBelow base tree after)
    (keeps : Keeps tree after) (reached : tree.reach directory root = .ok base)
    (relative : Path.Relative rest) (inside : ['.', '.'] ∉ Path.parts rest.toList) :
    SameAt directory tree after (Path.join root rest) := by
  obtain ⟨same, below⟩ := agree.locate keeps reached relative inside
  constructor
  · rw [stat_eq, stat_eq, same]
    cases located : tree.locate directory (Path.join root rest) with
    | error fault => rfl
    | ok place =>
      simp only [Except.bind]
      rw [agree.entry place (below place located)]
  · rw [list_eq, list_eq, same]
    refine congrArg (Except.map FileStore.documentNames) ?_
    cases located : tree.locate directory (Path.join root rest) with
    | error fault => rfl
    | ok place =>
      have entries : after.entries.filterMap (listed place) = tree.entries.filterMap (listed place) := by
        refine agree.filterMap (listed place) fun other entry outside => ?_
        unfold listed
        split
        · rw [if_neg]
          rintro rfl
          exact outside ((below _ located).trans (List.dropLast_prefix other))
        · rfl
      simp only [Except.bind]
      rw [agree.isDirectoryAt (below place located), entries]

end FileTree

namespace FileStore

variable {tree after : FileTree} {directory : Place} {root : String} {delays : Delays}

/-! ## Lookups in two trees -/

section

variable {path : String}

theorem isKind_congr (same : FileTree.SameAt directory tree after path) (kind : FileEntry → Bool) :
    (FileStore.mk after directory root delays).isKind kind path =
      (FileStore.mk tree directory root delays).isKind kind path := by
  simp only [isKind, same.stat]

theorem readDocument_congr (same : FileTree.SameAt directory tree after path) :
    (FileStore.mk after directory root delays).readDocument path =
      (FileStore.mk tree directory root delays).readDocument path := by
  simp only [readDocument, same.readText]

end

variable {base path : String}

/-- Of what is listed in a directory a collection needs the names of its data files. -/
theorem readCollection_eq (store : FileStore) (base path : String) : store.readCollection base path =
    Lookup.touch base (store.delays base) ((store.tree.list store.directory base).map documentNames) >>=
      fun documents => Lookup.tell (.readingCollection path documents.length) >>= fun _ =>
        Lookup.all (.ofCount documents.length)
          (documents.map fun name => store.readDocument (Path.join base name)) >>= fun records =>
            pure (.collection records) := by
  unfold readCollection
  cases store.tree.list store.directory base <;> rfl

theorem readCollection_congr
    (same : ∀ touched, (FileStore.mk tree directory root delays).Touches base touched →
      FileTree.SameAt directory tree after touched) :
    (FileStore.mk after directory root delays).readCollection base path =
      (FileStore.mk tree directory root delays).readCollection base path := by
  rw [readCollection_eq, readCollection_eq, (same base .base).documents]
  refine Lookup.bind_congr_of_result fun documents found => ?_
  have read : (documents.map fun name =>
      (FileStore.mk after directory root delays).readDocument (Path.join base name)) =
      documents.map fun name =>
        (FileStore.mk tree directory root delays).readDocument (Path.join base name) := by
    refine List.map_congr_left fun name member => readDocument_congr ?_
    have answer := Lookup.result_touch_ok found
    cases listed : tree.list directory base with
    | error fault =>
      rw [listed] at answer
      contradiction
    | ok names =>
      rw [listed] at answer
      cases answer
      obtain ⟨entry, inside, _, format⟩ := mem_documentNames.mp member
      exact same _ (.entry listed inside format)
  rw [read]

theorem firstDocument_congr {extensions : List String} (known : extensions ⊆ DataFormat.names)
    (same : ∀ touched, (FileStore.mk tree directory root delays).Touches base touched →
      FileTree.SameAt directory tree after touched) :
    (FileStore.mk after directory root delays).firstDocument base path extensions =
      (FileStore.mk tree directory root delays).firstDocument base path extensions := by
  induction extensions with
  | nil => rfl
  | cons extension rest ih =>
    rw [List.cons_subset] at known
    have here := same _ (.extended known.1)
    simp only [firstDocument, isKind_congr here, readDocument_congr here, ih known.2]

/-- Trees that are the same wherever a lookup may touch them give the same answer. -/
theorem lookup_congr (path : String)
    (same : ∀ touched, (FileStore.mk tree directory root delays).Touches
      (Path.join root (Path.trimSlashes path)) touched →
        FileTree.SameAt directory tree after touched) :
    (FileStore.mk after directory root delays).lookup path =
      (FileStore.mk tree directory root delays).lookup path := by
  cases stays : escapes (Path.trimSlashes path) with
  | true =>
    unfold lookup
    rw [if_pos stays, if_pos stays]
  | false =>
    have here := same _ .base
    rw [lookup_eq stays, lookup_eq stays, lookupDocument, lookupDocument, isDocument, isDocument,
      isKind_congr here, isKind_congr here, readDocument_congr here, readCollection_congr same,
      firstDocument_congr (List.Subset.refl _) same]

/-! ## Answers -/

variable {store : FileStore}

theorem exists_locate_of_readDocument {value : Value}
    (h : (store.readDocument path).result = .ok value) :
    ∃ place, store.tree.locate store.directory path = .ok place := by
  obtain ⟨text, read, _⟩ := Lookup.result_bind_ok h
  obtain ⟨_, stated, _⟩ := FileTree.readText_eq_ok_iff.mp (Lookup.result_touch_ok read)
  obtain ⟨place, located, _⟩ := FileTree.exists_locate_of_stat stated
  exact ⟨place, located⟩

theorem exists_locate_of_readCollection {value : Value}
    (h : (store.readCollection base path).result = .ok value) :
    ∃ place, store.tree.locate store.directory base = .ok place := by
  obtain ⟨names, found, _⟩ := Lookup.result_bind_ok h
  have listed := Lookup.result_touch_ok found
  rw [FileTree.list_eq] at listed
  cases located : store.tree.locate store.directory base with
  | error fault =>
    rw [located] at listed
    contradiction
  | ok place => exact ⟨place, rfl⟩

theorem exists_locate_of_firstDocument {extensions : List String} {value : Value}
    (known : extensions ⊆ DataFormat.names)
    (h : (store.firstDocument base path extensions).result = .ok value) :
    ∃ touched place, store.Touches base touched ∧
      store.tree.locate store.directory touched = .ok place := by
  induction extensions with
  | nil => contradiction
  | cons extension rest ih =>
    rw [List.cons_subset] at known
    unfold firstDocument at h
    obtain ⟨isFile, _, h⟩ := Lookup.result_bind_ok h
    split_ifs at h
    · obtain ⟨place, located⟩ := exists_locate_of_readDocument h
      exact ⟨_, place, .extended known.1, located⟩
    · exact ih known.2 h

/-- An answer comes from somewhere. -/
theorem exists_locate_of_lookup {path : String} {value : Value}
    (h : (store.lookup path).result = .ok value) :
    .parent ∉ Path.components (Path.trimSlashes path) ∧
      ∃ touched place, store.Touches (Path.join store.root (Path.trimSlashes path)) touched ∧
        store.tree.locate store.directory touched = .ok place := by
  have relative := Path.relative_trimSlashes path
  cases stays : escapes (Path.trimSlashes path) with
  | true =>
    rw [lookup, if_pos stays] at h
    exact absurd h (by simp [Lookup.fail, Lookup.ofExcept])
  | false =>
    refine ⟨fun leads => by simp [(escapes_iff relative).mpr leads] at stays, ?_⟩
    rw [lookup_eq stays] at h
    obtain ⟨directory, _, h⟩ := Lookup.result_bind_ok h
    split_ifs at h
    · obtain ⟨place, located⟩ := exists_locate_of_readCollection h
      exact ⟨_, place, .base, located⟩
    · rw [lookupDocument] at h
      obtain ⟨document, _, h⟩ := Lookup.result_bind_ok h
      split_ifs at h
      · obtain ⟨place, located⟩ := exists_locate_of_readDocument h
        exact ⟨_, place, .base, located⟩
      · exact exists_locate_of_firstDocument (List.Subset.refl _) h

/-- Where there is an answer, the root of the store leads somewhere. -/
theorem exists_reach_of_lookup {path : String} {value : Value} (named : store.tree.Named)
    (h : (store.lookup path).result = .ok value) :
    ∃ place, store.tree.reach store.directory store.root = .ok place := by
  obtain ⟨stays, touched, place, touches, located⟩ := exists_locate_of_lookup h
  rw [Path.parent_mem_components] at stays
  obtain ⟨rest, relative, _, rfl⟩ :=
    (within_of_touches named (Path.relative_trimSlashes path) stays touches).text
  exact FileTree.exists_reach_of_locate relative located

/-- A change that leaves the root of a store alone leaves its answers as they are. -/
theorem lookup_eq_of_agreeBelow {base : Place} (named : tree.Named) (keeps : FileTree.Keeps tree after)
    (reached : tree.reach directory root = .ok base) (agree : FileTree.AgreeBelow base tree after)
    (path : String) :
    (FileStore.mk after directory root delays).lookup path =
      (FileStore.mk tree directory root delays).lookup path := by
  have relative := Path.relative_trimSlashes path
  cases stays : escapes (Path.trimSlashes path) with
  | true =>
    unfold lookup
    rw [if_pos stays, if_pos stays]
  | false =>
    have inside : ['.', '.'] ∉ Path.parts (Path.trimSlashes path).toList := by
      rw [← Path.parent_mem_components, ← escapes_iff relative]
      simp [stays]
    refine lookup_congr path fun touched touches => ?_
    obtain ⟨rest, relative', inside', rfl⟩ := (within_of_touches named relative inside touches).text
    exact agree.sameAt keeps reached relative' inside'

end FileStore

end Fieldmark
