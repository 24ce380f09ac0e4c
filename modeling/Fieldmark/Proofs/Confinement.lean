import Fieldmark.FileStore
import Fieldmark.Proofs.Paths
import Mathlib.Data.List.DropRight

/-!
# Lookups stay below their root

A path that leads up is answered without touching anything. Any other one leads a lookup to a
directory or data file behind the root, with an extension or the name of an entry put behind it
(`Touches`), and none of these leads up or begins elsewhere (`lookup_stays_within`).
-/

namespace Fieldmark

namespace Path

/-- A path goes on from a root by names and dots: as a text, and in what it names. -/
structure Within (root path : String) : Prop where
  text : ∃ rest, Relative rest ∧ ['.', '.'] ∉ parts rest.toList ∧ path = join root rest
  components : ∃ inside, components path = components root ++ inside ∧
    ∀ component ∈ inside, component = .current ∨ ∃ name, component = .name name

theorem within_join {root rest : String} (relative : Relative rest)
    (inside : ['.', '.'] ∉ parts rest.toList) : Within root (join root rest) := by
  refine ⟨⟨rest, relative, inside, rfl⟩, ?_⟩
  by_cases empty : root = ""
  · subst empty
    refine ⟨components rest, by rw [join_empty relative, components_empty, List.nil_append], ?_⟩
    intro component member
    cases component with
    | root => exact absurd member (root_not_mem_components relative)
    | current => exact .inl rfl
    | parent => exact absurd (parent_mem_components.mp member) inside
    | name name => exact .inr ⟨name, rfl⟩
  · refine ⟨inner (parts rest.toList), components_join relative empty, ?_⟩
    exact fun component member => .inr (name_of_mem_inner member inside)

/-- What is put behind a part makes no pair of dots of it if it is longer than that. -/
theorem parent_not_mem_append {path tail : List Char} (plain : '/' ∉ tail) (long : 2 < tail.length)
    (inside : ['.', '.'] ∉ parts path) : ['.', '.'] ∉ parts (path ++ tail) := by
  obtain ⟨front, last, whole, joined⟩ := exists_parts_append path plain
  rw [whole, List.mem_append, not_or] at inside
  rw [joined, List.mem_append, not_or, List.mem_singleton]
  refine ⟨inside.1, fun up => ?_⟩
  have lengths := congrArg List.length up
  simp only [List.length_append, List.length_cons, List.length_nil] at lengths
  omega

theorem parent_not_mem_join {path rest : String} (relative : Relative rest)
    (inside : ['.', '.'] ∉ parts path.toList) (inside' : ['.', '.'] ∉ parts rest.toList) :
    ['.', '.'] ∉ parts (join path rest).toList := by
  by_cases empty : path = ""
  · subst empty
    rwa [join_empty relative]
  · obtain ⟨front, _, whole, joined⟩ := parts_join relative empty
    rw [joined, List.mem_append, not_or]
    refine ⟨fun member => inside ?_, inside'⟩
    rcases whole with whole | whole
    · exact whole ▸ member
    · exact whole ▸ List.mem_append_left _ member

theorem relative_trimSlashes (path : String) : Relative (trimSlashes path) := by
  intro head
  rw [trimSlashes, String.toList_ofList] at head
  have front : List.rdropWhile (· == '/') (path.toList.dropWhile (· == '/')) <+:
      path.toList.dropWhile (· == '/') := List.rdropWhile_prefix ..
  obtain ⟨rest, whole⟩ := front
  have first : (path.toList.dropWhile (· == '/')).head? = some '/' := by
    rw [← whole, List.head?_append, List.rdropWhile, head]
    rfl
  have dropped := List.head?_dropWhile_not (· == '/') path.toList
  simp [first] at dropped

end Path

namespace Duration

@[simp] theorem zero_add (d : Duration) : ⟨0⟩ + d = d := congrArg mk (Nat.zero_add _)

@[simp] theorem add_zero (d : Duration) : d + ⟨0⟩ = d := rfl

theorem add_assoc (d e f : Duration) : d + e + f = d + (e + f) := congrArg mk (Nat.add_assoc ..)

end Duration

namespace Lookup

variable {α β : Type}

instance : LawfulMonad Lookup :=
  LawfulMonad.mk' Lookup
    (by
      rintro α ⟨touched, events, time, result⟩
      cases result with
      | error problem => rfl
      | ok a => show Lookup.mk _ _ _ _ = _; simp)
    (by
      intro α β a next
      show Lookup.mk ([] ++ (next a).touched) ([] ++ (next a).events) (⟨0⟩ + (next a).time) _ = _
      simp)
    (by
      rintro α β γ ⟨touched, events, time, result⟩ next last
      cases result with
      | error problem => rfl
      | ok a =>
        simp only [bind]
        cases (next a).result with
        | error problem => rfl
        | ok b => simp [List.append_assoc, Duration.add_assoc])

theorem mem_touched_bind {l : Lookup α} {next : α → Lookup β} {path : String} :
    path ∈ (l >>= next).touched ↔
      path ∈ l.touched ∨ ∃ a, l.result = .ok a ∧ path ∈ (next a).touched := by
  obtain ⟨touched, events, time, result⟩ := l
  cases result with
  | error problem => simp [bind]
  | ok a => simp [bind]

theorem touched_subset_bind (l : Lookup α) (next : α → Lookup β) :
    l.touched ⊆ (l >>= next).touched :=
  fun _ member => mem_touched_bind.mpr (.inl member)

/-- What is made at once is made to the end, whatever comes of it. -/
theorem touched_all (join : Load.Join) (lookups : List (Lookup α)) :
    (all join lookups).touched = lookups.flatMap touched := by
  induction lookups with
  | nil => rfl
  | cons l rest ih => simp only [all, ih, List.flatMap_cons]

end Lookup

/-- The names in a tree are names: no path between them. -/
def FileTree.Named (tree : FileTree) : Prop :=
  ∀ found ∈ tree.entries, ∀ name ∈ found.1, '/' ∉ name.toList

instance (tree : FileTree) : Decidable tree.Named :=
  inferInstanceAs (Decidable (∀ found ∈ tree.entries, ∀ name ∈ found.1, '/' ∉ name.toList))

namespace FileStore

variable {store : FileStore}

/-- What a lookup may touch, once it knows its path behind the root. -/
inductive Touches (store : FileStore) (base : String) : String → Prop
  | base : Touches store base base
  | extended {extension} : extension ∈ DataFormat.names →
    Touches store base (base ++ "." ++ extension)
  | entry {names name entry} : store.tree.list store.directory base = .ok names →
    (name, entry) ∈ names → (formatName? name).isSome → Touches store base (Path.join base name)

theorem mem_touched_readDocument {path touched : String} :
    touched ∈ (store.readDocument path).touched ↔ touched = path := by
  unfold readDocument
  rw [Lookup.mem_touched_bind]
  simp [Lookup.touch, Lookup.ofExcept]

theorem mem_documentNames {names : List (String × FileEntry)} {name : String} :
    name ∈ documentNames names ↔ ∃ entry, (name, entry) ∈ names ∧ entry.isFile ∧ (formatName? name).isSome := by
  simp [documentNames, and_assoc]

theorem touches_of_readCollection {base path touched : String}
    (member : touched ∈ (store.readCollection base path).touched) : store.Touches base touched := by
  unfold readCollection at member
  rcases Lookup.mem_touched_bind.mp member with listed | ⟨names, found, member⟩
  · obtain rfl := List.mem_singleton.mp listed
    exact .base
  · rcases Lookup.mem_touched_bind.mp member with none | ⟨_, _, member⟩
    · contradiction
    · rcases Lookup.mem_touched_bind.mp member with read | ⟨_, _, none⟩
      · rw [Lookup.touched_all, List.flatMap_map] at read
        obtain ⟨name, among, read⟩ := List.mem_flatMap.mp read
        obtain rfl := mem_touched_readDocument.mp read
        obtain ⟨entry, inside, _, format⟩ := mem_documentNames.mp among
        have listed : store.tree.list store.directory base = .ok names := by
          unfold Lookup.touch at found
          cases answer : store.tree.list store.directory base with
          | error fault => simp [answer, Except.mapError] at found
          | ok listing => simpa [answer, Except.mapError] using found
        exact .entry listed inside format
      · contradiction

theorem touches_of_firstDocument {base path touched : String} {extensions : List String}
    (known : extensions ⊆ DataFormat.names)
    (member : touched ∈ (store.firstDocument base path extensions).touched) :
    store.Touches base touched := by
  induction extensions with
  | nil => contradiction
  | cons extension rest ih =>
    rw [List.cons_subset] at known
    unfold firstDocument at member
    rcases Lookup.mem_touched_bind.mp member with here | ⟨isFile, _, member⟩
    · obtain rfl := List.mem_singleton.mp here
      exact .extended known.1
    · split_ifs at member
      · obtain rfl := mem_touched_readDocument.mp member
        exact .extended known.1
      · exact ih known.2 member

/-- Whether a path itself is that of a data file. -/
def isDocument (store : FileStore) (path : String) : Lookup Bool :=
  if (formatName? path).isSome then store.isKind FileEntry.isFile path else pure false

/-- What a path that is no directory is looked up as. -/
def lookupDocument (store : FileStore) (base path : String) : Lookup Value :=
  store.isDocument base >>= fun document =>
    if document then store.readDocument base else store.firstDocument base path DataFormat.names

/-- A path that leads nowhere else is a collection if a directory stands there, and a data file if
not. -/
theorem lookup_eq {path : String} (stays : escapes (Path.trimSlashes path) = false) :
    store.lookup path =
      store.isKind FileEntry.isDirectory (Path.join store.root (Path.trimSlashes path)) >>= fun directory =>
        if directory then store.readCollection (Path.join store.root (Path.trimSlashes path)) path
        else store.lookupDocument (Path.join store.root (Path.trimSlashes path)) path := by
  unfold lookup
  simp only [stays, Bool.false_eq_true, if_false]
  refine bind_congr fun directory => ?_
  cases directory with
  | true => simp only [if_true]
  | false =>
    rw [lookupDocument, isDocument]
    by_cases format : (formatName? (Path.join store.root (Path.trimSlashes path))).isSome
    · simp only [format, if_true, Bool.false_eq_true, if_false]
    · simp only [format, if_false, Bool.false_eq_true, pure_bind]

theorem touches_of_lookup {path touched : String}
    (member : touched ∈ (store.lookup path).touched) :
    store.Touches (Path.join store.root (Path.trimSlashes path)) touched := by
  cases stays : escapes (Path.trimSlashes path) with
  | true =>
    rw [lookup, if_pos stays] at member
    contradiction
  | false =>
    rw [lookup_eq stays] at member
    rcases Lookup.mem_touched_bind.mp member with here | ⟨directory, _, member⟩
    · obtain rfl := List.mem_singleton.mp here
      exact .base
    · split_ifs at member
      · exact touches_of_readCollection member
      · rw [lookupDocument, Lookup.mem_touched_bind] at member
        rcases member with here | ⟨document, _, member⟩
        · unfold isDocument at here
          split_ifs at here
          · obtain rfl := List.mem_singleton.mp here
            exact .base
          · exact absurd here List.not_mem_nil
        · split_ifs at member
          · obtain rfl := mem_touched_readDocument.mp member
            exact .base
          · exact touches_of_firstDocument (List.Subset.refl _) member

theorem escapes_iff {path : String} (relative : Path.Relative path) :
    escapes path = true ↔ .parent ∈ Path.components path := by
  unfold escapes
  rw [List.any_eq_true]
  constructor
  · rintro ⟨component, member, leads⟩
    cases component with
    | parent => exact member
    | root => exact absurd member (Path.root_not_mem_components relative)
    | current => contradiction
    | name name => contradiction
  · exact fun member => ⟨.parent, member, rfl⟩

/-- A name with a format is no pair of dots. -/
theorem ne_parent_of_format {name : String} (format : (formatName? name).isSome) :
    name.toList ≠ ['.', '.'] := by
  intro up
  obtain rfl : name = ".." := String.toList_inj.mp up
  have leads : Path.components ".." = [.parent] := by
    rw [Path.components_eq (Path.parts_eq_singleton (by decide)) (.inl (by decide))]
    rfl
  have nameless : Path.name? ".." = none := by
    rw [Path.name?, leads]
    rfl
  simp [formatName?, Path.extension?, nameless] at format

/-- What is put behind a path to give it an extension. -/
theorem dotted_of_format {extension : String} (known : extension ∈ DataFormat.names) :
    '/' ∉ ("." ++ extension).toList ∧ 2 < ("." ++ extension).toList.length := by
  revert extension
  decide

/-- The names in a listing are those of entries. -/
theorem slash_not_mem_listed {base name : String} {names : List (String × FileEntry)}
    {entry : FileEntry} (named : store.tree.Named)
    (listed : store.tree.list store.directory base = .ok names) (member : (name, entry) ∈ names) :
    '/' ∉ name.toList := by
  unfold FileTree.list at listed
  cases place : store.tree.locate store.directory base with
  | error fault =>
    rw [place] at listed
    contradiction
  | ok place' =>
    rw [place] at listed
    simp only [bind, Except.bind] at listed
    split_ifs at listed
    cases listed
    obtain ⟨⟨other, found⟩, among, here⟩ := List.mem_filterMap.mp member
    simp only at here
    split at here
    · rename_i last ends
      split_ifs at here
      cases here
      exact named _ among _ (List.mem_of_getLast? ends)
    · contradiction

theorem within_of_touches {rest touched : String} (named : store.tree.Named)
    (relative : Path.Relative rest) (inside : ['.', '.'] ∉ Path.parts rest.toList)
    (touches : store.Touches (Path.join store.root rest) touched) :
    Path.Within store.root touched := by
  cases touches with
  | base => exact Path.within_join relative inside
  | @extended extension known =>
    obtain ⟨plain, long⟩ := dotted_of_format known
    have relative' : Path.Relative ("." ++ extension) := fun head => plain (List.mem_of_mem_head? head)
    rw [String.append_assoc, Path.join_append relative relative']
    refine Path.within_join (Path.relative_append relative relative') ?_
    rw [String.toList_append]
    exact Path.parent_not_mem_append plain long inside
  | @entry names name entry listed member format =>
    have plain := slash_not_mem_listed named listed member
    have relative' : Path.Relative name := fun head => plain (List.mem_of_mem_head? head)
    rw [Path.join_assoc relative relative']
    refine Path.within_join (Path.relative_join relative relative')
      (Path.parent_not_mem_join relative' inside ?_)
    rw [Path.parts_eq_singleton plain, List.mem_singleton]
    exact Ne.symm (ne_parent_of_format format)

end FileStore

/-- A path that leads up is answered as missing, and nothing is touched for it. Any other one is
looked up where it lies behind the root, and all that is touched lies behind the root. -/
theorem lookup_stays_within (store : FileStore) (path : String) (named : store.tree.Named) :
    (.parent ∈ Path.components (Path.trimSlashes path) →
      store.lookup path = ⟨[], [], ⟨0⟩, .error (.notFound path)⟩) ∧
    (.parent ∉ Path.components (Path.trimSlashes path) →
      Path.join store.root (Path.trimSlashes path) ∈ (store.lookup path).touched ∧
      ∀ touched ∈ (store.lookup path).touched,
        store.Touches (Path.join store.root (Path.trimSlashes path)) touched ∧
          Path.Within store.root touched) := by
  have relative := Path.relative_trimSlashes path
  constructor
  · intro leads
    rw [FileStore.lookup, if_pos ((FileStore.escapes_iff relative).mpr leads)]
    rfl
  · intro stays
    have inside : FileStore.escapes (Path.trimSlashes path) ≠ true :=
      mt (FileStore.escapes_iff relative).mp stays
    refine ⟨?_, fun touched member => ?_⟩
    · rw [FileStore.lookup, if_neg inside]
      exact Lookup.touched_subset_bind _ _ (List.mem_singleton.mpr rfl)
    · have touches := FileStore.touches_of_lookup member
      rw [Path.parent_mem_components] at stays
      exact ⟨touches, FileStore.within_of_touches named relative stays touches⟩

/-- A store with no documents. -/
def FileStore.bare : FileStore := ⟨⟨[(["data"], .directory)]⟩, [], "data", fun _ => ⟨0⟩⟩

/-- A dot at the end of a path and the one before an extension are no way up. -/
theorem lookup_stays_within_behind_dot :
    FileStore.bare.tree.Named ∧ .parent ∉ Path.components (Path.trimSlashes "/posts/./") ∧
      (FileStore.bare.lookup "/posts/./").touched = ["data/posts/.", "data/posts/..json",
        "data/posts/..toml", "data/posts/..yaml", "data/posts/..yml"] ∧
      ∀ touched ∈ (FileStore.bare.lookup "/posts/./").touched, Path.Within "data" touched := by
  have named : FileStore.bare.tree.Named := by decide
  have stays : .parent ∉ Path.components (Path.trimSlashes "/posts/./") := by decide
  refine ⟨named, stays, by with_unfolding_all rfl, fun touched member => ?_⟩
  exact (((lookup_stays_within FileStore.bare "/posts/./" named).2 stays).2 touched member).2

end Fieldmark
