import Fieldmark.Proofs.Growth
import Mathlib.Data.List.DropRight

/-!
# Making directories and files

Making what is missing on a path adds directories where nothing stood, each of them named by the
path or by one around it (`Furnished`, `furnished_of_createDirectories`), and making it again adds
nothing (`createDirectories_of_isDirectory`). Writing a file puts it where its path leads afterwards
(`locate_of_write`), and once it is written it can be written there again (`write_again`).
-/

namespace Fieldmark

namespace Path

/-- The second path is that of a directory around the first one, at any distance. -/
inductive Around : String → String → Prop
  | next {path outer} : parent? path = some outer → Around path outer
  | further {path inner outer} : parent? path = some inner → Around inner outer → Around path outer

/-- A path that ends in an empty part ends in a slash. -/
theorem endsWith_slash_of_parts {path : String} {front : List (List Char)} (nonempty : front ≠ [])
    (whole : parts path.toList = front ++ [[]]) : path.endsWith "/" = true := by
  rcases List.eq_nil_or_concat path.toList with empty | ⟨text, c, ended⟩
  · rw [empty] at whole
    obtain ⟨first, others, rfl⟩ := List.exists_cons_of_ne_nil nonempty
    simp [parts] at whole
  · rw [List.concat_eq_append] at ended
    by_cases slash : c = '/'
    · exact endsWith_slash_iff.mpr ⟨text, slash ▸ ended⟩
    · obtain ⟨before, last, _, joined⟩ := exists_parts_append text (b := [c]) (by simpa using Ne.symm slash)
      rw [← ended, whole] at joined
      have ends := (List.append_inj' joined rfl).2
      simp at ends

end Path

namespace FileTree

variable {tree after : FileTree} {directory place : Place} {path : String} {last : List Char}

/-! ## Where something is made -/

/-- The parts of a path up to the last one that is not empty. -/
def firmParts (path : String) : List (List Char) := (Path.parts path.toList).rdropWhile (· == [])

theorem exists_parts_eq (path : String) :
    ∃ trail, Path.parts path.toList = firmParts path ++ trail ∧ ∀ part ∈ trail, part = [] := by
  refine ⟨(Path.parts path.toList).rtakeWhile (· == []), ?_, fun part member => ?_⟩
  · exact (List.rdropWhile_append_rtakeWhile ..).symm
  · have void := List.mem_rtakeWhile_imp (p := (· == [])) member
    exact eq_of_beq void

theorem locateLast_eq_ok_iff : tree.locateLast directory path = .ok (place, last) ↔
    checkPath path = .ok () ∧ tree.follow (origin directory path) (firmParts path).dropLast = .ok place ∧
      tree.isDirectoryAt place = true ∧ last = (firmParts path).getLast?.getD [] := by
  have unfolded : tree.locateLast directory path = (checkPath path).bind fun _ =>
      (tree.follow (origin directory path) (firmParts path).dropLast).bind fun place =>
        if !tree.isDirectoryAt place then .error .notDirectory
        else .ok (place, (firmParts path).getLast?.getD []) := rfl
  rw [unfolded]
  cases checkPath path with
  | error fault => simp [Except.bind]
  | ok nothing =>
    cases followed : tree.follow (origin directory path) (firmParts path).dropLast with
    | error fault => simp [Except.bind]
    | ok found =>
      cases within : tree.isDirectoryAt found with
      | false =>
        simp only [Except.bind, within, Bool.not_false, if_true, reduceCtorEq, Except.ok.injEq, false_iff]
        rintro ⟨_, rfl, inside, _⟩
        simp [within] at inside
      | true =>
        simp only [Except.bind, within, Bool.not_true, Bool.false_eq_true, if_false, Except.ok.injEq,
          Prod.mk.injEq, true_and]
        constructor
        · rintro ⟨rfl, rfl⟩
          exact ⟨rfl, within, rfl⟩
        · rintro ⟨rfl, _, rfl⟩
          exact ⟨rfl, rfl⟩

theorem Keeps.locateLast (keeps : Keeps tree after)
    (h : tree.locateLast directory path = .ok (place, last)) :
    after.locateLast directory path = .ok (place, last) := by
  obtain ⟨fine, followed, within, ends⟩ := locateLast_eq_ok_iff.mp h
  exact locateLast_eq_ok_iff.mpr ⟨fine, keeps.follow followed, keeps.directory place within, ends⟩

/-- Where a name is the last part, it stands behind all that is followed. -/
theorem parts_of_locateLast (h : tree.locateLast directory path = .ok (place, last))
    (named : isName last = true) :
    firmParts path = (firmParts path).dropLast ++ [last] := by
  obtain ⟨_, _, _, ends⟩ := locateLast_eq_ok_iff.mp h
  cases found : (firmParts path).getLast? with
  | none =>
    rw [found] at ends
    subst ends
    contradiction
  | some part =>
    rw [found] at ends
    obtain rfl : last = part := ends
    exact (List.dropLast_append_getLast? last found).symm

/-- What stands at the end of a path is where the path leads, if it is a directory or no slash
follows. -/
theorem locate_of_locateLast (h : tree.locateLast directory path = .ok (place, last))
    (named : isName last = true) (short : (String.ofList last).utf8ByteSize ≤ maxName)
    (there : (tree.entry? (place ++ [String.ofList last])).isSome)
    (ended : path.endsWith "/" = true → tree.isDirectoryAt (place ++ [String.ofList last]) = true) :
    tree.locate directory path = .ok (place ++ [String.ofList last]) := by
  obtain ⟨fine, followed, within, _⟩ := locateLast_eq_ok_iff.mp h
  obtain ⟨trail, whole, void⟩ := exists_parts_eq path
  have entered : tree.enter place last = .ok (place ++ [String.ofList last]) :=
    enter_eq_ok_iff.mpr ⟨within, .name named short there⟩
  have settled : tree.follow (place ++ [String.ofList last]) trail =
      .ok (place ++ [String.ofList last]) := by
    rcases List.eq_nil_or_concat trail with rfl | ⟨more, part, rfl⟩
    · rfl
    · have slash : path.endsWith "/" = true := by
        rw [List.concat_eq_append] at void whole
        rw [void part (by simp), ← List.append_assoc] at whole
        refine Path.endsWith_slash_of_parts (fun none => ?_) whole
        rw [parts_of_locateLast h named] at none
        simp at none
      exact follow_void (ended slash) void
  refine locate_eq_ok_iff.mpr ⟨fine, ?_⟩
  rw [reach, whole, parts_of_locateLast h named, List.append_assoc, follow_append, followed]
  exact follow_cons_eq_ok_iff.mpr ⟨_, entered, settled⟩

/-! ## Directories -/

theorem createDirectory_eq_ok {created : FileTree}
    (h : tree.createDirectory directory path = .ok created) :
    ∃ place last, tree.locateLast directory path = .ok (place, last) ∧ isName last = true ∧
      (String.ofList last).utf8ByteSize ≤ maxName ∧
      tree.entry? (place ++ [String.ofList last]) = none ∧
      created = tree.put (place ++ [String.ofList last]) .directory := by
  unfold createDirectory at h
  cases located : tree.locateLast directory path with
  | error fault =>
    rw [located] at h
    contradiction
  | ok found =>
    obtain ⟨place, last⟩ := found
    rw [located] at h
    simp only [bind, Except.bind] at h
    split_ifs at h with unnamed long there
    cases h
    refine ⟨place, last, rfl, by simpa using unnamed, Nat.le_of_not_lt long, ?_, rfl⟩
    simpa using there

theorem isDirectory_iff : tree.isDirectory directory path = true ↔
    ∃ place, tree.locate directory path = .ok place ∧ tree.isDirectoryAt place = true := by
  unfold isDirectory stat
  cases tree.locate directory path with
  | error fault => simp [bind, Except.bind]
  | ok place =>
    simp only [bind, Except.bind, Except.ok.injEq, exists_eq_left', isDirectoryAt]
    cases tree.entry? place with
    | none => simp
    | some entry => simp

theorem Keeps.isDirectory (keeps : Keeps tree after)
    (h : tree.isDirectory directory path = true) : after.isDirectory directory path = true := by
  obtain ⟨place, located, within⟩ := isDirectory_iff.mp h
  exact isDirectory_iff.mpr ⟨place, keeps.locate located, keeps.directory place within⟩

/-- No directory is made where the last part of a path leads somewhere, or is not a name. -/
theorem createDirectory_of_enter {place found : Place} {last : List Char}
    (ends : tree.locateLast directory path = .ok (place, last))
    (enters : isName last = true → tree.enter place last = .ok found) :
    tree.createDirectory directory path = .error .exists := by
  unfold createDirectory
  rw [ends]
  simp only [bind, Except.bind]
  by_cases named : isName last = true
  · cases (enter_eq_ok_iff.mp (enters named)).2 with
    | void void => simp [isName, void] at named
    | up => simp [isName] at named
    | name _ short there =>
      rw [if_neg (by simp [named]), if_neg (Nat.not_lt.mpr short), if_pos there]
  · rw [if_pos (by simpa using named)]

/-- The last part of the path of a directory leads to it, unless the path has no such part. -/
theorem exists_locateLast_of_locate {found : Place}
    (located : tree.locate directory path = .ok found) :
    ∃ place last, tree.locateLast directory path = .ok (place, last) ∧
      (isName last = true → tree.enter place last = .ok found) := by
  obtain ⟨fine, reached⟩ := locate_eq_ok_iff.mp located
  obtain ⟨trail, whole, void⟩ := exists_parts_eq path
  rw [reach, whole] at reached
  rcases List.eq_nil_or_concat (firmParts path) with none | ⟨front, last, ended⟩
  · rw [none, List.nil_append] at reached
    have around : tree.isDirectoryAt (origin directory path) = true := by
      rw [none, List.nil_append] at whole
      obtain ⟨part, more, rfl⟩ := List.exists_cons_of_ne_nil (whole ▸ Path.parts_ne_nil path.toList)
      obtain ⟨_, entered, _⟩ := follow_cons_eq_ok_iff.mp reached
      exact (enter_eq_ok_iff.mp entered).1
    refine ⟨origin directory path, [], ?_, fun named => absurd named (by decide)⟩
    exact locateLast_eq_ok_iff.mpr ⟨fine, by rw [none]; rfl, around, by rw [none]; rfl⟩
  · rw [List.concat_eq_append] at ended
    rw [ended, List.append_assoc, follow_append] at reached
    cases followed : tree.follow (origin directory path) front with
    | error fault =>
      rw [followed] at reached
      contradiction
    | ok place =>
      rw [followed] at reached
      obtain ⟨next, entered, settled⟩ := follow_cons_eq_ok_iff.mp reached
      refine ⟨place, last, ?_, fun _ => by rw [entered, eq_of_follow_void void settled]⟩
      refine locateLast_eq_ok_iff.mpr ⟨fine, ?_, (enter_eq_ok_iff.mp entered).1, ?_⟩
      · rw [ended, List.dropLast_concat]
        exact followed
      · rw [ended, List.getLast?_concat]
        rfl

/-- No directory is made where one is already. -/
theorem createDirectory_of_isDirectory (h : tree.isDirectory directory path = true) :
    tree.createDirectory directory path = .error .exists := by
  obtain ⟨found, located, _⟩ := isDirectory_iff.mp h
  obtain ⟨place, last, ends, enters⟩ := exists_locateLast_of_locate located
  exact createDirectory_of_enter ends enters

/-- Directories have been made where nothing stood, each at the place of a wanted path. -/
inductive Furnished (directory : Place) (wanted : String → Prop) (tree : FileTree) : FileTree → Prop
  | same : Furnished directory wanted tree tree
  | make {mid path place} : Furnished directory wanted tree mid → wanted path → place ≠ [] →
    mid.entry? place = none → (mid.put place .directory).locate directory path = .ok place →
    Furnished directory wanted tree (mid.put place .directory)

/-- Something has been made a directory that was nothing. -/
structure Made (tree after : FileTree) (place : Place) : Prop where
  absent : tree.entry? place = none
  directory : after.entry? place = some .directory

/-- What has been made is among the entries. -/
theorem Made.mem (made : Made tree after place) : (place, .directory) ∈ after.entries := by
  have proper : place ≠ [] := by
    rintro rfl
    simpa using made.absent
  have found := made.directory
  rw [FileTree.entry?, if_neg proper] at found
  obtain ⟨front, rest, whole, _⟩ := List.lookup_eq_some_iff.mp found
  rw [whole]
  simp

namespace Furnished

variable {wanted wanted' : String → Prop}

theorem keeps (furnished : Furnished directory wanted tree after) : Keeps tree after := by
  induction furnished with
  | same => exact .refl tree
  | make _ _ proper _ _ ih => exact ih.trans (.put proper (.inr rfl))

theorem mono (furnished : Furnished directory wanted tree after)
    (more : ∀ path, wanted path → wanted' path) : Furnished directory wanted' tree after := by
  induction furnished with
  | same => exact .same
  | make _ wish proper absent located ih => exact .make ih (more _ wish) proper absent located

theorem trans {last : FileTree} (furnished : Furnished directory wanted tree after)
    (furnished' : Furnished directory wanted after last) : Furnished directory wanted tree last := by
  induction furnished' with
  | same => exact furnished
  | make _ wish proper absent located ih => exact .make ih wish proper absent located

/-- Everything is as it was, or is a directory that has been made. -/
theorem entry? (furnished : Furnished directory wanted tree after) (place : Place) :
    after.entry? place = tree.entry? place ∨
      Made tree after place ∧ ∃ path, wanted path ∧ after.locate directory path = .ok place := by
  induction furnished with
  | same => exact .inl rfl
  | @make mid path new _ wish proper absent located ih =>
    by_cases here : place = new
    · subst here
      right
      refine ⟨⟨?_, entry?_put_self proper _⟩, path, wish, located⟩
      rcases ih with same | ⟨made, _⟩
      · rw [← same]
        exact absent
      · rw [made.directory] at absent
        contradiction
    · rw [entry?_put_of_ne proper _ here]
      rcases ih with same | ⟨made, path, wish, located⟩
      · exact .inl same
      · right
        refine ⟨⟨made.absent, ?_⟩, path, wish, (Keeps.put proper (.inr rfl)).locate located⟩
        rw [entry?_put_of_ne proper _ here]
        exact made.directory

/-- Where nothing has been made below a root, all is as it was. -/
theorem agreeBelow {root : Place} (furnished : Furnished directory wanted tree after)
    (outside : ∀ place, Made tree after place → ¬ root <+: place) : AgreeBelow root tree after := by
  induction furnished with
  | same => exact .refl root tree
  | @make mid path new furnished _ proper absent _ ih =>
    have new' : Made tree (mid.put new .directory) new := by
      refine ⟨?_, entry?_put_self proper _⟩
      rcases furnished.entry? new with same | ⟨made, _⟩
      · rw [← same]
        exact absent
      · exact made.absent
    refine (ih fun place made => outside place ⟨made.absent, ?_⟩).put proper (outside new new') _
    have ne : place ≠ new := by
      rintro rfl
      rw [made.directory] at absent
      contradiction
    rw [entry?_put_of_ne proper _ ne]
    exact made.directory

end Furnished

theorem furnished_of_ensureDirectory (done : (tree.ensureDirectory directory path).fault? = none) :
    Furnished directory (· = path) tree (tree.ensureDirectory directory path).tree ∧
      (tree.ensureDirectory directory path).tree.isDirectory directory path = true := by
  unfold ensureDirectory at *
  cases attempt : tree.createDirectory directory path with
  | error fault =>
    rw [attempt] at done
    refine ⟨.same, ?_⟩
    by_contra other
    simp only at done
    rw [if_neg other] at done
    contradiction
  | ok created =>
    obtain ⟨place, last, ends, named, short, absent, rfl⟩ := createDirectory_eq_ok attempt
    have proper : place ++ [String.ofList last] ≠ [] := by simp
    have keeps : Keeps tree (tree.put (place ++ [String.ofList last]) .directory) :=
      .put proper (.inr rfl)
    have within : (tree.put (place ++ [String.ofList last]) .directory).isDirectoryAt
        (place ++ [String.ofList last]) = true := isDirectoryAt_iff.mpr (entry?_put_self proper _)
    have located := locate_of_locateLast (keeps.locateLast ends) named short
      (by rw [entry?_put_self proper]; rfl) (fun _ => within)
    exact ⟨.make .same rfl proper absent located, isDirectory_iff.mpr ⟨_, located, within⟩⟩

/-- A directory is made without regard to those around it unless it is for want of them that it
cannot be made. -/
theorem ensureAround_here {fuel : Nat} (nonempty : path ≠ "")
    (here : tree.createDirectory directory path ≠ .error .notFound ∨ Path.parent? path = none) :
    tree.ensureAround directory path (fuel + 1) = tree.ensureDirectory directory path := by
  rw [ensureAround, if_neg nonempty]
  split
  · rename_i outer missing parent
    rcases here with found | none
    · exact absurd missing found
    · rw [none] at parent
      contradiction
  · rfl

theorem ensureAround_further {fuel : Nat} {outer : String} (nonempty : path ≠ "")
    (missing : tree.createDirectory directory path = .error .notFound)
    (parent : Path.parent? path = some outer) :
    tree.ensureAround directory path (fuel + 1) =
      if (tree.ensureAround directory outer fuel).fault?.isSome then
        tree.ensureAround directory outer fuel
      else (tree.ensureAround directory outer fuel).tree.ensureDirectory directory path := by
  rw [ensureAround, if_neg nonempty, missing, parent]

/-- A path is asked for if it is the one at hand or lies around it. -/
theorem furnished_of_ensureAround {fuel : Nat}
    (done : (tree.ensureAround directory path fuel).fault? = none) :
    Furnished directory (fun wanted => wanted = path ∨ Path.Around path wanted) tree
        (tree.ensureAround directory path fuel).tree ∧
      (path = "" ∨ (tree.ensureAround directory path fuel).tree.isDirectory directory path = true) := by
  induction fuel generalizing path with
  | zero => contradiction
  | succ fuel ih =>
    by_cases empty : path = ""
    · subst empty
      exact ⟨.same, .inl rfl⟩
    by_cases here : tree.createDirectory directory path ≠ .error .notFound ∨ Path.parent? path = none
    · rw [ensureAround_here empty here] at done ⊢
      obtain ⟨furnished, within⟩ := furnished_of_ensureDirectory done
      exact ⟨furnished.mono fun _ => .inl, .inr within⟩
    · rw [not_or, not_not] at here
      obtain ⟨outer, parent⟩ := Option.ne_none_iff_exists'.mp here.2
      rw [ensureAround_further empty here.1 parent] at done ⊢
      split_ifs at done ⊢ with fault
      · simp [done] at fault
      · obtain ⟨around, _⟩ := ih (by simpa using fault)
        obtain ⟨furnished, within⟩ := furnished_of_ensureDirectory done
        refine ⟨(around.mono ?_).trans (furnished.mono fun _ => .inl), .inr within⟩
        rintro wanted (rfl | further)
        · exact .inr (.next parent)
        · exact .inr (.further parent further)

theorem createDirectories_of_isDirectory (h : path = "" ∨ tree.isDirectory directory path = true) :
    tree.createDirectories directory path = ⟨tree, none⟩ := by
  unfold createDirectories
  by_cases empty : path = ""
  · rw [ensureAround, if_pos empty]
  · have within := h.resolve_left empty
    have refused := createDirectory_of_isDirectory within
    rw [ensureAround_here empty (.inl (by simp [refused])), ensureDirectory, refused]
    simp only [within, if_true]

/-! ## Files -/

theorem write_eq_ok_iff {content : ByteArray} :
    tree.write directory path content = .ok after ↔
      ∃ place last, tree.locateLast directory path = .ok (place, last) ∧
        path.endsWith "/" = false ∧ isName last = true ∧
        (String.ofList last).utf8ByteSize ≤ maxName ∧
        tree.entry? (place ++ [String.ofList last]) ≠ some .directory ∧
        after = tree.put (place ++ [String.ofList last]) (.file content) := by
  unfold write
  cases tree.locateLast directory path with
  | error fault => simp [bind, Except.bind]
  | ok found =>
    obtain ⟨place, last⟩ := found
    simp only [bind, Except.bind, Except.ok.injEq, Prod.mk.injEq]
    constructor
    · intro h
      split_ifs at h with blocked long
      rw [not_or] at blocked
      split at h
      · contradiction
      · rename_i other free
        refine ⟨place, last, ⟨rfl, rfl⟩, by simpa using blocked.1, by simpa using blocked.2,
          Nat.le_of_not_lt long, free, (Except.ok.inj h).symm⟩
    · rintro ⟨_, _, ⟨rfl, rfl⟩, open', named, short, free, rfl⟩
      rw [if_neg (by simp [open', named]), if_neg (Nat.not_lt.mpr short)]
      split
      · rename_i there
        exact absurd there free
      · rfl

/-- A tree in which a file has been written, at the place that its path leads to by then. -/
structure Written (directory : Place) (path : String) (content : ByteArray) (place : Place)
    (tree after : FileTree) : Prop where
  free : tree.entry? place ≠ some .directory
  proper : place ≠ []
  put : after = tree.put place (.file content)
  located : after.locate directory path = .ok place

namespace Written

variable {content : ByteArray}

theorem keeps (written : Written directory path content place tree after) : Keeps tree after :=
  written.put ▸ .put written.proper (.inl written.free)

theorem entry?_self (written : Written directory path content place tree after) :
    after.entry? place = some (.file content) := by
  rw [written.put, entry?_put_self written.proper]

theorem entry?_of_ne (written : Written directory path content place tree after) {other : Place}
    (ne : other ≠ place) : after.entry? other = tree.entry? other := by
  rw [written.put, entry?_put_of_ne written.proper _ ne]

end Written

theorem exists_written {content : ByteArray} (h : tree.write directory path content = .ok after) :
    ∃ place, Written directory path content place tree after := by
  obtain ⟨place, last, ends, unslashed, named, short, free, rfl⟩ := write_eq_ok_iff.mp h
  have proper : place ++ [String.ofList last] ≠ [] := by simp
  have keeps : Keeps tree (tree.put (place ++ [String.ofList last]) (.file content)) :=
    .put proper (.inl free)
  refine ⟨_, free, proper, rfl, ?_⟩
  refine locate_of_locateLast (keeps.locateLast ends) named short ?_ ?_
  · rw [entry?_put_self proper]
    rfl
  · intro slash
    rw [unslashed] at slash
    contradiction

/-- What was written can be written once more. -/
theorem write_again {content : ByteArray} (h : tree.write directory path content = .ok after)
    (content' : ByteArray) : ∃ again, after.write directory path content' = .ok again := by
  obtain ⟨place, last, ends, unslashed, named, short, free, rfl⟩ := write_eq_ok_iff.mp h
  have proper : place ++ [String.ofList last] ≠ [] := by simp
  have keeps : Keeps tree (tree.put (place ++ [String.ofList last]) (.file content)) :=
    .put proper (.inl free)
  refine ⟨_, write_eq_ok_iff.mpr
    ⟨place, last, keeps.locateLast ends, unslashed, named, short, ?_, rfl⟩⟩
  rw [entry?_put_self proper]
  simp

end FileTree

end Fieldmark
