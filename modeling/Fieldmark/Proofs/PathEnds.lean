import Fieldmark.FileTree
import Fieldmark.Proofs.Confinement
import Fieldmark.Proofs.Tokens

/-!
# Ends of paths

What a path ends in tells the format of a data file (`formatName?_eq_some_iff`): whatever stands in
front of its last part, and in any case. Slashes at its ends are taken off, but those in the middle
stay when a path goes on with a name (`trimSlashes_child`).
-/

namespace Fieldmark

namespace Path

/-! ## Names and extensions -/

/-- A path whose last part is a name has this name. -/
theorem name?_of_parts {path : String} {front : List (List Char)} {part : List Char}
    (whole : parts path.toList = front ++ [part]) (named : FileTree.isName part = true) :
    name? path = some (String.ofList part) := by
  simp only [FileTree.isName, isVoid, Bool.and_eq_true, Bool.not_eq_true', Bool.or_eq_false_iff,
    beq_eq_false_iff_ne, bne_iff_ne] at named
  obtain ⟨⟨empty, dot⟩, up⟩ := named
  have last : inner [part] = [.name (String.ofList part)] := by simp [inner, isVoid, empty, dot, up]
  cases front with
  | nil =>
    rw [name?, components_eq (List.nil_append _ ▸ whole) (.inl empty), lead, if_neg empty, if_neg dot, last]
    rfl
  | cons first front =>
    have behind : front ++ [part] ≠ [] := by simp
    rw [name?, @components_eq path first (front ++ [part]) whole (.inr behind), inner_append, last,
      ← List.append_assoc, List.getLast?_concat]

theorem name?_join {path name : String} (named : FileTree.isName name.toList = true)
    (plain : '/' ∉ name.toList) : name? (join path name) = some name := by
  have relative : Relative name := fun head => plain (List.mem_of_mem_head? head)
  obtain ⟨front, whole⟩ : ∃ front, parts (join path name).toList = front ++ [name.toList] := by
    rw [← parts_eq_singleton plain]
    by_cases empty : path = ""
    · exact ⟨[], by rw [empty, join_empty relative, List.nil_append]⟩
    · obtain ⟨front, _, _, joined⟩ := parts_join relative empty
      exact ⟨front, joined⟩
  rw [name?_of_parts whole named, String.ofList_toList]

theorem extensionOf?_eq_some_iff {name extension : String} :
    extensionOf? name = some extension ↔
      '.' ∉ extension.toList ∧ ∃ stem, stem ≠ "" ∧ name = stem ++ "." ++ extension := by
  constructor
  · intro h
    unfold extensionOf? at h
    have split := List.takeWhile_append_dropWhile (p := (· != '.')) (l := name.toList.reverse)
    simp only at h
    split at h
    · rename_i d e more front
      cases h
      have dot : d = '.' := by
        have fails := List.head?_dropWhile_not (· != '.') name.toList.reverse
        simpa [front] using fails
      have plain : '.' ∉ name.toList.reverse.takeWhile (· != '.') :=
        fun member => by simpa using List.mem_takeWhile_imp member
      refine ⟨by simpa using plain, String.ofList (e :: more).reverse, by simp, ?_⟩
      rw [front, dot] at split
      have whole := congrArg List.reverse split
      apply String.toList_inj.mp
      simpa using whole.symm
    · contradiction
  · rintro ⟨plain, stem, nonempty, rfl⟩
    obtain ⟨c, rest, back⟩ : ∃ c rest, stem.toList.reverse = c :: rest :=
      List.exists_cons_of_ne_nil (by simpa using nonempty)
    have whole : (stem ++ "." ++ extension).toList.reverse =
        extension.toList.reverse ++ '.' :: c :: rest := by
      simp [back]
    have passes : ∀ d ∈ extension.toList.reverse, (d != '.') = true := by
      intro d member
      refine bne_iff_ne.mpr ?_
      rintro rfl
      exact plain (List.mem_reverse.mp member)
    obtain ⟨taken, left⟩ := takeWhile_run ('.' :: c :: rest) passes (by simp)
    simp only [extensionOf?, whole, taken, left, List.reverse_reverse, String.ofList_toList]

/-! ## Slashes behind a path -/

theorem parts_slashes (path : List Char) {slashes : List Char} (slash : ∀ c ∈ slashes, c = '/') :
    ∃ voids, (∀ part ∈ voids, part = []) ∧ parts (path ++ slashes) = parts path ++ voids := by
  have void (rest : List Char) (slash : ∀ c ∈ rest, c = '/') : ∀ part ∈ parts rest, part = [] := by
    induction rest with
    | nil => simp [parts]
    | cons c rest ih =>
      rw [List.forall_mem_cons] at slash
      obtain ⟨rfl, slash⟩ := slash
      rw [parts_slash, List.forall_mem_cons]
      exact ⟨rfl, ih slash⟩
  cases slashes with
  | nil => exact ⟨[], by simp, by simp⟩
  | cons c rest =>
    rw [List.forall_mem_cons] at slash
    obtain ⟨rfl, slash⟩ := slash
    exact ⟨parts rest, void rest slash, parts_append_slash path rest⟩

/-- What is left of a path once slashes are taken off both ends. -/
theorem trimSlashes_eq {path core : String} {lead tail : List Char} (slash : ∀ c ∈ lead, c = '/')
    (slash' : ∀ c ∈ tail, c = '/') (whole : path.toList = lead ++ (core.toList ++ tail))
    (relative : Relative core) (ends : core.toList.getLast? ≠ some '/') : trimSlashes path = core := by
  have drop {front rest : List Char} (slash : ∀ c ∈ front, c = '/') (head : rest.head? ≠ some '/') :
      (front ++ rest).dropWhile (· == '/') = rest := by
    refine (takeWhile_run rest (fun c member => beq_iff_eq.mpr (slash c member)) fun c first => ?_).2
    refine beq_eq_false_iff_ne.mpr ?_
    rintro rfl
    exact head first
  have back : (core.toList ++ tail).reverse.dropWhile (· == '/') = core.toList.reverse := by
    rw [List.reverse_append]
    exact drop (by simpa using slash') (by simpa using ends)
  have front : (path.toList.dropWhile (· == '/')).reverse.dropWhile (· == '/') = core.toList.reverse := by
    rw [whole]
    cases text : core.toList with
    | nil =>
      have none := drop (List.forall_mem_append.mpr ⟨slash, slash'⟩) (show ([] : List Char).head? ≠ _ by simp)
      rw [List.append_nil] at none
      rw [List.nil_append, none]
      rfl
    | cons c rest =>
      have head : (c :: rest ++ tail).head? ≠ some '/' := by simpa [Relative, text] using relative
      rw [drop slash head, ← text, back]
  rw [trimSlashes]
  simp only [front, List.reverse_reverse, String.ofList_toList]

theorem exists_trimmed (path : String) : ∃ lead tail : List Char, (∀ c ∈ lead, c = '/') ∧
    (∀ c ∈ tail, c = '/') ∧ path.toList = lead ++ ((trimSlashes path).toList ++ tail) ∧
      (trimSlashes path).toList.getLast? ≠ some '/' := by
  have slash {text : List Char} : ∀ c ∈ text.takeWhile (· == '/'), c = '/' :=
    fun c member => eq_of_beq (@List.mem_takeWhile_imp _ (· == '/') _ _ member)
  refine ⟨path.toList.takeWhile (· == '/'), ((path.toList.dropWhile (· == '/')).reverse.takeWhile
    (· == '/')).reverse, slash, fun c member => slash c (List.mem_reverse.mp member), ?_, ?_⟩
  · have front := @List.takeWhile_append_dropWhile _ (· == '/') path.toList
    have back := congrArg List.reverse
      (@List.takeWhile_append_dropWhile _ (· == '/') (path.toList.dropWhile (· == '/')).reverse)
    rw [List.reverse_append, List.reverse_reverse] at back
    rw [trimSlashes, String.toList_ofList, back, front]
  · intro last
    rw [trimSlashes, String.toList_ofList, List.getLast?_reverse] at last
    have dark := List.head?_dropWhile_not (· == '/') (path.toList.dropWhile (· == '/')).reverse
    simp [last] at dark

theorem endsWith_slash_iff_getLast? {path : String} :
    path.endsWith "/" = true ↔ path.toList.getLast? = some '/' := by
  rw [endsWith_slash_iff, List.getLast?_eq_some_iff]

/-- Where a path that goes on with a name is trimmed, the slashes in front of the name stay. -/
theorem trimSlashes_child (path : String) {name : String} (nonempty : name ≠ "")
    (plain : '/' ∉ name.toList) : ∃ slashes : List Char, (∀ c ∈ slashes, c = '/') ∧
      (path.endsWith "/" = false → slashes = []) ∧ (slashes ≠ [] → trimSlashes path ≠ "") ∧
      trimSlashes (path ++ "/" ++ name) = join (trimSlashes path ++ String.ofList slashes) name := by
  have relative : Relative name := fun head => plain (List.mem_of_mem_head? head)
  have ends : name.toList.getLast? ≠ some '/' := fun last => plain (List.mem_of_getLast? last)
  have letters : name.toList ≠ [] := mt String.toList_eq_nil_iff.mp nonempty
  have none : ∀ c ∈ ([] : List Char), c = '/' := List.forall_mem_nil _
  obtain ⟨lead, tail, slash, slash', whole, ends'⟩ := exists_trimmed path
  have child : (path ++ "/" ++ name).toList = path.toList ++ '/' :: name.toList := by simp
  by_cases empty : trimSlashes path = ""
  · refine ⟨[], none, fun _ => rfl, by simp, ?_⟩
    rw [empty, String.ofList_nil, String.append_empty, join_empty relative]
    have lead' : ∀ c ∈ lead ++ tail ++ ['/'], c = '/' := by
      simpa [or_imp, forall_and] using ⟨slash, slash'⟩
    exact trimSlashes_eq lead' none (by simp [child, whole, empty]) relative ends
  -- the trimmed path itself ends in no slash, so the one behind it is that of the seam
  have core {base : String} (text : (join base name).toList =
      (trimSlashes path).toList ++ (tail ++ '/' :: name.toList)) :
      trimSlashes (path ++ "/" ++ name) = join base name := by
    refine trimSlashes_eq slash none (by simp [child, whole, text]) ?_ ?_
    · obtain ⟨c, rest, front⟩ := List.exists_cons_of_ne_nil (mt String.toList_eq_nil_iff.mp empty)
      have head := relative_trimSlashes path
      rw [Relative, front] at head
      rwa [Relative, text, front]
    · rw [text, ← List.append_assoc, List.append_cons, List.getLast?_append_of_ne_nil _ letters]
      exact ends
  by_cases bare : tail = []
  · subst bare
    have open' : (trimSlashes path).endsWith "/" = false :=
      Bool.eq_false_iff.mpr (mt endsWith_slash_iff_getLast?.mp ends')
    refine ⟨[], none, fun _ => rfl, by simp, core ?_⟩
    rw [join_eq relative]
    simp [seam, empty, open']
  · refine ⟨tail ++ ['/'], by simpa [or_imp, forall_and] using slash', fun open' => ?_, fun _ => empty,
      core ?_⟩
    · obtain ⟨front, last, rfl⟩ := (List.eq_nil_or_concat tail).resolve_left bare
      have last' : last = '/' := slash' last (by simp)
      refine absurd (endsWith_slash_iff_getLast?.mpr ?_) (Bool.eq_false_iff.mp open')
      simp [whole, last', ← List.append_assoc]
    · have closed : (trimSlashes path ++ String.ofList (tail ++ ['/'])).endsWith "/" = true :=
        endsWith_slash_iff.mpr ⟨(trimSlashes path).toList ++ tail, by simp⟩
      rw [join_eq relative, seam, if_pos (.inr closed)]
      simp

end Path

/-- A name goes on behind a stem with a dot and an extension, in any case. -/
def HasExtension (name extension : String) : Prop :=
  ∃ stem written : String, stem ≠ "" ∧ name = stem ++ "." ++ written ∧ written.toLower = extension

namespace FileStore

theorem formatName?_eq_some_iff {path name format : String} (named : Path.name? path = some name) :
    formatName? path = some format ↔ format ∈ DataFormat.names ∧ HasExtension name format := by
  have plain {written : String} (known : written.toLower ∈ DataFormat.names) : '.' ∉ written.toList := by
    intro member
    have lower : '.' ∈ (written.map Char.toLower).toList := by
      rw [String.toList_map]
      exact List.mem_map.mpr ⟨'.', member, by decide⟩
    change written.map Char.toLower ∈ DataFormat.names at known
    revert lower
    generalize written.map Char.toLower = extension at known
    revert extension
    decide
  rw [formatName?, Path.extension?, named, Option.bind_some, Option.filter_eq_some_iff,
    Option.map_eq_some_iff]
  simp only [Path.extensionOf?_eq_some_iff, List.contains_eq_mem, decide_eq_true_eq]
  constructor
  · rintro ⟨⟨written, ⟨_, stem, nonempty, rfl⟩, rfl⟩, known⟩
    exact ⟨known, stem, written, nonempty, rfl, rfl⟩
  · rintro ⟨known, stem, written, nonempty, rfl, rfl⟩
    exact ⟨⟨written, ⟨plain known, stem, nonempty, rfl⟩, rfl⟩, known⟩

end FileStore

end Fieldmark
