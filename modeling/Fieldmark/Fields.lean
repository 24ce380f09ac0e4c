/-!
# Fields

A finite map from names to values, kept as a list of pairs in the order of the names. A name put
in twice keeps its last value (`lookup_ofPairs`), and the order of putting in leaves no trace
beyond that.
-/

namespace Fieldmark

/-- Named values in the order of their names, each name once. -/
abbrev Fields (α : Type _) := List (String × α)

namespace Fields

variable {α : Type _}

/-- The fields with one more name, or with another value under a name they have. -/
def insert (name : String) (value : α) : Fields α → Fields α
  | [] => [(name, value)]
  | (other, old) :: rest =>
    if name = other then (name, value) :: rest
    else if name < other then (name, value) :: (other, old) :: rest
    else (other, old) :: insert name value rest

/-- The fields that a list of pairs describes, later pairs winning. -/
def ofPairs (pairs : List (String × α)) : Fields α :=
  pairs.foldl (fun fields pair => insert pair.1 pair.2 fields) []

theorem lookup_insert_self (name : String) (value : α) (fields : Fields α) :
    (insert name value fields).lookup name = some value := by
  induction fields with
  | nil => simp [insert]
  | cons pair rest ih =>
    obtain ⟨other, old⟩ := pair
    by_cases same : name = other
    · simp [insert, same]
    · by_cases before : name < other
      · simp [insert, same, before]
      · have differs : (name == other) = false := by simpa using same
        simp [insert, same, before, List.lookup_cons, differs, ih]

theorem lookup_insert_of_ne {name asked : String} (differ : asked ≠ name) (value : α)
    (fields : Fields α) : (insert name value fields).lookup asked = fields.lookup asked := by
  have h : (asked == name) = false := by simpa using differ
  induction fields with
  | nil => simp [insert, List.lookup_cons, h]
  | cons pair rest ih =>
    obtain ⟨other, old⟩ := pair
    by_cases same : name = other
    · subst same
      simp [insert, List.lookup_cons, h]
    · by_cases before : name < other
      · simp [insert, same, before, List.lookup_cons, h]
      · simp only [insert, same, before, if_false, List.lookup_cons, ih]

theorem lookup_foldl_insert (name : String) (pairs : List (String × α)) (fields : Fields α) :
    (pairs.foldl (fun fields pair => insert pair.1 pair.2 fields) fields).lookup name =
      (pairs.reverse.lookup name).or (fields.lookup name) := by
  induction pairs generalizing fields with
  | nil => simp
  | cons pair rest ih =>
    obtain ⟨other, value⟩ := pair
    rw [List.foldl_cons, ih, List.reverse_cons, List.lookup_append, Option.or_assoc]
    by_cases same : name = other
    · simp [same, lookup_insert_self]
    · have differs : (name == other) = false := by simpa using same
      simp [List.lookup_cons, differs, lookup_insert_of_ne same]

/-- Of the pairs with one name the last one stands. -/
theorem lookup_ofPairs (name : String) (pairs : List (String × α)) :
    (ofPairs pairs).lookup name = pairs.reverse.lookup name := by
  rw [ofPairs, lookup_foldl_insert]
  simp

theorem isSome_lookup_iff {name : String} {fields : Fields α} :
    (fields.lookup name).isSome ↔ name ∈ fields.map Prod.fst := by
  simp [List.lookup_isSome_iff]

/-- No name gets lost, and none is added. -/
theorem mem_names_ofPairs {name : String} {pairs : List (String × α)} :
    name ∈ (ofPairs pairs).map Prod.fst ↔ name ∈ pairs.map Prod.fst := by
  rw [← isSome_lookup_iff, lookup_ofPairs, isSome_lookup_iff, List.map_reverse, List.mem_reverse]

/-- The names of sorted fields strictly increase. -/
def Sorted (fields : Fields α) : Prop := fields.Pairwise fun a b => a.1 < b.1

theorem mem_insert {name : String} {value : α} {fields : Fields α} {pair : String × α}
    (member : pair ∈ insert name value fields) : pair = (name, value) ∨ pair ∈ fields := by
  induction fields with
  | nil => exact .inl (List.mem_singleton.mp member)
  | cons first rest ih =>
    obtain ⟨other, old⟩ := first
    by_cases same : name = other
    · rw [insert, if_pos same] at member
      exact (List.mem_cons.mp member).imp_right (List.mem_cons_of_mem _)
    · by_cases before : name < other
      · rw [insert, if_neg same, if_pos before] at member
        exact List.mem_cons.mp member
      · rw [insert, if_neg same, if_neg before] at member
        rcases List.mem_cons.mp member with rfl | later
        · exact .inr (List.mem_cons_self ..)
        · exact (ih later).imp_right (List.mem_cons_of_mem _)

theorem sorted_insert (name : String) (value : α) {fields : Fields α} (sorted : Sorted fields) :
    Sorted (insert name value fields) := by
  induction fields with
  | nil => exact List.pairwise_singleton ..
  | cons first rest ih =>
    obtain ⟨other, old⟩ := first
    obtain ⟨least, sorted⟩ := List.pairwise_cons.mp sorted
    by_cases same : name = other
    · rw [insert, if_pos same]
      exact List.pairwise_cons.mpr ⟨same ▸ least, sorted⟩
    · by_cases before : name < other
      · rw [insert, if_neg same, if_pos before]
        refine List.pairwise_cons.mpr
          ⟨fun pair member => ?_, List.pairwise_cons.mpr ⟨least, sorted⟩⟩
        rcases List.mem_cons.mp member with rfl | later
        · exact before
        · exact String.lt_trans before (least pair later)
      · rw [insert, if_neg same, if_neg before]
        refine List.pairwise_cons.mpr ⟨fun pair member => ?_, ih sorted⟩
        rcases mem_insert member with rfl | later
        · exact String.not_le.mp fun reached =>
            same (String.le_antisymm reached (String.not_lt.mp before))
        · exact least pair later

theorem sorted_ofPairs (pairs : List (String × α)) : Sorted (ofPairs pairs) := by
  have all (fields : Fields α) (sorted : Sorted fields) :
      Sorted (pairs.foldl (fun fields pair => insert pair.1 pair.2 fields) fields) := by
    induction pairs generalizing fields with
    | nil => exact sorted
    | cons pair rest ih => exact ih _ (sorted_insert pair.1 pair.2 sorted)
  exact all [] .nil

theorem lookup_eq_none_of_lt {name : String} {fields : Fields α}
    (before : ∀ pair ∈ fields, name < pair.1) : fields.lookup name = none := by
  refine List.lookup_eq_none_iff.mpr fun pair member => ?_
  have differ : name ≠ pair.1 := fun same =>
    String.lt_irrefl pair.1 (same ▸ before pair member)
  simpa using differ

/-- What sorted fields hold under some name does not stand behind a later name. -/
theorem Sorted.not_lt_of_lookup {name name' : String} {value value' : α} {rest : Fields α}
    (sorted : Sorted ((name', value') :: rest))
    (found : ((name', value') :: rest).lookup name = some value) : ¬ name < name' := by
  intro before
  obtain ⟨least, _⟩ := List.pairwise_cons.mp sorted
  have absent : ((name', value') :: rest).lookup name = none :=
    lookup_eq_none_of_lt (List.forall_mem_cons.mpr
      ⟨before, fun pair member => String.lt_trans before (least pair member)⟩)
  rw [absent] at found
  contradiction

/-- Sorted fields are known by what they hold under each name. -/
theorem Sorted.eq_of_lookup {fields others : Fields α} (sorted : Sorted fields)
    (sorted' : Sorted others) (same : ∀ name, fields.lookup name = others.lookup name) :
    fields = others := by
  induction fields generalizing others with
  | nil =>
    cases others with
    | nil => rfl
    | cons first rest =>
      obtain ⟨name, value⟩ := first
      simpa using same name
  | cons first rest ih =>
    obtain ⟨name, value⟩ := first
    cases others with
    | nil => simpa using same name
    | cons first' rest' =>
      obtain ⟨name', value'⟩ := first'
      have notBefore : ¬ name < name' :=
        sorted'.not_lt_of_lookup ((same name).symm.trans List.lookup_cons_self)
      have notAfter : ¬ name' < name :=
        sorted.not_lt_of_lookup ((same name').trans List.lookup_cons_self)
      obtain rfl := String.le_antisymm (String.not_lt.mp notAfter) (String.not_lt.mp notBefore)
      obtain rfl : value = value' := by simpa using same name
      obtain ⟨least, sorted⟩ := List.pairwise_cons.mp sorted
      obtain ⟨least', sorted'⟩ := List.pairwise_cons.mp sorted'
      congr 1
      refine ih sorted sorted' fun asked => ?_
      by_cases here : asked = name
      · rw [here, lookup_eq_none_of_lt least, lookup_eq_none_of_lt least']
      · have differs : (asked == name) = false := by simpa using here
        simpa [List.lookup_cons, differs] using same asked

/-- The fields of two lists of pairs are the same if the last pairs of each name are. -/
theorem ofPairs_eq_iff {pairs others : List (String × α)} :
    ofPairs pairs = ofPairs others ↔
      ∀ name, pairs.reverse.lookup name = others.reverse.lookup name := by
  simp only [← lookup_ofPairs]
  exact ⟨fun same name => by rw [same],
    (sorted_ofPairs pairs).eq_of_lookup (sorted_ofPairs others)⟩

end Fields

end Fieldmark
