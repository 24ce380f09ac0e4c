import Fieldmark.Value

/-!
# Texts of a tree

The texts that a value holds (`Value.Holds`), and the same value with other texts in their places
(`Value.mapText`). Names, shapes and lengths do not depend on the texts, so neither does what a
reference or a field names (`Tree.reference_mapText`, `Value.lookup_mapFields`).
-/

namespace Fieldmark

namespace Value

/-- A text somewhere in a value. -/
inductive Holds (content : String) : Value → Prop
  | text : Holds content (.text content)
  | field {fields name value} : (name, value) ∈ fields → Holds content value →
    Holds content (.document fields)
  | item {items value} : value ∈ items → Holds content value → Holds content (.collection items)

mutual

/-- The value with another text in the place of each. -/
def mapText (h : String → String) : Value → Value
  | text content => .text (h content)
  | document fields => .document (mapFields h fields)
  | collection items => .collection (mapItems h items)

def mapFields (h : String → String) : List (String × Value) → List (String × Value)
  | [] => []
  | (name, value) :: rest => (name, value.mapText h) :: mapFields h rest

def mapItems (h : String → String) : List Value → List Value
  | [] => []
  | item :: rest => item.mapText h :: mapItems h rest

end

theorem items?_mapText (h : String → String) (value : Value) :
    (value.mapText h).items? = value.items?.map (mapItems h) := by
  cases value <;> rfl

@[simp] theorem length_mapItems (h : String → String) (items : List Value) :
    (mapItems h items).length = items.length := by
  induction items with
  | nil => rfl
  | cons item rest ih => rw [mapItems, List.length_cons, ih, List.length_cons]

theorem lookup_mapFields (h : String → String) (name : String) (fields : List (String × Value)) :
    (mapFields h fields).lookup name = (fields.lookup name).map (mapText h) := by
  induction fields with
  | nil => rfl
  | cons field rest ih =>
    obtain ⟨other, value⟩ := field
    rw [mapFields, List.lookup_cons, List.lookup_cons, ih]
    cases name == other <;> rfl

mutual

theorem mapText_id (value : Value) : value.mapText id = value := by
  cases value with
  | text content => rfl
  | document fields => rw [mapText, mapFields_id]
  | collection items => rw [mapText, mapItems_id]

theorem mapFields_id (fields : List (String × Value)) : mapFields id fields = fields := by
  cases fields with
  | nil => rfl
  | cons field rest =>
    obtain ⟨name, value⟩ := field
    rw [mapFields, mapText_id value, mapFields_id rest]

theorem mapItems_id (items : List Value) : mapItems id items = items := by
  cases items with
  | nil => rfl
  | cons item rest => rw [mapItems, mapText_id item, mapItems_id rest]

end

end Value

namespace Tree

/-- A text somewhere in a tree. -/
def Holds (tree : Tree) (content : String) : Prop :=
  ∃ name value, (name, value) ∈ tree.references ∧ value.Holds content

/-- The tree with another text in the place of each. -/
def mapText (h : String → String) (tree : Tree) : Tree := ⟨Value.mapFields h tree.references⟩

theorem mapText_id (tree : Tree) : tree.mapText id = tree := by
  rw [mapText, Value.mapFields_id]

theorem reference_mapText (h : String → String) (tree : Tree) (name : String) (place : Point) :
    (tree.mapText h).reference name place = (tree.reference name place).map (Value.mapText h) := by
  have found : (tree.mapText h).get? name = (tree.get? name).map (Value.mapText h) :=
    Value.lookup_mapFields h name tree.references
  rw [reference, reference, found]
  cases tree.get? name <;> rfl

end Tree

/-- All texts of a value are texts of a tree. -/
def Value.Within (tree : Tree) (value : Value) : Prop :=
  ∀ content, value.Holds content → tree.Holds content

namespace Value.Within

variable {tree : Tree}

private theorem mem_of_lookup {fields : List (String × Value)} {name : String} {value : Value}
    (found : fields.lookup name = some value) : (name, value) ∈ fields := by
  obtain ⟨front, rest, rfl, _⟩ := List.lookup_eq_some_iff.mp found
  exact List.mem_append_right front (List.mem_cons_self ..)

theorem of_reference {name : String} {place : Point} {value : Value}
    (found : tree.reference name place = .ok value) : value.Within tree := by
  unfold Tree.reference at found
  split at found
  · rename_i other lookup
    cases found
    exact fun content held => ⟨name, value, mem_of_lookup lookup, held⟩
  · contradiction

theorem field {fields : List (String × Value)} {name : String} {value : Value}
    (within : (Value.document fields).Within tree) (found : fields.lookup name = some value) :
    value.Within tree :=
  fun content held => within content (.field (mem_of_lookup found) held)

theorem item {items : List Value} {value : Value} (within : (Value.collection items).Within tree)
    (member : value ∈ items) : value.Within tree :=
  fun content held => within content (.item member held)

end Value.Within

end Fieldmark
