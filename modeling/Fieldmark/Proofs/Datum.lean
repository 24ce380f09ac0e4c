import Fieldmark.DataFile
import Mathlib.Data.List.Forall2
import Mathlib.Data.List.Nodup

/-!
# What data files say

JSON and TOML have tables, lists, texts, booleans, integers of 64 bits and decimal numbers in
common. A `Datum` is a document of these, where a decimal number stands as it is written
(`Numeral`), since the two formats need not make the same number of it, nor the same text of one
number. Of a format matters only what the parts of its documents are (`Format.shape`) and how it
reads and writes numbers, which may be of any type; what a document says is the same in both
(`Format.Says`). So two documents that say the same have the same value exactly if every decimal
number keeps its text (`Format.Says.value_eq_iff`).
-/

namespace Fieldmark

/-- A decimal number that is written with digits behind its point. -/
structure Numeral where
  negative : Bool
  whole : Nat
  fraction : List (Fin 10)
  broken : fraction ≠ []

namespace Numeral

def digits (n : Numeral) : List Char := Nat.toDigits 10 n.whole

def places (n : Numeral) : List Char := n.fraction.map fun digit => Nat.digitChar digit.val

def magnitude (n : Numeral) : List Char := n.digits ++ '.' :: n.places

def text (n : Numeral) : List Char := if n.negative then '-' :: n.magnitude else n.magnitude

/-- Nothing but zeros stands behind the point. -/
def IsWhole (n : Numeral) : Prop := ∀ digit ∈ n.fraction, digit = 0

/-- All digits as one whole number. -/
def significand (n : Numeral) : Nat := Nat.ofDigitChars 10 (n.digits ++ n.places) 0

end Numeral

/-- A data document, apart from the format it is written in. -/
inductive Datum where
  | text (content : String)
  | truth (value : Bool)
  | integer (value : Int64)
  | decimal (numeral : Numeral)
  | list (items : List Datum)
  | table (entries : List (String × Datum))

namespace Datum

/-- The decimal numbers of a document. -/
inductive Holds (n : Numeral) : Datum → Prop where
  | decimal : Holds n (.decimal n)
  | item {d : Datum} {items : List Datum} (member : d ∈ items) (holds : Holds n d) :
      Holds n (.list items)
  | entry {e : String × Datum} {entries : List (String × Datum)} (member : e ∈ entries)
      (holds : Holds n e.2) : Holds n (.table entries)

/-- No table of the document has two entries of one name. -/
inductive Distinct : Datum → Prop where
  | text (content : String) : Distinct (.text content)
  | truth (value : Bool) : Distinct (.truth value)
  | integer (value : Int64) : Distinct (.integer value)
  | decimal (n : Numeral) : Distinct (.decimal n)
  | list {items : List Datum} (all : ∀ d ∈ items, Distinct d) : Distinct (.list items)
  | table {entries : List (String × Datum)} (names : (entries.map Prod.fst).Nodup)
      (all : ∀ e ∈ entries, Distinct e.2) : Distinct (.table entries)

/-- At most so many lists and tables are inside each other. -/
inductive Within : Nat → Datum → Prop where
  | text (depth : Nat) (content : String) : Within depth (.text content)
  | truth (depth : Nat) (value : Bool) : Within depth (.truth value)
  | integer (depth : Nat) (value : Int64) : Within depth (.integer value)
  | decimal (depth : Nat) (n : Numeral) : Within depth (.decimal n)
  | list {depth : Nat} {items : List Datum} (all : ∀ d ∈ items, Within depth d) :
      Within (depth + 1) (.list items)
  | table {depth : Nat} {entries : List (String × Datum)} (all : ∀ e ∈ entries, Within depth e.2) :
      Within (depth + 1) (.table entries)

theorem Within.mono {depth depth' : Nat} {d : Datum} (within : d.Within depth)
    (le : depth ≤ depth') : d.Within depth' := by
  induction within generalizing depth' with
  | text => exact .text ..
  | truth => exact .truth ..
  | integer => exact .integer ..
  | decimal => exact .decimal ..
  | list _ ih =>
    obtain ⟨depth', rfl⟩ := Nat.exists_eq_add_one.mpr (Nat.zero_lt_of_lt le)
    exact .list fun d member => ih d member (Nat.le_of_succ_le_succ le)
  | table _ ih =>
    obtain ⟨depth', rfl⟩ := Nat.exists_eq_add_one.mpr (Nat.zero_lt_of_lt le)
    exact .table fun e member => ih e member (Nat.le_of_succ_le_succ le)

end Datum

/-! ## Formats -/

/-- What a part of a document is. -/
inductive Shape (α ν : Type) where
  | text (content : String)
  | truth (value : Bool)
  | number (x : ν)
  | list (items : List α)
  | table (entries : List (String × α))
  /-- What only one of the formats has, with its value. -/
  | other (value : Value)

namespace Shape

/-- The value of a part of a document, where numbers are written by `print`. -/
def value {α ν : Type} (print : ν → String) (inner : α → Value) : Shape α ν → Value
  | text content => .text content
  | truth value => .text (toString value)
  | number x => .text (print x)
  | list items => .collection (items.map inner)
  | table entries => .document (Fields.ofPairs (entries.map fun e => (e.1, inner e.2)))
  | other value => value

end Shape

/-- A format of data files, with documents of type `α` and numbers of type `ν`. -/
structure Format (α ν : Type) where
  read : List Char → Except String α
  shape : α → Shape α ν
  /-- The number that is read from the digits of an integer. -/
  integer : Int64 → ν
  /-- The number that is read from a numeral. -/
  numeral? : Numeral → Option ν
  print : ν → String
  toValue : α → Value
  /-- The value of a document is made of those of its parts. -/
  toValue_eq : ∀ document : α, toValue document = (shape document).value print toValue

namespace Format

variable {α ν : Type} {F : Format α ν}

/-- What a document says. Its tables have the same names as those of the datum, in any order; of
several entries with one name the last counts. -/
inductive Says (F : Format α ν) : Datum → α → Prop where
  | text {document : α} {content : String} (shape : F.shape document = .text content) :
      Says F (.text content) document
  | truth {document : α} {value : Bool} (shape : F.shape document = .truth value) :
      Says F (.truth value) document
  | integer {document : α} {value : Int64} (shape : F.shape document = .number (F.integer value)) :
      Says F (.integer value) document
  | decimal {document : α} {n : Numeral} {x : ν} (shape : F.shape document = .number x)
      (number : F.numeral? n = some x) : Says F (.decimal n) document
  | list {document : α} {items : List Datum} {parts : List α}
      (shape : F.shape document = .list parts) (length : parts.length = items.length)
      (all : ∀ p ∈ items.zip parts, Says F p.1 p.2) : Says F (.list items) document
  | table {document : α} {entries : List (String × Datum)} {parts : List (String × α)}
      (shape : F.shape document = .table parts)
      (names : ∀ name, name ∈ parts.map Prod.fst ↔ name ∈ entries.map Prod.fst)
      (all : ∀ e ∈ entries, ∀ part, parts.reverse.lookup e.1 = some part → Says F e.2 part) :
      Says F (.table entries) document

/-- A text that is read as a document which says a datum. -/
def Spells (F : Format α ν) (d : Datum) (text : List Char) : Prop :=
  ∃ document, F.read text = .ok document ∧ F.Says d document

/-- The text that a format gives a decimal number, if it can read this. -/
def numeralText? (F : Format α ν) (n : Numeral) : Option String := (F.numeral? n).map F.print

/-! ## Values of documents that say the same -/

theorem map_eq_map_iff_of_zip {β γ ι : Type} {items : List ι} {parts : List α} {others : List β}
    {f : α → γ} {g : β → γ} (agree : ι → Prop) (length : parts.length = items.length)
    (length' : others.length = items.length)
    (each : ∀ p ∈ items.zip parts, ∀ other, (p.1, other) ∈ items.zip others →
      (f p.2 = g other ↔ agree p.1)) :
    parts.map f = others.map g ↔ ∀ item ∈ items, agree item := by
  induction items generalizing parts others with
  | nil =>
    obtain rfl := List.eq_nil_of_length_eq_zero length
    obtain rfl := List.eq_nil_of_length_eq_zero length'
    simp
  | cons item items ih =>
    obtain ⟨part, parts, rfl⟩ := List.exists_cons_of_length_eq_add_one length
    obtain ⟨other, others, rfl⟩ := List.exists_cons_of_length_eq_add_one length'
    have first := each (item, part) (List.mem_cons_self ..) other (List.mem_cons_self ..)
    have rest : parts.map f = others.map g ↔ ∀ item ∈ items, agree item :=
      ih (by simpa using length) (by simpa using length') fun p member other' member' =>
        each p (List.mem_cons_of_mem _ member) other' (List.mem_cons_of_mem _ member')
    rw [List.map_cons, List.map_cons, List.cons.injEq, first, rest, List.forall_mem_cons]

theorem lookup_map_values {β : Type} (f : α → β) (name : String) (parts : List (String × α)) :
    (parts.map fun e => (e.1, f e.2)).lookup name = (parts.lookup name).map f := by
  induction parts with
  | nil => rfl
  | cons first rest ih =>
    rw [List.map_cons, List.lookup_cons, List.lookup_cons, ih]
    split <;> rfl

theorem isSome_lookup_reverse_iff {name : String} {parts : List (String × α)} :
    (parts.reverse.lookup name).isSome ↔ name ∈ parts.map Prod.fst := by
  rw [Fields.isSome_lookup_iff, List.map_reverse, List.mem_reverse]

theorem ofPairs_eq_iff_of_names {β γ ι : Type} {entries : List (String × ι)}
    {parts : List (String × α)} {others : List (String × β)} {f : α → γ} {g : β → γ}
    (agree : ι → Prop) (names : ∀ name, name ∈ parts.map Prod.fst ↔ name ∈ entries.map Prod.fst)
    (names' : ∀ name, name ∈ others.map Prod.fst ↔ name ∈ entries.map Prod.fst)
    (each : ∀ e ∈ entries, ∀ part, parts.reverse.lookup e.1 = some part →
      ∀ other, others.reverse.lookup e.1 = some other → (f part = g other ↔ agree e.2)) :
    Fields.ofPairs (parts.map fun e => (e.1, f e.2)) =
        Fields.ofPairs (others.map fun e => (e.1, g e.2)) ↔
      ∀ e ∈ entries, agree e.2 := by
  simp only [Fields.ofPairs_eq_iff, ← List.map_reverse, lookup_map_values]
  constructor
  · intro same e member
    have named : e.1 ∈ entries.map Prod.fst := List.mem_map_of_mem member
    obtain ⟨part, present⟩ :=
      Option.isSome_iff_exists.mp (isSome_lookup_reverse_iff.mpr ((names e.1).mpr named))
    obtain ⟨other, present'⟩ :=
      Option.isSome_iff_exists.mp (isSome_lookup_reverse_iff.mpr ((names' e.1).mpr named))
    refine (each e member part present other present').mp (Option.some.inj ?_)
    simpa only [present, present', Option.map_some] using same e.1
  · intro agree name
    have both : (parts.reverse.lookup name).isSome ↔ (others.reverse.lookup name).isSome := by
      rw [isSome_lookup_reverse_iff, isSome_lookup_reverse_iff, names, names']
    cases present : parts.reverse.lookup name with
    | none =>
      rw [present, Option.isSome_none, Bool.false_eq_true, false_iff,
        Option.not_isSome_iff_eq_none] at both
      rw [both, Option.map_none, Option.map_none]
    | some part =>
      obtain ⟨other, present'⟩ := Option.isSome_iff_exists.mp (both.mp (by rw [present]; rfl))
      obtain ⟨e, member, rfl⟩ := List.mem_map.mp
        ((names name).mp (isSome_lookup_reverse_iff.mp (by rw [present]; rfl)))
      rw [present', Option.map_some, Option.map_some,
        (each e member part present other present').mpr (agree e member)]

/-- Two documents that say the same, in formats that write integers alike, have the same value exactly
if both formats give every decimal number in them the same text. -/
theorem Says.value_eq_iff {β ξ : Type} {G : Format β ξ} {d : Datum} {document : α} {other : β}
    (integers : ∀ i, F.print (F.integer i) = G.print (G.integer i)) (said : F.Says d document)
    (said' : G.Says d other) :
    F.toValue document = G.toValue other ↔
      ∀ n, d.Holds n → F.numeralText? n = G.numeralText? n := by
  let agree (d : Datum) : Prop := ∀ n, d.Holds n → F.numeralText? n = G.numeralText? n
  have none {d : Datum} (scalar : ∀ n, ¬ d.Holds n) : agree d :=
    fun n holds => (scalar n holds).elim
  induction said generalizing other with
  | text shape =>
    cases said' with
    | text shape' =>
      rw [F.toValue_eq, G.toValue_eq, shape, shape']
      exact iff_of_true rfl (none nofun)
  | truth shape =>
    cases said' with
    | truth shape' =>
      rw [F.toValue_eq, G.toValue_eq, shape, shape']
      exact iff_of_true rfl (none nofun)
  | @integer document value shape =>
    cases said' with
    | integer shape' =>
      rw [F.toValue_eq, G.toValue_eq, shape, shape', Shape.value, Shape.value, integers value]
      exact iff_of_true rfl (none nofun)
  | @decimal document n x shape number =>
    cases said' with
    | @decimal _ _ x' shape' number' =>
      rw [F.toValue_eq, G.toValue_eq, shape, shape']
      have held (m : Numeral) : (Datum.decimal n).Holds m ↔ m = n :=
        ⟨fun | .decimal => rfl, fun same => same ▸ .decimal⟩
      simp [held, numeralText?, number, number', Shape.value]
  | @list document items parts shape length all ih =>
    cases said' with
    | @list _ _ parts' shape' length' all' =>
      rw [F.toValue_eq, G.toValue_eq, shape, shape', Shape.value, Shape.value,
        Value.collection.injEq,
        map_eq_map_iff_of_zip agree length length' fun p member other' member' =>
          ih p member (all' (p.1, other') member')]
      exact ⟨fun agree n => fun | .item member holds => agree _ member n holds,
        fun agree d member n holds => agree n (.item member holds)⟩
  | @table document entries parts shape names all ih =>
    cases said' with
    | @table _ _ parts' shape' names' all' =>
      rw [F.toValue_eq, G.toValue_eq, shape, shape', Shape.value, Shape.value, Value.document.injEq,
        ofPairs_eq_iff_of_names agree names names'
          fun e member part present other' present' =>
            ih e member part present (all' e member other' present')]
      exact ⟨fun agree n => fun | .entry member holds => agree _ member n holds,
        fun agree e member n holds => agree n (.entry member holds)⟩

/-- Every decimal number of a document that is read is one that the format can read. -/
theorem Says.number {d : Datum} {document : α} (said : F.Says d document) {n : Numeral}
    (holds : d.Holds n) : ∃ x, F.numeral? n = some x := by
  induction said with
  | text => cases holds
  | truth => cases holds
  | integer => cases holds
  | decimal _ number =>
    cases holds with
    | decimal => exact ⟨_, number⟩
  | @list _ items parts _ length all ih =>
    cases holds with
    | item member holds =>
      obtain ⟨i, inside, rfl⟩ := List.getElem_of_mem member
      refine ih (items[i], parts[i]) ?_ holds
      exact List.mem_of_getElem (i := i) (h := by simp; omega) (by simp)
  | @table _ entries parts _ names all ih =>
    cases holds with
    | @entry e _ member holds =>
      obtain ⟨part, present⟩ := Option.isSome_iff_exists.mp
        (isSome_lookup_reverse_iff.mpr ((names e.1).mpr (List.mem_map_of_mem member)))
      exact ih e member part present holds

/-! ## What is said part by part -/

theorem exists_forall₂ {ι : Type} {R : ι → α → Prop} {items : List ι}
    (each : ∀ item ∈ items, ∃ part, R item part) : ∃ parts, List.Forall₂ R items parts := by
  induction items with
  | nil => exact ⟨[], .nil⟩
  | cons item items ih =>
    obtain ⟨⟨part, first⟩, each⟩ := List.forall_mem_cons.mp each
    obtain ⟨parts, all⟩ := ih each
    exact ⟨part :: parts, .cons first all⟩

theorem forall_of_forall₂ {ι : Type} {R : ι → α → Prop} {kind : α → Prop} {items : List ι}
    {parts : List α} (each : List.Forall₂ R items parts)
    (holds : ∀ item part, R item part → kind part) : ∀ part ∈ parts, kind part := by
  induction each with
  | nil => nofun
  | cons first _ ih => exact List.forall_mem_cons.mpr ⟨holds _ _ first, ih⟩

theorem names_eq_of_forall₂ {ι : Type} {entries : List (String × ι)} {parts : List (String × α)}
    (each : List.Forall₂ (fun e part => e.1 = part.1) entries parts) :
    entries.map Prod.fst = parts.map Prod.fst := by
  induction each with
  | nil => rfl
  | cons first _ ih => rw [List.map_cons, List.map_cons, first, ih]

theorem Says.of_items {document : α} {items : List Datum} {parts : List α}
    (shape : F.shape document = .list parts) (each : List.Forall₂ F.Says items parts) :
    F.Says (.list items) document :=
  .list shape each.length_eq.symm fun _ member => List.forall₂_zip each member

theorem rel_of_lookup {ι : Type} {R : ι → α → Prop} {entries : List (String × ι)}
    {parts : List (String × α)}
    (each : List.Forall₂ (fun e part => e.1 = part.1 ∧ R e.2 part.2) entries parts)
    (distinct : (entries.map Prod.fst).Nodup) {e : String × ι} (member : e ∈ entries) {part : α}
    (found : parts.lookup e.1 = some part) : R e.2 part := by
  induction each with
  | nil => contradiction
  | @cons first firstPart _ _ related _ ih =>
    obtain ⟨fresh, distinct⟩ := List.nodup_cons.mp distinct
    rcases List.mem_cons.mp member with rfl | later
    · rw [List.lookup_cons, related.1, beq_self_eq_true, Option.some.injEq] at found
      exact found ▸ related.2
    · have differs : (e.1 == firstPart.1) = false := by
        rw [← related.1, beq_eq_false_iff_ne]
        exact fun same => fresh (same ▸ List.mem_map_of_mem later)
      rw [List.lookup_cons, differs] at found
      exact ih distinct later found

theorem Says.of_entries {document : α} {entries : List (String × Datum)} {parts : List (String × α)}
    (shape : F.shape document = .table parts) (distinct : (entries.map Prod.fst).Nodup)
    (each : List.Forall₂ (fun e part => e.1 = part.1 ∧ F.Says e.2 part.2) entries parts) :
    F.Says (.table entries) document := by
  have names := names_eq_of_forall₂ (each.imp fun _ _ => And.left)
  refine .table shape (fun name => by rw [names]) fun e member part present => ?_
  refine rel_of_lookup (List.forall₂_reverse_iff.mpr each) ?_ (List.mem_reverse.mpr member) present
  rw [List.map_reverse]
  exact List.nodup_reverse.mpr distinct

end Format

/-! ## Digits -/

theorem exists_leading_digit {n : Nat} (positive : 0 < n) :
    ∃ c digits, Nat.toDigits 10 n = c :: digits ∧ c.isDigit ∧ c ≠ '0' := by
  induction n using Nat.strongRecOn with
  | _ n ih =>
    by_cases small : n < 10
    · refine ⟨n.digitChar, [], Nat.toDigits_of_lt_base small, ?_, ?_⟩
      · rw [Nat.isDigit_digitChar]
        exact decide_eq_true small
      · rw [Ne, Nat.digitChar_eq_zero]
        exact Nat.ne_of_gt positive
    · obtain ⟨c, digits, leading, rest⟩ := ih (n / 10) (by omega) (by omega)
      refine ⟨c, digits ++ [Nat.digitChar (n % 10)], ?_, rest⟩
      rw [Nat.toDigits_of_base_le (by decide) (by omega), leading, List.cons_append]

theorem exists_cons_toDigits (n : Nat) :
    ∃ c digits, Nat.toDigits 10 n = c :: digits ∧ c.isDigit := by
  obtain ⟨c, digits, leading⟩ := List.exists_cons_of_ne_nil (Nat.toDigits_ne_nil (b := 10) (n := n))
  refine ⟨c, digits, leading, ?_⟩
  exact Nat.isDigit_of_mem_toDigits (by decide) (by decide) (leading ▸ List.mem_cons_self ..)

/-- Only zero begins with the digit zero. -/
theorem toDigits_cases (n : Nat) :
    Nat.toDigits 10 n = ['0'] ∨
      ∃ c digits, Nat.toDigits 10 n = c :: digits ∧ c.isDigit ∧ c ≠ '0' := by
  rcases Nat.eq_zero_or_pos n with rfl | positive
  · exact .inl (Nat.toDigits_zero 10)
  · exact .inr (exists_leading_digit positive)

theorem ne_of_isDigit {c mark : Char} (digit : c.isDigit) (none : mark.isDigit = false) :
    c ≠ mark := fun same => Bool.false_ne_true ((same ▸ none).symm.trans digit)

theorem isDigit_of_mem_places {n : Numeral} {c : Char} (member : c ∈ n.places) : c.isDigit := by
  obtain ⟨digit, _, rfl⟩ := List.mem_map.mp member
  rw [Nat.isDigit_digitChar]
  exact decide_eq_true digit.isLt

theorem le_ofDigitChars (digits : List Char) (n : Nat) : n ≤ Nat.ofDigitChars 10 digits n := by
  induction digits generalizing n with
  | nil => exact Nat.le_refl n
  | cons c digits ih =>
    rw [Nat.ofDigitChars_cons]
    exact Nat.le_trans (by omega) (ih _)

/-! ## Compact texts -/

/-- What may stand behind a scalar in a compact text. -/
inductive Delimited : List Char → Prop where
  | nil : Delimited []
  | cons {c : Char} (rest : List Char) (mark : c ∈ [',', ']', '}', '\n']) : Delimited (c :: rest)

theorem Delimited.stop {rest : List Char} (ends : Delimited rest) (kind : Char → Bool)
    (none : [',', ']', '}', '\n'].any kind = false) :
    ∀ c, rest.head? = some c → kind c = false := by
  intro c head
  cases ends with
  | nil => contradiction
  | cons behind mark =>
    rw [Option.some.inj head] at mark
    exact Bool.eq_false_iff.mpr (List.any_eq_false.mp none c mark)

/-- A run of characters ends in front of one of another kind. -/
theorem takeWhile_append_stop {kind : Char → Bool} {front rest : List Char}
    (all : ∀ c ∈ front, kind c) (stop : ∀ c, rest.head? = some c → kind c = false) :
    (front ++ rest).takeWhile kind = front := by
  rw [List.takeWhile_append_of_pos all]
  cases rest with
  | nil => simp
  | cons c rest => simp [stop c rfl]

theorem dropWhile_append_stop {kind : Char → Bool} {front rest : List Char}
    (all : ∀ c ∈ front, kind c) (stop : ∀ c, rest.head? = some c → kind c = false) :
    (front ++ rest).dropWhile kind = rest := by
  rw [List.dropWhile_append_of_pos all]
  cases rest with
  | nil => rfl
  | cons c rest => simp [stop c rfl]

/-- How a character stands in double quotes. Both formats know these escapes. -/
def charInQuotes (c : Char) : List Char :=
  if c = '"' ∨ c = '\\' then ['\\', c]
  else if c.toNat < 0x20 ∨ c.toNat = 0x7F then
    ['\\', 'u', '0', '0', Nat.digitChar (c.toNat / 16), Nat.digitChar (c.toNat % 16)]
  else [c]

def inQuotes (content : String) : List Char := '"' :: content.toList.flatMap charInQuotes ++ ['"']

theorem length_lt_inQuotes (content rest : List Char) :
    content.length < (content.flatMap charInQuotes ++ '"' :: rest).length + 1 := by
  induction content with
  | nil => exact Nat.zero_lt_succ _
  | cons c content ih =>
    have some : 0 < (charInQuotes c).length := by
      unfold charInQuotes
      split
      · exact Nat.zero_lt_succ _
      · split <;> exact Nat.zero_lt_succ _
    simp only [List.flatMap_cons, List.length_append, List.length_cons] at ih ⊢
    omega

theorem inQuotes_append (content : String) (rest : List Char) :
    inQuotes content ++ rest = '"' :: (content.toList.flatMap charInQuotes ++ '"' :: rest) := by
  simp [inQuotes]

def integerText (n : Int) : List Char :=
  if n < 0 then '-' :: Nat.toDigits 10 n.natAbs else Nat.toDigits 10 n.natAbs

def commaSeparated : List (List Char) → List Char
  | [] => []
  | first :: rest => first ++ rest.flatMap (',' :: ·)

/-- Behind a part of a list stands a comma or the end of the list. -/
theorem delimited_flatMap (mark : Char) (closing : mark ∈ [',', ']', '}', '\n'])
    (texts : List (List Char)) (rest : List Char) :
    Delimited (texts.flatMap (',' :: ·) ++ mark :: rest) := by
  cases texts with
  | nil => exact .cons rest closing
  | cons text texts => exact .cons _ (List.mem_cons_self ..)

theorem length_lt_commaSeparated (texts : List (List Char)) (mark : Char) (rest : List Char) :
    texts.length < (commaSeparated texts ++ mark :: rest).length + 1 := by
  have behind (others : List (List Char)) :
      others.length ≤ (others.flatMap (',' :: ·)).length := by
    induction others with
    | nil => exact Nat.le_refl _
    | cons text others ih =>
      simp only [List.flatMap_cons, List.length_append, List.length_cons]
      omega
  cases texts with
  | nil => exact Nat.zero_lt_succ _
  | cons first others =>
    have tail := behind others
    simp only [commaSeparated, List.length_append, List.length_cons]
    omega

/-- What values begin with in a compact text. -/
def Starts (text : List Char) : Prop :=
  ∃ c behind, text = c :: behind ∧ (c ∈ ['"', 't', 'f', '-', '[', '{'] ∨ c.isDigit)

theorem Starts.head_ne {text : List Char} (starts : Starts text) (mark : Char)
    (other : mark ∉ ['"', 't', 'f', '-', '[', '{'] ∧ mark.isDigit = false) (rest : List Char) :
    (text ++ rest).head? ≠ some mark := by
  obtain ⟨c, behind, rfl, found | digit⟩ := starts
  · intro head
    exact other.1 (Option.some.inj head ▸ found)
  · intro head
    exact ne_of_isDigit digit other.2 (Option.some.inj head)

theorem starts_toDigits (n : Nat) (behind : List Char) : Starts (Nat.toDigits 10 n ++ behind) := by
  obtain ⟨c, digits, leading, digit⟩ := exists_cons_toDigits n
  exact ⟨c, digits ++ behind, by rw [leading, List.cons_append], .inr digit⟩

namespace Datum

mutual

/-- The text of a document without blanks. Between a name and what it stands for there is a mark of
the format. -/
def spell (mark : Char) : Datum → List Char
  | text content => inQuotes content
  | truth value => if value then ['t', 'r', 'u', 'e'] else ['f', 'a', 'l', 's', 'e']
  | integer value => integerText value.toInt
  | decimal n => n.text
  | list items => '[' :: commaSeparated (spellItems mark items) ++ [']']
  | table entries => '{' :: commaSeparated (spellEntries mark entries) ++ ['}']

def spellItems (mark : Char) : List Datum → List (List Char)
  | [] => []
  | item :: rest => item.spell mark :: spellItems mark rest

def spellEntries (mark : Char) : List (String × Datum) → List (List Char)
  | [] => []
  | (name, entry) :: rest => (inQuotes name ++ mark :: entry.spell mark) :: spellEntries mark rest

end

theorem starts_spell (mark : Char) (d : Datum) : Starts (d.spell mark) := by
  cases d with
  | text content => exact ⟨'"', _, rfl, .inl (by decide)⟩
  | truth value => cases value <;> exact ⟨_, _, rfl, .inl (by decide)⟩
  | integer value =>
    rw [spell, integerText]
    split
    · exact ⟨'-', _, rfl, .inl (by decide)⟩
    · simpa using starts_toDigits value.toInt.natAbs []
  | decimal n =>
    rw [spell, Numeral.text]
    split
    · exact ⟨'-', _, rfl, .inl (by decide)⟩
    · exact starts_toDigits n.whole _
  | list items => exact ⟨'[', _, rfl, .inl (by decide)⟩
  | table entries => exact ⟨'{', _, rfl, .inl (by decide)⟩

theorem spellItems_eq_map (mark : Char) (items : List Datum) :
    spellItems mark items = items.map (spell mark) := by
  induction items with
  | nil => rfl
  | cons item rest ih => rw [spellItems, ih, List.map_cons]

theorem spellEntries_eq_map (mark : Char) (entries : List (String × Datum)) :
    spellEntries mark entries = entries.map fun e => inQuotes e.1 ++ mark :: e.2.spell mark := by
  induction entries with
  | nil => rfl
  | cons e rest ih =>
    obtain ⟨name, entry⟩ := e
    rw [spellEntries, ih, List.map_cons]

end Datum

end Fieldmark
