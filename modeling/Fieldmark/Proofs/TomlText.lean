import Fieldmark.Proofs.Datum

/-!
# Compact TOML

TOML as a format of data, whatever reads it and whatever its real numbers are
(`Parsers.tomlFormat`), and as this library reads it (`Toml.format`). The reader of this library
reads the compact text of a document with one line for each entry as a document that says the same
(`Toml.spells_lines`).
-/

namespace Fieldmark

/-! ## The format -/

namespace Toml.Document

variable {μ : Type} (print : μ → String)

theorem itemValues_eq_map (items : List (Document μ)) :
    itemValues print items = items.map (toValue print) := by
  induction items with
  | nil => rfl
  | cons item rest ih => rw [itemValues, ih, List.map_cons]

theorem entryValues_eq_map (entries : List (String × Document μ)) :
    entryValues print entries = entries.map fun e => (e.1, e.2.toValue print) := by
  induction entries with
  | nil => rfl
  | cons e rest ih =>
    obtain ⟨name, entry⟩ := e
    rw [entryValues, ih, List.map_cons]

/-- Integers are numbers apart from the real ones. -/
def shape : Document μ → Shape (Document μ) (Int ⊕ μ)
  | string content => .text content
  | integer value => .number (.inl value)
  | real x => .number (.inr x)
  | boolean value => .truth value
  | dateTime value => .other (.text value.text)
  | array items => .list items
  | table entries => .table entries

theorem toValue_eq (document : Document μ) :
    document.toValue print =
      document.shape.value (Sum.elim toString print) (toValue print) := by
  cases document with
  | array items => rw [toValue, itemValues_eq_map]; rfl
  | table entries => rw [toValue, entryValues_eq_map]; rfl
  | _ => rfl

end Toml.Document

namespace Parsers

variable {ν μ : Type} (parsers : Parsers ν μ)

/-- TOML, where numerals are read as given numbers. -/
def tomlFormat (numeral? : Numeral → Option μ) : Format (Toml.Document μ) (Int ⊕ μ) where
  read := parsers.toml
  shape := Toml.Document.shape
  integer i := .inl i.toInt
  numeral? n := (numeral? n).map .inr
  print := Sum.elim toString parsers.tomlNumber
  toValue := Toml.Document.toValue parsers.tomlNumber
  toValue_eq := Toml.Document.toValue_eq parsers.tomlNumber

theorem readDataFile_toml {text : List Char} {document : Toml.Document μ} (path : String)
    (read : parsers.toml text = .ok document) :
    parsers.readDataFile text "toml" path = .ok (document.toValue parsers.tomlNumber) := by
  simp [readDataFile, DataFormat.ofName?, Parsers.read, read, Except.map, Except.mapError]

end Parsers

namespace Toml

/-- The number that a numeral is read as. -/
def numeral? (n : Numeral) : Option Binary64 :=
  match scalar? n.text with
  | some (.real (.finite x)) => some x
  | _ => none

/-- TOML as this library reads it. -/
def format : Format Toml (Int ⊕ Real) :=
  Parsers.own.tomlFormat fun n => (numeral? n).map .finite

/-! ## Digits -/

theorem digitRun?_eq {digits : List Char} (nonempty : digits ≠ [])
    (all : ∀ c ∈ digits, c.isDigit) : digitRun? Char.isDigit digits = some digits := by
  induction digits with
  | nil => contradiction
  | cons c digits ih =>
    obtain ⟨first, all⟩ := List.forall_mem_cons.mp all
    cases digits with
    | nil => simp [digitRun?, first]
    | cons next digits =>
      have mark : next ≠ '_' := ne_of_isDigit (all next (List.mem_cons_self ..)) rfl
      simp [digitRun?, first, ih (by simp) all]

theorem numberOf_eq {digits : List Char} (all : ∀ c ∈ digits, c.isDigit) :
    numberOf 10 digits = Nat.ofDigitChars 10 digits 0 := by
  have each (n : Nat) : digits.foldl (fun n c => n * 10 + digitOf c) n =
      Nat.ofDigitChars 10 digits n := by
    induction digits generalizing n with
    | nil => rfl
    | cons c digits ih =>
      obtain ⟨first, all⟩ := List.forall_mem_cons.mp all
      rw [List.foldl_cons, ih all, Nat.ofDigitChars_cons, digitOf, if_pos first, Nat.mul_comm]
  exact each 0

/-- A run of digits holds nothing but digits and the underscores between them. -/
theorem digitRun?_chars {kind : Char → Bool} {text digits : List Char}
    (run : digitRun? kind text = some digits) : ∀ c ∈ text, kind c ∨ c = '_' := by
  fun_induction digitRun? kind text generalizing digits with
  | case1 => contradiction
  | case2 c digit => simp [digit]
  | case3 => contradiction
  | case4 c rest digit ih =>
    obtain ⟨more, run, -⟩ := Option.map_eq_some_iff.mp run
    simp only [List.forall_mem_cons]
    exact ⟨.inl digit, .inr trivial, ih run⟩
  | case5 => contradiction
  | case6 c next rest mark digit ih =>
    obtain ⟨more, run, -⟩ := Option.map_eq_some_iff.mp run
    exact List.forall_mem_cons.mpr ⟨.inl digit, ih run⟩
  | case7 => contradiction

theorem isDigit_of_mem_digits {n : Numeral} {c : Char} (member : c ∈ n.digits) : c.isDigit :=
  Nat.isDigit_of_mem_toDigits (by decide) (by decide) member

theorem wholePart?_toDigits (n : Nat) :
    wholePart? (Nat.toDigits 10 n) = some (Nat.toDigits 10 n) := by
  rw [wholePart?, digitRun?_eq Nat.toDigits_ne_nil
    fun _ => Nat.isDigit_of_mem_toDigits (by decide) (by decide), Option.bind_some]
  obtain zero | ⟨c, digits, leading, -, nonzero⟩ := toDigits_cases n
  · rw [zero]
    rfl
  · rw [leading]
    split
    · rename_i same
      exact absurd (List.cons.inj same).1 nonzero
    · rfl

/-! ## Bare scalars -/

/-- Only a zero in front makes a number one of another base. -/
theorem integer?_eq {text : List Char} (leading : ∀ c behind, text = c :: behind →
      c ≠ '0' ∨ ∀ mark ∈ behind.head?, mark ∉ ['x', 'o', 'b']) :
    integer? text = (wholePart? (signed text).2).map fun digits =>
      if (signed text).1 then -(numberOf 10 digits : Int) else numberOf 10 digits := by
  unfold integer?
  split
  case h_4 => rfl
  all_goals
    obtain other | other := leading _ _ rfl
    · exact absurd rfl other
    · exact absurd (other _ rfl) (by decide)

theorem signed_toDigits (n : Nat) (behind : List Char) :
    signed (Nat.toDigits 10 n ++ behind) = (false, Nat.toDigits 10 n ++ behind) := by
  obtain ⟨c, digits, leading, digit⟩ := exists_cons_toDigits n
  rw [leading]
  unfold signed
  split
  · rename_i same
    exact absurd (List.cons.inj same).1 (ne_of_isDigit digit rfl)
  · rename_i same
    exact absurd (List.cons.inj same).1 (ne_of_isDigit digit rfl)
  · rfl

/-- An integer is kept as it is. -/
theorem integer?_integerText (value : Int) : integer? (integerText value) = some value := by
  have same : numberOf 10 (Nat.toDigits 10 value.natAbs) = value.natAbs := by
    rw [numberOf_eq fun _ => Nat.isDigit_of_mem_toDigits (by decide) (by decide),
      Nat.ofDigitChars_ten_toDigits]
  unfold integerText
  split
  · rename_i negative
    rw [integer?_eq fun c behind text => .inl (by rw [← (List.cons.inj text).1]; decide)]
    simp only [signed, wholePart?_toDigits, Option.map_some, if_true, same, Option.some.injEq]
    omega
  · rename_i nonneg
    have plain := signed_toDigits value.natAbs []
    rw [List.append_nil] at plain
    rw [integer?_eq, plain]
    · simp only [wholePart?_toDigits, Option.map_some, same, Option.some.injEq, Bool.false_eq_true,
        if_false]
      omega
    · intro c behind text
      obtain zero | ⟨first, digits, leading, -, nonzero⟩ := toDigits_cases value.natAbs
      · rw [zero] at text
        exact .inr (by rw [← (List.cons.inj text).2]; nofun)
      · rw [leading] at text
        exact .inl ((List.cons.inj text).1 ▸ nonzero)

/-! ## Numerals -/

theorem magnitude_chars {n : Numeral} {c : Char} (member : c ∈ n.magnitude) :
    c.isDigit ∨ c = '.' := by
  rcases List.mem_append.mp member with digit | behind
  · exact .inl (isDigit_of_mem_digits digit)
  · rcases List.mem_cons.mp behind with point | place
    · exact .inr point
    · exact .inl (isDigit_of_mem_places place)

theorem not_mem_magnitude (n : Numeral) (mark : Char) (digit : mark.isDigit = false)
    (point : mark ≠ '.') : mark ∉ n.magnitude := fun member =>
  (magnitude_chars member).elim (fun other => Bool.false_ne_true (digit.symm.trans other)) point

theorem signed_text (n : Numeral) : signed n.text = (n.negative, n.magnitude) := by
  unfold Numeral.text
  cases n.negative with
  | true => rfl
  | false => exact signed_toDigits n.whole _

/-- The point keeps a numeral from being an integer. -/
theorem integer?_numeral (n : Numeral) : integer? n.text = none := by
  rw [integer?_eq, signed_text]
  · have run : digitRun? Char.isDigit n.magnitude = none := by
      refine Option.eq_none_iff_forall_ne_some.mpr fun digits run => ?_
      have point : '.' ∈ n.magnitude := List.mem_append_right _ (List.mem_cons_self ..)
      exact absurd (digitRun?_chars run '.' point) (by decide)
    rw [wholePart?, run]
    rfl
  · intro c behind text
    unfold Numeral.text Numeral.magnitude Numeral.digits at text
    cases sign : n.negative with
    | true =>
      rw [sign] at text
      exact .inl (by rw [← (List.cons.inj text).1]; decide)
    | false =>
      rw [sign, if_neg Bool.false_ne_true] at text
      obtain zero | ⟨first, digits, leading, -, nonzero⟩ := toDigits_cases n.whole
      · rw [zero] at text
        refine .inr ?_
        rw [← (List.cons.inj text).2]
        rintro mark ⟨⟩
        decide
      · rw [leading] at text
        exact .inl ((List.cons.inj text).1 ▸ nonzero)

theorem behind?_eq_none {mark : Char} {text : List Char} (absent : mark ∉ text) :
    DateTime.behind? mark text = none := by
  cases text with
  | nil => rfl
  | cons c rest =>
    have differs : c ≠ mark := fun same => absent (same ▸ List.mem_cons_self ..)
    exact if_neg differs

theorem digits?_rest {width n : Nat} {text rest : List Char}
    (found : DateTime.digits? width text = some (n, rest)) : rest = text.drop width := by
  obtain ⟨-, same⟩ := Option.ite_none_right_eq_some.mp found
  exact (Prod.mk.inj (Option.some.inj same)).2.symm

theorem date?_eq_none {text : List Char} (hyphen : '-' ∉ text.drop 4) :
    DateTime.date? text = none := by
  unfold DateTime.date?
  cases found : DateTime.digits? 4 text with
  | none => rfl
  | some year =>
    obtain ⟨year, rest⟩ := year
    rw [← digits?_rest found] at hyphen
    simp [behind?_eq_none hyphen]

theorem time?_eq_none {text : List Char} (colon : ':' ∉ text.drop 2) :
    DateTime.time? text = none := by
  unfold DateTime.time?
  cases found : DateTime.digits? 2 text with
  | none => rfl
  | some hour =>
    obtain ⟨hour, rest⟩ := hour
    rw [← digits?_rest found] at colon
    simp [behind?_eq_none colon]

/-- A numeral has no hyphen behind its sign, as dates have, and no colon, as times have. -/
theorem read?_numeral (n : Numeral) : DateTime.read? n.text = none := by
  have behind {mark : Char} (other : mark ∉ n.magnitude) (k : Nat) :
      mark ∉ n.text.drop (k + 1) := by
    unfold Numeral.text
    split
    · exact fun member => other (List.mem_of_mem_drop member)
    · exact fun member => other (List.mem_of_mem_drop member)
  have date := date?_eq_none (behind (not_mem_magnitude n '-' rfl (by decide)) 3)
  have time := time?_eq_none (behind (not_mem_magnitude n ':' rfl (by decide)) 1)
  rw [DateTime.read?, date, time]

theorem splitAt?_of_not_mem {kind : Char → Bool} {text : List Char}
    (absent : ∀ c ∈ text, kind c = false) : splitAt? kind text = (text, none) := by
  have none : text.dropWhile (!kind ·) = [] := by
    have all : (text ++ []).dropWhile (!kind ·) = [] :=
      dropWhile_append_stop (by simpa using absent) nofun
    rwa [List.append_nil] at all
  rw [splitAt?, none]

theorem splitAt?_append {kind : Char → Bool} {front : List Char} {mark : Char}
    (absent : ∀ c ∈ front, kind c = false) (found : kind mark) (behind : List Char) :
    splitAt? kind (front ++ mark :: behind) = (front, some behind) := by
  have all : ∀ c ∈ front, (!kind c) = true := by simpa using absent
  have stop : ∀ c, (mark :: behind).head? = some c → (!kind c) = false := by
    rintro _ ⟨⟩
    simp [found]
  rw [splitAt?, dropWhile_append_stop all stop, takeWhile_append_stop all stop]

/-- A numeral is the decimal of all its digits. -/
theorem real?_numeral (n : Numeral) :
    real? n.text =
      (Decimal.toBinary64 n.negative ⟨n.significand, -n.places.length⟩).map .finite := by
  have places : n.places ≠ [] := by simpa [Numeral.places] using n.broken
  have letters : ∀ c ∈ n.magnitude, (decide (c = 'e') || decide (c = 'E')) = false := by
    intro c member
    have small : c ≠ 'e' := fun same => not_mem_magnitude n 'e' rfl (by decide) (same ▸ member)
    have large : c ≠ 'E' := fun same => not_mem_magnitude n 'E' rfl (by decide) (same ▸ member)
    simp [small, large]
  have points : ∀ c ∈ n.digits, decide (c = '.') = false := fun c member =>
    decide_eq_false (ne_of_isDigit (isDigit_of_mem_digits member) rfl)
  have infinite : n.magnitude ≠ ['i', 'n', 'f'] := fun same =>
    not_mem_magnitude n 'i' rfl (by decide) (by rw [same]; decide)
  have nothing : n.magnitude ≠ ['n', 'a', 'n'] := fun same =>
    not_mem_magnitude n 'a' rfl (by decide) (by rw [same]; decide)
  have number : numberOf 10 (n.digits ++ n.places) = n.significand :=
    numberOf_eq fun c member => (List.mem_append.mp member).elim isDigit_of_mem_digits
      isDigit_of_mem_places
  have fraction : fraction? (some n.places) = some n.places :=
    digitRun?_eq places fun c => isDigit_of_mem_places
  have whole : wholePart? n.digits = some n.digits := wholePart?_toDigits n.whole
  unfold real?
  rw [signed_text]
  dsimp only
  rw [if_neg infinite, if_neg nothing, splitAt?_of_not_mem letters]
  dsimp only
  rw [Numeral.magnitude, splitAt?_append points (by decide)]
  simp [whole, fraction, exponent?, number]

theorem text_chars {n : Numeral} {c : Char} (member : c ∈ n.text) :
    c = '-' ∨ c.isDigit ∨ c = '.' := by
  unfold Numeral.text at member
  split at member
  · exact (List.mem_cons.mp member).imp_right magnitude_chars
  · exact .inr (magnitude_chars member)

theorem scalar?_numeral (n : Numeral) :
    scalar? n.text = (Decimal.toBinary64 n.negative ⟨n.significand, -n.places.length⟩).map
      fun x => .real (.finite x) := by
  have word {mark : Char} (other : mark ≠ '-' ∧ mark.isDigit = false ∧ mark ≠ '.')
      {behind : List Char} : n.text ≠ mark :: behind := fun same => by
    have member : mark ∈ n.text := by rw [same]; exact List.mem_cons_self ..
    rcases text_chars member with sign | digit | point
    · exact other.1 sign
    · exact ne_of_isDigit digit other.2.1 rfl
    · exact other.2.2 point
  rw [scalar?, if_neg (word (by decide)), if_neg (word (by decide)), integer?_numeral,
    read?_numeral, real?_numeral]
  exact Option.map_map ..

theorem numeral?_eq (n : Numeral) :
    numeral? n = Decimal.toBinary64 n.negative ⟨n.significand, -n.places.length⟩ := by
  rw [numeral?, scalar?_numeral]
  cases Decimal.toBinary64 n.negative ⟨n.significand, -n.places.length⟩ <;> rfl

theorem integerText_chars {value : Int} {c : Char} (member : c ∈ integerText value) :
    c = '-' ∨ c.isDigit := by
  have digit {n : Nat} (member : c ∈ Nat.toDigits 10 n) : c.isDigit :=
    Nat.isDigit_of_mem_toDigits (by decide) (by decide) member
  unfold integerText at member
  split at member
  · exact (List.mem_cons.mp member).imp_right digit
  · exact .inr (digit member)

theorem scalar?_integerText (value : Int) :
    scalar? (integerText value) = some (.integer value) := by
  have word {mark : Char} (other : mark ≠ '-' ∧ mark.isDigit = false) {behind : List Char} :
      integerText value ≠ mark :: behind := fun same => by
    have member : mark ∈ integerText value := by rw [same]; exact List.mem_cons_self ..
    rcases integerText_chars member with sign | digit
    · exact other.1 sign
    · exact ne_of_isDigit digit other.2 rfl
  rw [scalar?, if_neg (word (by decide)), if_neg (word (by decide)), integer?_integerText]

namespace Reading

/-! ## Steps of the reader -/

variable {α β : Type} {r : Reading α} {a : α} {text rest : List Char}

/-- A reading that succeeds. -/
def Gives (r : Reading α) (text : List Char) (a : α) (rest : List Char) : Prop :=
  r text = some (a, rest)

theorem Gives.bind (gives : Gives r text a rest) (f : α → Reading β) :
    (r >>= f) text = f a rest := by
  change StateT.bind r f text = _
  rw [StateT.bind, gives]
  rfl

theorem gives_take (c : Char) (rest : List Char) : Gives take (c :: rest) c rest := rfl

theorem gives_peek (text : List Char) : Gives peek text text.head? text := rfl

theorem gives_left (text : List Char) : Gives left text text.length text := rfl

theorem gives_takeWhile {kind : Char → Bool} {front : List Char} (all : ∀ c ∈ front, kind c)
    (stop : ∀ c, rest.head? = some c → kind c = false) :
    Gives (takeWhile kind) (front ++ rest) front rest := by
  rw [Gives, takeWhile, takeWhile_append_stop all stop, dropWhile_append_stop all stop]

theorem gives_expect (c : Char) (rest : List Char) : Gives (expect c) (c :: rest) () rest := by
  refine ((gives_take c rest).bind _).trans ?_
  rw [if_pos rfl]
  rfl

theorem gives_takeText (front rest : List Char) :
    Gives (takeText front) (front ++ rest) true rest := by
  simp [Gives, takeText]

theorem gives_takeText_other {front : List Char} (other : front.isPrefixOf text = false) :
    Gives (takeText front) text false text := by
  simp [Gives, takeText, other]

theorem isPrefixOf_of_head_ne {mark : Char} {front : List Char} (other : text.head? ≠ some mark) :
    (mark :: front).isPrefixOf text = false := by
  cases text with
  | nil => rfl
  | cons c rest =>
    have differs : mark ≠ c := fun same => other (same ▸ rfl)
    simp [List.isPrefixOf, differs]

/-! ## Between the words -/

/-- What is neither a blank nor the beginning of a comment or of the end of a line. -/
def Still (text : List Char) : Prop :=
  ∀ c, text.head? = some c → c ∉ [' ', '\t', '#', '\n', '\r']

theorem gives_skipBlanks (stop : ∀ c, text.head? = some c → isBlank c = false) :
    Gives skipBlanks text () text :=
  (gives_takeWhile (List.forall_mem_nil fun c => isBlank c) stop).bind _

theorem gives_skipToLineEnd (stop : ∀ c, text.head? = some c → isBlank c = false ∧ c ≠ '#') :
    Gives skipToLineEnd text () text := by
  unfold skipToLineEnd
  refine ((gives_skipBlanks fun c head => (stop c head).1).bind _).trans ?_
  refine ((gives_peek text).bind _).trans ?_
  rw [if_neg fun head => (stop '#' head).2 rfl]
  rfl

theorem gives_takeNewline_other (feed : text.head? ≠ some '\n') (back : text.head? ≠ some '\r') :
    Gives takeNewline text false text := by
  unfold takeNewline
  refine ((gives_takeText_other (isPrefixOf_of_head_ne feed)).bind _).trans ?_
  exact gives_takeText_other (isPrefixOf_of_head_ne back)

theorem Still.head_ne (still : Still text) {mark : Char}
    (member : mark ∈ [' ', '\t', '#', '\n', '\r']) : text.head? ≠ some mark :=
  fun head => still mark head member

theorem Still.isBlank (still : Still text) : ∀ c, text.head? = some c → isBlank c = false := by
  intro c head
  have space : c ≠ ' ' := fun same => still.head_ne (by decide) (same ▸ head)
  have tab : c ≠ '\t' := fun same => still.head_ne (by decide) (same ▸ head)
  simp [Reading.isBlank, space, tab]

theorem gives_skipSpace (still : Still text) : Gives skipSpace text () text := by
  unfold skipSpace
  refine ((gives_left text).bind _).trans ?_
  cases text.length with
  | zero => rfl
  | succ fuel =>
    rw [skipLines]
    refine ((gives_skipToLineEnd fun c head => ⟨still.isBlank c head, fun same =>
      still.head_ne (by decide) (same ▸ head)⟩).bind _).trans ?_
    exact (gives_takeNewline_other (still.head_ne (by decide)) (still.head_ne (by decide))).bind _

/-! ## Strings -/

theorem gives_hexEscape {n : Nat} (small : n < 128) (rest : List Char) :
    Gives (hexEscape 4) ('0' :: '0' :: Nat.digitChar (n / 16) :: Nat.digitChar (n % 16) :: rest)
      (Char.ofNat n) rest := by
  have fits : numberOf 16 ['0', '0', Nat.digitChar (n / 16), Nat.digitChar (n % 16)] = n ∧
      ['0', '0', Nat.digitChar (n / 16), Nat.digitChar (n % 16)].all isHexDigit ∧
      isScalarValue n := by
    decide +revert
  obtain ⟨number, digits, scalar⟩ := fits
  unfold Gives hexEscape
  simp only [List.take_succ_cons, List.take_zero, number]
  exact if_pos ⟨rfl, digits, scalar⟩

theorem gives_escape {c : Char} (control : c.toNat < 0x20 ∨ c.toNat = 0x7F) (rest : List Char) :
    Gives escape
      ('u' :: '0' :: '0' :: Nat.digitChar (c.toNat / 16) :: Nat.digitChar (c.toNat % 16) :: rest)
      c rest := by
  unfold escape
  refine ((gives_take 'u' _).bind _).trans ((gives_hexEscape (by omega) rest).trans ?_)
  rw [Char.ofNat_toNat]

theorem gives_escape_mark {c : Char} (mark : c = '"' ∨ c = '\\') (rest : List Char) :
    Gives escape (c :: rest) c rest := by
  unfold escape
  rcases mark with rfl | rfl
  · exact ((gives_take _ rest).bind _).trans rfl
  · exact ((gives_take _ rest).bind _).trans rfl

theorem isPlain_of_not_control {c : Char} (plain : ¬ (c.toNat < 0x20 ∨ c.toNat = 0x7F)) :
    isPlain c := by
  rw [not_or, Nat.not_lt] at plain
  simp [isPlain, plain]

theorem gives_lineString (content : List Char) {fuel : Nat} (enough : content.length < fuel)
    (rest : List Char) :
    Gives (lineString '"' fuel) (content.flatMap charInQuotes ++ '"' :: rest) content rest := by
  induction content generalizing fuel with
  | nil =>
    obtain ⟨fuel, rfl⟩ := Nat.exists_eq_add_of_lt enough
    rw [lineString]
    exact ((gives_take '"' rest).bind _).trans rfl
  | cons c content ih =>
    obtain ⟨fuel, rfl⟩ := Nat.exists_eq_add_one.mpr (Nat.zero_lt_of_lt enough)
    have behind := (ih (Nat.lt_of_succ_lt_succ enough)).bind fun more => pure (c :: more)
    rw [lineString, List.flatMap_cons, List.append_assoc, charInQuotes]
    split
    · rename_i mark
      refine ((gives_take '\\' _).bind _).trans ?_
      exact ((gives_escape_mark mark _).bind _).trans behind
    · rename_i unmarked
      split
      · rename_i control
        refine ((gives_take '\\' _).bind _).trans ?_
        exact ((gives_escape control _).bind _).trans behind
      · rename_i plain
        refine ((gives_take c _).bind _).trans ?_
        rw [if_neg fun same => unmarked (.inl same), if_neg fun same => unmarked (.inr same.1),
          if_pos (isPlain_of_not_control plain)]
        exact behind

theorem charInQuotes_head (c : Char) (behind : List Char) :
    (charInQuotes c ++ behind).head? ≠ some '"' := by
  unfold charInQuotes
  split
  · simp
  · rename_i unmarked
    split
    · simp
    · simpa using fun same : c = '"' => unmarked (.inl same)

/-- A text in quotes does not begin with three quotes. -/
theorem not_isPrefixOf_inQuotes (content : String) (ends : Delimited rest) :
    ['"', '"', '"'].isPrefixOf (inQuotes content ++ rest) = false := by
  rw [inQuotes_append, List.isPrefixOf_cons_cons_self]
  cases content.toList with
  | nil =>
    refine List.isPrefixOf_cons_cons_self.trans (isPrefixOf_of_head_ne fun head => ?_)
    exact absurd (ends.stop (· == '"') rfl '"' head) (by decide)
  | cons c content =>
    rw [List.flatMap_cons, List.append_assoc]
    exact isPrefixOf_of_head_ne (charInQuotes_head c _)

/-- A text in quotes on one line. -/
theorem gives_quoted (content : String) (ends : Delimited rest) :
    Gives (quoted '"') (inQuotes content ++ rest) content rest := by
  unfold quoted
  refine ((gives_left _).bind _).trans ?_
  refine ((gives_takeText_other (not_isPrefixOf_inQuotes content ends)).bind _).trans ?_
  rw [inQuotes_append]
  refine ((gives_expect '"' _).bind _).trans ?_
  refine ((gives_lineString content.toList ?_ rest).bind _).trans ?_
  · exact Nat.lt_succ_of_lt (length_lt_inQuotes ..)
  · rw [String.ofList_toList]
    rfl

theorem gives_keyName (name : String) (rest : List Char) :
    Gives keyName (inQuotes name ++ rest) name rest := by
  rw [inQuotes_append]
  unfold keyName
  refine ((gives_peek _).bind _).trans (((gives_expect '"' _).bind _).trans ?_)
  refine ((gives_left _).bind _).trans ?_
  refine ((gives_lineString _ (length_lt_inQuotes _ _) rest).bind _).trans ?_
  rw [String.ofList_toList]
  rfl

theorem gives_key (name : String) (rest : List Char) :
    Gives key (inQuotes name ++ '=' :: rest) ⟨[], name⟩ ('=' :: rest) := by
  unfold key
  refine ((gives_keyName name _).bind _).trans (((gives_left _).bind _).trans ?_)
  have none : Gives (keyRest (('=' :: rest).length + 1)) ('=' :: rest) [] ('=' :: rest) := by
    rw [keyRest]
    refine ((gives_skipBlanks (by rintro _ ⟨⟩; rfl)).bind _).trans ?_
    exact ((gives_takeText_other rfl).bind _).trans rfl
  exact (none.bind _).trans rfl

/-! ## Values -/

theorem gives_scalarWord {word : List Char} (all : ∀ c ∈ word, isScalarChar c)
    (ends : Delimited rest) : Gives scalarWord (word ++ rest) word rest := by
  unfold scalarWord
  refine ((gives_takeWhile all (ends.stop _ rfl)).bind _).trans ?_
  split
  · exact absurd (ends.stop (· == ' ') rfl ' ' rfl) (by decide)
  · rfl

theorem isScalarChar_of_isDigit {c : Char} (digit : c.isDigit) : isScalarChar c := by
  simp [isScalarChar, Char.isAlphanum, digit]

/-- What does not begin like another value is a bare scalar. -/
theorem gives_scalar {word : List Char} {tree : Toml} (depth : Nat)
    (all : ∀ c ∈ word, isScalarChar c) (nonempty : word ≠ []) (ends : Delimited rest)
    (read : scalar? word = some tree) :
    Gives (value depth) (word ++ rest) tree rest := by
  have behind : Gives (do scalar? (← scalarWord) : Reading Toml) (word ++ rest) tree rest := by
    refine ((gives_scalarWord all ends).bind _).trans ?_
    rw [read]
    rfl
  obtain ⟨c, more, rfl⟩ := List.exists_cons_of_ne_nil nonempty
  have first := all c (List.mem_cons_self ..)
  unfold value
  refine ((gives_peek _).bind _).trans ?_
  change Gives _ (c :: (more ++ rest)) tree rest
  dsimp only [List.cons_append, List.head?_cons]
  split
  case h_5 => exact behind
  all_goals
    obtain rfl := Option.some.inj ‹_›
    exact absurd first (by decide)

/-- A value that is read wherever a value may end. -/
def Reads (element : Reading Toml) (text : List Char) (tree : Toml) : Prop :=
  ∀ rest, Delimited rest → Gives element (text ++ rest) tree rest

theorem reads_text (depth : Nat) (content : String) :
    Reads (value depth) (inQuotes content) (.string content) := by
  intro rest ends
  unfold value
  refine ((gives_peek _).bind _).trans ?_
  exact ((gives_quoted content ends).bind _).trans rfl

theorem reads_truth (depth : Nat) (b : Bool) :
    Reads (value depth) ((Datum.truth b).spell '=') (.boolean b) := by
  intro rest ends
  cases b with
  | true => exact gives_scalar depth (List.all_eq_true.mp rfl) (by decide) ends rfl
  | false => exact gives_scalar depth (List.all_eq_true.mp rfl) (by decide) ends rfl

theorem reads_integer (depth : Nat) (n : Int) :
    Reads (value depth) (integerText n) (.integer n) := by
  intro rest ends
  refine gives_scalar depth (fun c member => ?_) ?_ ends (scalar?_integerText n)
  · rcases integerText_chars member with rfl | digit
    · rfl
    · exact isScalarChar_of_isDigit digit
  · unfold integerText
    split
    · nofun
    · exact Nat.toDigits_ne_nil

theorem reads_numeral (depth : Nat) {n : Numeral} {x : Binary64} (number : numeral? n = some x) :
    Reads (value depth) n.text (.real (.finite x)) := by
  intro rest ends
  refine gives_scalar depth (fun c member => ?_) ?_ ends ?_
  · rcases text_chars member with rfl | digit | rfl
    · rfl
    · exact isScalarChar_of_isDigit digit
    · rfl
  · unfold Numeral.text Numeral.magnitude
    split
    · nofun
    · simp
  · rw [scalar?_numeral, ← numeral?_eq, number]
    rfl

/-! ## Arrays and tables -/

theorem still_of_starts {text : List Char} (starts : Starts text) (rest : List Char) :
    Still (text ++ rest) := by
  intro c head member
  refine starts.head_ne c ?_ rest head
  simp only [List.mem_cons, List.not_mem_nil, or_false] at member
  rcases member with rfl | rfl | rfl | rfl | rfl <;> decide

variable {element : Reading Toml}

/-- Behind an item stands a comma with more items, or the end. -/
theorem gives_items {texts : List (List Char)} {trees : List Toml}
    (each : List.Forall₂ (fun text tree => Starts text ∧ Reads element text tree) texts trees)
    {fuel : Nat} (enough : texts.length < fuel) (rest : List Char) :
    Gives (items element fuel) (commaSeparated texts ++ ']' :: rest) trees rest := by
  induction each generalizing fuel with
  | nil =>
    obtain ⟨fuel, rfl⟩ := Nat.exists_eq_add_of_lt enough
    rw [items]
    refine ((gives_skipSpace (by rintro _ ⟨⟩; decide)).bind _).trans ?_
    exact ((gives_takeText [']'] rest).bind _).trans rfl
  | @cons text tree texts trees first each ih =>
    obtain ⟨fuel, rfl⟩ := Nat.exists_eq_add_one.mpr (Nat.zero_lt_of_lt enough)
    obtain ⟨starts, reads⟩ := first
    have bracket := starts.head_ne ']' (by decide)
      (texts.flatMap (',' :: ·) ++ ']' :: rest)
    rw [items, commaSeparated, List.append_assoc]
    refine ((gives_skipSpace (still_of_starts starts _)).bind _).trans ?_
    refine ((gives_takeText_other (isPrefixOf_of_head_ne bracket)).bind _).trans ?_
    refine ((reads _ (delimited_flatMap ']' (by decide) texts rest)).bind _).trans ?_
    cases each with
    | nil =>
      refine ((gives_skipSpace (by rintro _ ⟨⟩; decide)).bind _).trans ?_
      refine ((gives_takeText_other rfl).bind _).trans ?_
      exact ((gives_expect ']' rest).bind _).trans rfl
    | cons next each =>
      have behind := (ih (Nat.lt_of_succ_lt_succ enough)).bind fun more => pure (tree :: more)
      rw [List.flatMap_cons, List.append_assoc]
      refine ((gives_skipSpace (by rintro _ ⟨⟩; decide)).bind _).trans ?_
      refine ((gives_takeText [','] _).bind _).trans ?_
      rw [commaSeparated, List.append_assoc] at behind
      exact behind

theorem gives_keyValue {name : String} {text : List Char} {tree : Toml} (starts : Starts text)
    (reads : Reads element text tree) (ends : Delimited rest) :
    Gives (keyValue element) (inQuotes name ++ '=' :: text ++ rest) (⟨[], name⟩, tree)
      rest := by
  rw [List.append_assoc, List.cons_append]
  unfold keyValue
  refine ((gives_key name _).bind _).trans (((gives_expect '=' _).bind _).trans ?_)
  refine ((gives_skipBlanks (still_of_starts starts rest).isBlank).bind _).trans ?_
  exact ((reads rest ends).bind _).trans rfl

/-- The text of an entry. -/
def Spelled (element : Reading Toml) (text : List Char) (e : String × Toml) : Prop :=
  ∃ behind, text = inQuotes e.1 ++ '=' :: behind ∧ Starts behind ∧ Reads element behind e.2

/-- Entries as they are read, with keys of one name. -/
def keyed (entries : List (String × Toml)) : List (Key × Toml) :=
  entries.map fun e => (⟨[], e.1⟩, e.2)

theorem gives_entries {texts : List (List Char)} {trees : List (String × Toml)}
    (each : List.Forall₂ (Spelled element) texts trees)
    {fuel : Nat} (enough : texts.length < fuel) (rest : List Char) :
    Gives (entries element fuel) (commaSeparated texts ++ '}' :: rest) (keyed trees) rest := by
  induction each generalizing fuel with
  | nil =>
    obtain ⟨fuel, rfl⟩ := Nat.exists_eq_add_of_lt enough
    rw [entries]
    refine ((gives_skipSpace (by rintro _ ⟨⟩; decide)).bind _).trans ?_
    exact ((gives_takeText ['}'] rest).bind _).trans rfl
  | @cons text e texts trees first each ih =>
    obtain ⟨fuel, rfl⟩ := Nat.exists_eq_add_one.mpr (Nat.zero_lt_of_lt enough)
    obtain ⟨text, rfl, starts, reads⟩ := first
    rw [entries, commaSeparated, List.append_assoc]
    refine ((gives_skipSpace (by rintro _ ⟨⟩; decide)).bind _).trans ?_
    refine ((gives_takeText_other rfl).bind _).trans ?_
    refine ((gives_keyValue starts reads
      (delimited_flatMap '}' (by decide) texts rest)).bind _).trans ?_
    cases each with
    | nil =>
      refine ((gives_skipSpace (by rintro _ ⟨⟩; decide)).bind _).trans ?_
      refine ((gives_takeText_other rfl).bind _).trans ?_
      exact ((gives_expect '}' rest).bind _).trans rfl
    | cons next each =>
      have behind := (ih (Nat.lt_of_succ_lt_succ enough)).bind
        fun more => pure ((⟨[], e.1⟩, e.2) :: more)
      rw [List.flatMap_cons, List.append_assoc]
      refine ((gives_skipSpace (by rintro _ ⟨⟩; decide)).bind _).trans ?_
      refine ((gives_takeText [','] _).bind _).trans ?_
      rw [commaSeparated, List.append_assoc] at behind
      exact behind

end Reading

/-! ## Tables under construction -/

namespace Draft

theorem finishEntries_closed (parts : List (String × Toml)) :
    finishEntries (parts.map fun e => (e.1, closed e.2)) = parts := by
  induction parts with
  | nil => rfl
  | cons e rest ih => rw [List.map_cons, finishEntries, ih, finish]

theorem addKey_fresh {built : Entries} {name : String} (fresh : built.lookup name = none)
    (tree : Toml) :
    addKey ⟨[], name⟩ tree .header built = some (built ++ [(name, .closed tree)]) := by
  simp [addKey, modify, addEntry, fresh]

/-- Entries of different names come one behind the other. -/
theorem foldlM_addKey {parts : List (String × Toml)} {built : Entries}
    (distinct : (built.map Prod.fst ++ parts.map Prod.fst).Nodup) :
    parts.foldlM (fun built e => addKey ⟨[], e.1⟩ e.2 .header built) built =
      some (built ++ parts.map fun e => (e.1, closed e.2)) := by
  induction parts generalizing built with
  | nil => simp
  | cons e rest ih =>
    have fresh : built.lookup e.1 = none := by
      rw [← Option.not_isSome_iff_eq_none, Fields.isSome_lookup_iff]
      intro member
      exact (List.nodup_append.mp distinct).2.2 _ member _ (List.mem_cons_self ..) rfl
    rw [List.foldlM_cons, addKey_fresh fresh, Option.bind_eq_bind, Option.bind_some, ih]
    · simp
    · simpa using distinct

theorem foldlM_follow (parts : List (String × Toml)) (built : Entries) :
    (parts.map fun e => Statement.entry ⟨[], e.1⟩ e.2).foldlM Progress.follow ⟨[], built⟩ =
      (parts.foldlM (fun built e => addKey ⟨[], e.1⟩ e.2 .header built) built).map (⟨[], ·⟩) := by
  induction parts generalizing built with
  | nil => rfl
  | cons e rest ih =>
    rw [List.map_cons, List.foldlM_cons, List.foldlM_cons, Progress.follow, modify]
    cases addKey ⟨[], e.1⟩ e.2 .header built with
    | none => rfl
    | some more => exact ih more

end Draft

theorem inlineTable?_eq {parts : List (String × Toml)} (distinct : (parts.map Prod.fst).Nodup) :
    inlineTable? (Reading.keyed parts) = some (.table parts) := by
  unfold inlineTable? Reading.keyed
  rw [List.foldlM_map, Draft.foldlM_addKey (by simpa using distinct), List.nil_append,
    Option.map_some, Draft.finishEntries_closed]

theorem document?_eq {parts : List (String × Toml)} (distinct : (parts.map Prod.fst).Nodup) :
    document? (parts.map fun e => .entry ⟨[], e.1⟩ e.2) = some (.table parts) := by
  rw [document?, Draft.foldlM_follow, Draft.foldlM_addKey (by simpa using distinct),
    List.nil_append, Option.map_some, Option.map_some, Draft.finishEntries_closed]

namespace Reading

/-! ## Documents -/

theorem reads_list {depth : Nat} {texts : List (List Char)} {trees : List Toml}
    (each : List.Forall₂ (fun text tree => Starts text ∧ Reads (value depth) text tree)
      texts trees) :
    Reads (value (depth + 1)) ('[' :: commaSeparated texts ++ [']']) (.array trees) := by
  intro rest ends
  have enough := length_lt_commaSeparated texts ']' rest
  rw [List.append_assoc, List.cons_append]
  unfold value
  refine ((gives_peek _).bind _).trans (((gives_expect '[' _).bind _).trans ?_)
  refine ((gives_left _).bind _).trans ?_
  exact ((gives_items each enough rest).bind _).trans rfl

theorem reads_table {depth : Nat} {texts : List (List Char)} {parts : List (String × Toml)}
    (each : List.Forall₂ (Spelled (value depth)) texts parts)
    (distinct : (parts.map Prod.fst).Nodup) :
    Reads (value (depth + 1)) ('{' :: commaSeparated texts ++ ['}']) (.table parts) := by
  intro rest ends
  have enough := length_lt_commaSeparated texts '}' rest
  rw [List.append_assoc, List.cons_append]
  unfold value
  refine ((gives_peek _).bind _).trans (((gives_expect '{' _).bind _).trans ?_)
  refine ((gives_left _).bind _).trans (((gives_entries each enough rest).bind _).trans ?_)
  rw [inlineTable?_eq distinct]
  rfl

/-- A line for each entry. -/
theorem gives_statements {texts : List (List Char)} {parts : List (String × Toml)}
    (each : List.Forall₂ (Spelled (value maxDepth)) texts parts) {fuel : Nat}
    (enough : texts.length < fuel) :
    Gives (statements fuel) (texts.flatMap (· ++ ['\n']))
      (parts.map fun e => .entry ⟨[], e.1⟩ e.2) [] := by
  induction each generalizing fuel with
  | nil =>
    obtain ⟨fuel, rfl⟩ := Nat.exists_eq_add_of_lt enough
    rw [statements]
    refine ((gives_skipSpace (by rintro _ ⟨⟩)).bind _).trans ?_
    exact ((gives_peek []).bind _).trans rfl
  | @cons text e texts parts first _ ih =>
    obtain ⟨fuel, rfl⟩ := Nat.exists_eq_add_one.mpr (Nat.zero_lt_of_lt enough)
    obtain ⟨text, rfl, starts, reads⟩ := first
    have line : Gives statement (inQuotes e.1 ++ '=' :: text ++ '\n' ::
        texts.flatMap (· ++ ['\n'])) (.entry ⟨[], e.1⟩ e.2)
        ('\n' :: texts.flatMap (· ++ ['\n'])) := by
      unfold statement
      refine ((gives_takeText_other rfl).bind _).trans ?_
      exact ((gives_keyValue starts reads (.cons _ (by decide))).bind _).trans rfl
    have behind := (ih (Nat.lt_of_succ_lt_succ enough)).bind
      fun more => pure (Statement.entry ⟨[], e.1⟩ e.2 :: more)
    rw [statements, List.flatMap_cons, List.append_assoc]
    refine ((gives_skipSpace (by rintro _ ⟨⟩; decide)).bind _).trans ?_
    refine ((gives_peek _).bind _).trans ((line.bind _).trans ?_)
    refine ((gives_skipToLineEnd (by rintro _ ⟨⟩; decide)).bind _).trans ?_
    refine ((gives_peek _).bind _).trans ?_
    have newline : Gives takeNewline ('\n' :: texts.flatMap (· ++ ['\n'])) true
        (texts.flatMap (· ++ ['\n'])) := (gives_takeText ['\n'] _).bind _
    exact (newline.bind _).trans behind

end Reading

/-- Whether a document has no integer that a data file cannot hold. -/
def Fits (tree : Toml) : Prop := tree.everyInteger Parsers.fitsToml

theorem fits_array {trees : List Toml} (all : ∀ tree ∈ trees, Fits tree) :
    Fits (.array trees) := by
  unfold Fits
  rw [Document.everyInteger]
  induction trees with
  | nil => rfl
  | cons tree trees ih =>
    obtain ⟨first, all⟩ := List.forall_mem_cons.mp all
    rw [Document.everyIntegerOfItems, ih all, Bool.and_true]
    exact first

theorem fits_table {parts : List (String × Toml)} (all : ∀ e ∈ parts, Fits e.2) :
    Fits (.table parts) := by
  unfold Fits
  rw [Document.everyInteger]
  induction parts with
  | nil => rfl
  | cons e parts ih =>
    obtain ⟨first, all⟩ := List.forall_mem_cons.mp all
    rw [Document.everyIntegerOfEntries, ih all, Bool.and_true]
    exact first

theorem fits_integer (n : Int64) : Fits (.integer n.toInt) := by
  have low := Int64.le_toInt n
  have high := Int64.toInt_lt n
  have half : Word.count 63 = 2 ^ 63 := rfl
  unfold Fits
  rw [Document.everyInteger, Parsers.fitsToml, Word.isSigned]
  simp [half]
  omega

namespace Reading

/-- A value that says a datum and is read from its compact text. -/
def SaidBy (depth : Nat) (d : Datum) (tree : Toml) : Prop :=
  format.Says d tree ∧ Fits tree ∧ Reads (value depth) (d.spell '=') tree

theorem exists_parts {depth : Nat} {entries : List (String × Datum)}
    (distinct : (entries.map Prod.fst).Nodup)
    (each : ∀ e ∈ entries, ∃ tree, SaidBy depth e.2 tree) :
    ∃ parts : List (String × Toml), format.Says (.table entries) (.table parts) ∧
      Fits (.table parts) ∧ (parts.map Prod.fst).Nodup ∧
      List.Forall₂ (Spelled (value depth)) (Datum.spellEntries '=' entries) parts := by
  obtain ⟨parts, each⟩ := Format.exists_forall₂
    (R := fun (e : String × Datum) (part : String × Toml) => e.1 = part.1 ∧ SaidBy depth e.2 part.2)
    fun e member => by
      obtain ⟨tree, said⟩ := each e member
      exact ⟨(e.1, tree), rfl, said⟩
  have names := Format.names_eq_of_forall₂ (each.imp fun _ _ => And.left)
  refine ⟨parts, .of_entries rfl distinct (each.imp fun _ _ related => ⟨related.1, related.2.1⟩),
    fits_table (Format.forall_of_forall₂ each fun _ _ related => related.2.2.1),
    names ▸ distinct, ?_⟩
  rw [Datum.spellEntries_eq_map]
  refine List.forall₂_map_left_iff.mpr (each.imp fun e part related => ?_)
  exact ⟨e.2.spell '=', by rw [related.1], e.2.starts_spell '=', related.2.2.2⟩

/-- The compact text of a value is read as one that says it. -/
theorem exists_reads {depth : Nat} {d : Datum} (within : d.Within depth) (distinct : d.Distinct)
    (readable : ∀ n, d.Holds n → (numeral? n).isSome) : ∃ tree, SaidBy depth d tree := by
  induction within with
  | text depth content => exact ⟨.string content, .text rfl, rfl, reads_text depth content⟩
  | truth depth value => exact ⟨.boolean value, .truth rfl, rfl, reads_truth depth value⟩
  | integer depth value =>
    exact ⟨.integer value.toInt, .integer rfl, fits_integer value, reads_integer depth _⟩
  | decimal depth n =>
    obtain ⟨x, number⟩ := Option.isSome_iff_exists.mp (readable n .decimal)
    have kept : format.numeral? n = some (.inr (.finite x)) := by
      show ((numeral? n).map Real.finite).map Sum.inr = _
      rw [number]
      rfl
    exact ⟨.real (.finite x), .decimal rfl kept, rfl, reads_numeral depth number⟩
  | @list depth items all ih =>
    cases distinct with
    | list distinct =>
      obtain ⟨trees, each⟩ := Format.exists_forall₂ fun d member =>
        ih d member (distinct d member) fun n holds => readable n (.item member holds)
      refine ⟨.array trees, .of_items rfl (each.imp fun _ _ => And.left),
        fits_array (Format.forall_of_forall₂ each fun _ _ related => related.2.1), ?_⟩
      rw [Datum.spell, Datum.spellItems_eq_map]
      refine reads_list (List.forall₂_map_left_iff.mpr (each.imp fun d tree related => ?_))
      exact ⟨d.starts_spell '=', related.2.2⟩
  | @table depth entries all ih =>
    cases distinct with
    | table names distinct =>
      obtain ⟨parts, said, fits, names, each⟩ := exists_parts names fun e member =>
        ih e member (distinct e member) fun n holds => readable n (.entry member holds)
      exact ⟨.table parts, said, fits, reads_table each names⟩

end Reading

/-- The compact text of a table, with a line for each entry. -/
def lines (entries : List (String × Datum)) : List Char :=
  (Datum.spellEntries '=' entries).flatMap (· ++ ['\n'])

theorem own_toml {text : List Char} {document : Toml} (read : read? text = some document)
    (fits : Fits document) : Parsers.own.toml text = .ok document := by
  have kept : (read? text).filter (Document.everyInteger Parsers.fitsToml) = some document := by
    rw [read]
    exact if_pos fits
  simp only [Parsers.own, kept]

/-- TOML reads the compact text of every table that is not too deep and whose decimal numbers it can
read. -/
theorem spells_lines {entries : List (String × Datum)}
    (within : (Datum.table entries).Within (Reading.maxDepth + 1))
    (distinct : (Datum.table entries).Distinct)
    (readable : ∀ n, (Datum.table entries).Holds n → (numeral? n).isSome) :
    format.Spells (.table entries) (lines entries) := by
  cases within with
  | table within =>
    cases distinct with
    | table names distinct =>
      obtain ⟨parts, said, fits, names, each⟩ := Reading.exists_parts names fun e member =>
        Reading.exists_reads (within e member) (distinct e member) fun n holds =>
          readable n (.entry member holds)
      refine ⟨.table parts, ?_, said⟩
      have count (texts : List (List Char)) :
          texts.length < (texts.flatMap (· ++ ['\n'])).length + 1 := by
        induction texts with
        | nil => exact Nat.zero_lt_succ _
        | cons text texts ih =>
          simp only [List.flatMap_cons, List.length_append, List.length_cons] at ih ⊢
          omega
      have mark : (lines entries).head? ≠ some '\uFEFF' := by
        cases entries with
        | nil => nofun
        | cons e entries => exact fun head => absurd (Option.some.inj head) (by decide)
      have document : read? (lines entries) = some (.table parts) := by
        unfold read?
        rw [if_neg mark]
        have read : Reading.statements ((lines entries).length + 1) (lines entries) =
            some (parts.map fun e => .entry ⟨[], e.1⟩ e.2, []) :=
          Reading.gives_statements each (count _)
        dsimp only
        rw [read]
        exact document?_eq names
      exact own_toml document fits

end Toml

end Fieldmark
