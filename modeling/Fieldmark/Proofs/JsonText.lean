import Fieldmark.Proofs.Datum

/-!
# Compact JSON

JSON as a format of data, whatever reads it and whatever its numbers are (`Parsers.jsonFormat`), and
as this library reads it (`Json.format`). The reader of this library reads the compact text of a
document as one that says the same (`Json.spells_compact`). It is followed step by step
(`Json.Reading.Leads`) over the text that is left; the lines and columns of its cursor do not matter
where nothing is refused.
-/

namespace Fieldmark

/-! ## The format -/

namespace Json.Document

variable {ν : Type} (print : ν → String)

theorem itemValues_eq_map (items : List (Document ν)) :
    itemValues print items = items.map (toValue print) := by
  induction items with
  | nil => rfl
  | cons item rest ih => rw [itemValues, ih, List.map_cons]

theorem memberValues_eq_map (members : List (String × Document ν)) :
    memberValues print members = members.map fun m => (m.1, m.2.toValue print) := by
  induction members with
  | nil => rfl
  | cons m rest ih =>
    obtain ⟨name, member⟩ := m
    rw [memberValues, ih, List.map_cons]

def shape : Document ν → Shape (Document ν) ν
  | null => .other (.text "")
  | bool value => .truth value
  | number x => .number x
  | string content => .text content
  | array items => .list items
  | object members => .table members

theorem toValue_eq (document : Document ν) :
    document.toValue print = document.shape.value print (toValue print) := by
  cases document with
  | array items => rw [toValue, itemValues_eq_map]; rfl
  | object members => rw [toValue, memberValues_eq_map]; rfl
  | _ => rfl

end Json.Document

namespace Parsers

variable {ν μ : Type} (parsers : Parsers ν μ)

/-- JSON, where integers and numerals are read as given numbers. -/
def jsonFormat (integer : Int64 → ν) (numeral? : Numeral → Option ν) :
    Format (Json.Document ν) ν where
  read := parsers.json
  shape := Json.Document.shape
  integer := integer
  numeral? := numeral?
  print := parsers.jsonNumber
  toValue := Json.Document.toValue parsers.jsonNumber
  toValue_eq := Json.Document.toValue_eq parsers.jsonNumber

theorem readDataFile_json {text : List Char} {document : Json.Document ν} (path : String)
    (read : parsers.json text = .ok document) :
    parsers.readDataFile text "json" path = .ok (document.toValue parsers.jsonNumber) := by
  simp [readDataFile, DataFormat.ofName?, Parsers.read, read, Except.map, Except.mapError]

end Parsers

namespace Json

/-- The number that a document is read as which holds a numeral and nothing else. -/
def numeral? (n : Numeral) : Option Binary64 :=
  match read n.text maxDepth with
  | .ok (.number (.float x)) => some x
  | _ => none

/-- JSON as this library reads it. -/
def format : Format Json Number :=
  Parsers.own.jsonFormat (fun i => .integer i.toInt) fun n => (numeral? n).map .float

namespace Reading

/-! ## Steps of the reader -/

theorem foldl_utf8Size (front : List Char) (n : Nat) :
    front.foldl (fun sum char => sum + char.utf8Size) n =
      n + front.foldl (fun sum char => sum + char.utf8Size) 0 := by
  induction front generalizing n with
  | nil => rfl
  | cons c front ih => rw [List.foldl_cons, List.foldl_cons, ih, ih (0 + _)]; omega

theorem rest_pastBytes (line column : Nat) (front rest : List Char) :
    (Cursor.pastBytes line column (front.foldl (fun sum char => sum + char.utf8Size) 0)
      (front ++ rest)).rest = rest := by
  induction front generalizing line column with
  | nil => cases rest <;> simp [Cursor.pastBytes]
  | cons c front ih =>
    have size : 0 < c.utf8Size := c.utf8Size_pos
    rw [List.foldl_cons, foldl_utf8Size, Nat.zero_add, List.cons_append, Cursor.pastBytes,
      if_neg (by omega)]
    split
    · rename_i feed
      have one : c.utf8Size = 1 := by rw [feed]; decide
      rw [one, Nat.add_sub_cancel_left]
      exact ih ..
    · rw [if_pos (Nat.le_add_right ..), Nat.add_sub_cancel_left]
      exact ih ..

variable {α β : Type} {r r' r'' : Reading α} {a : α} {text rest rest' : List Char}

/-- Reading goes on as another reading does behind a part of the text. -/
def Leads (r r' : Reading α) (text rest : List Char) : Prop :=
  ∀ c : Cursor, c.rest = text → ∃ c' : Cursor, c'.rest = rest ∧ r c = r' c'

/-- A reading that succeeds. -/
def Gives (r : Reading α) (text : List Char) (a : α) (rest : List Char) : Prop :=
  Leads r (pure a) text rest

theorem Leads.refl (r : Reading α) (text : List Char) : Leads r r text text :=
  fun c here => ⟨c, here, rfl⟩

theorem Leads.trans (first : Leads r r' text rest) (second : Leads r' r'' rest rest') :
    Leads r r'' text rest' := by
  intro c here
  obtain ⟨c', there, same⟩ := first c here
  obtain ⟨c'', behind, same'⟩ := second c' there
  exact ⟨c'', behind, same.trans same'⟩

theorem Leads.bind (leads : Leads r r' text rest) (f : α → Reading β) :
    Leads (r >>= f) (r' >>= f) text rest := by
  intro c here
  obtain ⟨c', there, same⟩ := leads c here
  refine ⟨c', there, ?_⟩
  change StateT.bind r f c = StateT.bind r' f c'
  rw [StateT.bind, StateT.bind, same]

/-- What follows a part goes on with what the part gives. -/
theorem Gives.bind (gives : Gives r text a rest) (f : α → Reading β) :
    Leads (r >>= f) (f a) text rest := Leads.bind gives f

theorem gives_peek (text : List Char) : Gives peek text text.head? text :=
  fun c here => ⟨c, here, by subst here; rfl⟩

theorem gives_peekWhile (kind : Char → Bool) (text : List Char) :
    Gives (peekWhile kind) text (text.takeWhile kind) text :=
  fun c here => ⟨c, here, by subst here; rfl⟩

theorem gives_left (text : List Char) : Gives left text text.length text :=
  fun c here => ⟨c, here, by subst here; rfl⟩

theorem gives_take (c : Char) (rest : List Char) : Gives take (c :: rest) (some c) rest := by
  intro cursor here
  refine ⟨cursor.past [c], ?_, ?_⟩
  · rw [Cursor.past, Cursor.skipBytes, here]
    exact rest_pastBytes _ _ [c] rest
  · simp only [take, here]
    rfl

theorem gives_skip (front rest : List Char) : Gives (skip front) (front ++ rest) () rest := by
  intro cursor here
  refine ⟨cursor.past front, ?_, rfl⟩
  rw [Cursor.past, Cursor.skipBytes, here]
  exact rest_pastBytes _ _ front rest

/-- In front of anything else no space is skipped. -/
theorem gives_skipSpace (stop : ∀ c, text.head? = some c → isSpace c = false) :
    Gives skipSpace text () text := by
  refine ((gives_peekWhile isSpace text).bind _).trans ?_
  have none : text.takeWhile isSpace = [] :=
    takeWhile_append_stop (List.forall_mem_nil fun c => isSpace c) stop
  rw [none]
  exact gives_skip [] text

/-- The next character is looked at where it is no space. -/
theorem leads_peekPastSpace {c : Char} (space : isSpace c = false) (behind : List Char)
    (f : Option Char → Reading β) :
    Leads (do skipSpace; f (← peek)) (f (some c)) (c :: behind) (c :: behind) := by
  have stop : ∀ other, (c :: behind).head? = some other → isSpace other = false := by
    rintro _ ⟨⟩
    exact space
  exact ((gives_skipSpace stop).bind _).trans ((gives_peek _).bind f)

/-! ## Scalars -/

theorem gives_literal (value : Json) (word rest : List Char) :
    Gives (literal value word) (word ++ rest) value rest := by
  induction word with
  | nil => exact Leads.refl _ _
  | cons c word ih =>
    rw [literal]
    refine ((gives_peek _).bind _).trans ?_
    dsimp only [List.cons_append, List.head?_cons]
    rw [if_pos rfl]
    exact ((gives_take c _).bind _).trans ih

theorem gather_eq {n : Nat} {digits : List Char}
    (fits : Nat.ofDigitChars 10 digits n ≤ Number.maxSignificand) :
    gather n digits = (Nat.ofDigitChars 10 digits n, []) := by
  induction digits generalizing n with
  | nil => rfl
  | cons c digits ih =>
    rw [Nat.ofDigitChars_cons, Nat.mul_comm] at fits ⊢
    rw [gather, digitValue]
    rw [if_pos (Nat.le_trans (le_ofDigitChars ..) fits)]
    exact ih fits

theorem gather_cons {c : Char} (digit : c.isDigit) (digits : List Char) :
    gather 0 (c :: digits) = gather (digitValue c) digits := by
  have small : digitValue c ≤ Number.maxSignificand := by
    have bound : c.toNat ≤ 57 := (Char.isDigit_iff_toNat.mp digit).2
    exact Nat.le_trans (Nat.le_trans (Nat.sub_le ..) bound) (by decide)
  rw [gather, Nat.zero_mul, Nat.zero_add]
  exact if_pos small

/-- The digits in front of a point, or those of an integer. -/
theorem leads_number (negative : Bool) (n : Nat)
    (stop : ∀ c, rest.head? = some c → c.isDigit = false) :
    Leads (number negative)
      (numberBehind negative (gather 0 (Nat.toDigits 10 n)).1
        (gather 0 (Nat.toDigits 10 n)).2.length)
      (Nat.toDigits 10 n ++ rest) rest := by
  unfold number
  refine ((gives_peek _).bind _).trans ?_
  obtain zero | ⟨c, digits, leading, digit, nonzero⟩ := toDigits_cases n
  · rw [zero]
    refine ((gives_take '0' rest).bind _).trans (((gives_peek rest).bind _).trans ?_)
    cases rest with
    | nil => exact Leads.refl _ _
    | cons c rest =>
      dsimp only [List.head?_cons]
      rw [stop c rfl]
      exact Leads.refl _ _
  · rw [leading, List.cons_append]
    dsimp only [List.head?_cons]
    have all : ∀ c ∈ digits, c.isDigit := fun other member =>
      Nat.isDigit_of_mem_toDigits (by decide) (by decide)
        (leading ▸ List.mem_cons_of_mem c member)
    rw [if_neg nonzero, if_pos digit, gather_cons digit]
    refine ((gives_take c _).bind _).trans (((gives_peekWhile _ _).bind _).trans ?_)
    rw [takeWhile_append_stop all stop]
    exact ((gives_skip digits rest).bind _).trans (Leads.refl _ _)

theorem head_ne_of_delimited {mark : Char} (none : mark ∉ [',', ']', '}', '\n'])
    (ends : Delimited rest) : rest.head? ≠ some mark := by
  intro head
  cases ends with
  | nil => contradiction
  | cons behind member => exact none (Option.some.inj head ▸ member)

theorem leads_exponentOrEnd (negative : Bool) (significand : Nat) (exponent : Int)
    (ends : Delimited rest) :
    Leads (exponentOrEnd negative significand exponent) (float negative significand exponent)
      rest rest := by
  unfold exponentOrEnd
  refine ((gives_peek rest).bind _).trans ?_
  rw [if_neg fun next => next.elim (head_ne_of_delimited (by decide) ends)
    (head_ne_of_delimited (by decide) ends)]
  exact Leads.refl _ _

theorem gives_integer (negative : Bool) (significand : Nat) (ends : Delimited rest) :
    Gives (numberBehind negative significand 0) rest
      (.number (Number.ofDigits negative significand)) rest := by
  unfold numberBehind
  refine ((gives_peek rest).bind _).trans ?_
  rw [if_neg (head_ne_of_delimited (by decide) ends), if_neg]
  · exact Leads.refl _ _
  · rintro (head | head | dropped)
    · exact head_ne_of_delimited (by decide) ends head
    · exact head_ne_of_delimited (by decide) ends head
    · exact dropped rfl

/-- The digits of a numeral as they are gathered, and the exponent that this leaves. -/
def gathered (n : Numeral) : Nat × Int :=
  let (significand, dropped) := gather 0 n.digits
  let (all, dropped') := gather significand n.places
  (all, dropped.length - (n.places.length - dropped'.length : Nat))

theorem leads_magnitude (n : Numeral) (ends : Delimited rest) :
    Leads (number n.negative) (float n.negative (gathered n).1 (gathered n).2)
      (n.magnitude ++ rest) rest := by
  have places : n.places ≠ [] := by simpa [Numeral.places] using n.broken
  have point : ∀ c, ('.' :: (n.places ++ rest)).head? = some c → c.isDigit = false := by
    rintro c ⟨⟩
    rfl
  rw [Numeral.magnitude, List.append_assoc, List.cons_append]
  refine (leads_number n.negative n.whole point).trans ?_
  unfold numberBehind
  refine ((gives_peek _).bind _).trans ?_
  rw [if_pos (show List.head? _ = some '.' from rfl), fractionPart]
  refine ((gives_take '.' _).bind _).trans (((gives_peekWhile _ _).bind _).trans ?_)
  rw [takeWhile_append_stop (fun c => isDigit_of_mem_places) (ends.stop _ rfl)]
  refine ((gives_skip _ _).bind _).trans ?_
  dsimp only
  rw [if_neg places]
  exact leads_exponentOrEnd _ _ _ ends

theorem isSpace_of_isDigit {c : Char} (digit : c.isDigit) : isSpace c = false := by
  have other {mark : Char} (none : mark.isDigit = false) : c ≠ mark := ne_of_isDigit digit none
  simp [isSpace, other]

theorem leads_document_digit (depth : Nat) {c : Char} (digit : c.isDigit) (behind : List Char) :
    Leads (document depth) (number false) (c :: behind) (c :: behind) := by
  unfold document
  refine (leads_peekPastSpace (isSpace_of_isDigit digit) _ _).trans ?_
  split
  case h_9 found =>
    obtain rfl := Option.some.inj found
    rw [if_pos digit]
    exact Leads.refl _ _
  all_goals first
    | contradiction
    | exact absurd (Option.some.inj ‹_›) (ne_of_isDigit digit rfl)

theorem leads_document_minus (depth : Nat) (behind : List Char) :
    Leads (document depth) (number true) ('-' :: behind) behind := by
  unfold document
  refine (leads_peekPastSpace rfl _ _).trans ?_
  exact ((gives_take '-' behind).bind _).trans (Leads.refl _ _)

theorem leads_document_toDigits (depth n : Nat) (behind : List Char) :
    Leads (document depth) (number false) (Nat.toDigits 10 n ++ behind)
      (Nat.toDigits 10 n ++ behind) := by
  obtain ⟨c, digits, leading, digit⟩ := exists_cons_toDigits n
  rw [leading]
  exact leads_document_digit depth digit _

theorem leads_numeral (depth : Nat) (n : Numeral) (ends : Delimited rest) :
    Leads (document depth) (float n.negative (gathered n).1 (gathered n).2)
      (n.text ++ rest) rest := by
  have behind := leads_magnitude n ends
  unfold Numeral.text
  cases sign : n.negative with
  | true =>
    rw [sign] at behind
    exact (leads_document_minus depth _).trans behind
  | false =>
    rw [sign] at behind
    rw [if_neg Bool.false_ne_true]
    refine Leads.trans ?_ behind
    rw [Numeral.magnitude, List.append_assoc]
    exact leads_document_toDigits depth n.whole _

theorem read_of_gives {text : List Char} {json : Json}
    (gives : Gives (document maxDepth) text json []) : read text maxDepth = .ok json := by
  have finished : Gives (whole maxDepth) text json [] := by
    refine (gives.bind _).trans (((gives_skipSpace (by rintro _ ⟨⟩)).bind _).trans ?_)
    exact ((gives_peek []).bind _).trans (Leads.refl _ _)
  obtain ⟨c, -, same⟩ := finished (.ofText text) rfl
  rw [read, same]
  rfl

theorem numeral?_eq (n : Numeral) :
    numeral? n = Number.ofParts n.negative (gathered n).1 (gathered n).2 := by
  have leads := leads_numeral maxDepth n .nil
  rw [List.append_nil] at leads
  unfold numeral?
  cases parts : Number.ofParts n.negative (gathered n).1 (gathered n).2 with
  | some x =>
    rw [float, parts] at leads
    rw [read_of_gives leads]
  | none =>
    rw [float, parts] at leads
    obtain ⟨c, -, refused⟩ : ∃ c : Cursor, c.rest = [] ∧
        whole maxDepth (.ofText n.text) = .error (c.taken .numberOutOfRange) := leads.bind _ _ rfl
    rw [read, refused]

/-- A numeral is read as the same number wherever it stands. -/
theorem gives_numeral {n : Numeral} {x : Binary64} (number : numeral? n = some x) (depth : Nat)
    (ends : Delimited rest) :
    Gives (document depth) (n.text ++ rest) (.number (.float x)) rest := by
  refine (leads_numeral depth n ends).trans ?_
  rw [float, ← numeral?_eq, number]
  exact Leads.refl _ _

theorem gather_toDigits {n : Nat} (fits : n ≤ Number.maxSignificand) :
    gather 0 (Nat.toDigits 10 n) = (n, []) := by
  have same : Nat.ofDigitChars 10 (Nat.toDigits 10 n) 0 = n := Nat.ofDigitChars_ten_toDigits
  rw [gather_eq (by rwa [same]), same]

/-- An integer of 64 bits is kept as it is. -/
theorem gives_integerText (value : Int64) (depth : Nat) (ends : Delimited rest) :
    Gives (document depth) (integerText value.toInt ++ rest) (.number (.integer value.toInt))
      rest := by
  have low := Int64.le_toInt value
  have high := Int64.toInt_lt value
  have fits : value.toInt.natAbs ≤ Number.maxSignificand := by
    have top : Number.maxSignificand = 2 ^ 64 - 1 := by decide
    omega
  have digits (negative : Bool) := leads_number negative value.toInt.natAbs
    (ends.stop Char.isDigit rfl)
  simp only [gather_toDigits fits] at digits
  have kept (negative : Bool) := (digits negative).trans (gives_integer negative _ ends)
  unfold integerText
  split
  · rename_i negative
    have number : Number.ofDigits true value.toInt.natAbs = .integer value.toInt := by
      have half : Word.count 63 = 2 ^ 63 := rfl
      rw [Number.ofDigits, if_neg (by decide), if_pos (by omega)]
      congr 1
      omega
    rw [← number]
    exact (leads_document_minus depth _).trans (kept true)
  · rename_i nonneg
    have number : Number.ofDigits false value.toInt.natAbs = .integer value.toInt := by
      rw [Number.ofDigits, if_pos (by decide)]
      congr 1
      omega
    rw [← number]
    exact (leads_document_toDigits depth _ rest).trans (kept false)

/-! ## Strings -/

/-- The digits behind `\u` in a compact text. -/
def escapeDigits (n : Nat) : List Char := ['0', '0', Nat.digitChar (n / 16), Nat.digitChar (n % 16)]

theorem gives_hexEscape {n : Nat} (small : n < 128) (rest : List Char) :
    Gives hexEscape (escapeDigits n ++ rest) n rest := by
  have bytes : (escapeDigits n).foldl (fun sum char => sum + char.utf8Size) 0 = 4 := by
    decide +revert
  have number : hexNumber? (escapeDigits n) = some n := by decide +revert
  intro c here
  have front : c.rest.take 4 = escapeDigits n := by rw [here]; rfl
  refine ⟨c.skipBytes 4, ?_, ?_⟩
  · rw [Cursor.skipBytes, here, ← bytes]
    exact rest_pastBytes ..
  · rw [hexEscape, front, bytes, number]
    rfl

theorem gives_escape {c : Char} (control : c.toNat < 0x20 ∨ c.toNat = 0x7F) (rest : List Char) :
    Gives escape ('u' :: (escapeDigits c.toNat ++ rest)) c rest := by
  have small : c.toNat < 128 := by omega
  unfold escape
  refine ((gives_peek _).bind _).trans (((gives_take 'u' _).bind _).trans ?_)
  unfold unicodeEscape
  refine ((gives_hexEscape small rest).bind _).trans ?_
  have plain : isTrailing c.toNat = false ∧ isLeading c.toNat = false := by
    unfold isTrailing isLeading
    simp
    omega
  rw [if_neg (by simp [plain.1]), if_neg (by simp [plain.2]), Char.ofNat_toNat]
  exact Leads.refl _ _

theorem gives_escape_mark {c : Char} (mark : c = '"' ∨ c = '\\') (rest : List Char) :
    Gives escape (c :: rest) c rest := by
  unfold escape
  rcases mark with rfl | rfl
  · exact ((gives_peek _).bind _).trans (((gives_take _ rest).bind _).trans (Leads.refl _ _))
  · exact ((gives_peek _).bind _).trans (((gives_take _ rest).bind _).trans (Leads.refl _ _))

theorem gives_stringBehind (content : List Char) {fuel : Nat} (enough : content.length < fuel)
    (rest : List Char) :
    Gives (stringBehind fuel) (content.flatMap charInQuotes ++ '"' :: rest) content rest := by
  induction content generalizing fuel with
  | nil =>
    obtain ⟨fuel, rfl⟩ := Nat.exists_eq_add_of_lt enough
    rw [stringBehind]
    exact ((gives_take '"' rest).bind _).trans (Leads.refl _ _)
  | cons c content ih =>
    obtain ⟨fuel, rfl⟩ := Nat.exists_eq_add_one.mpr (Nat.zero_lt_of_lt enough)
    have behind := (ih (Nat.lt_of_succ_lt_succ enough)).bind fun more => pure (c :: more)
    rw [stringBehind, List.flatMap_cons, List.append_assoc, charInQuotes]
    split
    · rename_i mark
      exact ((gives_take '\\' _).bind _).trans (((gives_escape_mark mark _).bind _).trans behind)
    · rename_i unmarked
      split
      · rename_i control
        exact ((gives_take '\\' _).bind _).trans (((gives_escape control _).bind _).trans behind)
      · rename_i plain
        refine ((gives_take c _).bind _).trans ?_
        split
        case h_4 found =>
          obtain rfl := Option.some.inj found
          rw [if_neg fun low => plain (.inl low)]
          exact behind
        all_goals first
          | contradiction
          | exact absurd (Option.some.inj ‹_›) fun same => unmarked (by simp [same])

/-- A text in quotes behind the first of them. -/
theorem gives_string (content : String) (rest : List Char) :
    Gives string (content.toList.flatMap charInQuotes ++ '"' :: rest) content rest := by
  unfold string
  refine ((gives_left _).bind _).trans ?_
  refine ((gives_stringBehind _ (length_lt_inQuotes content.toList rest) rest).bind _).trans ?_
  rw [String.ofList_toList]
  exact Leads.refl _ _

/-! ## Lists and objects -/

theorem plain_of_starts {text : List Char} (starts : Starts text) :
    ∃ c behind, text = c :: behind ∧ isSpace c = false ∧ c ≠ ']' := by
  obtain ⟨c, behind, rfl, mark | digit⟩ := starts
  · refine ⟨c, behind, rfl, ?_⟩
    simp only [List.mem_cons, List.not_mem_nil, or_false] at mark
    rcases mark with rfl | rfl | rfl | rfl | rfl | rfl <;> exact ⟨rfl, by decide⟩
  · exact ⟨c, behind, rfl, isSpace_of_isDigit digit, ne_of_isDigit digit rfl⟩

variable {element : Reading Json}

/-- An element that is read wherever an element may end. -/
def Reads (element : Reading Json) (text : List Char) (json : Json) : Prop :=
  ∀ rest, Delimited rest → Gives element (text ++ rest) json rest

/-- An item in front of the items behind it. -/
theorem gives_item {text : List Char} {tree : Json} (reads : Reads element text tree)
    {texts : List (List Char)} {trees : List Json} {fuel : Nat} {rest : List Char}
    (behind : Gives (items element false fuel) (texts.flatMap (',' :: ·) ++ ']' :: rest) trees
      rest) :
    Gives (do return (← element) :: (← items element false fuel))
      (text ++ (texts.flatMap (',' :: ·) ++ ']' :: rest)) (tree :: trees) rest :=
  ((reads _ (delimited_flatMap ']' (by decide) texts rest)).bind _).trans (behind.bind _)

theorem gives_items_behind {texts : List (List Char)} {trees : List Json}
    (each : List.Forall₂ (fun text tree => Starts text ∧ Reads element text tree) texts trees)
    {fuel : Nat} (enough : texts.length < fuel) (rest : List Char) :
    Gives (items element false fuel) (texts.flatMap (',' :: ·) ++ ']' :: rest) trees rest := by
  induction each generalizing fuel with
  | nil =>
    obtain ⟨fuel, rfl⟩ := Nat.exists_eq_add_of_lt enough
    rw [items]
    refine (leads_peekPastSpace rfl _ _).trans ?_
    exact ((gives_take ']' rest).bind _).trans (Leads.refl _ _)
  | @cons text tree texts trees first _ ih =>
    obtain ⟨fuel, rfl⟩ := Nat.exists_eq_add_one.mpr (Nat.zero_lt_of_lt enough)
    obtain ⟨starts, reads⟩ := first
    have more := gives_item reads (ih (Nat.lt_of_succ_lt_succ enough))
    rw [items, List.flatMap_cons, List.append_assoc]
    refine (leads_peekPastSpace rfl _ _).trans ?_
    refine ((gives_take ',' _).bind _).trans ?_
    obtain ⟨c, inside, rfl, space, bracket⟩ := plain_of_starts starts
    refine (leads_peekPastSpace space _ _).trans ?_
    split
    case h_3 => exact more
    all_goals first
      | contradiction
      | exact absurd (Option.some.inj ‹_›) bracket

theorem gives_items {texts : List (List Char)} {trees : List Json}
    (each : List.Forall₂ (fun text tree => Starts text ∧ Reads element text tree) texts trees)
    {fuel : Nat} (enough : texts.length < fuel) (rest : List Char) :
    Gives (items element true fuel) (commaSeparated texts ++ ']' :: rest) trees rest := by
  obtain ⟨fuel, rfl⟩ := Nat.exists_eq_add_one.mpr (Nat.zero_lt_of_lt enough)
  cases each with
  | nil =>
    rw [items]
    refine (leads_peekPastSpace rfl _ _).trans ?_
    exact ((gives_take ']' rest).bind _).trans (Leads.refl _ _)
  | @cons text tree texts trees first each =>
    obtain ⟨starts, reads⟩ := first
    have more := gives_item reads (gives_items_behind each (Nat.lt_of_succ_lt_succ enough) rest)
    rw [items, commaSeparated, List.append_assoc]
    obtain ⟨c, inside, rfl, space, bracket⟩ := plain_of_starts starts
    refine (leads_peekPastSpace space _ _).trans ?_
    split
    case h_3 => exact more
    all_goals first
      | contradiction
      | exact absurd (Option.some.inj ‹_›) bracket

theorem gives_member (name : String) {text : List Char} {tree : Json}
    (reads : Reads element text tree) {rest : List Char} (ends : Delimited rest) :
    Gives (member element) (inQuotes name ++ ':' :: text ++ rest) (name, tree) rest := by
  have behind := (reads rest ends).bind fun value => pure (name, value)
  rw [List.append_assoc, List.cons_append, inQuotes_append]
  unfold member
  refine ((gives_take '"' _).bind _).trans (((gives_string name _).bind _).trans ?_)
  refine (leads_peekPastSpace rfl _ _).trans ?_
  exact ((gives_take ':' _).bind _).trans behind

/-- The text of a member. -/
def Spelled (element : Reading Json) (text : List Char) (m : String × Json) : Prop :=
  ∃ behind, text = inQuotes m.1 ++ ':' :: behind ∧ Reads element behind m.2

/-- A member in front of the members behind it. -/
theorem gives_named {text : List Char} {m : String × Json} (spelled : Spelled element text m)
    {texts : List (List Char)} {trees : List (String × Json)} {fuel : Nat} {rest : List Char}
    (behind : Gives (members element false fuel) (texts.flatMap (',' :: ·) ++ '}' :: rest) trees
      rest) :
    Gives (do return (← member element) :: (← members element false fuel))
      (text ++ (texts.flatMap (',' :: ·) ++ '}' :: rest)) (m :: trees) rest := by
  obtain ⟨value, rfl, reads⟩ := spelled
  have ends := delimited_flatMap '}' (by decide) texts rest
  exact ((gives_member m.1 reads ends).bind _).trans (behind.bind _)

theorem gives_members_behind {texts : List (List Char)} {trees : List (String × Json)}
    (each : List.Forall₂ (Spelled element) texts trees)
    {fuel : Nat} (enough : texts.length < fuel) (rest : List Char) :
    Gives (members element false fuel) (texts.flatMap (',' :: ·) ++ '}' :: rest) trees rest := by
  induction each generalizing fuel with
  | nil =>
    obtain ⟨fuel, rfl⟩ := Nat.exists_eq_add_of_lt enough
    rw [members]
    refine (leads_peekPastSpace rfl _ _).trans ?_
    exact ((gives_take '}' rest).bind _).trans (Leads.refl _ _)
  | @cons text m texts trees first _ ih =>
    obtain ⟨fuel, rfl⟩ := Nat.exists_eq_add_one.mpr (Nat.zero_lt_of_lt enough)
    have more := gives_named first (ih (Nat.lt_of_succ_lt_succ enough))
    obtain ⟨value, rfl, -⟩ := first
    rw [members, List.flatMap_cons, List.append_assoc]
    refine (leads_peekPastSpace rfl _ _).trans ?_
    refine ((gives_take ',' _).bind _).trans ?_
    exact (leads_peekPastSpace rfl _ _).trans more

theorem gives_members {texts : List (List Char)} {trees : List (String × Json)}
    (each : List.Forall₂ (Spelled element) texts trees)
    {fuel : Nat} (enough : texts.length < fuel) (rest : List Char) :
    Gives (members element true fuel) (commaSeparated texts ++ '}' :: rest) trees rest := by
  obtain ⟨fuel, rfl⟩ := Nat.exists_eq_add_one.mpr (Nat.zero_lt_of_lt enough)
  cases each with
  | nil =>
    rw [members]
    refine (leads_peekPastSpace rfl _ _).trans ?_
    exact ((gives_take '}' rest).bind _).trans (Leads.refl _ _)
  | @cons text m texts trees first each =>
    have more := gives_named first (gives_members_behind each (Nat.lt_of_succ_lt_succ enough) rest)
    obtain ⟨value, rfl, -⟩ := first
    rw [members, commaSeparated, List.append_assoc]
    exact (leads_peekPastSpace rfl _ _).trans more

/-! ## Documents -/

theorem reads_list {depth : Nat} {texts : List (List Char)} {trees : List Json}
    (each : List.Forall₂ (fun text tree => Starts text ∧ Reads (document depth) text tree)
      texts trees) :
    Reads (document (depth + 1)) ('[' :: commaSeparated texts ++ [']']) (.array trees) := by
  intro rest ends
  have enough := length_lt_commaSeparated texts ']' rest
  rw [List.append_assoc, List.cons_append]
  unfold document
  refine (leads_peekPastSpace rfl _ _).trans ?_
  refine ((gives_take '[' _).bind _).trans (((gives_left _).bind _).trans ?_)
  exact ((gives_items each enough rest).bind _).trans (Leads.refl _ _)

theorem reads_table {depth : Nat} {texts : List (List Char)} {trees : List (String × Json)}
    (each : List.Forall₂ (Spelled (document depth)) texts trees) :
    Reads (document (depth + 1)) ('{' :: commaSeparated texts ++ ['}']) (.object trees) := by
  intro rest ends
  have enough := length_lt_commaSeparated texts '}' rest
  rw [List.append_assoc, List.cons_append]
  unfold document
  refine (leads_peekPastSpace rfl _ _).trans ?_
  refine ((gives_take '{' _).bind _).trans (((gives_left _).bind _).trans ?_)
  exact ((gives_members each enough rest).bind _).trans (Leads.refl _ _)

theorem reads_text (depth : Nat) (content : String) :
    Reads (document depth) (inQuotes content) (.string content) := by
  intro rest _
  rw [inQuotes_append]
  unfold document
  refine (leads_peekPastSpace rfl _ _).trans ?_
  refine ((gives_take '"' _).bind _).trans (((gives_string content rest).bind _).trans ?_)
  exact Leads.refl _ _

theorem reads_truth (depth : Nat) (value : Bool) :
    Reads (document depth) ((Datum.truth value).spell ':') (.bool value) := by
  intro rest _
  unfold document
  cases value with
  | true =>
    refine (leads_peekPastSpace rfl _ _).trans ?_
    exact ((gives_take 't' _).bind _).trans (gives_literal _ ['r', 'u', 'e'] rest)
  | false =>
    refine (leads_peekPastSpace rfl _ _).trans ?_
    exact ((gives_take 'f' _).bind _).trans (gives_literal _ ['a', 'l', 's', 'e'] rest)

/-- The compact text of a document is read as one that says it. -/
theorem exists_reads {depth : Nat} {d : Datum} (within : d.Within depth) (distinct : d.Distinct)
    (readable : ∀ n, d.Holds n → (numeral? n).isSome) :
    ∃ tree, format.Says d tree ∧ Reads (document depth) (d.spell ':') tree := by
  induction within with
  | text depth content => exact ⟨.string content, .text rfl, reads_text depth content⟩
  | truth depth value => exact ⟨.bool value, .truth rfl, reads_truth depth value⟩
  | integer depth value =>
    exact ⟨.number (.integer value.toInt), .integer rfl, fun _ => gives_integerText value depth⟩
  | decimal depth n =>
    obtain ⟨x, number⟩ := Option.isSome_iff_exists.mp (readable n .decimal)
    have kept : format.numeral? n = some (.float x) := congrArg (Option.map Number.float) number
    exact ⟨.number (.float x), .decimal rfl kept, fun _ => gives_numeral number depth⟩
  | @list depth items all ih =>
    cases distinct with
    | list distinct =>
      obtain ⟨trees, each⟩ := Format.exists_forall₂ fun d member =>
        ih d member (distinct d member) fun n holds => readable n (.item member holds)
      refine ⟨.array trees, .of_items rfl (each.imp fun _ _ => And.left), ?_⟩
      rw [Datum.spell, Datum.spellItems_eq_map]
      refine reads_list (List.forall₂_map_left_iff.mpr (each.imp fun d tree related => ?_))
      exact ⟨d.starts_spell ':', related.2⟩
  | @table depth entries all ih =>
    cases distinct with
    | table names distinct =>
      obtain ⟨members, each⟩ := Format.exists_forall₂
        (R := fun (e : String × Datum) (m : String × Json) => e.1 = m.1 ∧ format.Says e.2 m.2 ∧
          Reads (document depth) (e.2.spell ':') m.2) fun e member => by
        obtain ⟨tree, related⟩ := ih e member (distinct e member) fun n holds =>
          readable n (.entry member holds)
        exact ⟨(e.1, tree), rfl, related⟩
      refine ⟨.object members, .of_entries rfl names (each.imp fun _ _ h => ⟨h.1, h.2.1⟩), ?_⟩
      rw [Datum.spell, Datum.spellEntries_eq_map]
      refine reads_table (List.forall₂_map_left_iff.mpr (each.imp fun e m related => ?_))
      exact ⟨e.2.spell ':', by rw [related.1], related.2.2⟩

end Reading

/-- JSON reads the compact text of every document that is not too deep and whose decimal numbers it
can read. -/
theorem spells_compact {d : Datum} (within : d.Within maxDepth) (distinct : d.Distinct)
    (readable : ∀ n, d.Holds n → (numeral? n).isSome) : format.Spells d (d.spell ':') := by
  obtain ⟨tree, said, reads⟩ := Reading.exists_reads within distinct readable
  have gives := reads [] .nil
  rw [List.append_nil] at gives
  refine ⟨tree, ?_, said⟩
  change (read _ maxDepth).mapError _ = _
  rw [Reading.read_of_gives gives]
  rfl

end Json

end Fieldmark
