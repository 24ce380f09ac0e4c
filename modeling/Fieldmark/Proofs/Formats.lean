import Fieldmark.Proofs.JsonText
import Fieldmark.Proofs.NumberText
import Fieldmark.Proofs.TomlText

/-!
# One document in two formats

A data document may stand in a JSON file or in a TOML file. Its value does not depend on that as
long as it has no decimal numbers, since what a document says is the same in both formats. Decimal
numbers are read and written by each format in its own way, so that the values agree exactly if every
decimal number gets the same text (`formats_agree_iff`). It does not get the same text if it is
written with nothing but zeros behind its point: JSON shows that it is no integer, TOML does not. A
number as simple as 1.0 is one of these (`whole_decimal_differs`).

The readers of this library differ in more than that. JSON rounds digits and power of ten one after
the other, TOML rounds once; JSON writes very small and large numbers with an exponent, TOML never
does (`own_formats_agree_iff`).
-/

namespace Fieldmark

/-! ## Numbers that are read -/

theorem Binary64.fraction_pos (x : Binary64) : 0 < x.fraction.2 := by
  unfold fraction
  split
  · exact Nat.one_pos
  · exact Nat.pow_pos two_pos

theorem Decimal.proper_of_toBinary64 {negative : Bool} {d : Decimal} {x : Binary64}
    (read : d.toBinary64 negative = some x) : x.Proper := by
  unfold toBinary64 at read
  split at read
  · obtain rfl := Option.some.inj read
    exact Binary64.proper_zero negative
  · dsimp only at read
    split at read
    · contradiction
    · split at read
      · obtain rfl := Option.some.inj read
        exact Binary64.proper_zero negative
      · split at read
        · exact (Binary64.proper_of_ofFraction Nat.one_pos read).1
        · exact (Binary64.proper_of_ofFraction (Nat.pow_pos (by decide)) read).1

namespace Json.Number

theorem power_pos {k : Nat} (small : k ≤ maxPower) : 0 < (power k).fraction.1 := by
  have all : ∀ k < 309, 0 < (power k).fraction.1 := by decide +kernel
  exact all k (Nat.lt_succ_of_le small)

theorem proper_of_scaleDown {x y : Binary64} {k : Nat} (small : k ≤ maxPower)
    (scaled : x.scaleDown (power k) = some y) : y.Proper :=
  (Binary64.proper_of_ofFraction (Nat.mul_pos x.fraction_pos (power_pos small)) scaled).1

theorem proper_of_divideByPower {x y : Binary64} {k fuel : Nat} (proper : x.Proper)
    (divided : divideByPower x k fuel = some y) : y.Proper := by
  induction fuel generalizing x k with
  | zero =>
    obtain rfl := Option.some.inj divided
    exact Binary64.proper_zero _
  | succ fuel ih =>
    unfold divideByPower at divided
    split at divided
    · exact proper_of_scaleDown ‹_› divided
    · split at divided
      · obtain rfl := Option.some.inj divided
        exact proper
      · obtain ⟨z, scaled, divided⟩ := Option.bind_eq_some_iff.mp divided
        exact ih (proper_of_scaleDown (Nat.le_refl _) scaled) divided

theorem proper_of_ofParts {negative : Bool} {significand : Nat} {exponent : Int} {x : Binary64}
    (read : ofParts negative significand exponent = some x) : x.Proper := by
  obtain ⟨y, kept, read⟩ := Option.bind_eq_some_iff.mp read
  have proper := (Binary64.proper_of_ofFraction Nat.one_pos kept).1
  split at read
  · exact proper_of_divideByPower proper read
  · split at read
    · exact (Binary64.proper_of_ofFraction
        (Nat.mul_pos y.fraction_pos (Binary64.fraction_pos _)) read).1
    · split at read
      · obtain rfl := Option.some.inj read
        exact proper
      · contradiction

end Json.Number

/-! ## Numerals with few digits -/

namespace Json.Number

/-- The powers of ten up to 10 ^ 22 are binary numbers. -/
theorem power_exact {k : Nat} (small : k ≤ 22) :
    (power k).fraction.1 = Nat.pow 10 k * (power k).fraction.2 ∧ 0 < (power k).fraction.2 := by
  have all : ∀ k < 23,
      (power k).fraction.1 = Nat.pow 10 k * (power k).fraction.2 ∧ 0 < (power k).fraction.2 := by
    decide +kernel
  exact all k (Nat.lt_succ_of_le small)

/-- Few digits with few places are rounded once. -/
theorem ofParts_exact (negative : Bool) {n k : Nat} (digits : n ≤ 2 * Binary64.leastNormal)
    (places : k ≤ 22) (broken : 0 < k) :
    ofParts negative n (-(k : Int)) = Binary64.ofFraction negative n (Nat.pow 10 k) := by
  obtain ⟨x, kept, sign, hx, whole⟩ := Binary64.ofNat_exact negative digits
  obtain ⟨power, hp⟩ := power_exact places
  have numerator : n * x.fraction.2 * (Number.power k).fraction.2 =
      n * (x.fraction.2 * (Number.power k).fraction.2) := Nat.mul_assoc ..
  have denominator : x.fraction.2 * (Nat.pow 10 k * (Number.power k).fraction.2) =
      Nat.pow 10 k * (x.fraction.2 * (Number.power k).fraction.2) := Nat.mul_left_comm ..
  rw [ofParts, kept, Option.bind_some, if_pos (by omega), Int.natAbs_neg, Int.natAbs_natCast,
    divideByPower, if_pos (Nat.le_trans places (by decide)), Binary64.scaleDown]
  dsimp only
  rw [sign, whole, power, numerator, denominator]
  exact Binary64.ofFraction_mul_right _ _ (Nat.pow_pos (by decide)) (Nat.mul_pos hx hp)

end Json.Number

namespace Numeral

variable {n : Numeral}

theorem places_pos (n : Numeral) : 0 < n.places.length := by
  rw [places, List.length_map]
  exact List.length_pos_of_ne_nil n.broken

theorem significand_eq (n : Numeral) :
    n.significand = Nat.ofDigitChars 10 n.places n.whole := by
  have whole : Nat.ofDigitChars 10 n.digits 0 = n.whole := Nat.ofDigitChars_ten_toDigits
  rw [significand, Nat.ofDigitChars_append, whole]

theorem json_eq (digits : n.significand ≤ 2 * Binary64.leastNormal)
    (places : n.places.length ≤ 22) :
    Json.numeral? n =
      Binary64.ofFraction n.negative n.significand (Nat.pow 10 n.places.length) := by
  have room : 2 * Binary64.leastNormal ≤ Json.Number.maxSignificand := by decide
  have fits : n.significand ≤ Json.Number.maxSignificand := Nat.le_trans digits room
  have front : Json.Reading.gather 0 n.digits = (n.whole, []) := by
    refine Json.Reading.gather_toDigits (Nat.le_trans ?_ fits)
    rw [significand_eq]
    exact le_ofDigitChars ..
  have behind : Json.Reading.gather n.whole n.places = (n.significand, []) := by
    rw [significand_eq] at fits ⊢
    exact Json.Reading.gather_eq fits
  have gathered : Json.Reading.gathered n = (n.significand, -(n.places.length : Int)) := by
    simp [Json.Reading.gathered, front, behind]
  rw [Json.Reading.numeral?_eq, gathered]
  exact Json.Number.ofParts_exact _ digits places n.places_pos

theorem toml_eq (digits : n.significand ≤ 2 * Binary64.leastNormal)
    (places : n.places.length ≤ 22) :
    Toml.numeral? n =
      Binary64.ofFraction n.negative n.significand (Nat.pow 10 n.places.length) := by
  have broken := n.places_pos
  have short : (Decimal.digitsOf n.significand).length ≤ 16 := by
    refine (Nat.length_toDigits_le_iff (by decide) (by decide)).mpr ?_
    exact Nat.lt_of_le_of_lt digits (by decide)
  rw [Toml.numeral?_eq, Decimal.toBinary64]
  dsimp only
  split
  · rename_i zero
    rw [zero, Binary64.ofFraction, if_pos rfl]
  · rw [if_neg (by omega), if_neg (by omega), if_neg (by omega), Int.neg_neg, Int.toNat_natCast]

/-- Both formats make the same number of a numeral with few digits. -/
theorem read_alike (digits : n.significand ≤ 2 ^ 53) (places : n.fraction.length ≤ 22) :
    ∃ x, Json.numeral? n = some x ∧ Toml.numeral? n = some x := by
  have count : n.places.length ≤ 22 := by rwa [Numeral.places, List.length_map]
  obtain ⟨x, rounded⟩ := Option.isSome_iff_exists.mp
    (Binary64.ofFraction_isSome n.negative (Nat.pow 10 n.places.length) digits)
  exact ⟨x, (json_eq digits count).trans rounded, (toml_eq digits count).trans rounded⟩

/-- Both readers make the same number of a numeral, it is not whole, and it is neither so small nor
so large that JSON writes it with an exponent. -/
def Alike (n : Numeral) : Prop :=
  ∃ x, Json.numeral? n = some x ∧ Toml.numeral? n = some x ∧ ¬ x.IsWhole ∧
    -5 < (Decimal.shortest x).point ∧ (Decimal.shortest x).point ≤ 16

theorem alike_iff {x y : Binary64} (json : Json.numeral? n = some x)
    (toml : Toml.numeral? n = some y) :
    n.Alike ↔ Json.format.numeralText? n = Toml.format.numeralText? n := by
  have proper : x.Proper :=
    Json.Number.proper_of_ofParts ((Json.Reading.numeral?_eq n).symm.trans json)
  have proper' : y.Proper := Decimal.proper_of_toBinary64 ((Toml.numeral?_eq n).symm.trans toml)
  have texts : Json.format.numeralText? n = Toml.format.numeralText? n ↔
      Json.floatStyle.text x = Toml.Real.style.text y := by
    change ((Json.numeral? n).map Json.Number.float).map Json.Number.text =
      (((Toml.numeral? n).map Toml.Real.finite).map Sum.inr).map
        (Sum.elim toString Toml.Real.text) ↔ _
    rw [json, toml]
    exact Option.some_inj
  rw [texts, text_eq_iff proper proper', Alike, json, toml]
  constructor
  · rintro ⟨z, ⟨⟩, ⟨⟩, rest⟩
    exact ⟨rfl, rest⟩
  · rintro ⟨rfl, rest⟩
    exact ⟨x, rfl, rfl, rest⟩

end Numeral

/-! ## Whole numerals -/

/-- Whole numbers are rounded to whole numbers. -/
theorem Binary64.isWhole_of_ofNat {negative : Bool} {n : Nat} {x : Binary64}
    (rounded : ofNat negative n = some x) : x.IsWhole := by
  rcases Nat.le_total n (2 * leastNormal) with small | large
  · obtain ⟨y, same, -, -, whole⟩ := ofNat_exact negative small
    obtain rfl := Option.some.inj (rounded.symm.trans same)
    exact Dvd.intro_left n whole.symm
  · have positive : 0 < n := Nat.lt_of_lt_of_le (by decide) large
    have nonneg : 0 ≤ exponentFor n 1 := by
      have scale : 53 ≤ Nat.log2 n := (Nat.le_log2 (Nat.ne_of_gt positive)).mpr large
      rw [exponentFor, scaleOf_one positive]
      omega
    rw [ofNat, ofFraction_eq negative 1 (Nat.ne_of_gt positive)] at rounded
    split at rounded
    · contradiction
    · obtain rfl := Option.some.inj rounded
      have kept : 0 ≤ (carried negative (mantissaAt n 1 (exponentFor n 1))
          (exponentFor n 1)).exponent := by
        unfold carried
        split
        · exact Int.le_add_one nonneg
        · exact nonneg
      rw [Decimal.isWhole_iff, Int.toNat_of_nonpos (by omega)]
      exact Nat.one_dvd _

theorem Binary64.isWhole_zero (negative : Bool) : (zero negative).IsWhole :=
  Decimal.isWhole_iff.mpr (Nat.dvd_zero _)

namespace Numeral

variable {n : Numeral}

theorem significand_of_isWhole (whole : n.IsWhole) :
    n.significand = n.whole * Nat.pow 10 n.places.length := by
  have zeros : n.places = List.replicate n.places.length '0' := by
    refine List.eq_replicate_of_mem fun c member => ?_
    obtain ⟨digit, inside, rfl⟩ := List.mem_map.mp member
    rw [whole digit inside]
    rfl
  rw [significand_eq]
  nth_rewrite 1 [zeros]
  rw [Nat.ofDigitChars_replicate_zero, Nat.mul_comm]
  rfl

theorem isWhole_of_toml (whole : n.IsWhole) {x : Binary64} (toml : Toml.numeral? n = some x) :
    x.IsWhole := by
  have broken := n.places_pos
  rw [Toml.numeral?_eq, Decimal.toBinary64] at toml
  dsimp only at toml
  split at toml
  · obtain rfl := Option.some.inj toml
    exact Binary64.isWhole_zero _
  · split at toml
    · contradiction
    · split at toml
      · obtain rfl := Option.some.inj toml
        exact Binary64.isWhole_zero _
      · rw [if_neg (by omega), Int.neg_neg, Int.toNat_natCast, significand_of_isWhole whole] at toml
        have once := Binary64.ofFraction_mul_right n.negative n.whole Nat.one_pos
          (Nat.pow_pos (n := n.places.length) (by decide : 0 < 10))
        rw [Nat.one_mul] at once
        exact Binary64.isWhole_of_ofNat (once.symm.trans toml)

end Numeral

/-! ## Documents in both formats -/

namespace Parsers

variable {ν μ : Type} {parsers : Parsers ν μ} {integer : Int64 → ν} {json? : Numeral → Option ν}
  {toml? : Numeral → Option μ}

/-- What is spelled in both formats is read from both, and to the same value exactly if its decimal
numbers have the same texts. -/
theorem exists_values (integers : ∀ i, parsers.jsonNumber (integer i) = toString i.toInt)
    {d : Datum} {json toml : List Char} (path path' : String)
    (spells : (parsers.jsonFormat integer json?).Spells d json)
    (spells' : (parsers.tomlFormat toml?).Spells d toml) :
    ∃ v w, parsers.readDataFile json "json" path = .ok v ∧
      parsers.readDataFile toml "toml" path' = .ok w ∧
      (v = w ↔ ∀ n, d.Holds n → (parsers.jsonFormat integer json?).numeralText? n =
        (parsers.tomlFormat toml?).numeralText? n) ∧
      ∀ n, d.Holds n → ∃ x y, json? n = some x ∧ toml? n = some y := by
  obtain ⟨document, read, said⟩ := spells
  obtain ⟨document', read', said'⟩ := spells'
  refine ⟨_, _, readDataFile_json parsers path read, readDataFile_toml parsers path' read',
    said.value_eq_iff integers said', fun n holds => ?_⟩
  obtain ⟨x, number⟩ := said.number holds
  obtain ⟨y, number'⟩ := said'.number holds
  obtain ⟨y', number', -⟩ := Option.map_eq_some_iff.mp number'
  exact ⟨x, y', number, number'⟩

end Parsers

/-- A document of tables, lists, texts, booleans, integers and decimal numbers is read from JSON and
from TOML, however it is spelled in them and whatever its readers make of numerals, as long as JSON
writes integers with their digits. The values are the same exactly if every decimal number in it gets
the same text. So they are where there is none; and they are not where one is written with nothing
but zeros behind its point, if JSON writes its numbers with a point or an exponent and TOML writes
whole ones without. -/
theorem formats_agree_iff {ν μ : Type} (parsers : Parsers ν μ) (integer : Int64 → ν)
    (json? : Numeral → Option ν) (toml? : Numeral → Option μ)
    (integers : ∀ i, parsers.jsonNumber (integer i) = toString i.toInt)
    (keeps : ∀ n x, json? n = some x → Broken (parsers.jsonNumber x))
    (drops : ∀ n x, n.IsWhole → toml? n = some x → ¬ Broken (parsers.tomlNumber x))
    (d : Datum) (json toml : List Char) (path path' : String)
    (spells : (parsers.jsonFormat integer json?).Spells d json)
    (spells' : (parsers.tomlFormat toml?).Spells d toml) :
    ∃ v w, parsers.readDataFile json "json" path = .ok v ∧
      parsers.readDataFile toml "toml" path' = .ok w ∧
      (v = w ↔ ∀ n, d.Holds n →
        (json? n).map parsers.jsonNumber = (toml? n).map parsers.tomlNumber) ∧
      ((∀ n, ¬ d.Holds n) → v = w) ∧
      ∀ n, d.Holds n → n.IsWhole → v ≠ w := by
  obtain ⟨v, w, read, read', agree, numbers⟩ :=
    Parsers.exists_values integers path path' spells spells'
  have jsonText (n : Numeral) : (parsers.jsonFormat integer json?).numeralText? n =
      (json? n).map parsers.jsonNumber := rfl
  have tomlText (n : Numeral) : (parsers.tomlFormat toml?).numeralText? n =
      (toml? n).map parsers.tomlNumber := Option.map_map ..
  have agree' : v = w ↔ ∀ n, d.Holds n →
      (json? n).map parsers.jsonNumber = (toml? n).map parsers.tomlNumber := by
    simpa only [jsonText, tomlText] using agree
  refine ⟨v, w, read, read', agree', fun none => ?_, fun n holds whole same => ?_⟩
  · exact agree'.mpr fun n holds => absurd holds (none n)
  · obtain ⟨x, y, number, number'⟩ := numbers n holds
    have text := agree'.mp same n holds
    rw [number, number', Option.map_some, Option.map_some, Option.some_inj] at text
    exact drops n y whole number' (text ▸ keeps n x number)

/-- With the readers of this library the values are the same exactly if both read and write every
decimal number alike. Numbers with few digits are read alike. If the document is a table, its compact
texts spell it in both formats where it is not too deep, no name stands twice in it and no number in
it is too large. -/
theorem own_formats_agree_iff (d : Datum) :
    (∀ (json toml : List Char) (path path' : String),
      Json.format.Spells d json → Toml.format.Spells d toml →
      ∃ v w, readDataFile json "json" path = .ok v ∧ readDataFile toml "toml" path' = .ok w ∧
        (v = w ↔ ∀ n, d.Holds n → n.Alike)) ∧
    (∀ n, d.Holds n → n.significand ≤ 2 ^ 53 → n.fraction.length ≤ 22 →
      ∃ x, Json.numeral? n = some x ∧ Toml.numeral? n = some x) ∧
    ∀ entries, d = .table entries → d.Distinct → d.Within (Toml.Reading.maxDepth + 1) →
      (∀ n, d.Holds n → (Json.numeral? n).isSome ∧ (Toml.numeral? n).isSome) →
      Json.format.Spells d (d.spell ':') ∧ Toml.format.Spells d (Toml.lines entries) := by
  refine ⟨fun json toml path path' spells spells' => ?_, fun n _ => Numeral.read_alike, ?_⟩
  · obtain ⟨v, w, read, read', agree, numbers⟩ :=
      Parsers.exists_values (fun _ => rfl) path path' spells spells'
    refine ⟨v, w, read, read', agree.trans (forall_congr' fun n => imp_congr_right fun holds => ?_)⟩
    obtain ⟨_, _, number, number'⟩ := numbers n holds
    obtain ⟨x, number, -⟩ := Option.map_eq_some_iff.mp number
    obtain ⟨y, number', -⟩ := Option.map_eq_some_iff.mp number'
    exact (Numeral.alike_iff number number').symm
  · rintro entries rfl distinct within readable
    exact ⟨Json.spells_compact (within.mono (by decide)) distinct
        fun n holds => (readable n holds).1,
      Toml.spells_lines within distinct fun n holds => (readable n holds).2⟩

/-- The numeral 1.0. -/
def Numeral.one : Numeral := ⟨false, 1, [⟨0, Nat.zero_lt_succ 9⟩], List.cons_ne_nil _ _⟩

/-- A document with the number 1.0. -/
def wholeDecimal : Datum := .table [("a", .decimal .one)]

theorem spells_wholeDecimal : Json.format.Spells wholeDecimal "\x7b\"a\":1.0\x7d".toList ∧
    Toml.format.Spells wholeDecimal "\"a\"=1.0\n".toList := by
  have distinct : wholeDecimal.Distinct :=
    .table (by decide) fun e member => by
      rw [List.mem_singleton.mp member]
      exact .decimal _
  have within : wholeDecimal.Within 1 := .table fun e member => by
    rw [List.mem_singleton.mp member]
    exact .decimal ..
  have held (n : Numeral) (holds : wholeDecimal.Holds n) : n = .one := by
    cases holds with
    | entry member holds =>
      rw [List.mem_singleton.mp member] at holds
      cases holds
      rfl
  constructor
  · exact Json.spells_compact (within.mono (by decide)) distinct fun n holds => by
      rw [held n holds]
      decide +kernel
  · exact Toml.spells_lines (within.mono (by decide)) distinct fun n holds => by
      rw [held n holds]
      decide +kernel

/-- The readers of this library write numbers as is asked of them, and the number 1.0 makes the
values differ. -/
theorem formats_agree_iff_own :
    (∀ i : Int64, Parsers.own.jsonNumber (.integer i.toInt) = toString i.toInt) ∧
      (∀ n x, (Json.numeral? n).map Json.Number.float = some x →
        Broken (Parsers.own.jsonNumber x)) ∧
      (∀ n x, n.IsWhole → (Toml.numeral? n).map Toml.Real.finite = some x →
        ¬ Broken (Parsers.own.tomlNumber x)) ∧
      Json.format.Spells wholeDecimal "\x7b\"a\":1.0\x7d".toList ∧
      Toml.format.Spells wholeDecimal "\"a\"=1.0\n".toList ∧
      ∃ v w, readDataFile "\x7b\"a\":1.0\x7d".toList "json" "a.json" = .ok v ∧
        readDataFile "\"a\"=1.0\n".toList "toml" "a.toml" = .ok w ∧ v ≠ w := by
  have integers (i : Int64) : Parsers.own.jsonNumber (.integer i.toInt) = toString i.toInt := rfl
  have keeps (n : Numeral) (x : Json.Number)
      (number : (Json.numeral? n).map Json.Number.float = some x) :
      Broken (Parsers.own.jsonNumber x) := by
    obtain ⟨y, -, rfl⟩ := Option.map_eq_some_iff.mp number
    exact broken_floatStyle y
  have drops (n : Numeral) (x : Toml.Real) (whole : n.IsWhole)
      (number : (Toml.numeral? n).map Toml.Real.finite = some x) :
      ¬ Broken (Parsers.own.tomlNumber x) := by
    obtain ⟨y, rounded, rfl⟩ := Option.map_eq_some_iff.mp number
    have proper := Decimal.proper_of_toBinary64 ((Toml.numeral?_eq n).symm.trans rounded)
    exact not_broken_realStyle proper (Numeral.isWhole_of_toml whole rounded)
  obtain ⟨spells, spells'⟩ := spells_wholeDecimal
  obtain ⟨v, w, read, read', -, -, differ⟩ := formats_agree_iff Parsers.own _ _ _ integers keeps drops
    wholeDecimal _ _ "a.json" "a.toml" spells spells'
  have holds : wholeDecimal.Holds .one :=
    .entry (List.mem_singleton.mpr rfl) .decimal
  exact ⟨integers, keeps, drops, spells, spells', v, w, read, read',
    differ _ holds (List.forall_mem_singleton.mpr rfl)⟩

/-- A whole number loses its `.0` in TOML and keeps it in JSON. -/
theorem whole_decimal_differs :
    Json.format.Spells wholeDecimal "\x7b\"a\":1.0\x7d".toList ∧
      Toml.format.Spells wholeDecimal "\"a\"=1.0\n".toList ∧
      ((readDataFile "\x7b\"a\":1.0\x7d".toList "json" "a.json").toOption.bind
        (Value.get? "a")).bind Value.text? = some "1.0" ∧
      ((readDataFile "\"a\"=1.0\n".toList "toml" "a.toml").toOption.bind
        (Value.get? "a")).bind Value.text? = some "1" :=
  ⟨spells_wholeDecimal.1, spells_wholeDecimal.2, by decide +kernel, by decide +kernel⟩

end Fieldmark
