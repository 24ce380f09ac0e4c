import Fieldmark.Json.Number
import Fieldmark.Proofs.Decimals
import Fieldmark.Toml

/-!
# Texts of numbers

JSON and TOML write the shortest decimal of a number in two layouts. The texts agree exactly if the
decimal has digits behind the point and JSON writes it without an exponent
(`floatStyle_text_eq_iff`). Since a text without an exponent says the number that it stands for
(`NumberStyle.valueOf_positional`), different numbers never get the same text (`text_eq_iff`).
JSON shows of every number that it is no integer (`broken_floatStyle`), TOML does not
(`not_broken_realStyle`).
-/

namespace Fieldmark

/-- A point or an exponent shows in the text of a number. -/
def Broken (text : String) : Prop := '.' ∈ text.toList ∨ 'e' ∈ text.toList

namespace Decimal

/-- Where the decimal point stands: behind so many digits, or in front of so many zeros. -/
def point (d : Decimal) : Int := (digitsOf d.digits).length + d.exponent

theorem digitsOf_ne_nil (n : Nat) : digitsOf n ≠ [] := Nat.toDigits_ne_nil

theorem isDigit_of_mem_digitsOf {n : Nat} {c : Char} (member : c ∈ digitsOf n) : c.isDigit :=
  Nat.isDigit_of_mem_toDigits (by decide) (by decide) member

end Decimal

namespace NumberStyle

/-! ## The two layouts -/

/-- Digits without an exponent tell whether `.0` is written when none stand behind the point. -/
theorem positional_eq_iff {style bare : NumberStyle} {digits : List Char} {point : Int}
    (fraction : style.wholeFraction = true) (none : bare.wholeFraction = false)
    (nonempty : digits ≠ []) :
    style.positional digits point = bare.positional digits point ↔ point < digits.length := by
  have count : 0 < digits.length := List.length_pos_of_ne_nil nonempty
  unfold positional
  split
  · exact ⟨fun _ => by omega, fun _ => rfl⟩
  · dsimp only
    split
    · exact ⟨fun _ => ‹_›, fun _ => rfl⟩
    · rename_i whole
      simp [none, whole]

theorem isDigit_of_mem_zeros {k : Nat} {c : Char} (member : c ∈ List.replicate k '0') :
    c.isDigit := by
  rw [List.eq_of_mem_replicate member]
  rfl

theorem mem_positional {style : NumberStyle} {digits : List Char} {point : Int}
    (all : ∀ c ∈ digits, c.isDigit) :
    ∀ c ∈ style.positional digits point, c.isDigit ∨ c = '.' := by
  intro c member
  unfold positional at member
  dsimp only at member
  split at member
  · simp only [List.mem_cons, List.mem_append] at member
    rcases member with rfl | rfl | zero | digit
    · exact .inl rfl
    · exact .inr rfl
    · exact .inl (isDigit_of_mem_zeros zero)
    · exact .inl (all c digit)
  · split at member
    · simp only [List.mem_cons, List.mem_append] at member
      rcases member with front | rfl | behind
      · exact .inl (all c (List.mem_of_mem_take front))
      · exact .inr rfl
      · exact .inl (all c (List.mem_of_mem_drop behind))
    · simp only [List.mem_append] at member
      rcases member with (digit | zero) | fraction
      · exact .inl (all c digit)
      · exact .inl (isDigit_of_mem_zeros zero)
      · split at fraction
        · simp only [List.mem_cons, List.not_mem_nil, or_false] at fraction
          rcases fraction with rfl | rfl
          · exact .inr rfl
          · exact .inl rfl
        · contradiction

/-- A point stands in digits that are written with `.0` where none stand behind it. -/
theorem point_mem_positional {style : NumberStyle} (fraction : style.wholeFraction = true)
    (digits : List Char) (point : Int) : '.' ∈ style.positional digits point := by
  unfold positional
  dsimp only
  split
  · exact List.mem_cons_of_mem _ (List.mem_cons_self ..)
  · split
    · exact List.mem_append_right _ (List.mem_cons_self ..)
    · exact List.mem_append_right _ (List.mem_cons_self ..)

/-- No point stands in digits that all stand in front of it. -/
theorem isDigit_of_mem_positional {style : NumberStyle} (none : style.wholeFraction = false)
    {digits : List Char} {point : Int} (nonempty : digits ≠ []) (whole : digits.length ≤ point)
    (all : ∀ c ∈ digits, c.isDigit) : ∀ c ∈ style.positional digits point, c.isDigit := by
  have count : 0 < digits.length := List.length_pos_of_ne_nil nonempty
  intro c member
  unfold positional at member
  dsimp only at member
  split at member
  · omega
  · rw [if_neg (by omega), none, if_neg Bool.false_ne_true, List.append_nil] at member
    rcases List.mem_append.mp member with digit | zero
    · exact all c digit
    · exact isDigit_of_mem_zeros zero

theorem mem_scientific (digits : List Char) (point : Int) : 'e' ∈ scientific digits point :=
  List.mem_append_right _ (List.mem_cons_self ..)

/-! ## What a text without an exponent says -/

/-- The number that digits with a point between them say. -/
def valueOf (text : List Char) : ℚ :=
  Nat.ofDigitChars 10 (text.filter Char.isDigit) 0 /
    10 ^ ((text.dropWhile (· ≠ '.')).drop 1).length

theorem ne_point {digits : List Char} (all : ∀ c ∈ digits, c.isDigit) :
    ∀ c ∈ digits, decide (c ≠ '.') = true := by
  intro c member
  refine decide_eq_true fun same => ?_
  have digit := all c member
  rw [same] at digit
  contradiction

theorem valueOf_broken {front behind : List Char} (all : ∀ c ∈ front, c.isDigit)
    (all' : ∀ c ∈ behind, c.isDigit) :
    valueOf (front ++ '.' :: behind) =
      Nat.ofDigitChars 10 (front ++ behind) 0 / 10 ^ behind.length := by
  have kept : (front ++ '.' :: behind).filter Char.isDigit = front ++ behind := by
    rw [List.filter_append, List.filter_cons_of_neg (by decide), List.filter_eq_self.mpr all,
      List.filter_eq_self.mpr all']
  have point : (front ++ '.' :: behind).dropWhile (· ≠ '.') = '.' :: behind := by
    rw [List.dropWhile_append_of_pos (ne_point all), List.dropWhile_cons_of_neg (by decide)]
  rw [valueOf, kept, point, List.drop_one, List.tail_cons]

theorem valueOf_whole {digits : List Char} (all : ∀ c ∈ digits, c.isDigit) :
    valueOf digits = Nat.ofDigitChars 10 digits 0 := by
  have point : digits.dropWhile (· ≠ '.') = [] := by
    have none : (digits ++ []).dropWhile (· ≠ '.') = [] :=
      List.dropWhile_append_of_pos (ne_point all)
    rwa [List.append_nil] at none
  rw [valueOf, List.filter_eq_self.mpr all, point]
  simp

/-- The layout without an exponent says the number that its digits and its point stand for. -/
theorem valueOf_positional (style : NumberStyle) {digits : List Char} (point : Int)
    (all : ∀ c ∈ digits, c.isDigit) :
    valueOf (style.positional digits point) =
      Nat.ofDigitChars 10 digits 0 * 10 ^ (point - digits.length) := by
  have zero : ∀ c ∈ ['0'], c.isDigit := List.forall_mem_singleton.mpr rfl
  unfold positional
  dsimp only
  split
  · obtain ⟨k, rfl⟩ : ∃ k : Nat, point = -(k : Int) := ⟨(-point).toNat, by omega⟩
    have behind : ∀ c ∈ List.replicate k '0' ++ digits, c.isDigit := fun c member =>
      (List.mem_append.mp member).elim isDigit_of_mem_zeros (all c)
    have text : '0' :: '.' :: (List.replicate k '0' ++ digits) =
        ['0'] ++ '.' :: (List.replicate k '0' ++ digits) := rfl
    have value : Nat.ofDigitChars 10 (['0'] ++ (List.replicate k '0' ++ digits)) 0 =
        Nat.ofDigitChars 10 digits 0 := by
      have nothing : Nat.ofDigitChars 10 ['0'] 0 = 0 := by decide
      rw [Nat.ofDigitChars_append, Nat.ofDigitChars_append, nothing,
        Nat.ofDigitChars_replicate_zero, Nat.mul_zero]
    have places : -(k : Int) - digits.length = -((k + digits.length : Nat) : Int) := by omega
    rw [Int.neg_neg, Int.toNat_natCast, text, valueOf_broken zero behind, value, places,
      zpow_neg, zpow_natCast, List.length_append, List.length_replicate, div_eq_mul_inv]
  · split
    · obtain ⟨k, rfl⟩ := Int.eq_ofNat_of_zero_le (a := point) (by omega)
      have places : (k : Int) - digits.length = -((digits.length - k : Nat) : Int) := by omega
      rw [Int.toNat_natCast, valueOf_broken (fun c member => all c (List.mem_of_mem_take member))
        (fun c member => all c (List.mem_of_mem_drop member)), List.take_append_drop, places,
        zpow_neg, zpow_natCast, List.length_drop, div_eq_mul_inv]
    · obtain ⟨k, places⟩ : ∃ k : Nat, point - digits.length = k :=
        ⟨(point - digits.length).toNat, by omega⟩
      have front : ∀ c ∈ digits ++ List.replicate k '0', c.isDigit := fun c member =>
        (List.mem_append.mp member).elim (all c) isDigit_of_mem_zeros
      rw [places, Int.toNat_natCast, zpow_natCast]
      split
      · rw [valueOf_broken front zero, Nat.ofDigitChars_append, Nat.ofDigitChars_append,
          Nat.ofDigitChars_replicate_zero]
        have last (n : Nat) : Nat.ofDigitChars 10 ['0'] n = 10 * n := rfl
        rw [last]
        push_cast
        simp only [List.length_singleton, pow_one]
        ring
      · rw [List.append_nil, valueOf_whole front, Nat.ofDigitChars_append,
          Nat.ofDigitChars_replicate_zero]
        push_cast
        ring

end NumberStyle

/-- The digits of a number, without its sign. -/
def NumberStyle.magnitude (style : NumberStyle) (x : Binary64) : List Char :=
  let d := Decimal.shortest x
  let inside := match style.bounds? with
    | none => true
    | some (lowest, highest) => x.isZero || (lowest < d.point && d.point ≤ highest)
  if inside then style.positional (Decimal.digitsOf d.digits) (if x.isZero then 1 else d.point)
  else NumberStyle.scientific (Decimal.digitsOf d.digits) d.point

theorem NumberStyle.text_eq (style : NumberStyle) (x : Binary64) :
    style.text x =
      String.ofList (if x.negative then '-' :: style.magnitude x else style.magnitude x) := rfl

theorem NumberStyle.magnitude_cases (style : NumberStyle) (x : Binary64) :
    (∀ c ∈ style.magnitude x, c.isDigit ∨ c = '.') ∧
        valueOf (style.magnitude x) = (Decimal.shortest x).toRat ∨
      'e' ∈ style.magnitude x := by
  unfold magnitude
  dsimp only
  generalize (match style.bounds? with
    | none => true
    | some (lowest, highest) => x.isZero || (lowest < (Decimal.shortest x).point &&
        (Decimal.shortest x).point ≤ highest)) = inside
  cases inside with
  | true =>
    have all : ∀ c ∈ Decimal.digitsOf (Decimal.shortest x).digits, c.isDigit :=
      fun _ => Decimal.isDigit_of_mem_digitsOf
    rw [if_pos rfl]
    refine .inl ⟨mem_positional all, ?_⟩
    have digits : Nat.ofDigitChars 10 (Decimal.digitsOf (Decimal.shortest x).digits) 0 =
        (Decimal.shortest x).digits := Nat.ofDigitChars_ten_toDigits
    rw [valueOf_positional style _ all, digits, Decimal.toRat]
    by_cases zero : x.isZero
    · have decimal : Decimal.shortest x = ⟨0, 0⟩ := if_pos zero
      simp [decimal]
    · rw [if_neg zero, Decimal.point, add_sub_cancel_left]
  | false =>
    rw [if_neg Bool.false_ne_true]
    exact .inr (mem_scientific _ _)

/-- JSON and TOML write the same text for a number exactly if its decimal has digits behind the
point and JSON writes it without an exponent. -/
theorem floatStyle_text_eq_iff (x : Binary64) :
    Json.floatStyle.text x = Toml.Real.style.text x ↔
      (Decimal.shortest x).exponent < 0 ∧
        -5 < (Decimal.shortest x).point ∧ (Decimal.shortest x).point ≤ 16 := by
  have signs (one other : List Char) :
      String.ofList (if x.negative then '-' :: one else one) =
        String.ofList (if x.negative then '-' :: other else other) ↔ one = other := by
    rw [String.ofList_inj]
    split
    · exact List.cons_inj_right '-'
    · rfl
  unfold NumberStyle.text
  simp only [Json.floatStyle, Toml.Real.style, signs, if_true]
  by_cases zero : x.isZero
  · have decimal : Decimal.shortest x = ⟨0, 0⟩ := if_pos zero
    simp only [zero, decimal, Bool.true_or, if_true]
    decide
  · have nonempty := Decimal.digitsOf_ne_nil (Decimal.shortest x).digits
    have place : (Decimal.digitsOf (Decimal.shortest x).digits).length +
        (Decimal.shortest x).exponent = (Decimal.shortest x).point := rfl
    simp only [zero, Bool.false_or, if_false, Bool.and_eq_true, decide_eq_true_eq,
      Bool.false_eq_true, place]
    by_cases inside : -5 < (Decimal.shortest x).point ∧ (Decimal.shortest x).point ≤ 16
    · rw [if_pos inside, NumberStyle.positional_eq_iff rfl rfl nonempty, and_iff_left inside]
      omega
    · rw [if_neg inside]
      refine iff_of_false (fun same => ?_) fun ⟨_, within⟩ => inside within
      have letter := NumberStyle.mem_scientific
        (Decimal.digitsOf (Decimal.shortest x).digits) (Decimal.shortest x).point
      rw [same] at letter
      exact absurd (NumberStyle.mem_positional (fun _ => Decimal.isDigit_of_mem_digitsOf) _ letter)
        (by decide)

/-- JSON writes every number with a point or an exponent. -/
theorem broken_floatStyle (x : Binary64) : Broken (Json.floatStyle.text x) := by
  have shown : '.' ∈ Json.floatStyle.magnitude x ∨ 'e' ∈ Json.floatStyle.magnitude x := by
    unfold NumberStyle.magnitude
    dsimp only [Json.floatStyle]
    split
    · exact .inl (NumberStyle.point_mem_positional rfl _ _)
    · exact .inr (NumberStyle.mem_scientific _ _)
  unfold Broken
  rw [NumberStyle.text_eq, String.toList_ofList]
  split
  · exact shown.imp (List.mem_cons_of_mem _) (List.mem_cons_of_mem _)
  · exact shown

/-- TOML writes a whole number with its digits alone. -/
theorem not_broken_realStyle {x : Binary64} (proper : x.Proper) (whole : x.IsWhole) :
    ¬ Broken (Toml.Real.style.text x) := by
  have digits : ∀ c ∈ Toml.Real.style.magnitude x, c.isDigit := by
    have exponent := mt (Decimal.shortest_exponent_neg_iff proper).mp (not_not.mpr whole)
    have place : (Decimal.shortest x).point =
        (Decimal.digitsOf (Decimal.shortest x).digits).length + (Decimal.shortest x).exponent := rfl
    have all : ∀ c ∈ Decimal.digitsOf (Decimal.shortest x).digits, c.isDigit :=
      fun _ => Decimal.isDigit_of_mem_digitsOf
    unfold NumberStyle.magnitude
    refine NumberStyle.isDigit_of_mem_positional rfl (Decimal.digitsOf_ne_nil _) ?_ all
    split
    · rename_i zero
      have decimal : Decimal.shortest x = ⟨0, 0⟩ := if_pos zero
      rw [decimal]
      decide
    · omega
  unfold Broken
  rw [NumberStyle.text_eq, String.toList_ofList]
  have none {c : Char} (other : c.isDigit = false) (sign : c ≠ '-') :
      c ∉ (if x.negative then '-' :: Toml.Real.style.magnitude x
        else Toml.Real.style.magnitude x) := by
    intro member
    have inside : c ∈ Toml.Real.style.magnitude x := by
      split at member
      · exact List.mem_of_ne_of_mem sign member
      · exact member
    exact Bool.false_ne_true (other.symm.trans (digits c inside))
  rintro (point | letter)
  · exact none rfl (by decide) point
  · exact none rfl (by decide) letter

/-- A text that both formats may write is the text of one number. -/
theorem eq_of_text_eq {x y : Binary64} (proper : x.Proper) (proper' : y.Proper)
    (same : Json.floatStyle.text x = Toml.Real.style.text y) : x = y := by
  have plain' : ∀ c ∈ Toml.Real.style.magnitude y, c.isDigit ∨ c = '.' :=
    NumberStyle.mem_positional fun _ => Decimal.isDigit_of_mem_digitsOf
  have letter {magnitude : List Char} (plain : ∀ c ∈ magnitude, c.isDigit ∨ c = '.') :
      'e' ∉ magnitude ∧ '-' ∉ magnitude :=
    ⟨fun member => absurd (plain _ member) (by decide),
      fun member => absurd (plain _ member) (by decide)⟩
  rw [NumberStyle.text_eq, NumberStyle.text_eq, String.ofList_inj] at same
  obtain ⟨plain, value⟩ | scientific := Json.floatStyle.magnitude_cases x
  · obtain ⟨-, value'⟩ | scientific := Toml.Real.style.magnitude_cases y
    · have signs : x.negative = y.negative ∧
          Json.floatStyle.magnitude x = Toml.Real.style.magnitude y := by
        cases sign : x.negative <;> cases sign' : y.negative <;>
          simp only [sign, sign', if_true, Bool.false_eq_true, if_false] at same
        · exact ⟨rfl, same⟩
        · exact absurd (same ▸ List.mem_cons_self ..) (letter plain).2
        · exact absurd (same ▸ List.mem_cons_self ..) (letter plain').2
        · exact ⟨rfl, (List.cons.inj same).2⟩
      obtain ⟨sign, magnitudes⟩ := signs
      rw [magnitudes, value'] at value
      obtain ⟨mantissa, exponent⟩ := Binary64.eq_of_toRat_shortest_eq proper proper' value.symm
      cases x
      cases y
      simp_all
    · exact absurd scientific (letter plain').1
  · refine absurd ?_ (letter plain').1
    have member : 'e' ∈ (if y.negative then '-' :: Toml.Real.style.magnitude y
        else Toml.Real.style.magnitude y) := by
      rw [← same]
      split
      · exact List.mem_cons_of_mem _ scientific
      · exact scientific
    split at member
    · exact List.mem_of_ne_of_mem (by decide) member
    · exact member

/-- What JSON writes for one number is what TOML writes for another exactly if the two are the same
number, it is no whole one, and its decimal point is not far from its digits. -/
theorem text_eq_iff {x y : Binary64} (proper : x.Proper) (proper' : y.Proper) :
    Json.floatStyle.text x = Toml.Real.style.text y ↔
      x = y ∧ ¬ x.IsWhole ∧ -5 < (Decimal.shortest x).point ∧ (Decimal.shortest x).point ≤ 16 := by
  constructor
  · intro same
    obtain rfl := eq_of_text_eq proper proper' same
    rw [floatStyle_text_eq_iff, Decimal.shortest_exponent_neg_iff proper] at same
    exact ⟨rfl, same⟩
  · rintro ⟨rfl, broken⟩
    rwa [floatStyle_text_eq_iff, Decimal.shortest_exponent_neg_iff proper]

end Fieldmark
