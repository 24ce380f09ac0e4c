import Fieldmark.Number.Binary64
import Mathlib.Algebra.Order.Field.Power
import Mathlib.Algebra.Order.Ring.Rat
import Mathlib.Tactic.FieldSimp
import Mathlib.Tactic.NormNum
import Mathlib.Tactic.Positivity
import Mathlib.Tactic.Ring

/-!
# Rounding to binary numbers

What a fraction is rounded to depends on its value only (`ofFraction_mul_right`), whole numbers up
to 2 ^ 53 are kept as they are (`ofNat_exact`), and the result is a number of the format
(`proper_of_ofFraction`).
-/

namespace Fieldmark

theorem divideNearest_mul_right (n d : Nat) {k : Nat} (positive : 0 < k) :
    divideNearest (n * k) (d * k) = divideNearest n d := by
  unfold divideNearest
  rw [Nat.mul_div_mul_right n d positive, Nat.mul_mod_mul_right]
  have more : 2 * (n % d * k) > d * k ↔ 2 * (n % d) > d := by
    rw [← Nat.mul_assoc]
    exact Nat.mul_lt_mul_right positive
  have half : 2 * (n % d * k) = d * k ↔ 2 * (n % d) = d := by
    rw [← Nat.mul_assoc]
    exact Nat.mul_left_inj (Nat.ne_of_gt positive)
  simp only [more, half]

theorem divideNearest_one (n : Nat) : divideNearest n 1 = n := by
  simp [divideNearest, Nat.mod_one]

theorem divideNearest_le {n d bound : Nat} (below : n < bound * d) :
    divideNearest n d ≤ bound := by
  have quotient : n / d < bound := Nat.div_lt_of_lt_mul (by rwa [Nat.mul_comm])
  unfold divideNearest
  dsimp only
  split
  · exact quotient
  · exact Nat.le_of_lt quotient

theorem le_divideNearest {n d bound : Nat} (positive : 0 < d) (above : bound * d ≤ n) :
    bound ≤ divideNearest n d := by
  have quotient : bound ≤ n / d := (Nat.le_div_iff_mul_le positive).mpr above
  unfold divideNearest
  dsimp only
  split
  · exact Nat.le_succ_of_le quotient
  · exact quotient

namespace Binary64

/-! ## The exponent of a fraction -/

theorem natCast_pow_toNat {e : Int} (nonneg : 0 ≤ e) :
    ((Nat.pow 2 e.toNat : Nat) : ℚ) = 2 ^ e := by
  obtain ⟨k, rfl⟩ := Int.eq_ofNat_of_zero_le nonneg
  simp

/-- A fraction lies from 1 up to 2 times the power of two that is found for it. -/
theorem scaleOf_spec {n d : Nat} (hn : 0 < n) (hd : 0 < d) :
    (2 : ℚ) ^ scaleOf n d ≤ n / d ∧ (n : ℚ) / d < 2 ^ (scaleOf n d + 1) := by
  have hd' : (0 : ℚ) < d := by exact_mod_cast hd
  have logs (m : Nat) (hm : 0 < m) :
      (2 : ℚ) ^ (Nat.log2 m : Int) ≤ m ∧ (m : ℚ) < 2 ^ ((Nat.log2 m : Int) + 1) := by
    constructor
    · exact_mod_cast Nat.log2_self_le (Nat.ne_of_gt hm)
    · exact_mod_cast Nat.lt_log2_self
  obtain ⟨lowN, highN⟩ := logs n hn
  obtain ⟨lowD, highD⟩ := logs d hd
  set g : Int := (Nat.log2 n : Int) - (Nat.log2 d : Int) with guess
  have below : (2 : ℚ) ^ (g - 1) ≤ n / d := by
    rw [le_div_iff₀ hd']
    calc (2 : ℚ) ^ (g - 1) * d ≤ 2 ^ (g - 1) * 2 ^ ((Nat.log2 d : Int) + 1) := by gcongr
      _ = 2 ^ (Nat.log2 n : Int) := by
        rw [← zpow_add₀ two_ne_zero]
        congr 1
        omega
      _ ≤ n := lowN
  have above : (n : ℚ) / d < 2 ^ (g + 1) := by
    rw [div_lt_iff₀ hd']
    calc (n : ℚ) < 2 ^ ((Nat.log2 n : Int) + 1) := highN
      _ = 2 ^ (g + 1) * 2 ^ (Nat.log2 d : Int) := by
        rw [← zpow_add₀ two_ne_zero]
        congr 1
        omega
      _ ≤ 2 ^ (g + 1) * d := by gcongr
  have reached : (if 0 ≤ g then d * Nat.pow 2 g.toNat ≤ n else d ≤ n * Nat.pow 2 (-g).toNat) ↔
      (2 : ℚ) ^ g ≤ n / d := by
    rw [le_div_iff₀ hd']
    split
    · rename_i nonneg
      rw [← natCast_pow_toNat nonneg, mul_comm]
      exact_mod_cast Iff.rfl
    · rename_i negative
      have scale : (0 : ℚ) < (Nat.pow 2 (-g).toNat : Nat) := by
        exact_mod_cast Nat.pow_pos (n := (-g).toNat) two_pos
      have inverse := natCast_pow_toNat (e := -g) (by omega)
      rw [zpow_neg] at inverse
      rw [← inv_inv ((2 : ℚ) ^ g), ← inverse, inv_mul_le_iff₀ scale, mul_comm]
      exact_mod_cast Iff.rfl
  have value : scaleOf n d = if (2 : ℚ) ^ g ≤ n / d then g else g - 1 := by
    unfold scaleOf
    simp only [← guess, reached]
  rw [value]
  split
  · exact ⟨‹_›, above⟩
  · rename_i missed
    exact ⟨below, by simpa using missed⟩

theorem scaleOf_eq_of_div_eq {n d n' d' : Nat} (hn : 0 < n) (hd : 0 < d) (hn' : 0 < n')
    (hd' : 0 < d') (same : (n : ℚ) / d = n' / d') : scaleOf n d = scaleOf n' d' := by
  obtain ⟨low, high⟩ := scaleOf_spec hn hd
  obtain ⟨low', high'⟩ := scaleOf_spec hn' hd'
  rw [same] at low high
  have upward := (zpow_lt_zpow_iff_right₀ one_lt_two).mp (low.trans_lt high')
  have downward := (zpow_lt_zpow_iff_right₀ one_lt_two).mp (low'.trans_lt high)
  omega

/-! ## Rounding -/

/-- A fraction rounded to a multiple of a power of two. -/
def mantissaAt (n d : Nat) (e : Int) : Nat :=
  if 0 ≤ e then divideNearest n (d * Nat.pow 2 e.toNat)
  else divideNearest (n * Nat.pow 2 (-e).toNat) d

/-- The exponent to which a fraction is rounded. -/
def exponentFor (n d : Nat) : Int := max (scaleOf n d - 52) minExponent

/-- The number of a rounded mantissa; one that came to the next power of two is carried there. -/
def carried (negative : Bool) (mantissa : Nat) (e : Int) : Binary64 :=
  if mantissa = 2 * leastNormal then ⟨negative, leastNormal, e + 1⟩ else ⟨negative, mantissa, e⟩

theorem ofFraction_eq (negative : Bool) {n : Nat} (d : Nat) (nonzero : n ≠ 0) :
    ofFraction negative n d =
      if maxExponent <
          (carried negative (mantissaAt n d (exponentFor n d)) (exponentFor n d)).exponent then none
      else some (carried negative (mantissaAt n d (exponentFor n d)) (exponentFor n d)) := by
  rw [ofFraction, if_neg nonzero]
  rfl

/-- A fraction is rounded by its value. -/
theorem ofFraction_mul_right (negative : Bool) (n : Nat) {d k : Nat} (hd : 0 < d) (hk : 0 < k) :
    ofFraction negative (n * k) (d * k) = ofFraction negative n d := by
  rcases Nat.eq_zero_or_pos n with rfl | hn
  · simp [ofFraction]
  · have scale : scaleOf (n * k) (d * k) = scaleOf n d := by
      refine scaleOf_eq_of_div_eq (by positivity) (by positivity) hn hd ?_
      push_cast
      field_simp
    have mantissa (e : Int) : mantissaAt (n * k) (d * k) e = mantissaAt n d e := by
      unfold mantissaAt
      rw [Nat.mul_right_comm d, Nat.mul_right_comm n, divideNearest_mul_right _ _ hk,
        divideNearest_mul_right _ _ hk]
    rw [ofFraction_eq negative _ (Nat.mul_ne_zero (Nat.ne_of_gt hn) (Nat.ne_of_gt hk)),
      ofFraction_eq negative _ (Nat.ne_of_gt hn), exponentFor, scale, mantissa, ← exponentFor]

theorem mantissaAt_le {n d : Nat} (hn : 0 < n) (hd : 0 < d) :
    mantissaAt n d (exponentFor n d) ≤ 2 * leastNormal := by
  set e := exponentFor n d with exponent
  have scale : scaleOf n d - 52 ≤ e := le_max_left ..
  have hd' : (0 : ℚ) < d := by exact_mod_cast hd
  have below : (n : ℚ) < 2 * leastNormal * (2 ^ e * d) := by
    have high := (scaleOf_spec hn hd).2
    rw [div_lt_iff₀ hd'] at high
    calc (n : ℚ) < 2 ^ (scaleOf n d + 1) * d := high
      _ ≤ 2 ^ (53 + e) * d := by
        gcongr ?_ * _
        exact zpow_le_zpow_right₀ one_le_two (by omega)
      _ = 2 * leastNormal * (2 ^ e * d) := by
        rw [zpow_add₀ two_ne_zero]
        norm_num [leastNormal]
        ring
  unfold mantissaAt
  split
  · rename_i nonneg
    refine divideNearest_le ?_
    rw [← natCast_pow_toNat nonneg, mul_comm _ (d : ℚ)] at below
    exact_mod_cast below
  · rename_i negative
    refine divideNearest_le ?_
    have inverse := natCast_pow_toNat (e := -e) (by omega)
    have scaled : (n : ℚ) * 2 ^ (-e) < 2 * leastNormal * d := by
      rw [zpow_neg, ← div_eq_mul_inv, div_lt_iff₀ (by positivity)]
      calc (n : ℚ) < 2 * leastNormal * (2 ^ e * d) := below
        _ = 2 * leastNormal * d * 2 ^ e := by ring
    rw [← inverse] at scaled
    exact_mod_cast scaled

theorem leastNormal_le_mantissaAt {n d : Nat} (hn : 0 < n) (hd : 0 < d)
    (normal : exponentFor n d ≠ minExponent) :
    leastNormal ≤ mantissaAt n d (exponentFor n d) := by
  have scale : exponentFor n d = scaleOf n d - 52 := by
    unfold exponentFor at normal ⊢
    omega
  set e := exponentFor n d with exponent
  have hd' : (0 : ℚ) < d := by exact_mod_cast hd
  have above : (leastNormal : ℚ) * (2 ^ e * d) ≤ n := by
    have low := (scaleOf_spec hn hd).1
    rw [le_div_iff₀ hd'] at low
    calc (leastNormal : ℚ) * (2 ^ e * d) = 2 ^ (52 + e) * d := by
          rw [zpow_add₀ two_ne_zero]
          norm_num [leastNormal]
          ring
      _ = 2 ^ scaleOf n d * d := by rw [scale, add_sub_cancel]
      _ ≤ n := low
  unfold mantissaAt
  split
  · rename_i nonneg
    refine le_divideNearest (Nat.mul_pos hd (Nat.pow_pos two_pos)) ?_
    rw [← natCast_pow_toNat nonneg, mul_comm _ (d : ℚ)] at above
    exact_mod_cast above
  · rename_i negative
    refine le_divideNearest hd ?_
    have inverse := natCast_pow_toNat (e := -e) (by omega)
    have scaled : (leastNormal : ℚ) * d ≤ n * 2 ^ (-e) := by
      rw [zpow_neg, ← div_eq_mul_inv, le_div_iff₀ (by positivity)]
      calc (leastNormal : ℚ) * d * 2 ^ e = leastNormal * (2 ^ e * d) := by ring
        _ ≤ n := above
    rw [← inverse] at scaled
    exact_mod_cast scaled

/-- The numbers of the format: only the smallest have a mantissa below the least normal one. -/
structure Proper (x : Binary64) : Prop where
  below : x.mantissa < 2 * leastNormal
  least : minExponent ≤ x.exponent
  normal : x.exponent = minExponent ∨ leastNormal ≤ x.mantissa

theorem proper_zero (negative : Bool) : (zero negative).Proper :=
  ⟨(by decide : 0 < 2 * leastNormal), Int.le_refl _, .inl rfl⟩

theorem proper_of_ofFraction {negative : Bool} {n d : Nat} {x : Binary64} (hd : 0 < d)
    (rounded : ofFraction negative n d = some x) : x.Proper ∧ x.negative = negative := by
  rcases Nat.eq_zero_or_pos n with rfl | hn
  · obtain rfl : zero negative = x := by simpa [ofFraction] using rounded
    exact ⟨proper_zero negative, rfl⟩
  · rw [ofFraction_eq negative d (Nat.ne_of_gt hn)] at rounded
    obtain ⟨-, same⟩ := Option.ite_none_left_eq_some.mp rounded
    obtain rfl := Option.some.inj same
    have least : minExponent ≤ exponentFor n d := le_max_right ..
    have most := mantissaAt_le hn hd
    unfold carried
    split
    · have below : leastNormal < 2 * leastNormal := by decide
      exact ⟨⟨below, Int.le_add_one least, .inr (Nat.le_refl _)⟩, rfl⟩
    · refine ⟨⟨by dsimp only; omega, least, ?_⟩, rfl⟩
      by_cases normal : exponentFor n d = minExponent
      · exact .inl normal
      · exact .inr (leastNormal_le_mantissaAt hn hd normal)

theorem scaleOf_le (n d : Nat) : scaleOf n d ≤ Nat.log2 n := by
  unfold scaleOf
  dsimp only
  split <;> split <;> omega

/-- A fraction with a numerator that a mantissa can hold is not too large to be rounded. -/
theorem ofFraction_isSome (negative : Bool) {n : Nat} (d : Nat) (small : n ≤ 2 * leastNormal) :
    (ofFraction negative n d).isSome := by
  rcases Nat.eq_zero_or_pos n with rfl | hn
  · simp [ofFraction]
  · have top : Nat.log2 n < 54 :=
      (Nat.log2_lt (Nat.ne_of_gt hn)).mpr (Nat.lt_of_le_of_lt small (by decide))
    have scale : exponentFor n d ≤ 1 := by
      have le := scaleOf_le n d
      unfold exponentFor minExponent
      omega
    have below : (carried negative (mantissaAt n d (exponentFor n d)) (exponentFor n d)).exponent ≤
        maxExponent := by
      unfold carried maxExponent
      split <;> dsimp only <;> omega
    rw [ofFraction_eq negative d (Nat.ne_of_gt hn), if_neg (Int.not_lt.mpr below)]
    rfl

/-! ## Whole numbers -/

theorem scaleOf_one {n : Nat} (hn : 0 < n) : scaleOf n 1 = Nat.log2 n := by
  have reached : Nat.pow 2 (Nat.log2 n) ≤ n := Nat.log2_self_le (Nat.ne_of_gt hn)
  have base : Nat.log2 1 = 0 := by decide
  unfold scaleOf
  simp only [base, Int.ofNat_zero, Int.sub_zero, Int.natCast_nonneg, if_true, Nat.one_mul,
    Int.toNat_natCast, reached]

theorem mantissaAt_one (n k : Nat) : mantissaAt n 1 (-(k : Int)) = n * Nat.pow 2 k := by
  unfold mantissaAt
  split
  · obtain rfl : k = 0 := by omega
    simp [divideNearest_one]
  · rw [divideNearest_one, Int.neg_neg, Int.toNat_natCast]

theorem fraction_neg (negative : Bool) (mantissa k : Nat) :
    fraction ⟨negative, mantissa, -(k : Int)⟩ = (mantissa, Nat.pow 2 k) := by
  unfold fraction
  split
  · obtain rfl : k = 0 := by dsimp only at *; omega
    simp
  · simp only [Int.neg_neg, Int.toNat_natCast]

/-- A whole number that a mantissa can hold is kept as it is. -/
theorem ofNat_exact (negative : Bool) {n : Nat} (small : n ≤ 2 * leastNormal) :
    ∃ x, ofNat negative n = some x ∧ x.negative = negative ∧ 0 < x.fraction.2 ∧
      x.fraction.1 = n * x.fraction.2 := by
  rcases Nat.eq_zero_or_pos n with rfl | hn
  · exact ⟨zero negative, by simp [ofNat, ofFraction], rfl, Nat.pow_pos two_pos,
      (Nat.zero_mul _).symm⟩
  rcases Nat.lt_or_eq_of_le small with below | rfl
  · obtain ⟨k, places⟩ : ∃ k : Nat, Nat.log2 n + k = 52 := by
      refine ⟨52 - Nat.log2 n, Nat.add_sub_cancel' ?_⟩
      rw [Nat.le_iff_lt_add_one, Nat.log2_lt (Nat.ne_of_gt hn)]
      exact below
    have scale : exponentFor n 1 = -(k : Int) := by
      rw [exponentFor, scaleOf_one hn, max_eq_left (by unfold minExponent; omega)]
      omega
    have held : n * Nat.pow 2 k < 2 * leastNormal :=
      calc n * Nat.pow 2 k < 2 ^ (Nat.log2 n + 1) * 2 ^ k :=
            Nat.mul_lt_mul_of_pos_right Nat.lt_log2_self (Nat.pow_pos two_pos)
        _ = 2 * 2 ^ (Nat.log2 n + k) := by ring
        _ = 2 * leastNormal := by rw [places]; rfl
    refine ⟨⟨negative, n * Nat.pow 2 k, -(k : Int)⟩, ?_, rfl, ?_, ?_⟩
    · rw [ofNat, ofFraction_eq negative 1 (Nat.ne_of_gt hn), scale, mantissaAt_one, carried,
        if_neg (Nat.ne_of_lt held), if_neg (by unfold maxExponent; dsimp only; omega)]
    · rw [fraction_neg]
      exact Nat.pow_pos two_pos
    · rw [fraction_neg]
  · cases negative
    · exact ⟨⟨false, leastNormal, 1⟩, by decide +kernel, rfl, by decide, by decide +kernel⟩
    · exact ⟨⟨true, leastNormal, 1⟩, by decide +kernel, rfl, by decide, by decide +kernel⟩

end Binary64

end Fieldmark
