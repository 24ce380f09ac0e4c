import Fieldmark.Number.Decimal
import Fieldmark.Proofs.Rounding
import Mathlib.Tactic.Linarith

/-!
# Shortest decimals

The shortest decimal of a number (`Decimal.shortest`) is nearer to it than to any other: it lies
within half a unit of its last binary place (`Binary64.near_shortest`), and that tells different
numbers apart (`Binary64.Near.unique`). It has digits behind the point exactly if the number is not
whole (`Decimal.shortest_exponent_neg_iff`).
-/

namespace Fieldmark

/-- Whether a number has no fraction. -/
def Binary64.IsWhole (x : Binary64) : Prop := x.fraction.2 ∣ x.fraction.1

instance (x : Binary64) : Decidable x.IsWhole := Nat.decidable_dvd _ _

namespace Decimal

/-! ## Values of decimals -/

def toRat (d : Decimal) : ℚ := d.digits * 10 ^ d.exponent

theorem toRat_trim (fuel : Nat) (d : Decimal) : (trim fuel d).toRat = d.toRat := by
  induction fuel generalizing d with
  | zero => rfl
  | succ fuel ih =>
    unfold trim
    split
    · rename_i rounded
      rw [ih, toRat, toRat, zpow_add_one₀ (by norm_num)]
      have digits : ((d.digits / 10 : Nat) : ℚ) * 10 = d.digits := by
        exact_mod_cast Nat.div_mul_cancel (Nat.dvd_of_mod_eq_zero rounded)
      rw [← digits]
      ring
    · rfl

theorem exponent_le_trim (fuel : Nat) (d : Decimal) : d.exponent ≤ (trim fuel d).exponent := by
  induction fuel generalizing d with
  | zero => exact Int.le_refl _
  | succ fuel ih =>
    unfold trim
    split
    · exact Int.le_trans (Int.le_add_one (Int.le_refl _)) (ih _)
    · exact Int.le_refl _

/-- A decimal without digits behind the point is a natural number. -/
theorem exists_nat_of_exponent_nonneg {d : Decimal} (nonneg : 0 ≤ d.exponent) :
    ∃ n : Nat, d.toRat = n := by
  obtain ⟨k, exponent⟩ := Int.eq_ofNat_of_zero_le nonneg
  refine ⟨d.digits * 10 ^ k, ?_⟩
  rw [toRat, exponent]
  push_cast
  rfl

namespace Neighbourhood

/-! ## Hits on the grids -/

theorem onGrid?_hit {n : Neighbourhood} {e : Int} {d : Decimal} (hit : n.onGrid? e = some d) :
    n.contains d ∧ d.exponent = e := by
  unfold onGrid? at hit
  dsimp only at hit
  split at hit
  · rename_i lower upper
    obtain rfl := Option.some.inj hit
    refine ⟨?_, rfl⟩
    unfold divideNearest
    dsimp only
    split
    · exact upper
    · exact lower
  · obtain rfl := Option.some.inj hit
    exact ⟨‹_›, rfl⟩
  · obtain rfl := Option.some.inj hit
    exact ⟨‹_›, rfl⟩
  · contradiction

theorem search_hit {n : Neighbourhood} {e : Int} {count : Nat} {d : Decimal}
    (hit : n.search e count = some d) : n.contains d ∧ e - count < d.exponent := by
  induction count generalizing e with
  | zero => contradiction
  | succ count ih =>
    unfold search at hit
    split at hit
    · rename_i found
      obtain rfl := Option.some.inj hit
      obtain ⟨inside, exponent⟩ := onGrid?_hit found
      exact ⟨inside, by omega⟩
    · obtain ⟨inside, above⟩ := ih hit
      exact ⟨inside, by omega⟩

/-- The search ends on a grid with a hit at the latest. -/
theorem search_reaches {n : Neighbourhood} {e g : Int} {count : Nat} (below : g ≤ e)
    (near : e - count < g) (hit : (n.onGrid? g).isSome) :
    ∃ d, n.search e count = some d ∧ g ≤ d.exponent := by
  induction count generalizing e with
  | zero => omega
  | succ count ih =>
    unfold search
    split
    · rename_i d found
      exact ⟨d, rfl, (onGrid?_hit found).2 ▸ below⟩
    · rename_i missed
      refine ih ?_ (by omega)
      rcases Int.lt_or_eq_of_le below with lower | rfl
      · omega
      · rw [missed] at hit
        contradiction

end Neighbourhood

end Decimal

/-! ## Nearness -/

namespace Binary64

/-- Halfway to the number below, in quarters of the last binary place. -/
def lowEnd (x : Binary64) : Nat :=
  4 * x.mantissa - if x.mantissa = leastNormal ∧ x.exponent ≠ minExponent then 1 else 2

/-- Halfway to the number above. -/
def highEnd (x : Binary64) : Nat := 4 * x.mantissa + 2

/-- Whether a fraction is no farther from the magnitude of a number than from its neighbours, and
nearer if the mantissa is odd. -/
structure Near (x : Binary64) (q : ℚ) : Prop where
  low : (x.lowEnd : ℚ) * 2 ^ (x.exponent - 2) ≤ q
  high : q ≤ (x.highEnd : ℚ) * 2 ^ (x.exponent - 2)
  inside : x.mantissa % 2 = 1 →
    (x.lowEnd : ℚ) * 2 ^ (x.exponent - 2) < q ∧ q < (x.highEnd : ℚ) * 2 ^ (x.exponent - 2)

/-- One of the two powers is 1. -/
theorem natCast_pow (b : Nat) (hb : 0 < b) (e : Int) :
    ((Nat.pow b e.toNat : Nat) : ℚ) = b ^ e * (Nat.pow b (-e).toNat : Nat) := by
  have nonzero : (b : ℚ) ≠ 0 := by exact_mod_cast Nat.ne_of_gt hb
  obtain ⟨k, rfl | rfl⟩ := Int.eq_nat_or_neg e
  · simp
  · simp [nonzero]

/-- The comparison of whole numbers that `contains` makes is one of fractions. -/
theorem near_of_contains {x : Binary64} {d : Decimal}
    (inside : (Decimal.neighbourhood x).contains d) : x.Near d.toRat := by
  set unit := Nat.pow 2 (x.exponent - 2).toNat with hunit
  set denominator := Nat.pow 2 (-(x.exponent - 2)).toNat with hdenominator
  set scale := Nat.pow 10 (-d.exponent).toNat with hscale
  have positive : (0 : ℚ) < denominator * scale := by
    exact_mod_cast Nat.mul_pos (Nat.pow_pos two_pos) (Nat.pow_pos (by decide))
  have ends (a : Nat) : ((a * unit * scale : Nat) : ℚ) =
      a * 2 ^ (x.exponent - 2) * (denominator * scale) := by
    rw [Nat.cast_mul, Nat.cast_mul, hunit, natCast_pow 2 two_pos, hdenominator]
    push_cast
    ring
  have value : ((d.digits * Nat.pow 10 d.exponent.toNat * denominator : Nat) : ℚ) =
      d.toRat * (denominator * scale) := by
    rw [Nat.cast_mul, Nat.cast_mul, natCast_pow 10 (by decide), Decimal.toRat, hscale]
    push_cast
    ring
  have low_le : x.lowEnd * unit * scale ≤ d.digits * Nat.pow 10 d.exponent.toNat * denominator ↔
      (x.lowEnd : ℚ) * 2 ^ (x.exponent - 2) ≤ d.toRat := by
    rw [← @Nat.cast_le ℚ, ends, value, mul_le_mul_iff_of_pos_right positive]
  have low_lt : x.lowEnd * unit * scale < d.digits * Nat.pow 10 d.exponent.toNat * denominator ↔
      (x.lowEnd : ℚ) * 2 ^ (x.exponent - 2) < d.toRat := by
    rw [← @Nat.cast_lt ℚ, ends, value, mul_lt_mul_iff_of_pos_right positive]
  have le_high : d.digits * Nat.pow 10 d.exponent.toNat * denominator ≤ x.highEnd * unit * scale ↔
      d.toRat ≤ (x.highEnd : ℚ) * 2 ^ (x.exponent - 2) := by
    rw [← @Nat.cast_le ℚ, ends, value, mul_le_mul_iff_of_pos_right positive]
  have lt_high : d.digits * Nat.pow 10 d.exponent.toNat * denominator < x.highEnd * unit * scale ↔
      d.toRat < (x.highEnd : ℚ) * 2 ^ (x.exponent - 2) := by
    rw [← @Nat.cast_lt ℚ, ends, value, mul_lt_mul_iff_of_pos_right positive]
  unfold Decimal.Neighbourhood.contains at inside
  dsimp only at inside
  split at inside
  · rename_i closed
    obtain ⟨low, high⟩ := of_decide_eq_true inside
    have even : x.mantissa % 2 = 0 := of_decide_eq_true closed
    exact ⟨low_le.mp low, le_high.mp high, fun odd => absurd odd (by omega)⟩
  · obtain ⟨low, high⟩ := of_decide_eq_true inside
    exact ⟨(low_lt.mp low).le, (lt_high.mp high).le, fun _ => ⟨low_lt.mp low, lt_high.mp high⟩⟩

theorem near_self {x : Binary64} (nonzero : x.mantissa ≠ 0) :
    x.Near (x.mantissa * 2 ^ x.exponent) := by
  have positive : (0 : ℚ) < 2 ^ (x.exponent - 2) := by positivity
  have middle : (x.mantissa : ℚ) * 2 ^ x.exponent =
      ((4 * x.mantissa : Nat) : ℚ) * 2 ^ (x.exponent - 2) := by
    rw [zpow_sub₀ two_ne_zero]
    push_cast
    ring
  have low : x.lowEnd < 4 * x.mantissa := by
    unfold lowEnd
    split <;> omega
  have high : 4 * x.mantissa < x.highEnd := Nat.lt_add_of_pos_right two_pos
  have low' : (x.lowEnd : ℚ) * 2 ^ (x.exponent - 2) < x.mantissa * 2 ^ x.exponent := by
    rw [middle]
    exact mul_lt_mul_of_pos_right (by exact_mod_cast low) positive
  have high' : (x.mantissa : ℚ) * 2 ^ x.exponent < x.highEnd * 2 ^ (x.exponent - 2) := by
    rw [middle]
    exact mul_lt_mul_of_pos_right (by exact_mod_cast high) positive
  exact ⟨low'.le, high'.le, fun _ => ⟨low', high'⟩⟩

/-- The shortest decimal lies within half a unit of the last binary place. -/
theorem near_shortest {x : Binary64} (nonzero : x.mantissa ≠ 0) :
    x.Near (Decimal.shortest x).toRat := by
  unfold Decimal.shortest
  rw [if_neg (by simpa [isZero] using nonzero)]
  dsimp only
  split
  · rename_i d found
    rw [Decimal.toRat_trim]
    exact near_of_contains (Decimal.Neighbourhood.search_hit found).1
  · have plain : Decimal.toRat ⟨x.mantissa * Nat.pow 2 x.exponent.toNat *
        Nat.pow 5 (-x.exponent).toNat, -((-x.exponent).toNat : Int)⟩ =
        x.mantissa * 2 ^ x.exponent := by
      have ten : (10 : ℚ) ^ (-x.exponent).toNat =
          5 ^ (-x.exponent).toNat * 2 ^ (-x.exponent).toNat := by
        rw [← mul_pow]
        norm_num
      rw [Decimal.toRat, Nat.cast_mul, Nat.cast_mul, natCast_pow 2 two_pos, zpow_neg, zpow_natCast,
        ten, Nat.pow_eq, Nat.pow_eq]
      push_cast
      field_simp
    rw [plain]
    exact near_self nonzero

/-- The lower end of a number is not below the upper end of a smaller one. -/
theorem Near.lowEnd_le {x y : Binary64} {q : ℚ} (near : x.Near q) (near' : y.Near q) {k : Nat}
    (exponent : y.exponent = x.exponent + k) :
    y.lowEnd * 2 ^ k ≤ x.highEnd ∧
      (x.mantissa % 2 = 1 ∨ y.mantissa % 2 = 1 → y.lowEnd * 2 ^ k < x.highEnd) := by
  have positive : (0 : ℚ) < 2 ^ (x.exponent - 2) := by positivity
  have low : ((y.lowEnd * 2 ^ k : Nat) : ℚ) * 2 ^ (x.exponent - 2) =
      y.lowEnd * 2 ^ (y.exponent - 2) := by
    have split : y.exponent - 2 = k + (x.exponent - 2) := by omega
    rw [split, zpow_add₀ two_ne_zero, zpow_natCast]
    push_cast
    ring
  constructor
  · have le : ((y.lowEnd * 2 ^ k : Nat) : ℚ) ≤ x.highEnd := by
      refine le_of_mul_le_mul_right ?_ positive
      rw [low]
      exact near'.low.trans near.high
    exact_mod_cast le
  · intro odd
    have lt : ((y.lowEnd * 2 ^ k : Nat) : ℚ) < x.highEnd := by
      refine lt_of_mul_lt_mul_right ?_ positive.le
      rw [low]
      rcases odd with odd | odd
      · exact near'.low.trans_lt (near.inside odd).2
      · exact (near'.inside odd).1.trans_le near.high
    exact_mod_cast lt

theorem lowEnd_cases (x : Binary64) :
    (x.mantissa = leastNormal ∧ x.exponent ≠ minExponent) ∧ x.lowEnd = 4 * x.mantissa - 1 ∨
      ¬ (x.mantissa = leastNormal ∧ x.exponent ≠ minExponent) ∧ x.lowEnd = 4 * x.mantissa - 2 := by
  unfold lowEnd
  split
  · exact .inl ⟨‹_›, rfl⟩
  · exact .inr ⟨‹_›, rfl⟩

/-- Only numbers next to each other share an end, and one of these has an odd mantissa. -/
theorem Near.not_lt {x y : Binary64} {q : ℚ} (near : x.Near q) (near' : y.Near q)
    (proper : x.Proper) (proper' : y.Proper) :
    ¬ (x.exponent < y.exponent ∨ (x.exponent = y.exponent ∧ x.mantissa < y.mantissa)) := by
  have least : leastNormal = 4503599627370496 := rfl
  have high : x.highEnd = 4 * x.mantissa + 2 := rfl
  have below := proper.below
  have normal := proper.normal
  have normal' := proper'.normal
  have minimum := proper.least
  have ends := lowEnd_cases y
  rintro (lower | ⟨same, fewer⟩)
  · obtain ⟨k, exponent⟩ : ∃ k : Nat, y.exponent = x.exponent + (k + 1 : Nat) :=
      ⟨(y.exponent - x.exponent - 1).toNat, by omega⟩
    obtain ⟨le, lt⟩ := near.lowEnd_le near' exponent
    have twice : y.lowEnd * 2 ≤ y.lowEnd * 2 ^ (k + 1) :=
      Nat.mul_le_mul_left _ (Nat.le_self_pow (Nat.succ_ne_zero k) 2)
    generalize y.lowEnd * 2 ^ (k + 1) = scaled at le lt twice
    omega
  · obtain ⟨le, lt⟩ := near.lowEnd_le near' (k := 0) (by simpa using same.symm)
    rw [Nat.pow_zero, Nat.mul_one] at le lt
    omega

/-- Two numbers of the format have no fraction near to both. -/
theorem Near.unique {x y : Binary64} {q : ℚ} (near : x.Near q) (near' : y.Near q)
    (proper : x.Proper) (proper' : y.Proper) :
    x.mantissa = y.mantissa ∧ x.exponent = y.exponent := by
  have below := near.not_lt near' proper proper'
  have above := near'.not_lt near proper' proper
  omega

theorem toRat_shortest_pos {x : Binary64} (nonzero : x.mantissa ≠ 0) :
    0 < (Decimal.shortest x).toRat := by
  have lowest : 0 < x.lowEnd := by
    have ends := lowEnd_cases x
    omega
  have low := (near_shortest nonzero).low
  have positive : (0 : ℚ) < x.lowEnd * 2 ^ (x.exponent - 2) := by
    have cast : (0 : ℚ) < x.lowEnd := by exact_mod_cast lowest
    positivity
  exact positive.trans_le low

/-- The decimal of a number tells its magnitude. -/
theorem eq_of_toRat_shortest_eq {x y : Binary64} (proper : x.Proper) (proper' : y.Proper)
    (same : (Decimal.shortest x).toRat = (Decimal.shortest y).toRat) :
    x.mantissa = y.mantissa ∧ x.exponent = y.exponent := by
  have zero {z : Binary64} (none : z.mantissa = 0) : (Decimal.shortest z).toRat = 0 := by
    simp [Decimal.shortest, isZero, none, Decimal.toRat]
  by_cases none : x.mantissa = 0
  · by_cases none' : y.mantissa = 0
    · have least : leastNormal = 4503599627370496 := rfl
      have normal := proper.normal
      have normal' := proper'.normal
      omega
    · exact absurd (same.symm.trans (zero none)) (ne_of_gt (toRat_shortest_pos none'))
  · by_cases none' : y.mantissa = 0
    · exact absurd (same.trans (zero none')) (ne_of_gt (toRat_shortest_pos none))
    · exact (near_shortest none).unique (same ▸ near_shortest none') proper proper'

end Binary64

namespace Decimal

/-! ## Whole numbers -/

theorem isWhole_iff {x : Binary64} :
    x.IsWhole ↔ Nat.pow 2 (-x.exponent).toNat ∣ x.mantissa := by
  unfold Binary64.IsWhole Binary64.fraction
  split
  · rename_i nonneg
    have power : (-x.exponent).toNat = 0 := by omega
    rw [power]
    simp
  · rfl

theorem neighbourhood_low_lt {x : Binary64} (nonzero : x.mantissa ≠ 0) :
    (neighbourhood x).low < (neighbourhood x).middle := by
  refine Nat.mul_lt_mul_of_pos_right ?_ (Nat.pow_pos two_pos)
  split <;> omega

theorem neighbourhood_lt_high (x : Binary64) :
    (neighbourhood x).middle < (neighbourhood x).high :=
  Nat.mul_lt_mul_of_pos_right (by omega) (Nat.pow_pos two_pos)

/-- A number that is whole is a decimal on the grid of the whole numbers. -/
theorem onGrid?_zero {x : Binary64} (nonzero : x.mantissa ≠ 0) (whole : x.IsWhole) :
    ((neighbourhood x).onGrid? 0).isSome := by
  have divides : (neighbourhood x).denominator ∣ (neighbourhood x).middle := by
    have places : (-(x.exponent - 2)).toNat ≤ (-x.exponent).toNat + 2 := by omega
    calc Nat.pow 2 (-(x.exponent - 2)).toNat ∣ Nat.pow 2 ((-x.exponent).toNat + 2) :=
          Nat.pow_dvd_pow 2 places
      _ = 4 * Nat.pow 2 (-x.exponent).toNat := by
          rw [Nat.pow_eq, Nat.pow_eq, Nat.pow_add, Nat.mul_comm]
      _ ∣ 4 * x.mantissa := Nat.mul_dvd_mul_left 4 (isWhole_iff.mp whole)
      _ ∣ (neighbourhood x).middle := Dvd.intro _ rfl
  have hit : (neighbourhood x).contains
      ⟨(neighbourhood x).middle / (neighbourhood x).denominator, 0⟩ := by
    have low := neighbourhood_low_lt nonzero
    have high := neighbourhood_lt_high x
    unfold Neighbourhood.contains
    simp only [Int.toNat_zero, Int.neg_zero, Nat.pow_eq, Nat.pow_zero, Nat.mul_one,
      Nat.div_mul_cancel divides]
    split
    · exact decide_eq_true ⟨Nat.le_of_lt low, Nat.le_of_lt high⟩
    · exact decide_eq_true ⟨low, high⟩
  unfold Neighbourhood.onGrid?
  simp only [Int.toNat_zero, Int.neg_zero, Nat.pow_eq, Nat.pow_zero, Nat.mul_one, Nat.one_mul, hit]
  split <;> first | rfl | contradiction

/-- The grids that are searched begin above the whole numbers if the number is one, and those of
fractions are among them unless it is large. -/
theorem gridAbove_of_isWhole {x : Binary64} (nonzero : x.mantissa ≠ 0)
    (bounded : x.mantissa ≤ 2 * Binary64.leastNormal) (whole : x.IsWhole) :
    0 ≤ gridAbove x ∧ (24 ≤ gridAbove x → 0 ≤ x.exponent) := by
  have reached : (-x.exponent).toNat ≤ Nat.log2 x.mantissa :=
    (Nat.le_log2 nonzero).mpr (Nat.le_of_dvd (Nat.pos_of_ne_zero nonzero) (isWhole_iff.mp whole))
  have top : Nat.log2 x.mantissa < 54 :=
    (Nat.log2_lt nonzero).mpr (Nat.lt_of_le_of_lt bounded (by decide))
  unfold gridAbove
  omega

theorem shortest_exponent_nonneg {x : Binary64} (bounded : x.mantissa ≤ 2 * Binary64.leastNormal)
    (whole : x.IsWhole) : 0 ≤ (shortest x).exponent := by
  unfold shortest
  split
  · exact Int.le_refl 0
  · rename_i digits
    have nonzero : x.mantissa ≠ 0 := by simpa [Binary64.isZero] using digits
    obtain ⟨above, large⟩ := gridAbove_of_isWhole nonzero bounded whole
    dsimp only
    split
    · rename_i d found
      refine Int.le_trans ?_ (exponent_le_trim 20 d)
      by_cases near : gridAbove x - (24 : Nat) < 0
      · obtain ⟨d', found', exponent⟩ :=
          Neighbourhood.search_reaches above near (onGrid?_zero nonzero whole)
        obtain rfl := Option.some.inj (found.symm.trans found')
        exact exponent
      · have exponent := (Neighbourhood.search_hit found).2
        omega
    · rename_i missed
      by_cases near : gridAbove x - (24 : Nat) < 0
      · obtain ⟨d, found, -⟩ :=
          Neighbourhood.search_reaches above near (onGrid?_zero nonzero whole)
        rw [missed] at found
        contradiction
      · have exponent := large (by omega)
        dsimp only
        omega

/-- Half a unit of the last binary place keeps a natural number away from a number with a
fraction. -/
theorem isWhole_of_near {x : Binary64} {n : Nat} (near : x.Near n) : x.IsWhole := by
  by_cases nonneg : 0 ≤ x.exponent
  · have power : (-x.exponent).toNat = 0 := by omega
    rw [isWhole_iff, power]
    exact Nat.one_dvd _
  · obtain ⟨k, exponent⟩ : ∃ k : Nat, x.exponent = -(k : Int) := ⟨(-x.exponent).toNat, by omega⟩
    have unit : (2 : ℚ) ^ (x.exponent - 2) = (2 ^ (k + 2))⁻¹ := by
      have places : x.exponent - 2 = -((k + 2 : Nat) : Int) := by omega
      rw [places, zpow_neg, zpow_natCast]
    have low := near.low
    have high := near.high
    rw [unit, ← div_eq_mul_inv, div_le_iff₀ (by positivity)] at low
    rw [unit, ← div_eq_mul_inv, le_div_iff₀ (by positivity)] at high
    have lowest : x.lowEnd ≤ n * 2 ^ (k + 2) := by exact_mod_cast low
    have highest : n * 2 ^ (k + 2) ≤ 4 * x.mantissa + 2 := by exact_mod_cast high
    have quarter : n * 2 ^ (k + 2) = 4 * (n * 2 ^ k) := by ring
    have ends := Binary64.lowEnd_cases x
    have same : x.mantissa = n * 2 ^ k := by omega
    rw [isWhole_iff, exponent, same, Int.neg_neg, Int.toNat_natCast]
    exact Dvd.intro_left n rfl

theorem isWhole_of_exponent_nonneg {x : Binary64} (nonneg : 0 ≤ (shortest x).exponent) :
    x.IsWhole := by
  by_cases zero : x.mantissa = 0
  · rw [isWhole_iff, zero]
    exact Nat.dvd_zero _
  · obtain ⟨n, value⟩ := exists_nat_of_exponent_nonneg nonneg
    have near := Binary64.near_shortest zero
    rw [value] at near
    exact isWhole_of_near near

/-- The shortest decimal has digits behind the point exactly if the number is not whole. -/
theorem shortest_exponent_neg_iff {x : Binary64} (proper : x.Proper) :
    (shortest x).exponent < 0 ↔ ¬ x.IsWhole := by
  refine ⟨fun behind whole => ?_, fun broken => ?_⟩
  · exact Int.not_le.mpr behind (shortest_exponent_nonneg (Nat.le_of_lt proper.below) whole)
  · exact Int.not_le.mp fun nonneg => broken (isWhole_of_exponent_nonneg nonneg)

end Decimal

end Fieldmark
