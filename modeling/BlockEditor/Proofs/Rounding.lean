import BlockEditor.Proofs.Doubles
import Mathlib.Algebra.Order.Field.Power
import Mathlib.Data.Rat.Cast.Order
import Mathlib.Tactic.FieldSimp
import Mathlib.Tactic.Linarith
import Mathlib.Tactic.NormNum
import Mathlib.Tactic.Positivity
import Mathlib.Tactic.Ring

/-!
# Rounding

A fraction is rounded to a double by dropping bits and looking at what was dropped.  The result is
the double in whose rounding interval the fraction lies.
-/

namespace BlockEditor.Number

open Float.Model (UnpackedFloat Format totalExponent)
open Float.Model.UnpackedFloat (Sign ExtendedMantissa accuracyOfFraction roundWithAccuracy
  shiftToTargetExponent)

/-! ## Dropped bits -/

/-- The whole part of a fraction with what its rest says about rounding. -/
def wholeWithRest (a b : Nat) : ExtendedMantissa :=
  .ofMantissaAndAccuracy (a / b) (accuracyOfFraction (a % b) b)

section Fractions

variable {a b : Nat}

/-- The two residual bits tell whether the rest is at least a half, and whether it is neither
nothing nor a half. -/
theorem wholeWithRest_eq (positive : 0 < b) : wholeWithRest a b =
    ⟨a / b, decide (b ≤ 2 * (a % b)), decide (a % b ≠ 0 ∧ 2 * (a % b) ≠ b)⟩ := by
  unfold wholeWithRest accuracyOfFraction
  by_cases exact : a % b = 0
  · rw [if_pos exact]
    simp [ExtendedMantissa.ofMantissaAndAccuracy, exact]
    omega
  · rw [if_neg exact]
    rcases Nat.lt_trichotomy (2 * (a % b)) b with less | half | more
    · rw [Nat.compare_eq_lt.2 less]
      simp [ExtendedMantissa.ofMantissaAndAccuracy, exact]
      omega
    · rw [Nat.compare_eq_eq.2 half]
      simp [ExtendedMantissa.ofMantissaAndAccuracy, half]
    · rw [Nat.compare_eq_gt.2 more]
      simp [ExtendedMantissa.ofMantissaAndAccuracy, exact]
      omega

/-- Dropping a bit of the whole part halves the fraction. -/
theorem shiftRightOne_wholeWithRest (positive : 0 < b) :
    (wholeWithRest a b).shiftRightOne = wholeWithRest a (b * 2) := by
  have rest := Nat.mod_lt a positive
  have whole : a / (b * 2) = a / b / 2 := (Nat.div_div_eq_div_mul a b 2).symm
  have split : a % (b * 2) = a % b + b * (a / b % 2) := Nat.mod_mul
  rw [wholeWithRest_eq positive, wholeWithRest_eq (by omega), ExtendedMantissa.shiftRightOne, whole, split]
  congr 1
  · rw [Bool.eq_iff_iff, bne_iff_ne, decide_eq_true_iff]
    rcases Nat.mod_two_eq_zero_or_one (a / b) with bit | bit <;> rw [bit] <;> omega
  · rw [Bool.eq_iff_iff, Bool.or_eq_true, decide_eq_true_iff, decide_eq_true_iff, decide_eq_true_iff]
    rcases Nat.mod_two_eq_zero_or_one (a / b) with bit | bit <;> rw [bit] <;> omega

/-- Dropping bits of the whole part makes the fraction smaller. -/
theorem shiftRight_wholeWithRest (positive : 0 < b) (k : Nat) :
    wholeWithRest a b >>> k = wholeWithRest a (b * 2 ^ k) := by
  induction k with
  | zero => rw [Nat.pow_zero, Nat.mul_one]; rfl
  | succ k ih =>
    show (wholeWithRest a b >>> k).shiftRightOne = _
    have more : 0 < b * 2 ^ k := Nat.mul_pos positive (Nat.two_pow_pos k)
    rw [ih, shiftRightOne_wholeWithRest more, Nat.mul_assoc, Nat.pow_succ]

/-- A fraction is rounded to a whole number that is at most a half away, to an even one if it is
a half away. -/
theorem roundedMantissa_wholeWithRest {n : Nat} (positive : 0 < b) (low : 2 * (n * b) ≤ 2 * a + b)
    (high : 2 * a ≤ 2 * (n * b) + b)
    (tie : n % 2 = 0 ∨ (2 * (n * b) < 2 * a + b ∧ 2 * a < 2 * (n * b) + b)) :
    (wholeWithRest a b).roundedMantissa = n := by
  have rest := Nat.mod_lt a positive
  have whole := Nat.div_add_mod a b
  rw [wholeWithRest_eq positive]
  generalize a / b = q at *
  generalize a % b = r at *
  subst whole
  -- The number that is at most a half away is the whole part or the next one.
  have notAbove : n ≤ q + 1 := by
    have : 2 * n * b < (2 * q + 3) * b := by linarith
    have := Nat.lt_of_mul_lt_mul_right this
    omega
  have notBelow : q ≤ n := by
    have : 2 * q * b < (2 * n + 2) * b := by linarith
    have := Nat.lt_of_mul_lt_mul_right this
    omega
  obtain rfl | rfl : n = q ∨ n = q + 1 := by omega
  · have atMost : 2 * r ≤ b := by linarith
    -- Here the rest is at most a half; where it is exactly a half, the whole part is even.
    by_cases half : b ≤ 2 * r
    · have even : n % 2 = 0 := tie.resolve_right fun strict => by linarith [strict.2]
      rw [decide_eq_true half, decide_eq_false (by omega)]
      show n + n % 2 = n
      rw [even, Nat.add_zero]
    · rw [decide_eq_false half]
      cases decide (r ≠ 0 ∧ 2 * r ≠ b) <;> rfl
  · have atLeast : b ≤ 2 * r := by linarith
    rw [decide_eq_true atLeast]
    by_cases half : 2 * r = b
    · have even : (q + 1) % 2 = 0 := tie.resolve_right fun strict => by linarith [strict.1]
      rw [decide_eq_false (by omega)]
      show q + q % 2 = q + 1
      omega
    · rw [decide_eq_true (by omega)]
      rfl

end Fractions

/-! ## Rounding to canonical form -/

/-- The exponent that a number of a magnitude is rounded to. -/
theorem targetExponent_eq (m : Nat) (e : Int) :
    Format.binary64.targetExponent (totalExponent m e) = max ((m.log2 : Int) + e - 52) (-1074) := by
  show max ((m.log2 : Int) + 1 + e - (53 : Nat)) (3 - 2 ^ (11 - 1) - (53 : Nat)) = _
  omega

section Rounds

variable {s : Sign} {a b n : Nat} {e t : Int}

/-- The mantissa of a fraction is shifted until its exponent is the one it is rounded to. -/
theorem shiftToTargetExponent_wholeWithRest (positive : 0 < b)
    (target : Format.binary64.targetExponent (totalExponent (a / b) e) = t) (room : e ≤ t) :
    shiftToTargetExponent .binary64 (a / b) e (accuracyOfFraction (a % b) b) =
      (wholeWithRest a (b * 2 ^ (t - e).toNat), t) := by
  show (wholeWithRest a b >>> (_ - e).toNat, e + ((_ - e).toNat : Int)) = _
  rw [target, shiftRight_wholeWithRest positive]
  congr 1
  omega

/-- A mantissa that is short enough stays as it is. -/
theorem shiftToTargetExponent_short (fits : n < 2 ^ 53) (least : -1074 ≤ t) :
    shiftToTargetExponent .binary64 n t .exact = (⟨n, false, false⟩, t) := by
  have log : n.log2 ≤ 52 := by
    by_cases zero : n = 0
    · rw [zero]
      decide
    · exact Nat.le_of_lt_succ ((Nat.log2_lt zero).2 fits)
  have stay : (Format.binary64.targetExponent (totalExponent n t) - t).toNat = 0 := by
    rw [targetExponent_eq]
    omega
  show (ExtendedMantissa.ofMantissaAndAccuracy n .exact >>> (_ - t).toNat,
    t + ((_ - t).toNat : Int)) = _
  rw [stay]
  congr 1
  omega

/-- A mantissa that is one bit too long is halved. -/
theorem shiftToTargetExponent_long (least : -1074 ≤ t) :
    shiftToTargetExponent .binary64 (2 ^ 53) t .exact = (⟨2 ^ 52, false, false⟩, t + 1) := by
  have once : (Format.binary64.targetExponent (totalExponent (2 ^ 53) t) - t).toNat = 1 := by
    rw [targetExponent_eq, Nat.log2_two_pow]
    omega
  show (ExtendedMantissa.ofMantissaAndAccuracy (2 ^ 53) .exact >>> (_ - t).toNat,
    t + ((_ - t).toNat : Int)) = _
  rw [once]
  rfl

/-- No exponent lies below the least one. -/
theorem least_of_target (target : Format.binary64.targetExponent (totalExponent n e) = t) :
    -1074 ≤ t := by
  rw [targetExponent_eq] at target
  omega

/-- A fraction whose rounded mantissa has room is rounded to it. -/
theorem roundWithAccuracy_eq (positive : 0 < b)
    (target : Format.binary64.targetExponent (totalExponent (a / b) e) = t) (room : e ≤ t)
    (rounded : (wholeWithRest a (b * 2 ^ (t - e).toNat)).roundedMantissa = n) (nonzero : 0 < n)
    (fits : n < 2 ^ 53) : roundWithAccuracy .binary64 s (a / b) e (accuracyOfFraction (a % b) b) =
      .finite s n t nonzero := by
  rw [roundWithAccuracy, shiftToTargetExponent_wholeWithRest positive target room]
  dsimp only
  rw [rounded, shiftToTargetExponent_short fits (least_of_target target)]
  exact dif_neg (Nat.ne_of_gt nonzero)

/-- A fraction whose rounded mantissa is one bit too long is rounded to a power of two. -/
theorem roundWithAccuracy_carry (positive : 0 < b)
    (target : Format.binary64.targetExponent (totalExponent (a / b) e) = t) (room : e ≤ t)
    (rounded : (wholeWithRest a (b * 2 ^ (t - e).toNat)).roundedMantissa = 2 ^ 53) :
    roundWithAccuracy .binary64 s (a / b) e (accuracyOfFraction (a % b) b) =
      .finite s (2 ^ 52) (t + 1) (by decide) := by
  rw [roundWithAccuracy, shiftToTargetExponent_wholeWithRest positive target room]
  dsimp only
  rw [rounded, shiftToTargetExponent_long (least_of_target target)]
  exact dif_neg (show ¬ 2 ^ 52 = 0 by decide)

end Rounds

/-! ## Rounding intervals -/

/-- A power with a whole exponent, as a fraction of two with natural ones. -/
theorem zpow_eq_div {x : Rat} (nonzero : x ≠ 0) (e : Int) :
    x ^ e = x ^ e.toNat / x ^ (-e).toNat := by
  rw [← zpow_natCast, ← zpow_natCast, ← zpow_sub₀ nonzero, Int.toNat_sub_toNat_neg]

/-- How far below a double, in units of its last place, numbers are rounded to it.  The doubles
below a power of two are closer together, unless it is the least normal one. -/
def reachBelow (m : Nat) (e : Int) : Rat := if m = leadingBit ∧ -1074 < e then 1 / 4 else 1 / 2

/-- A number lies in the rounding interval of a double. -/
structure RoundsTo (v : Rat) (m : Nat) (e : Int) : Prop where
  low : (m - reachBelow m e) * 2 ^ e ≤ v
  high : v ≤ (m + 1 / 2) * 2 ^ e
  tie : m % 2 = 0 ∨ ((m - reachBelow m e) * 2 ^ e < v ∧ v < (m + 1 / 2) * 2 ^ e)

/-- The reach below a double is at most a half of its last place. -/
theorem half_le_reachBelow (m : Nat) (e : Int) : reachBelow m e ≤ 1 / 2 := by
  unfold reachBelow
  split <;> norm_num

/-- It is more than nothing. -/
theorem reachBelow_pos (m : Nat) (e : Int) : 0 < reachBelow m e := by
  unfold reachBelow
  split <;> norm_num

section Intervals

variable {a b n m : Nat} {e t d : Int} {v w : Rat}

/-- A fraction is rounded to the whole number that is less than a half away, or to an even one at a
half. -/
theorem roundedMantissa_of_near (positive : 0 < b) (value : (a : Rat) = w * b)
    (low : (n : Rat) - 1 / 2 ≤ w) (high : w ≤ n + 1 / 2)
    (tie : n % 2 = 0 ∨ ((n : Rat) - 1 / 2 < w ∧ w < n + 1 / 2)) :
    (wholeWithRest a b).roundedMantissa = n := by
  have unit : (0 : Rat) < b := by exact_mod_cast positive
  apply roundedMantissa_wholeWithRest positive
  · have : (2 * (n * b) : Rat) ≤ 2 * a + b := by
      rw [value]
      nlinarith
    exact_mod_cast this
  · have : (2 * a : Rat) ≤ 2 * (n * b) + b := by
      rw [value]
      nlinarith
    exact_mod_cast this
  · refine tie.imp_right ?_
    rintro ⟨above, below⟩
    constructor
    · have : (2 * (n * b) : Rat) < 2 * a + b := by
        rw [value]
        nlinarith
      exact_mod_cast this
    · have : (2 * a : Rat) < 2 * (n * b) + b := by
        rw [value]
        nlinarith
      exact_mod_cast this

/-- The value of a fraction in units of a greater power of two. -/
theorem value_shifted (positive : 0 < b) (value : v = a / b * 2 ^ e) (room : e ≤ t) :
    (a : Rat) = v / 2 ^ t * ((b * 2 ^ (t - e).toNat : Nat) : Rat) := by
  have unit : (b : Rat) ≠ 0 := by exact_mod_cast Nat.ne_of_gt positive
  have power : ((2 ^ (t - e).toNat : Nat) : Rat) = 2 ^ t / 2 ^ e := by
    rw [← zpow_sub₀ (by norm_num), Nat.cast_pow, ← zpow_natCast, Int.toNat_of_nonneg (by omega)]
    norm_num
  have below : (2 : Rat) ^ e ≠ 0 := by positivity
  have above : (2 : Rat) ^ t ≠ 0 := by positivity
  rw [Nat.cast_mul, power, value]
  field_simp

/-- The value of a fraction other than zero lies between two powers of two. -/
theorem value_between (positive : 0 < b) (value : v = a / b * 2 ^ e) (nonzero : a / b ≠ 0) :
    (2 : Rat) ^ (((a / b).log2 : Int) + e) ≤ v ∧ v < 2 ^ (((a / b).log2 : Int) + e + 1) := by
  have unit : (0 : Rat) < b := by exact_mod_cast positive
  have below : (2 : Rat) ^ (a / b).log2 ≤ a / b := by
    rw [le_div_iff₀ unit]
    have := (Nat.le_div_iff_mul_le positive).1 (Nat.log2_self_le nonzero)
    exact_mod_cast this
  have above : (a / b : Rat) < 2 ^ ((a / b).log2 + 1) := by
    rw [div_lt_iff₀ unit]
    have := (Nat.div_lt_iff_lt_mul positive).1 (Nat.lt_log2_self (n := a / b))
    exact_mod_cast this
  have power : (0 : Rat) < 2 ^ e := by positivity
  rw [value]
  constructor
  · rw [zpow_add₀ (by norm_num), zpow_natCast]
    exact mul_le_mul_of_nonneg_right below power.le
  · rw [show ((a / b).log2 : Int) + e + 1 = ((a / b).log2 + 1 : Nat) + e by push_cast; ring,
      zpow_add₀ (by norm_num), zpow_natCast]
    exact mul_lt_mul_of_pos_right above power

/-- With room for all bits, only numbers below all doubles have no whole part. -/
theorem quotient_ne_zero (positive : 0 < b) (value : v = a / b * 2 ^ e)
    (room : e ≤ Format.binary64.targetExponent (totalExponent (a / b) e))
    (large : (2 : Rat) ^ (-1074 : Int) ≤ v) : a / b ≠ 0 := by
  intro zero
  have unit : (0 : Rat) < b := by exact_mod_cast positive
  have small : e ≤ -1074 := by
    rw [targetExponent_eq, zero, show Nat.log2 0 = 0 from rfl] at room
    omega
  have less : (a / b : Rat) < 1 := by
    rw [div_lt_one unit]
    exact_mod_cast (Nat.div_eq_zero_iff_lt positive).1 zero
  have power : (0 : Rat) < 2 ^ e := by positivity
  have bound : v < 2 ^ e := by
    rw [value]
    nlinarith
  have : (2 : Rat) ^ e ≤ 2 ^ (-1074 : Int) := zpow_le_zpow_right₀ (by norm_num) small
  linarith

/-- The exponent that a number between two powers of two is rounded to. -/
theorem targetExponent_of_between (positive : 0 < b) (value : v = a / b * 2 ^ e)
    (nonzero : a / b ≠ 0) (low : (2 : Rat) ^ (52 + t) ≤ v) (high : v < 2 ^ (53 + t))
    (least : -1074 ≤ t) : Format.binary64.targetExponent (totalExponent (a / b) e) = t := by
  obtain ⟨below, above⟩ := value_between positive value nonzero
  have one : (1 : Rat) < 2 := by norm_num
  have low' := (zpow_lt_zpow_iff_right₀ one).1 (low.trans_lt above)
  have high' := (zpow_lt_zpow_iff_right₀ one).1 (below.trans_lt high)
  rw [targetExponent_eq]
  omega

/-- The least exponent is that of all numbers below the least normal one. -/
theorem targetExponent_of_small (positive : 0 < b) (value : v = a / b * 2 ^ e)
    (room : e ≤ Format.binary64.targetExponent (totalExponent (a / b) e))
    (high : v < 2 ^ (53 + -1074 : Int)) :
    Format.binary64.targetExponent (totalExponent (a / b) e) = -1074 := by
  by_cases nonzero : a / b = 0
  · rw [targetExponent_eq, nonzero, show Nat.log2 0 = 0 from rfl] at room ⊢
    omega
  · obtain ⟨below, -⟩ := value_between positive value nonzero
    have := (zpow_lt_zpow_iff_right₀ (by norm_num : (1 : Rat) < 2)).1 (below.trans_lt high)
    rw [targetExponent_eq]
    omega

/-- In units of the last place, a number is at most a half away from the mantissa it is rounded
to. -/
theorem RoundsTo.near (h : RoundsTo v m d) : (m : Rat) - 1 / 2 ≤ v / 2 ^ d ∧ v / 2 ^ d ≤ m + 1 / 2 ∧
    (m % 2 = 0 ∨ ((m : Rat) - 1 / 2 < v / 2 ^ d ∧ v / 2 ^ d < m + 1 / 2)) := by
  have reach := half_le_reachBelow m d
  have power : (0 : Rat) < 2 ^ d := by positivity
  have low := (le_div_iff₀ power).2 h.low
  refine ⟨by linarith, (div_le_iff₀ power).2 h.high, h.tie.imp_right ?_⟩
  rintro ⟨above, below⟩
  have above := (lt_div_iff₀ power).2 above
  exact ⟨by linarith, (div_lt_iff₀ power).2 below⟩

/-- A number just below a power of two is rounded up to it. -/
theorem roundWithAccuracy_below {s : Sign} (h : Canonical m d) (positive : 0 < b)
    (value : v = a / b * 2 ^ e)
    (room : e ≤ Format.binary64.targetExponent (totalExponent (a / b) e)) (rounds : RoundsTo v m d)
    (less : v < 2 ^ (52 + d)) (large : -1074 < d) :
    roundWithAccuracy .binary64 s (a / b) e (accuracyOfFraction (a % b) b) =
      .finite s m d h.positive := by
  have power : (0 : Rat) < 2 ^ d := by positivity
  have split : (2 : Rat) ^ (52 + d) = 2 ^ 52 * 2 ^ d := by
    rw [zpow_add₀ (by norm_num)]
    norm_cast
  have halved : (2 : Rat) ^ d = 2 * 2 ^ (d - 1) := by
    rw [← zpow_one_add₀ (by norm_num)]
    congr 1
    omega
  -- the double can only be the power of two itself
  have lead : m = leadingBit := by
    have least := h.normal.resolve_right (by omega)
    have reach := half_le_reachBelow m d
    have : (m : Rat) - 1 / 2 < 2 ^ 52 := by
      have low := rounds.low
      rw [split] at less
      nlinarith
    have : (m : Rat) < 2 ^ 52 + 1 := by linarith
    have : m < 2 ^ 52 + 1 := by exact_mod_cast this
    have : leadingBit = 2 ^ 52 := rfl
    omega
  have reach : reachBelow m d = 1 / 4 := if_pos ⟨lead, large⟩
  have mantissa : (m : Rat) = 2 ^ 52 := by
    rw [lead, show leadingBit = 2 ^ 52 from rfl]
    norm_num
  have low := rounds.low
  rw [reach, mantissa, halved] at low
  have target : Format.binary64.targetExponent (totalExponent (a / b) e) = d - 1 := by
    have half : (0 : Rat) < 2 ^ (d - 1) := by positivity
    have above : (2 : Rat) ^ (52 + (d - 1)) ≤ v := by
      rw [zpow_add₀ (by norm_num), show (2 : Rat) ^ (52 : Int) = 2 ^ 52 by norm_cast]
      nlinarith
    have below : v < (2 : Rat) ^ (53 + (d - 1)) := by
      rw [show 53 + (d - 1) = 52 + d by omega]
      exact less
    refine targetExponent_of_between positive value ?_ above below (by omega)
    refine quotient_ne_zero positive value room (le_trans (zpow_le_zpow_right₀ (by norm_num) ?_) above)
    omega
  rw [target] at room
  have half : (0 : Rat) < 2 ^ (d - 1) := by positivity
  have rounded : (wholeWithRest a (b * 2 ^ (d - 1 - e).toNat)).roundedMantissa = 2 ^ 53 := by
    apply roundedMantissa_of_near (by positivity) (value_shifted positive value room)
    · rw [le_div_iff₀ half]
      push_cast
      nlinarith
    · rw [div_le_iff₀ half]
      push_cast
      rw [split, halved] at less
      nlinarith
    · exact .inl rfl
  rw [roundWithAccuracy_carry positive target room rounded]
  exact finite_congr lead.symm (by omega)

/-- A fraction is rounded to the double in whose rounding interval it lies. -/
theorem roundWithAccuracy_of_roundsTo {s : Sign} (h : Canonical m d) (positive : 0 < b)
    (value : v = a / b * 2 ^ e)
    (room : e ≤ Format.binary64.targetExponent (totalExponent (a / b) e)) (rounds : RoundsTo v m d) :
    roundWithAccuracy .binary64 s (a / b) e (accuracyOfFraction (a % b) b) =
      .finite s m d h.positive := by
  have power : (0 : Rat) < 2 ^ d := by positivity
  have upper : v < 2 ^ (53 + d) := by
    have short : (m : Rat) + 1 ≤ 2 ^ 53 := by exact_mod_cast h.below
    have high := rounds.high
    rw [zpow_add₀ (by norm_num)]
    have : (2 : Rat) ^ (53 : Int) = 2 ^ 53 := by norm_cast
    nlinarith
  obtain ⟨low, high, tie⟩ := rounds.near
  -- A number of the magnitude of its double is rounded at the exponent of the double; a smaller
  -- one has the least exponent, or lies just below a power of two.
  by_cases normal : (2 : Rat) ^ (52 + d) ≤ v
  · have large : (2 : Rat) ^ (-1074 : Int) ≤ v := by
      refine le_trans (zpow_le_zpow_right₀ (by norm_num) ?_) normal
      have := h.least
      omega
    have nonzero := quotient_ne_zero positive value room large
    have target := targetExponent_of_between positive value nonzero normal upper h.least
    rw [target] at room
    exact roundWithAccuracy_eq positive target room
      (roundedMantissa_of_near (by positivity) (value_shifted positive value room) low high tie) _ h.below
  · by_cases least : d = -1074
    · subst least
      have target := targetExponent_of_small positive value room upper
      rw [target] at room
      exact roundWithAccuracy_eq positive target room
        (roundedMantissa_of_near (by positivity) (value_shifted positive value room) low high tie) _ h.below
    · exact roundWithAccuracy_below h positive value room rounds (not_le.1 normal)
        (lt_of_le_of_ne h.least (Ne.symm least))

end Intervals


end BlockEditor.Number
