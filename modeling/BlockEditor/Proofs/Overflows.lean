import BlockEditor.Proofs.DoubleOrder
import BlockEditor.Proofs.ExactIntegers
import BlockEditor.Proofs.Rounding

/-!
# Overflows

An operation should overflow exactly where its result does not fit into a word.  Sums, differences,
products, quotients, negatives and distances do.  There are three gaps: a remainder is refused with
its quotient, powers of 0, 1 and -1 are refused for large exponents, and a double that does not fit
becomes the nearest word.
-/

namespace BlockEditor

/-! ## Doubles without their fractions -/

namespace Number

/-- A number rounded toward zero. -/
def towardZero (q : Rat) : Int := if q < 0 then ⌈q⌉ else ⌊q⌋

/-- Numbers are rounded toward zero from both sides alike. -/
theorem towardZero_neg {q : Rat} (nonneg : 0 ≤ q) : towardZero (-q) = -⌊q⌋ := by
  unfold towardZero
  split
  · exact Int.ceil_neg
  · rename_i notBelow
    have zero : q = 0 := by linarith
    rw [zero, neg_zero, Int.floor_zero, neg_zero]

/-- The whole part of a magnitude is its floor. -/
theorem floor_magnitude (m : Nat) (e : Int) : ⌊(m : Rat) * 2 ^ e⌋ = wholePart m e := by
  have fraction : (m : Rat) * 2 ^ e =
      ((m * 2 ^ e.toNat : Nat) : Rat) / ((2 ^ (-e).toNat : Nat) : Rat) := by
    rw [zpow_eq_div (by norm_num)]
    push_cast
    ring
  rw [fraction, Rat.floor_natCast_div_natCast, wholePart, Nat.shiftLeft_eq,
    Nat.shiftRight_eq_div_pow]
  norm_cast

/-- Truncating a double rounds the number that it stands for toward zero. -/
theorem truncate?_eq (x : Float) : truncate? x = (value? x).map towardZero := by
  unfold truncate? value?
  cases parts x with
  | nan | infinite => rfl
  | finite negative m e =>
    have nonneg : (0 : Rat) ≤ m * 2 ^ e := by positivity
    cases negative with
    | false =>
      have up : towardZero ((m : Rat) * 2 ^ e) = wholePart m e := by
        rw [towardZero, if_neg (not_lt.2 nonneg), floor_magnitude]
      exact congrArg some up.symm
    | true =>
      have down : towardZero (-((m : Rat) * 2 ^ e)) = -(wholePart m e : Int) := by
        rw [towardZero_neg nonneg, floor_magnitude]
      exact congrArg some down.symm

end Number

/-! ## Overflows -/

namespace Value

open Number

/-- A result overflows exactly if an integer does not fit into a word, and otherwise it is the
integer. -/
structure OverflowsExactly (n : Int) (r : Except Cause Value) : Prop where
  overflow : r = .error .overflow ↔ ¬ (-2 ^ 63 ≤ n ∧ n < 2 ^ 63)
  value : -2 ^ 63 ≤ n ∧ n < 2 ^ 63 → ∃ v, r = .ok v ∧ IsInteger n v

/-- The value of an integer overflows exactly if the integer does not fit. -/
theorem overflowsExactly_ofInt (n : Int) : OverflowsExactly n (ofInt n) where
  overflow := by rw [ofInt_eq_error_iff, and_iff_right rfl]
  value fits := by
    have word := Int64.toInt_ofInt_of_le fits.1 fits.2
    exact ⟨_, ofInt_eq_ok_iff.2 ⟨_, rfl, word⟩, _, rfl, word⟩

/-- A finite double becomes the word nearest to it without its fraction. -/
theorem int_float {x : Float} {q : Rat} (number : value? x = some q) :
    Builtin.int.call [float x] = .ok (int (clampInt64 (towardZero q))) := by
  have truncated : truncate? x = some (towardZero q) := by
    rw [truncate?_eq, number, Option.map_some]
  change (float x).toInteger = _
  rw [toInteger, truncated]

/-- A word is not changed by being cut down to the words. -/
theorem clampInt64_eq {n : Int} (low : -2 ^ 63 ≤ n) (high : n < 2 ^ 63) :
    clampInt64 n = Int64.ofInt n := by
  rw [clampInt64, Int64.toInt_minValue, Int64.toInt_maxValue]
  congr 1
  omega

/-! ## Where they are exact -/

/-- The results that are refused are small. -/
theorem natAbs_le_of_refuses {op : BinOp} {a b : Int64} {n : Int} (refused : Refuses op a b)
    (result : exactResult? op a.toInt b.toInt = some n) : n.natAbs ≤ 1 := by
  rcases refused with ⟨rfl, rfl, rfl⟩ | ⟨rfl, large, unit⟩
  · obtain rfl : 0 = n := Option.some.inj result
    decide
  · simp only [exactResult?, Option.ite_none_left_eq_some, Option.some.injEq] at result
    obtain ⟨-, rfl⟩ := result
    rw [Int.natAbs_pow]
    exact (Nat.pow_le_pow_left unit _).trans (Nat.one_pow _).le

/-- An operation on integers overflows exactly, unless its result is refused. -/
theorem overflowsExactly_operation_iff {op : BinOp} {a b : Int64} {n : Int}
    (result : exactResult? op a.toInt b.toInt = some n) :
    OverflowsExactly n (operation op (int a) (int b)) ↔ ¬ Refuses op a b := by
  constructor
  · intro right refused
    -- A refused operation claims an overflow, but its result would have fitted.
    have large := right.overflow.1 (operation_of_refuses refused)
    have small := natAbs_le_of_refuses refused result
    omega
  · intro granted
    rw [operation_eq result granted]
    exact overflowsExactly_ofInt n

/-- The conversion of a double is exact where the integer fits, and never overflows. -/
theorem overflowsExactly_int_iff {x : Float} {q : Rat} (number : value? x = some q) :
    OverflowsExactly (towardZero q) (Builtin.int.call [float x]) ↔
      -2 ^ 63 ≤ towardZero q ∧ towardZero q < 2 ^ 63 := by
  rw [int_float number]
  constructor
  · intro right
    by_contra large
    cases right.overflow.2 large
  · intro fits
    rw [clampInt64_eq fits.1 fits.2]
    exact ⟨iff_of_false nofun (not_not.2 fits), fun _ =>
      ⟨_, rfl, _, rfl, Int64.toInt_ofInt_of_le fits.1 fits.2⟩⟩

/-- Operations on integers overflow exactly unless their results are refused, negatives and
distances always do, and conversions of finite doubles do where the integers fit. -/
theorem overflowsExactly_iff (a b : Int64) (x : Float) :
    (∀ op n, exactResult? op a.toInt b.toInt = some n →
      (OverflowsExactly n (operation op (int a) (int b)) ↔ ¬ Refuses op a b) ∧
        (Refuses op a b → operation op (int a) (int b) = .error .overflow)) ∧
      OverflowsExactly (-a.toInt) (unaryOperation .neg (int a)) ∧
      OverflowsExactly a.toInt.natAbs (Builtin.abs.call [int a]) ∧
      (isFinite x = true → ∃ n, (value? x).map towardZero = some n ∧
        (OverflowsExactly n (Builtin.int.call [float x]) ↔ -2 ^ 63 ≤ n ∧ n < 2 ^ 63) ∧
          Builtin.int.call [float x] = .ok (int (clampInt64 n))) := by
  refine ⟨fun op n result => ⟨overflowsExactly_operation_iff result, operation_of_refuses⟩,
    overflowsExactly_ofInt _, ?_, fun finite => ?_⟩
  · change OverflowsExactly _ (int a).absolute
    rw [absolute_int]
    exact overflowsExactly_ofInt _
  · rw [← isSome_value?] at finite
    obtain ⟨q, number⟩ := Option.isSome_iff_exists.1 finite
    exact ⟨_, by rw [number, Option.map_some], overflowsExactly_int_iff number, int_float number⟩

/-- The one quotient that is no word, and a double that loses its fraction. -/
theorem overflowsExactly_iff_leastQuotient :
    exactResult? .floorDiv Int64.minValue.toInt (-1 : Int64).toInt = some (2 ^ 63) ∧
      ¬ Refuses .floorDiv Int64.minValue (-1) ∧
      operation .floorDiv (int Int64.minValue) (int (-1)) = .error .overflow ∧
      isFinite (-2.5) = true ∧ OverflowsExactly (-2) (Builtin.int.call [float (-2.5)]) := by
  have result : exactResult? .floorDiv Int64.minValue.toInt (-1 : Int64).toInt = some (2 ^ 63) := by
    decide
  have granted : ¬ Refuses .floorDiv Int64.minValue (-1) := by
    rintro (⟨other, -⟩ | ⟨other, -⟩) <;> cases other
  have finite : isFinite (-2.5) = true := by decide +kernel
  have truncated : truncate? (-2.5) = some (-2) := by decide +kernel
  obtain ⟨operations, -, -, conversion⟩ := overflowsExactly_iff Int64.minValue (-1) (-2.5)
  obtain ⟨n, number, right, -⟩ := conversion finite
  obtain rfl : -2 = n := Option.some.inj (truncated.symm.trans ((truncate?_eq _).trans number))
  exact ⟨result, granted, ((operations _ _ result).1.2 granted).overflow.2 (by decide), finite,
    right.2 (by decide)⟩

/-- The remainder of the least integer and -1 is zero, all powers of 1 are 1, and 10 ^ 19 is no
word, but the first two overflow and the last one does not. -/
theorem not_overflowsExactly_largeDouble :
    (exactResult? .mod Int64.minValue.toInt (-1 : Int64).toInt = some 0 ∧
      ¬ OverflowsExactly 0 (operation .mod (int Int64.minValue) (int (-1)))) ∧
    (exactResult? .pow (1 : Int64).toInt (4294967296 : Int64).toInt = some 1 ∧
      ¬ OverflowsExactly 1 (operation .pow (int 1) (int 4294967296))) ∧
    ((value? 1e19).map towardZero = some 10000000000000000000 ∧
      ¬ OverflowsExactly 10000000000000000000 (Builtin.int.call [float 1e19])) := by
  have power : exactResult? .pow (1 : Int64).toInt (4294967296 : Int64).toInt = some 1 := by
    change some ((1 : Int) ^ _) = _
    rw [one_pow]
  have truncated : (value? 1e19).map towardZero = some 10000000000000000000 := by
    rw [← truncate?_eq]
    decide +kernel
  refine ⟨⟨by decide, fun right => ?_⟩, ⟨power, fun right => ?_⟩, truncated, fun right => ?_⟩
  · exact right.overflow.1 (operation_of_refuses (.inl ⟨rfl, rfl, rfl⟩)) (by decide)
  · exact right.overflow.1 (operation_of_refuses (.inr ⟨rfl, by decide, by decide⟩)) (by decide)
  · obtain ⟨q, number, whole⟩ := Option.map_eq_some_iff.1 truncated
    rw [← whole, overflowsExactly_int_iff number] at right
    omega

end Value

end BlockEditor
