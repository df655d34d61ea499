import BlockEditor.Proofs.SteppedValues
import Mathlib.Algebra.Ring.Parity

/-!
# Exact integers

Every operation on integers is the exact one, given as a value where the result fits into a word.
Divisions are rounded toward zero first and then corrected to the floor, and the corrections never
leave the words.
-/

namespace BlockEditor

/-! ## Quotients rounded to the floor -/

section Floors

variable {a b : Int}

/-- The rest of a division toward zero is smaller than the divisor and has the sign of the
dividend. -/
theorem tmod_bounds (a : Int) (divides : b ≠ 0) : (Int.tmod a b).natAbs < b.natAbs ∧
    (0 ≤ a → 0 ≤ Int.tmod a b) ∧ (a ≤ 0 → Int.tmod a b ≤ 0) := by
  refine ⟨?_, Int.tmod_nonneg b, fun negative => ?_⟩
  · rw [Int.natAbs_tmod]
    exact Nat.mod_lt _ (by omega)
  · have opposite := Int.tmod_nonneg b (show 0 ≤ -a by omega)
    rw [Int.neg_tmod] at opposite
    omega

/-- Without a rest, or between equal signs, a quotient toward zero is rounded down. -/
theorem fdiv_fmod_eq (divides : b ≠ 0) (down : Int.tmod a b = 0 ∨ (a < 0 ↔ b < 0)) :
    Int.fdiv a b = Int.tdiv a b ∧ Int.fmod a b = Int.tmod a b := by
  obtain ⟨small, front, back⟩ := tmod_bounds a divides
  have parts := Int.mul_tdiv_add_tmod a b
  rcases Int.lt_or_gt_of_ne divides with negative | positive
  · exact (Int.fdiv_fmod_unique' negative).2 ⟨by omega, by omega, by omega⟩
  · exact (Int.fdiv_fmod_unique positive).2 ⟨by omega, by omega, by omega⟩

/-- Otherwise it is rounded up, and one too large. -/
theorem fdiv_fmod_eq_of_rounded_up (divides : b ≠ 0) (rest : Int.tmod a b ≠ 0)
    (apart : ¬ (a < 0 ↔ b < 0)) :
    Int.fdiv a b = Int.tdiv a b - 1 ∧ Int.fmod a b = Int.tmod a b + b := by
  obtain ⟨small, front, back⟩ := tmod_bounds a divides
  have parts := Int.mul_tdiv_add_tmod a b
  have less : b * (Int.tdiv a b - 1) = b * Int.tdiv a b - b := by rw [Int.mul_sub, Int.mul_one]
  rcases Int.lt_or_gt_of_ne divides with negative | positive
  · exact (Int.fdiv_fmod_unique' negative).2 ⟨by omega, by omega, by omega⟩
  · exact (Int.fdiv_fmod_unique positive).2 ⟨by omega, by omega, by omega⟩

end Floors

/-! ## Powers -/

/-- The powers of other integers than 0, 1 and -1 grow. -/
theorem two_pow_le_natAbs_pow {b : Int} (several : 1 < b.natAbs) (e : Nat) :
    2 ^ e ≤ (b ^ e).natAbs := by
  rw [Int.natAbs_pow]
  exact Nat.pow_le_pow_left several e

/-- Of the powers of 0, 1 and -1 only the parity of the exponent matters. -/
theorem pow_eq_pow_of_parity {b : Int} (unit : b.natAbs ≤ 1) {e k : Nat} (positive : 0 < e)
    (positive' : 0 < k) (parity : e % 2 = k % 2) : b ^ e = b ^ k := by
  have cases : b = 0 ∨ b = 1 ∨ b = -1 := by omega
  rcases cases with rfl | rfl | rfl
  · rw [zero_pow (by omega), zero_pow (by omega)]
  · rw [one_pow, one_pow]
  · rw [neg_one_pow_eq_pow_mod_two, parity, ← neg_one_pow_eq_pow_mod_two]

/-! ## Integers as values -/

/-- An integer is no word exactly if it lies outside their range. -/
theorem Number.toInt64?_eq_none_iff {n : Int} :
    toInt64? n = none ↔ ¬ (-2 ^ 63 ≤ n ∧ n < 2 ^ 63) := by
  unfold toInt64?
  rw [Int64.toInt_minValue, Int64.toInt_maxValue]
  split
  · simp only [reduceCtorEq, false_iff, Decidable.not_not]
    omega
  · simp only [true_iff]
    omega

namespace Value

open Checked

/-- A value is the integer `n`. -/
def IsInteger (n : Int) (v : Value) : Prop := ∃ w : Int64, v = int w ∧ w.toInt = n

/-- An exact integer becomes this integer as a value, if it becomes one. -/
theorem ofInt_eq_ok_iff {n : Int} {v : Value} : ofInt n = .ok v ↔ IsInteger n v := by
  unfold ofInt IsInteger
  constructor
  · intro given
    split at given
    · rename_i w fits
      cases given
      exact ⟨w, rfl, (Number.toInt64?_eq_some_iff n w).1 fits⟩
    · cases given
  · rintro ⟨w, rfl, e⟩
    rw [(Number.toInt64?_eq_some_iff n w).2 e]

/-- It becomes none if it does not fit. -/
theorem ofInt_eq_error_iff {n : Int} {cause : Cause} :
    ofInt n = .error cause ↔ cause = .overflow ∧ ¬ (-2 ^ 63 ≤ n ∧ n < 2 ^ 63) := by
  rw [← Number.toInt64?_eq_none_iff]
  unfold ofInt
  cases Number.toInt64? n with
  | some w => simp
  | none => simp [eq_comm]

/-- An integer in the range of the words becomes a value. -/
theorem map_word {n : Int} (low : -2 ^ 63 ≤ n) (high : n < 2 ^ 63) :
    Value.int <$> word n = ofInt n := by
  rw [word_eq low high, ofInt_eq_ok_iff.2 ⟨_, rfl, Int64.toInt_ofInt_of_le low high⟩]
  rfl

/-! ## Results of operations -/

/-- Of all quotients of words, one is no word. -/
theorem toInt64?_tdiv_eq_none_iff {m n : Int64} :
    Number.toInt64? (Int.tdiv m.toInt n.toInt) = Option.none ↔ m = Int64.minValue ∧ n = -1 := by
  constructor
  · intro large
    rw [Number.toInt64?_eq_none_iff] at large
    have size := natAbs_toInt_le m
    have low := m.le_toInt
    have high := m.toInt_lt
    have quotient : (Int.tdiv m.toInt n.toInt).natAbs = m.toInt.natAbs / n.toInt.natAbs :=
      Int.natAbs_tdiv m.toInt n.toInt
    -- a divisor of another size makes the quotient zero or at most half as large
    have unit : n.toInt.natAbs = 1 := by
      by_contra other
      rcases Nat.eq_zero_or_pos n.toInt.natAbs with zero | positive
      · rw [zero, Nat.div_zero] at quotient
        omega
      · have half := Nat.div_le_div_left (show 2 ≤ n.toInt.natAbs by omega) (show 0 < 2 by omega)
          (a := m.toInt.natAbs)
        omega
    have signs : n.toInt = 1 ∨ n.toInt = -1 := by omega
    rcases signs with one | minus
    · rw [one, Int.tdiv_one] at large
      omega
    · rw [minus, Int.tdiv_neg, Int.tdiv_one] at large
      exact ⟨Int64.toInt_inj.1 (by rw [Int64.toInt_minValue]; omega), Int64.toInt_inj.1 minus⟩
  · rintro ⟨rfl, rfl⟩
    decide

/-- A quotient of words is rounded to the floor. -/
theorem floorQuotient_eq {m n : Int64} (divides : n ≠ 0) :
    floorQuotient m n = ofInt (Int.fdiv m.toInt n.toInt) := by
  have nonzero := toInt_ne_zero divides
  unfold floorQuotient
  split
  · rename_i large
    obtain ⟨rfl, rfl⟩ := toInt64?_tdiv_eq_none_iff.1 large
    rfl
  · rename_i q fits
    have value := (Number.toInt64?_eq_some_iff _ q).1 fits
    obtain ⟨rest, remains, rest_eq, -⟩ := wordRemainder_eq divides fits
    rw [remains]
    change (if rest ≠ 0 ∧ ¬ (m < 0 ↔ n < 0) then Value.int <$> word (q.toInt - 1)
      else .ok (.int q)) = _
    simp only [Int64.lt_iff_toInt_lt, Int64.toInt_zero]
    split
    -- The truncated quotient was rounded up, so that one is subtracted, which cannot overflow.
    · rename_i rounded
      have left : Int.tmod m.toInt n.toInt ≠ 0 := rest_eq ▸ toInt_ne_zero rounded.1
      have size := natAbs_quotient_lt fits left
      rw [(fdiv_fmod_eq_of_rounded_up nonzero left rounded.2).1, ← value,
        map_word (by omega) (by omega)]
    · rename_i exact'
      have down : Int.tmod m.toInt n.toInt = 0 ∨ (m.toInt < 0 ↔ n.toInt < 0) := by
        rw [← rest_eq, ← Int64.toInt_zero, Int64.toInt_inj, Int64.toInt_zero]
        tauto
      rw [(fdiv_fmod_eq nonzero down).1]
      exact (ofInt_eq_ok_iff.2 ⟨q, rfl, value⟩).symm

/-- A remainder of words has the sign of the divisor.  It is refused where the quotient does not
fit. -/
theorem floorRemainder_eq {m n : Int64} (divides : n ≠ 0)
    (other : ¬ (m = Int64.minValue ∧ n = -1)) :
    floorRemainder m n = ofInt (Int.fmod m.toInt n.toInt) := by
  have nonzero := toInt_ne_zero divides
  unfold floorRemainder
  split
  · rename_i large
    exact absurd (toInt64?_tdiv_eq_none_iff.1 large) other
  · rename_i q fits
    obtain ⟨rest, remains, rest_eq, smaller⟩ := wordRemainder_eq divides fits
    obtain ⟨-, front, back⟩ := tmod_bounds m.toInt nonzero
    rw [← rest_eq] at front back
    rw [remains]
    change (if rest ≠ 0 ∧ ¬ (rest < 0 ↔ n < 0) then Value.int <$> word (rest.toInt + n.toInt)
      else .ok (.int rest)) = _
    have zero : rest = 0 ↔ rest.toInt = 0 := by rw [← Int64.toInt_zero, Int64.toInt_inj]
    simp only [Int64.lt_iff_toInt_lt, Int64.toInt_zero, ne_eq, zero]
    split
    · rename_i rounded
      -- the rest has the sign of the dividend
      have size := natAbs_toInt_le n
      rw [(fdiv_fmod_eq_of_rounded_up nonzero (by omega) (by omega)).2, ← rest_eq,
        map_word (by omega) (by omega)]
    · rename_i exact'
      rw [(fdiv_fmod_eq nonzero (by omega)).2]
      exact (ofInt_eq_ok_iff.2 ⟨rest, rfl, rest_eq⟩).symm

/-- A power is exact, unless it is refused for its exponent. -/
theorem intPower_eq {base : Int64} {exponent : Nat}
    (granted : exponent < 2 ^ 32 ∨ 1 < base.toInt.natAbs) :
    intPower base exponent = ofInt (base.toInt ^ exponent) := by
  have large (several : 1 < base.toInt.natAbs) (long : 64 ≤ exponent) :
      ofInt (base.toInt ^ exponent) = .error .overflow := by
    have grown := two_pow_le_natAbs_pow several exponent
    have size := Nat.pow_le_pow_right (show 0 < 2 by omega) long
    exact ofInt_eq_error_iff.2 ⟨rfl, by omega⟩
  have limit : UInt32.size = 2 ^ 32 := rfl
  unfold intPower
  split
  · rw [large (by omega) (by omega)]
  · split
    · rfl
    · split
      · rename_i several
        rw [large several (by omega)]
      · rename_i unit
        have same : base.toInt ^ exponent = base.toInt ^ (64 + exponent % 2) :=
          pow_eq_pow_of_parity (by omega) (by omega) (by omega) (by omega)
        rw [same]
        rfl

/-- Exponents of more than 32 bits are refused. -/
theorem intPower_of_large (base : Int64) {exponent : Nat} (large : 2 ^ 32 ≤ exponent) :
    intPower base exponent = .error .overflow := if_pos large

/-- The absolute value of an integer is exact, if it fits. -/
theorem absolute_int (n : Int64) : (int n).absolute = ofInt n.toInt.natAbs := by
  rfl

/-- The integer that an operator makes of two integers, if it makes one: quotients and remainders
are those of the floor, and the exponents of powers are not negative. -/
def exactResult? (op : BinOp) (a b : Int) : Option Int :=
  match op with
  | .add => some (a + b)
  | .sub => some (a - b)
  | .mul => some (a * b)
  | .div => Option.none
  | .floorDiv => if b = 0 then Option.none else some (Int.fdiv a b)
  | .mod => if b = 0 then Option.none else some (Int.fmod a b)
  | .pow => if b < 0 then Option.none else some (a ^ b.toNat)

/-- The operations that are refused although their results fit: the remainder that belongs to the
quotient that is no word, and the powers of 0, 1 and -1 with exponents of more than 32 bits. -/
def Refuses (op : BinOp) (a b : Int64) : Prop :=
  op = .mod ∧ a = Int64.minValue ∧ b = -1 ∨
    op = .pow ∧ 2 ^ 32 ≤ b.toInt ∧ a.toInt.natAbs ≤ 1

/-- Unless it is refused, an operation on integers is the exact one. -/
theorem operation_eq {op : BinOp} {a b : Int64} {n : Int}
    (result : exactResult? op a.toInt b.toInt = some n) (granted : ¬ Refuses op a b) :
    operation op (int a) (int b) = ofInt n := by
  have zero : b = 0 ↔ b.toInt = 0 := by rw [← Int64.toInt_zero, Int64.toInt_inj]
  have negative : b < 0 ↔ b.toInt < 0 := by rw [Int64.lt_iff_toInt_lt, Int64.toInt_zero]
  change intOperation op a b = _
  cases op with
  | add | sub | mul =>
    cases result
    rfl
  | div => cases result
  | floorDiv =>
    simp only [exactResult?, Option.ite_none_left_eq_some, Option.some.injEq, ← zero] at result
    obtain ⟨divides, rfl⟩ := result
    exact (if_neg divides).trans (floorQuotient_eq divides)
  | mod =>
    simp only [exactResult?, Option.ite_none_left_eq_some, Option.some.injEq, ← zero] at result
    obtain ⟨divides, rfl⟩ := result
    refine (if_neg divides).trans (floorRemainder_eq divides fun least => granted ?_)
    exact .inl ⟨rfl, least⟩
  | pow =>
    simp only [exactResult?, Option.ite_none_left_eq_some, Option.some.injEq, ← negative] at result
    obtain ⟨nonneg, rfl⟩ := result
    refine (if_neg nonneg).trans (intPower_eq ?_)
    by_contra refused
    exact granted (.inr ⟨rfl, by omega, by omega⟩)

/-- A refused operation gives nothing. -/
theorem operation_of_refuses {op : BinOp} {a b : Int64} (refused : Refuses op a b) :
    operation op (int a) (int b) = .error .overflow := by
  rcases refused with ⟨rfl, rfl, rfl⟩ | ⟨rfl, large, -⟩
  · rfl
  · have nonneg : ¬ b < 0 := by
      rw [Int64.lt_iff_toInt_lt, Int64.toInt_zero]
      omega
    exact (if_neg nonneg).trans (intPower_of_large a (by omega))

/-- What an operation on integers gives is the exact result. -/
theorem isInteger_of_operation {op : BinOp} {a b : Int64} {n : Int} {v : Value}
    (result : exactResult? op a.toInt b.toInt = some n)
    (given : operation op (int a) (int b) = .ok v) : IsInteger n v := by
  by_cases refused : Refuses op a b
  · rw [operation_of_refuses refused] at given
    cases given
  · rwa [operation_eq result refused, ofInt_eq_ok_iff] at given

/-! ## Exactness -/

/-- What integer arithmetic gives for two integers is exact. -/
structure IsExact (a b : Int64) : Prop where
  /-- Sums, differences and products are given where they fit. -/
  sum : ∀ v, operation .add (int a) (int b) = .ok v ↔ IsInteger (a.toInt + b.toInt) v
  difference : ∀ v, operation .sub (int a) (int b) = .ok v ↔ IsInteger (a.toInt - b.toInt) v
  product : ∀ v, operation .mul (int a) (int b) = .ok v ↔ IsInteger (a.toInt * b.toInt) v
  /-- So are the negative and the distance from zero. -/
  negative : ∀ v, unaryOperation .neg (int a) = .ok v ↔ IsInteger (-a.toInt) v
  distance : ∀ v, Builtin.abs.call [int a] = .ok v ↔ IsInteger a.toInt.natAbs v
  /-- A power that is given is the power. -/
  power : 0 ≤ b.toInt → ∀ v, operation .pow (int a) (int b) = .ok v →
    IsInteger (a.toInt ^ b.toInt.toNat) v
  /-- A quotient and a remainder that are given belong together, and the remainder lies between zero
  and the divisor. -/
  division : b ≠ 0 → ∀ u v, operation .floorDiv (int a) (int b) = .ok u →
    operation .mod (int a) (int b) = .ok v →
      ∃ q r : Int, IsInteger q u ∧ IsInteger r v ∧ a.toInt = q * b.toInt + r ∧
        (0 ≤ r ∧ r < b.toInt ∨ b.toInt < r ∧ r ≤ 0)
  /-- Where a rest remains, there is a word below the quotient toward zero. -/
  lowered : ∀ q, Number.toInt64? (Int.tdiv a.toInt b.toInt) = some q →
    Int.tmod a.toInt b.toInt ≠ 0 → ∃ w, word (q.toInt - 1) = .ok w
  /-- A rest and a divisor of another sign have a sum that is a word. -/
  raised : ∀ rest, wordRemainder a b = .ok rest → ¬ (rest < 0 ↔ b < 0) →
    ∃ w, word (rest.toInt + b.toInt) = .ok w
  /-- So no operation breaks down. -/
  sound : ∀ op, operation op (int a) (int b) ≠ .error .breakdown

/-- The quotient and the remainder of the floor. -/
theorem floor_bounds {a b : Int} (divides : b ≠ 0) : a = Int.fdiv a b * b + Int.fmod a b ∧
    (0 ≤ Int.fmod a b ∧ Int.fmod a b < b ∨ b < Int.fmod a b ∧ Int.fmod a b ≤ 0) := by
  refine ⟨(Int.fdiv_mul_add_fmod a b).symm, ?_⟩
  rcases Int.lt_or_gt_of_ne divides with negative | positive
  · exact .inr ((Int.fdiv_fmod_unique' negative).1 ⟨rfl, rfl⟩).2
  · exact .inl ((Int.fdiv_fmod_unique positive).1 ⟨rfl, rfl⟩).2

/-- A word that is raised by one of the other sign stays a word. -/
theorem word_add {m n : Int64} (apart : ¬ (m < 0 ↔ n < 0)) :
    ∃ w, word (m.toInt + n.toInt) = .ok w := by
  have size := natAbs_toInt_le m
  have size' := natAbs_toInt_le n
  have high := m.toInt_lt
  have high' := n.toInt_lt
  rw [Int64.lt_iff_toInt_lt, Int64.lt_iff_toInt_lt, Int64.toInt_zero] at apart
  exact ⟨_, word_eq (by omega) (by omega)⟩

/-- Integer arithmetic is exact. -/
theorem isExact (a b : Int64) : IsExact a b where
  sum _ := ofInt_eq_ok_iff
  difference _ := ofInt_eq_ok_iff
  product _ := ofInt_eq_ok_iff
  negative _ := ofInt_eq_ok_iff
  distance v := by
    change (int a).absolute = .ok v ↔ _
    rw [absolute_int, ofInt_eq_ok_iff]
  power nonneg v given := by
    have power : exactResult? .pow a.toInt b.toInt = some (a.toInt ^ b.toInt.toNat) :=
      if_neg (by omega)
    exact isInteger_of_operation power given
  division divides u v quotient remainder := by
    have nonzero := toInt_ne_zero divides
    have floor : exactResult? .floorDiv a.toInt b.toInt = some (Int.fdiv a.toInt b.toInt) :=
      if_neg nonzero
    have rest : exactResult? .mod a.toInt b.toInt = some (Int.fmod a.toInt b.toInt) :=
      if_neg nonzero
    obtain ⟨parts, bounds⟩ := floor_bounds (a := a.toInt) nonzero
    exact ⟨_, _, isInteger_of_operation floor quotient, isInteger_of_operation rest remainder,
      parts, bounds⟩
  lowered q fits rest := by
    have size := natAbs_quotient_lt fits rest
    exact ⟨_, word_eq (by omega) (by omega)⟩
  raised rest _ apart := word_add apart
  sound op failed := (sound_intOperation op a b).of_error failed rfl

end Value

end BlockEditor
