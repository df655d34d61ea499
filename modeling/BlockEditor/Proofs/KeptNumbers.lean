import BlockEditor.Proofs.WordDoubles

/-!
# Numbers that are kept

A document holds numbers as doubles, and its code writes whole ones without a point.  So a number
comes back from the code of a document as another one if its double is not exact, and as an integer
if it was a whole float.  What comes back from the code is kept when it is written again.
-/

namespace BlockEditor

open Number

/-! ## Texts and signs -/

section Texts

variable {x : Float}

/-- A magnitude is not negative. -/
theorem Number.not_abs_lt_zero (finite : isFinite x = true) : ¬ x.abs < 0.0 := by
  rcases unpack_of_isFinite finite with ⟨s, u⟩ | ⟨s, m, e, h, u⟩
  · rw [abs_of_zero u]
    exact not_lt_zero_of_zero unpack_zero
  · rw [lt_zero_iff (unpack_abs u)]
    nofun

/-- A double that is not negative is its own magnitude, unless it is the zero with a sign. -/
theorem Number.abs_eq_self (finite : isFinite x = true) (nonneg : ¬ x < 0.0)
    (nonzero : (x == 0.0) = false) : x.abs = x := by
  rcases unpack_of_isFinite finite with ⟨s, u⟩ | ⟨s, m, e, h, u⟩
  · rw [beq_of_zero u unpack_zero] at nonzero
    cases nonzero
  · cases s with
    | negative => exact absurd ((lt_zero_iff u).2 rfl) nonneg
    | positive => exact eq_of_unpack_eq ((unpack_abs u).trans u.symm)

/-- The text of a double is that of its magnitude, behind a sign if the double is negative. -/
theorem fieldText_eq (finite : isFinite x = true) :
    fieldLayout.text x =
      if x < 0.0 then '-' :: fieldLayout.text x.abs else fieldLayout.text x.abs := by
  rcases unpack_of_isFinite finite with ⟨s, u⟩ | ⟨s, m, e, h, u⟩
  · rw [if_neg (not_lt_zero_of_zero u), abs_of_zero u, fieldText_of_zero u,
      fieldText_of_zero unpack_zero]
  · rw [fieldText_of_finite u, fieldText_of_finite (unpack_abs u)]
    cases s with
    | negative => exact (if_pos ((lt_zero_iff u).2 rfl)).symm
    | positive => exact (if_neg fun negative => nomatch (lt_zero_iff u).1 negative).symm

end Texts

/-! ## Kept constants -/

namespace Constant

/-- Whether a constant is a number literal, which never has a sign of its own. -/
def isNumber : Constant → Bool
  | .int n => decide (0 ≤ n)
  | .float _ => true
  | _ => false

/-- Whether a number literal comes back from the code of its double as the same literal.  An integer
does if the text of its double has its digits, and a finite float unless it is written like a
word. -/
def isKept : Constant → Bool
  | .int n =>
    decide (0 ≤ n) && readDigits? 10 (fieldLayout.text (Float.ofInt n.toInt)) == some n.toInt.toNat
  | .float x => isFinite x && !decide (x < 0.0) && !(isWhole x && decide (x < wordLimit))
  | _ => false

variable {c c' : Constant} {n : Int64} {x : Float}

/-- An integer is kept if it has no sign and its double is written with its digits. -/
theorem isKept_int : (int n).isKept = true ↔
    0 ≤ n ∧ readDigits? 10 (fieldLayout.text (Float.ofInt n.toInt)) = some n.toInt.toNat := by
  simp [isKept]

/-- A float is kept if it is finite, has no sign and is not written like a word. -/
theorem isKept_float : (float x).isKept = true ↔
    isFinite x = true ∧ ¬ x < 0.0 ∧ ¬ (isWhole x = true ∧ x < wordLimit) := by
  cases whole : isWhole x <;> simp [isKept, whole, and_assoc]

/-- The double of an integer that is kept is written like a word, so it is not that of a kept float. -/
theorem not_isKept_ofInt (kept : (int n).isKept = true) :
    (float (Float.ofInt n.toInt)).isKept = false := by
  obtain ⟨nonneg, reads⟩ := isKept_int.1 kept
  obtain ⟨whole, least⟩ := isWhole_ofInt nonneg
  have fits : n.toInt.toNat < 2 ^ 63 := by
    have := n.toInt_lt
    omega
  have small := (readDigits?_lt_iff (isFinite_ofInt n) whole least reads).1 fits
  rw [← Bool.not_eq_true, isKept_float]
  rintro ⟨-, -, large⟩
  exact large ⟨whole, small⟩

/-- Two kept literals with the same double are the same literal. -/
theorem eq_of_isKept (kept : c.isKept = true) (kept' : c'.isKept = true)
    (same : c.double? = c'.double?) : c = c' := by
  cases c with
  | int n =>
    cases c' with
    | int k =>
      have same : Float.ofInt n.toInt = Float.ofInt k.toInt := Option.some.inj same
      obtain ⟨nonneg, reads⟩ := isKept_int.1 kept
      obtain ⟨nonneg', reads'⟩ := isKept_int.1 kept'
      rw [same, reads'] at reads
      have digits := Option.some.inj reads
      rw [Int64.le_iff_toInt_le] at nonneg nonneg'
      congr 1
      apply Int64.toInt_inj.1
      have zero : (0 : Int64).toInt = 0 := rfl
      omega
    -- No float with the double of an integer is kept, since it would be written with the digits
    -- of the integer.
    | float y =>
      obtain rfl : Float.ofInt n.toInt = y := Option.some.inj same
      rw [not_isKept_ofInt kept] at kept'
      cases kept'
    | _ => cases kept'
  | float x =>
    cases c' with
    | int k =>
      obtain rfl : x = Float.ofInt k.toInt := Option.some.inj same
      rw [not_isKept_ofInt kept'] at kept
      cases kept
    | float y => rw [show x = y from Option.some.inj same]
    | _ => cases kept'
  | _ => cases kept

end Constant

/-! ## Numbers of generated code -/

section Generated

variable {y : Float} {cs : List Char}

/-- Digits that are the text of a double are read as a kept literal. -/
theorem DigitsOf.isKept (h : DigitsOf y cs) (finite : isFinite y = true) (nonneg : ¬ y < 0.0)
    (text : fieldLayout.text y = cs) {n : Nat} (reads : readDigits? 10 cs = some n) :
    (naturalConstant n).isKept = true := by
  have value := h.reads n reads
  rw [← text] at reads
  unfold naturalConstant at value ⊢
  cases fits : toInt64? n with
  | some w =>
    rw [fits] at value
    have word := (toInt64?_eq_some_iff n w).1 fits
    rw [Constant.isKept_int, show Float.ofInt w.toInt = y from Option.some.inj value, reads, word]
    exact ⟨by rw [Int64.le_iff_toInt_le, word]; exact Int.natCast_nonneg n, rfl⟩
  | none =>
    rw [fits] at value
    rw [Constant.isKept_float, show Decimal.toFloat ⟨n, 0⟩ = y from Option.some.inj value]
    refine ⟨finite, nonneg, ?_⟩
    rintro ⟨whole, small⟩
    have word := (isSome_toInt64? n).2 ((readDigits?_lt_iff finite whole nonneg reads).2 small)
    rw [fits] at word
    cases word

/-- A decimal that is the text of a double is read as a kept literal. -/
theorem DecimalOf.isKept (h : DecimalOf y cs) (finite : isFinite y = true) (nonneg : ¬ y < 0.0)
    (text : fieldLayout.text y = cs) {d : Decimal} (reads : readDecimal? cs = some d) :
    (Constant.float d.toFloat).isKept = true := by
  rw [Constant.isKept_float, show d.toFloat = y from Option.some.inj (h.reads d reads)]
  refine ⟨finite, nonneg, ?_⟩
  rintro ⟨whole, -⟩
  -- the text of a whole number has no point
  have digits := (fieldText_of_whole finite whole nonneg).isDigits
  obtain ⟨front, back, -, -, e⟩ := h.isDecimal
  have point := digits.digits '.' (by rw [text, e]; simp)
  cases point

end Generated

end BlockEditor
