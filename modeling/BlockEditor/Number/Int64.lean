/-!
# Signed 64-bit words

Integers that fit into 64 bits, and exact results that either fit or do not.
-/

namespace BlockEditor.Number

/-- The word that holds the integer `n`, if `n` fits. -/
def toInt64? (n : Int) : Option Int64 :=
  if Int64.minValue.toInt ≤ n ∧ n ≤ Int64.maxValue.toInt then some (Int64.ofInt n) else none

/-- The word nearest to `n`. -/
def clampInt64 (n : Int) : Int64 :=
  Int64.ofInt (max Int64.minValue.toInt (min n Int64.maxValue.toInt))

/-- A word holds `n` exactly if `n` fits, and then it holds no other integer. -/
theorem toInt64?_eq_some_iff (n : Int) (w : Int64) : toInt64? n = some w ↔ w.toInt = n := by
  unfold toInt64?
  constructor
  · intro h
    split at h
    · rename_i fits
      cases h
      rw [Int64.toInt_minValue, Int64.toInt_maxValue] at fits
      exact Int64.toInt_ofInt_of_le fits.1 (Int.lt_of_le_sub_one fits.2)
    · cases h
  · rintro rfl
    have low := w.minValue_le_toInt
    have high := w.toInt_le
    rw [if_pos ⟨low, high⟩, Int64.ofInt_toInt]

end BlockEditor.Number
