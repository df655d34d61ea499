import BlockEditor.Number.DecimalText
import BlockEditor.Proofs.Numerals
import BlockEditor.Proofs.ShortestReads

/-!
# Numbers in generated code

The text of a finite double is digits or a decimal, behind a sign if the double is negative.  Its
constant converts back to the double.
-/

namespace BlockEditor

open Number

/-! ## Positional texts -/

/-- The decimal text of a number is digits. -/
theorem isDigits_digitsText (n : Nat) : IsDigits (digitsText n) where
  nonempty := Nat.toDigits_ne_nil
  digits := by
    intro c member
    have digit : c.isDigit = true := Nat.isDigit_of_mem_toDigits (by decide) (by decide) member
    simpa [CharClass.holds, Char.isDigit, Char.le_def] using digit

theorem isDigits_replicate_zero {n : Nat} (some : 0 < n) : IsDigits (List.replicate n '0') where
  nonempty := by simp; omega
  digits := by
    intro c member
    rw [List.eq_of_mem_replicate member]
    decide

/-- Digits under zeros. -/
theorem IsDigits.replicate_append {ds : List Char} (h : IsDigits ds) (n : Nat) :
    IsDigits (List.replicate n '0' ++ ds) := by
  rcases Nat.eq_zero_or_pos n with rfl | some
  · exact h
  · exact (isDigits_replicate_zero some).append h

/-- Digits with zeros behind them are digits. -/
theorem IsDigits.append_replicate {ds : List Char} (h : IsDigits ds) (n : Nat) :
    IsDigits (ds ++ List.replicate n '0') := by
  rcases Nat.eq_zero_or_pos n with rfl | some
  · rw [List.replicate_zero, List.append_nil]
    exact h
  · exact h.append (isDigits_replicate_zero some)

theorem IsDigits.take {ds : List Char} (h : IsDigits ds) {n : Nat} (some : 0 < n) :
    IsDigits (ds.take n) where
  nonempty := by simp [h.nonempty]; omega
  digits := fun c member => h.digits c (List.mem_of_mem_take member)

theorem IsDigits.drop {ds : List Char} (h : IsDigits ds) {n : Nat} (some : n < ds.length) :
    IsDigits (ds.drop n) where
  nonempty := by simpa using some
  digits := fun c member => h.digits c (List.mem_of_mem_drop member)

/-- The positional text of a decimal reads as the decimal, and as a whole number if it has no
fraction. -/
theorem positionalText_reads (d : Decimal) :
    (0 ≤ d.scale ∧ IsDigits (positionalText false (digitsText d.digits) (d.exponent + 1)) ∧
      readDigits? 10 (positionalText false (digitsText d.digits) (d.exponent + 1)) =
        some (d.digits * 10 ^ d.scale.toNat)) ∨
    (d.scale < 0 ∧ IsDecimal (positionalText false (digitsText d.digits) (d.exponent + 1)) ∧
      readDecimal? (positionalText false (digitsText d.digits) (d.exponent + 1)) = some d) := by
  have digits := isDigits_digitsText d.digits
  have value : Nat.ofDigitChars 10 (digitsText d.digits) 0 = d.digits := Nat.ofDigitChars_ten_toDigits
  have some : 0 < (digitsText d.digits).length := Nat.length_toDigits_pos
  -- The point stands in front of all digits, behind all of them, or among them.
  have point : d.exponent + 1 = d.scale + (digitsText d.digits).length := by
    show d.scale + ((digitsText d.digits).length : Int) - 1 + 1 = _
    omega
  rw [point]
  generalize digitsText d.digits = ds at *
  unfold positionalText
  split
  · rename_i small
    have zero : IsDigits ['0'] := isDigits_zero
    have fraction := digits.replicate_append (-(d.scale + (ds.length : Int))).toNat
    refine .inr ⟨by omega, ⟨['0'], _, zero, fraction, rfl⟩, ?_⟩
    have reads : readDigits? 10 (['0'] ++ (List.replicate (-(d.scale + (ds.length : Int))).toNat '0' ++ ds)) =
        .some d.digits := by
      rw [(zero.append fraction).readDigits?_eq, Nat.ofDigitChars_append, Nat.ofDigitChars_append,
        show Nat.ofDigitChars 10 ['0'] 0 = 0 from rfl, Nat.ofDigitChars_replicate_zero, Nat.mul_zero, value]
    have whole := readDecimal?_point zero fraction reads
    rw [List.length_append, List.length_replicate,
      show -((((-(d.scale + (ds.length : Int))).toNat + ds.length : Nat)) : Int) = d.scale by omega] at whole
    exact whole
  · rename_i large
    generalize places : (d.scale + (ds.length : Int)).toNat = n
    dsimp only
    by_cases fits : ds.length ≤ n
    · rw [List.drop_eq_nil_of_le fits, List.take_of_length_le fits]
      have whole := digits.append_replicate (n - ds.length)
      refine .inl ⟨by omega, whole, ?_⟩
      show readDigits? 10 (ds ++ List.replicate (n - ds.length) '0') = _
      rw [whole.readDigits?_eq, Nat.ofDigitChars_append, value, Nat.ofDigitChars_replicate_zero,
        show n - ds.length = d.scale.toNat by omega, Nat.mul_comm]
    · have fraction := digits.drop (Nat.lt_of_not_le fits)
      have whole := digits.take (show 0 < n by omega)
      have none : List.replicate (n - ds.length) '0' = [] := by
        rw [show n - ds.length = 0 by omega]
        rfl
      rw [none, List.append_nil]
      have reads : readDigits? 10 (ds.take n ++ ds.drop n) = .some d.digits := by
        rw [List.take_append_drop, digits.readDigits?_eq, value]
      have point := readDecimal?_point whole fraction reads
      rw [List.length_drop, show -(((ds.length - n : Nat)) : Int) = d.scale by omega] at point
      refine .inr ⟨by omega, ?_⟩
      split
      · rename_i e
        exact absurd e fraction.nonempty
      · exact ⟨⟨_, _, whole, fraction, rfl⟩, point⟩

/-! ## Constants -/

/-- The double that a numeric constant converts to. -/
def Constant.double? : Constant → Option Float
  | .int n => some (Float.ofInt n.toInt)
  | .float x => some x
  | _ => Option.none

/-- Digits that are read as a constant which converts to a double. -/
structure DigitsOf (x : Float) (ds : List Char) : Prop where
  isDigits : IsDigits ds
  reads : ∀ n, readDigits? 10 ds = some n → (naturalConstant n).double? = some x

/-- A decimal that is read as a constant which converts to a double. -/
structure DecimalOf (x : Float) (cs : List Char) : Prop where
  isDecimal : IsDecimal cs
  reads : ∀ d, readDecimal? cs = some d → (Constant.float d.toFloat).double? = some x

/-- The digit zero is read as a constant for zero. -/
theorem digitsOf_zero : DigitsOf 0.0 ['0'] := by
  refine ⟨isDigits_zero, ?_⟩
  intro n reads
  have zero : n = 0 := by
    have value : readDigits? 10 ['0'] = some 0 := by decide
    rw [value] at reads
    exact (Option.some.inj reads).symm
  subst zero
  decide +kernel

/-! ## Texts of doubles -/

section Texts

variable {x : Float} {m : Nat} {e : Int}

/-- A whole number in the rounding interval of a double is read as a constant for the double. -/
theorem double?_naturalConstant {n : Nat} (h : Canonical m e) (rounds : RoundsTo n m e)
    (u : x.toModel.unpack = .finite .positive m e h.positive) :
    (naturalConstant n).double? = some x := by
  unfold naturalConstant
  cases fits : toInt64? n with
  | some w =>
    have word : w.toInt = n := (toInt64?_eq_some_iff n w).1 fits
    show some (Float.ofInt w.toInt) = some x
    rw [word]
    congr 1
    apply eq_of_unpack_eq
    rw [u]
    exact unpack_ofNat h rounds
  | none =>
    show some (Decimal.toFloat ⟨n, 0⟩) = some x
    congr 1
    apply eq_of_unpack_eq
    rw [u]
    apply Decimal.unpack_toFloat h
    rw [Decimal.value, zpow_zero, mul_one]
    exact rounds

theorem decimal_eq (d : Decimal) :
    fieldLayout.decimal d = positionalText false (digitsText d.digits) (d.exponent + 1) := rfl

/-- Shortest digits without a fraction are a whole number in the rounding interval. -/
theorem digits_shortest_reads (h : Canonical m e) (scale : 0 ≤ (shortest .up m e).scale) :
    IsDigits (fieldLayout.decimal (shortest .up m e)) ∧ ∃ n : Nat,
      readDigits? 10 (fieldLayout.decimal (shortest .up m e)) = some n ∧ RoundsTo n m e := by
  obtain ⟨rounds, -⟩ := roundsTo_shortest h .up
  rw [decimal_eq]
  generalize shortest .up m e = d at *
  rcases positionalText_reads d with ⟨-, isDigits, reads⟩ | ⟨fraction, -⟩
  · refine ⟨isDigits, _, reads, ?_⟩
    have value : d.value = ((d.digits * 10 ^ d.scale.toNat : Nat) : Rat) := by
      rw [Decimal.value, zpow_eq_div (by norm_num), Int.toNat_of_nonpos (by omega : -d.scale ≤ 0)]
      push_cast
      ring
    rw [← value]
    exact rounds
  · omega

/-- The shortest digits of a positive double are read as a constant for it. -/
theorem decimal_shortest_reads (h : Canonical m e)
    (u : x.toModel.unpack = .finite .positive m e h.positive) :
    (0 ≤ (shortest .up m e).scale ∧ DigitsOf x (fieldLayout.decimal (shortest .up m e))) ∨
      ((shortest .up m e).scale < 0 ∧ DecimalOf x (fieldLayout.decimal (shortest .up m e))) := by
  rcases lt_or_ge (shortest .up m e).scale 0 with fraction | scale
  · obtain ⟨rounds, -⟩ := roundsTo_shortest h .up
    rw [decimal_eq]
    generalize shortest .up m e = d at *
    rcases positionalText_reads d with ⟨whole, -⟩ | ⟨-, isDecimal, reads⟩
    · omega
    · refine .inr ⟨fraction, isDecimal, ?_⟩
      intro d' same
      obtain rfl : d = d' := Option.some.inj (reads.symm.trans same)
      show some d.toFloat = some x
      congr 1
      apply eq_of_unpack_eq
      rw [u]
      exact Decimal.unpack_toFloat h rounds
  · obtain ⟨isDigits, n, reads, rounds⟩ := digits_shortest_reads h scale
    refine .inl ⟨scale, isDigits, ?_⟩
    intro n' same
    obtain rfl : n = n' := Option.some.inj (reads.symm.trans same)
    exact double?_naturalConstant h rounds u

/-- Zero is written as the digit, whatever its sign. -/
theorem fieldText_of_zero {s : Float.Model.UnpackedFloat.Sign} (u : x.toModel.unpack = .zero s) :
    fieldLayout.text x = ['0'] := by
  have parts : parts x = .finite (s == .negative) 0 (-1074) := by
    rw [parts_eq, u]
    rfl
  unfold DecimalLayout.text
  rw [parts]
  show (if (_ && false) = true then _ else _) = _
  rw [Bool.and_false]
  rfl

/-- A finite double is written with its shortest digits, behind a sign if it is negative. -/
theorem fieldText_of_finite {s : Float.Model.UnpackedFloat.Sign} {positive : 0 < m}
    (u : x.toModel.unpack = .finite s m e positive) :
    fieldLayout.text x = (if s == .negative then '-' :: fieldLayout.decimal (shortest .up m e)
      else fieldLayout.decimal (shortest .up m e)) := by
  have parts : parts x = .finite (s == .negative) m e := by
    rw [parts_eq, u]
    rfl
  obtain ⟨n, rfl⟩ : ∃ n, m = n + 1 := ⟨m - 1, by omega⟩
  unfold DecimalLayout.text
  rw [parts]
  rfl

/-- The text of a double that is not negative is read as a constant for it. -/
theorem fieldText_of_nonneg (finite : isFinite x = true) (nonneg : ¬ x < 0.0) :
    DigitsOf x.abs (fieldLayout.text x) ∨ DecimalOf x.abs (fieldLayout.text x) := by
  rcases unpack_of_isFinite finite with ⟨s, u⟩ | ⟨s, m, e, h, u⟩
  · rw [fieldText_of_zero u, abs_of_zero u]
    exact .inl digitsOf_zero
  · rw [fieldText_of_finite u]
    cases s with
    | negative => exact absurd ((lt_zero_iff u).2 rfl) nonneg
    | positive => exact (decimal_shortest_reads h (unpack_abs u)).imp And.right And.right

/-- The text of a negative double is a sign and the text of a constant for its magnitude. -/
theorem fieldText_of_neg (finite : isFinite x = true) (negative : x < 0.0) :
    ∃ cs, fieldLayout.text x = '-' :: cs ∧ (DigitsOf x.abs cs ∨ DecimalOf x.abs cs) := by
  rcases unpack_of_isFinite finite with ⟨s, u⟩ | ⟨s, m, e, h, u⟩
  · exact absurd negative (not_lt_zero_of_zero u)
  · obtain rfl := (lt_zero_iff u).1 negative
    rw [fieldText_of_finite u]
    exact ⟨_, rfl, (decimal_shortest_reads h (unpack_abs u)).imp And.right And.right⟩

/-- The shortest digits of a whole double have no fraction. -/
theorem scale_of_whole {s : Float.Model.UnpackedFloat.Sign} (h : Canonical m e)
    (u : x.toModel.unpack = .finite s m e h.positive) (whole : isWhole x = true) :
    0 ≤ (shortest .up m e).scale := by
  apply (roundsTo_shortest h .up).2
  unfold isWhole at whole
  rw [parts_eq, u] at whole
  exact of_decide_eq_true whole

/-- The text of a whole double that is not negative is digits. -/
theorem fieldText_of_whole (finite : isFinite x = true) (whole : isWhole x = true)
    (nonneg : ¬ x < 0.0) : DigitsOf x.abs (fieldLayout.text x) := by
  rcases unpack_of_isFinite finite with ⟨s, u⟩ | ⟨s, m, e, h, u⟩
  · rw [fieldText_of_zero u, abs_of_zero u]
    exact digitsOf_zero
  · rw [fieldText_of_finite u]
    cases s with
    | negative => exact absurd ((lt_zero_iff u).2 rfl) nonneg
    | positive =>
      have scale := scale_of_whole h u whole
      rcases decimal_shortest_reads h (unpack_abs u) with ⟨-, digits⟩ | ⟨fraction, -⟩
      · exact digits
      · omega

end Texts

end BlockEditor
