import BlockEditor.Number.Int64
import BlockEditor.Proofs.NumberCode

/-!
# Words as doubles

Every word is rounded to a finite double.  The text of a whole double below the limit of words is a
word again; that of the limit is not.
-/

namespace BlockEditor.Number

/-! ## Rounding of whole numbers -/

section Between

variable {q k r : Nat}

theorem cast_between (q k r : Nat) : ((q * 2 ^ k + r : Nat) : Rat) = q * 2 ^ k + r := by
  push_cast
  ring

/-- A number in the lower half between two doubles is rounded to the lower one. -/
theorem roundsTo_lower (less : 2 * r ≤ 2 ^ k) (tie : q % 2 = 0 ∨ 2 * r < 2 ^ k) :
    RoundsTo ((q * 2 ^ k + r : Nat) : Rat) q k := by
  have power : (0 : Rat) < 2 ^ k := by positivity
  have rest : (0 : Rat) ≤ r := Nat.cast_nonneg r
  have half : 2 * (r : Rat) ≤ 2 ^ k := by exact_mod_cast less
  have reach := reachBelow_pos q k
  rw [cast_between]
  constructor
  · rw [zpow_natCast]
    nlinarith
  · rw [zpow_natCast]
    nlinarith
  · rcases tie with even | strict
    · exact .inl even
    · have half : 2 * (r : Rat) < 2 ^ k := by exact_mod_cast strict
      refine .inr ⟨?_, ?_⟩
      · rw [zpow_natCast]
        nlinarith
      · rw [zpow_natCast]
        nlinarith

/-- A number in the upper half between two doubles is rounded to the upper one. -/
theorem roundsTo_upper (other : q + 1 ≠ leadingBit) (rest : r < 2 ^ k) (more : 2 ^ k ≤ 2 * r)
    (tie : (q + 1) % 2 = 0 ∨ 2 ^ k < 2 * r) :
    RoundsTo ((q * 2 ^ k + r : Nat) : Rat) ((q + 1 : Nat)) k := by
  have power : (0 : Rat) < 2 ^ k := by positivity
  have below : (r : Rat) < 2 ^ k := by exact_mod_cast rest
  have half : (2 : Rat) ^ k ≤ 2 * r := by exact_mod_cast more
  have reach : reachBelow (q + 1) k = 1 / 2 := by rw [reachBelow, if_neg fun h => other h.1]
  have succ : ((q + 1 : Nat) : Rat) = q + 1 := by push_cast; ring
  rw [cast_between]
  constructor
  · rw [reach, zpow_natCast, succ]
    nlinarith
  · rw [zpow_natCast, succ]
    nlinarith
  · rcases tie with even | strict
    · exact .inl even
    · have half : (2 : Rat) ^ k < 2 * r := by exact_mod_cast strict
      refine .inr ⟨?_, ?_⟩
      · rw [reach, zpow_natCast, succ]
        nlinarith
      · rw [zpow_natCast, succ]
        nlinarith

/-- In the upper half below a power of two the upper double has the next exponent. -/
theorem roundsTo_carry (carry : q + 1 = 2 ^ 53) (rest : r < 2 ^ k) (more : 2 ^ k ≤ 2 * r) :
    RoundsTo ((q * 2 ^ k + r : Nat) : Rat) (2 ^ 52) (k + 1) := by
  have power : (0 : Rat) < 2 ^ k := by positivity
  have below : (r : Rat) < 2 ^ k := by exact_mod_cast rest
  have half : (2 : Rat) ^ k ≤ 2 * r := by exact_mod_cast more
  have reach : reachBelow (2 ^ 52) (k + 1) = 1 / 4 := by
    rw [reachBelow, if_pos ⟨rfl, by omega⟩]
  have unit : (2 : Rat) ^ ((k : Int) + 1) = 2 * 2 ^ k := by
    rw [zpow_add_one₀ (by norm_num), zpow_natCast, mul_comm]
  have top : (q : Rat) = 2 ^ 53 - 1 := by
    have : ((q + 1 : Nat) : Rat) = 2 ^ 53 := by rw [carry]; norm_num
    push_cast at this
    linarith
  rw [cast_between]
  constructor
  · rw [reach, unit, top]
    push_cast
    nlinarith
  · rw [unit, top]
    push_cast
    nlinarith
  · exact .inl rfl

/-- A number between two neighbouring doubles is rounded to one of them. -/
theorem exists_roundsTo_of_between (low : 2 ^ 52 ≤ q) (high : q < 2 ^ 53) (small : k ≤ 970)
    (rest : r < 2 ^ k) :
    ∃ m e, Canonical m e ∧ 0 ≤ e ∧ RoundsTo ((q * 2 ^ k + r : Nat) : Rat) m e := by
  by_cases down : 2 * r < 2 ^ k ∨ (2 * r = 2 ^ k ∧ q % 2 = 0)
  · exact ⟨q, k, ⟨by omega, high, by omega, by omega, .inl low⟩, by omega,
      roundsTo_lower (by omega) (by omega)⟩
  · by_cases carry : q + 1 = 2 ^ 53
    · exact ⟨2 ^ 52, k + 1, ⟨by decide, by decide, by omega, by omega, .inl (Nat.le_refl _)⟩,
        by omega, roundsTo_carry carry rest (by omega)⟩
    · have other : q + 1 ≠ leadingBit := by
        rw [show leadingBit = 2 ^ 52 from rfl]
        omega
      exact ⟨q + 1, k, ⟨by omega, by omega, by omega, by omega, .inl (by omega)⟩, by omega,
        roundsTo_upper other rest (by omega) (by omega)⟩

end Between

/-- Every whole number of at most 64 bits is rounded to a double, and the double is whole. -/
theorem exists_unpack_ofNat {n : Nat} (positive : 0 < n) (small : n < 2 ^ 64) :
    ∃ m e, ∃ h : Canonical m e, (Float.ofNat n).toModel.unpack = .finite .positive m e h.positive ∧
      m % (1 <<< (-e).toNat) = 0 := by
  have log : n.log2 < 64 := (Nat.log2_lt (by omega)).2 small
  -- A short number is a double as it is; a long one lies between two doubles, which are whole.
  rcases Nat.lt_or_ge n (2 ^ 53) with short | long
  · have h := canonical_of_short positive short
    have exact : RoundsTo n (n * 2 ^ (52 - n.log2)) (-(52 - n.log2 : Nat)) := by
      rw [value_scaled n (52 - n.log2)]
      exact RoundsTo.self _ _
    refine ⟨_, _, h, unpack_ofNat h exact, ?_⟩
    rw [Int.neg_neg, Int.toNat_natCast, Nat.one_shiftLeft]
    exact Nat.mul_mod_left _ _
  · have least : 53 ≤ n.log2 := (Nat.le_log2 (by omega)).2 long
    have split : 2 ^ n.log2 = 2 ^ 52 * 2 ^ (n.log2 - 52) := by
      rw [← Nat.pow_add]
      congr 1
      omega
    have low : 2 ^ 52 ≤ n / 2 ^ (n.log2 - 52) := by
      rw [Nat.le_div_iff_mul_le (Nat.two_pow_pos _), ← split]
      exact Nat.log2_self_le (by omega)
    have high : n / 2 ^ (n.log2 - 52) < 2 ^ 53 := by
      rw [Nat.div_lt_iff_lt_mul (Nat.two_pow_pos _), show 2 ^ 53 = 2 * 2 ^ 52 from rfl,
        Nat.mul_assoc, ← split, ← Nat.pow_succ']
      exact Nat.lt_log2_self
    obtain ⟨m, e, h, nonneg, rounds⟩ := exists_roundsTo_of_between low high
      (show n.log2 - 52 ≤ 970 by omega) (Nat.mod_lt n (Nat.two_pow_pos _))
    rw [Nat.div_add_mod'] at rounds
    refine ⟨m, e, h, unpack_ofNat h rounds, ?_⟩
    rw [Int.toNat_of_nonpos (by omega)]
    exact Nat.mod_one m

/-- Zero is rounded to zero. -/
theorem unpack_ofNat_zero : (Float.ofNat 0).toModel.unpack = .zero .positive := by
  rfl

/-! ## Words -/

/-- A whole number of at most 64 bits is a finite double. -/
theorem isFinite_ofNat {n : Nat} (small : n < 2 ^ 64) : isFinite (Float.ofNat n) = true := by
  rcases Nat.eq_zero_or_pos n with rfl | positive
  · exact isFinite_of_zero unpack_ofNat_zero
  · obtain ⟨m, e, h, u, -⟩ := exists_unpack_ofNat positive small
    exact isFinite_of_unpack u

/-- A number is a word if it lies below 2 ^ 63. -/
theorem isSome_toInt64? (n : Nat) : (toInt64? n).isSome = true ↔ n < 2 ^ 63 := by
  unfold toInt64?
  rw [Int64.toInt_minValue, Int64.toInt_maxValue]
  split
  · exact iff_of_true rfl (by omega)
  · exact iff_of_false nofun (by omega)

/-- Words are finite doubles. -/
theorem isFinite_ofInt (w : Int64) : isFinite (Float.ofInt w.toInt) = true := by
  have low := w.le_toInt
  have high := w.toInt_lt
  cases e : w.toInt with
  | ofNat n => exact isFinite_ofNat (by rw [e] at high; simp at high; omega)
  | negSucc n =>
    have small : n + 1 < 2 ^ 64 := by
      rw [e] at low
      omega
    exact isFinite_neg (isFinite_ofNat small)

/-- Words that are not negative are whole doubles that are not negative. -/
theorem isWhole_ofInt {w : Int64} (nonneg : 0 ≤ w) :
    isWhole (Float.ofInt w.toInt) = true ∧ ¬ Float.ofInt w.toInt < 0.0 := by
  have high := w.toInt_lt
  obtain ⟨n, e⟩ := Int.eq_ofNat_of_zero_le (Int64.le_iff_toInt_le.1 nonneg)
  rw [e] at high ⊢
  show isWhole (Float.ofNat n) = true ∧ ¬ Float.ofNat n < 0.0
  rcases Nat.eq_zero_or_pos n with rfl | positive
  · refine ⟨?_, not_lt_zero_of_zero unpack_ofNat_zero⟩
    rw [isWhole, parts_eq, unpack_ofNat_zero]
    rfl
  · obtain ⟨m, e, h, u, whole⟩ := exists_unpack_ofNat positive (by omega)
    refine ⟨?_, ?_⟩
    · rw [isWhole, parts_eq, u]
      exact decide_eq_true whole
    · rw [lt_zero_iff u]
      nofun

/-! ## The limit of words -/

/-- The least double above all words. -/
def wordLimit : Float := 9223372036854775808

/-- The limit of words is 2 ^ 63. -/
theorem unpack_wordLimit :
    ∃ positive, wordLimit.toModel.unpack = .finite .positive (2 ^ 52) 11 positive := by
  have h : Canonical (2 ^ 52) 11 := ⟨by decide, by decide, by decide, by decide, .inl (by decide)⟩
  refine ⟨h.positive, ?_⟩
  show (Float.ofNat 9223372036854775808).toModel.unpack = _
  apply unpack_ofNat h
  have value : ((9223372036854775808 : Nat) : Rat) = ((2 ^ 52 : Nat) : Rat) * 2 ^ (11 : Int) := by
    norm_num
  rw [value]
  exact RoundsTo.self _ _

/-- A double lies below the limit if its exponent is at most ten. -/
theorem lt_wordLimit_iff {x : Float} {m : Nat} {e : Int} (h : Canonical m e)
    (u : x.toModel.unpack = .finite .positive m e h.positive) : x < wordLimit ↔ e ≤ 10 := by
  obtain ⟨positive, limit⟩ := unpack_wordLimit
  rw [lt_iff, u, limit]
  show (some ((compare e 11).then (compare m (2 ^ 52))) == some .lt) = true ↔ _
  rcases lt_trichotomy e 11 with less | rfl | more
  · rw [Int.compare_eq_lt.2 less]
    exact iff_of_true rfl (by omega)
  · have large : 2 ^ 52 ≤ m := h.normal.resolve_right (by decide)
    have notLess : compare m (2 ^ 52) ≠ .lt := by
      rw [Ne, Nat.compare_eq_lt]
      omega
    rw [Int.compare_eq_eq.2 rfl]
    refine iff_of_false ?_ (by decide)
    intro same
    exact notLess (Option.some.inj (beq_iff_eq.1 same))
  · rw [Int.compare_eq_gt.2 more]
    exact iff_of_false nofun (by omega)

/-- The least double above all words is written with zeros at its end. -/
theorem readDigits?_wordLimit :
    readDigits? 10 (fieldLayout.decimal (shortest .up (2 ^ 52) 11)) = some 9223372036854776000 := by
  decide +kernel

/-- The whole numbers that are rounded to a double lie below the limit if the double does.  The
limit itself stands in the middle of its interval and is left out. -/
theorem lt_of_roundsTo {n m : Nat} {e : Int} (h : Canonical m e) (rounds : RoundsTo n m e)
    (other : ¬ (m = 2 ^ 52 ∧ e = 11)) : n < 2 ^ 63 ↔ e ≤ 10 := by
  have below := h.below
  constructor
  · intro small
    by_contra large
    have long : 2 ^ 52 ≤ m := h.normal.resolve_right (by omega)
    have reach := half_le_reachBelow m e
    have limit : (2 : Rat) ^ 63 ≤ ((m : Rat) - reachBelow m e) * 2 ^ e := by
      rcases eq_or_lt_of_le (show 11 ≤ e by omega) with rfl | more
      -- The limit itself is left out, so the mantissa is greater than that of a power of two.
      · have longer : ((2 ^ 52 + 1 : Nat) : Rat) ≤ m := by
          have : 2 ^ 52 + 1 ≤ m := by omega
          exact_mod_cast this
        push_cast at longer
        calc (2 : Rat) ^ 63 = 2 ^ 52 * 2 ^ (11 : Int) := by norm_num
          _ ≤ ((m : Rat) - reachBelow m 11) * 2 ^ (11 : Int) := by
              apply mul_le_mul_of_nonneg_right _ (by positivity)
              linarith
      · have long : ((2 ^ 52 : Nat) : Rat) ≤ m := by exact_mod_cast long
        push_cast at long
        have unit : (2 : Rat) ^ (12 : Int) ≤ 2 ^ e := zpow_le_zpow_right₀ (by norm_num) (by omega)
        calc (2 : Rat) ^ 63 = 2 ^ 51 * 2 ^ (12 : Int) := by norm_num
          _ ≤ ((m : Rat) - reachBelow m e) * 2 ^ e := by
              apply mul_le_mul _ unit (by positivity) (by linarith)
              linarith
    have value : (n : Rat) < 2 ^ 63 := by exact_mod_cast small
    linarith [rounds.low]
  · intro small
    have short : (m : Rat) + 1 / 2 ≤ 2 ^ 53 - 1 / 2 := by
      have : ((m + 1 : Nat) : Rat) ≤ 2 ^ 53 := by exact_mod_cast below
      push_cast at this
      linarith
    have unit : (2 : Rat) ^ e ≤ 2 ^ (10 : Int) := zpow_le_zpow_right₀ (by norm_num) small
    have limit : ((m : Rat) + 1 / 2) * 2 ^ e < 2 ^ 63 := by
      calc ((m : Rat) + 1 / 2) * 2 ^ e ≤ (2 ^ 53 - 1 / 2) * 2 ^ (10 : Int) :=
            mul_le_mul short unit (by positivity) (by norm_num)
        _ < 2 ^ 63 := by norm_num
    exact_mod_cast rounds.high.trans_lt limit

/-- The text of a whole double that is not negative fits into a word exactly if the double lies
below the limit. -/
theorem readDigits?_lt_iff {x : Float} (finite : isFinite x = true) (whole : isWhole x = true)
    (nonneg : ¬ x < 0.0) {n : Nat} (reads : readDigits? 10 (fieldLayout.text x) = some n) :
    n < 2 ^ 63 ↔ x < wordLimit := by
  rcases unpack_of_isFinite finite with ⟨s, u⟩ | ⟨s, m, e, h, u⟩
  · obtain ⟨positive, limit⟩ := unpack_wordLimit
    rw [fieldText_of_zero u] at reads
    cases reads
    rw [lt_iff, u, limit]
    exact iff_of_true (by decide) rfl
  · obtain rfl : s = .positive := by
      cases s with
      | negative => exact absurd ((lt_zero_iff u).2 rfl) nonneg
      | positive => rfl
    rw [lt_wordLimit_iff h u]
    rw [fieldText_of_finite u] at reads
    by_cases limit : m = 2 ^ 52 ∧ e = 11
    · obtain ⟨rfl, rfl⟩ := limit
      obtain rfl : _ = n := Option.some.inj (readDigits?_wordLimit.symm.trans reads)
      decide
    · obtain ⟨-, n', same, rounds⟩ := digits_shortest_reads h (scale_of_whole h u whole)
      obtain rfl : n = n' := Option.some.inj (reads.symm.trans same)
      exact lt_of_roundsTo h rounds limit

end BlockEditor.Number
