import BlockEditor.Number.Reading
import BlockEditor.Proofs.Rounding

/-!
# Doubles nearest to decimals

Digits with a power of ten are read as the double in whose rounding interval they lie.  Small ones
are computed from doubles that are exact, all others from exact fractions.
-/

namespace BlockEditor.Number

open Float.Model (UnpackedFloat Format totalExponent)
open Float.Model.UnpackedFloat (Sign accuracyOfFraction roundWithAccuracy divCore)

/-! ## Exact doubles -/

/-- A double lies in its own rounding interval. -/
theorem RoundsTo.self (m : Nat) (e : Int) : RoundsTo (m * 2 ^ e) m e := by
  have reach := reachBelow_pos m e
  have power : (0 : Rat) < 2 ^ e := by positivity
  have below : ((m : Rat) - reachBelow m e) * 2 ^ e < m * 2 ^ e := by nlinarith
  have above : (m : Rat) * 2 ^ e < (m + 1 / 2) * 2 ^ e := by nlinarith
  exact ⟨below.le, above.le, .inr ⟨below, above⟩⟩

/-- What is rounded to a double is positive. -/
theorem RoundsTo.positive {v : Rat} {m : Nat} {e : Int} (h : RoundsTo v m e) (nonzero : 0 < m) :
    0 < v := by
  have reach := half_le_reachBelow m e
  have power : (0 : Rat) < 2 ^ e := by positivity
  have one : (1 : Rat) ≤ m := by exact_mod_cast nonzero
  have : 0 < ((m : Rat) - reachBelow m e) * 2 ^ e := by
    apply mul_pos _ power
    linarith
  exact this.trans_le h.low

section Operations

variable {v : Rat} {s : Sign} {m m₁ m₂ : Nat} {e e₁ e₂ : Int}

/-- A whole mantissa with enough bits is rounded as it is. -/
theorem roundWithAccuracy_exact (h : Canonical m e) {a : Nat} (value : v = a * 2 ^ e₁)
    (long : 2 ^ 52 ≤ a ∨ e₁ ≤ -1074) (rounds : RoundsTo v m e) :
    roundWithAccuracy .binary64 s a e₁ .exact = .finite s m e h.positive := by
  have room : e₁ ≤ Format.binary64.targetExponent (totalExponent (a / 1) e₁) := by
    rw [Nat.div_one, targetExponent_eq]
    rcases long with long | low
    · have : 52 ≤ a.log2 := (Nat.le_log2 (by omega)).2 long
      omega
    · omega
  have round := roundWithAccuracy_of_roundsTo (s := s) h (b := 1) (by decide)
    (by rw [value]; norm_num) room rounds
  rw [Nat.div_one, Nat.mod_one] at round
  exact round

/-- The product of two doubles is rounded once. -/
theorem mul_of_roundsTo (h : Canonical m e) (p₁ : 0 < m₁) (p₂ : 0 < m₂) (long : 2 ^ 52 ≤ m₁)
    (value : v = m₁ * 2 ^ e₁ * (m₂ * 2 ^ e₂)) (rounds : RoundsTo v m e) :
    UnpackedFloat.mul .binary64 (.finite .positive m₁ e₁ p₁) (.finite .positive m₂ e₂ p₂) =
      .finite .positive m e h.positive := by
  have whole : v = ((m₁ * m₂ : Nat) : Rat) * 2 ^ (e₁ + e₂) := by
    rw [value, zpow_add₀ (by norm_num)]
    push_cast
    ring
  have more : 2 ^ 52 ≤ m₁ * m₂ := long.trans (Nat.le_mul_of_pos_right m₁ p₂)
  exact roundWithAccuracy_exact h whole (.inl more) rounds

/-- The quotient of two doubles is rounded once. -/
theorem div_of_roundsTo (h : Canonical m e) (p₁ : 0 < m₁) (p₂ : 0 < m₂)
    (value : v = m₁ * 2 ^ e₁ / (m₂ * 2 ^ e₂)) (rounds : RoundsTo v m e) :
    UnpackedFloat.div .binary64 (.finite .positive m₁ e₁ p₁) (.finite .positive m₂ e₂ p₂) =
      .finite .positive m e h.positive := by
  let t := min (e₁ - e₂) (Format.binary64.targetExponent (totalExponent m₁ e₁ - totalExponent m₂ e₂))
  show roundWithAccuracy .binary64 .positive (m₁ <<< (e₁ - e₂ - t).toNat / m₂) t
    (accuracyOfFraction (m₁ <<< (e₁ - e₂ - t).toNat % m₂) m₂) = _
  have least : t ≤ e₁ - e₂ := min_le_left _ _
  have enough : t ≤ max ((m₁.log2 : Int) - m₂.log2 + (e₁ - e₂) - 53) (-1074) := by
    refine (min_le_right _ _).trans (le_of_eq ?_)
    show max ((m₁.log2 : Int) + 1 + e₁ - (m₂.log2 + 1 + e₂) - (53 : Nat))
      (3 - 2 ^ (11 - 1) - (53 : Nat)) = _
    omega
  clear_value t
  rw [Nat.shiftLeft_eq]
  refine roundWithAccuracy_of_roundsTo h p₂ ?_ ?_ rounds
  · have power : ((2 ^ (e₁ - e₂ - t).toNat : Nat) : Rat) = 2 ^ (e₁ - e₂ - t) := by
      rw [Nat.cast_pow, ← zpow_natCast, Int.toNat_of_nonneg (by omega)]
      norm_num
    have unit : (m₂ : Rat) ≠ 0 := by exact_mod_cast Nat.ne_of_gt p₂
    rw [value, Nat.cast_mul, power, zpow_sub₀ (by norm_num), zpow_sub₀ (by norm_num)]
    field_simp
  · rw [targetExponent_eq]
    by_cases low : t ≤ -1074
    · omega
    -- the shifted dividend has 53 bits more than the divisor
    have long : 2 ^ 52 ≤ m₁ * 2 ^ (e₁ - e₂ - t).toNat / m₂ := by
      rw [Nat.le_div_iff_mul_le p₂]
      calc 2 ^ 52 * m₂ ≤ 2 ^ 52 * 2 ^ (m₂.log2 + 1) :=
            Nat.mul_le_mul_left _ (Nat.le_of_lt Nat.lt_log2_self)
        _ = 2 ^ (52 + (m₂.log2 + 1)) := (Nat.pow_add ..).symm
        _ ≤ 2 ^ (m₁.log2 + (e₁ - e₂ - t).toNat) := Nat.pow_le_pow_right (by decide) (by omega)
        _ = 2 ^ m₁.log2 * 2 ^ (e₁ - e₂ - t).toNat := Nat.pow_add ..
        _ ≤ m₁ * 2 ^ (e₁ - e₂ - t).toNat :=
            Nat.mul_le_mul_right _ (Nat.log2_self_le (Nat.ne_of_gt p₁))
    have : 52 ≤ (m₁ * 2 ^ (e₁ - e₂ - t).toNat / m₂).log2 := (Nat.le_log2 (by omega)).2 long
    omega

end Operations

/-! ## Small whole numbers and powers of ten -/

/-- The canonical form of a whole number of at most 53 bits. -/
theorem canonical_of_short {n : Nat} (positive : 0 < n) (small : n < 2 ^ 53) :
    Canonical (n * 2 ^ (52 - n.log2)) (-(52 - n.log2 : Nat)) := by
  have log : n.log2 ≤ 52 := Nat.le_of_lt_succ ((Nat.log2_lt (by omega)).2 small)
  have long : 2 ^ 52 ≤ n * 2 ^ (52 - n.log2) := by
    calc 2 ^ 52 = 2 ^ n.log2 * 2 ^ (52 - n.log2) := by rw [← Nat.pow_add]; congr 1; omega
      _ ≤ n * 2 ^ (52 - n.log2) :=
          Nat.mul_le_mul_right _ (Nat.log2_self_le (Nat.ne_of_gt positive))
  have short : n * 2 ^ (52 - n.log2) < 2 ^ 53 := by
    calc n * 2 ^ (52 - n.log2) < 2 ^ (n.log2 + 1) * 2 ^ (52 - n.log2) :=
          Nat.mul_lt_mul_of_pos_right Nat.lt_log2_self (Nat.two_pow_pos _)
      _ = 2 ^ 53 := by rw [← Nat.pow_add]; congr 1; omega
  exact ⟨by omega, short, by omega, by omega, .inl long⟩

/-- A whole number, scaled by a power of two and back. -/
theorem value_scaled (n k : Nat) : (n : Rat) = ((n * 2 ^ k : Nat) : Rat) * 2 ^ (-k : Int) := by
  rw [Nat.cast_mul, Nat.cast_pow, zpow_neg, zpow_natCast]
  field_simp
  norm_num

/-- A whole number of at most 53 bits is a double. -/
theorem exists_unpack_ofUInt64 {n : Nat} (positive : 0 < n) (small : n < 2 ^ 53) :
    ∃ m e, ∃ h : Canonical m e, n.toUInt64.toFloat.toModel.unpack = .finite .positive m e h.positive ∧
      2 ^ 52 ≤ m ∧ (n : Rat) = m * 2 ^ e := by
  have log : n.log2 ≤ 52 := Nat.le_of_lt_succ ((Nat.log2_lt (by omega)).2 small)
  have canonical := canonical_of_short positive small
  have value := value_scaled n (52 - n.log2)
  have long : 2 ^ 52 ≤ n * 2 ^ (52 - n.log2) := canonical.normal.resolve_right (by omega)
  have exact : RoundsTo n (n * 2 ^ (52 - n.log2)) (-(52 - n.log2 : Nat)) := by
    rw [value]
    exact RoundsTo.self _ _
  refine ⟨_, _, canonical, ?_, long, value⟩
  have word : n.toUInt64.toNat = n := Nat.mod_eq_of_lt (by omega)
  have target : Format.binary64.targetExponent (totalExponent n 0) = -(52 - n.log2 : Nat) := by
    rw [targetExponent_eq]
    omega
  have shift : (0 - Format.binary64.targetExponent (totalExponent n 0)).toNat = 52 - n.log2 := by
    rw [target]
    omega
  have round : UnpackedFloat.round .binary64 .positive n 0 =
      .finite .positive (n * 2 ^ (52 - n.log2)) (-(52 - n.log2 : Nat)) canonical.positive := by
    unfold UnpackedFloat.round UnpackedFloat.decreaseExponent
    dsimp only
    rw [shift, Nat.shiftLeft_eq, Int.zero_sub]
    exact roundWithAccuracy_exact canonical value (.inl long) exact
  have normal : UnpackedFloat.normalize .binary64 n 0 .positive = .round .binary64 .positive n 0 := by
    rw [UnpackedFloat.normalize, compare_gt_iff_gt.2 (by omega : (n : Int) > 0)]
    rfl
  show (Float.Model.pack (UnpackedFloat.normalize .binary64 (n.toUInt64.toNat : Int) 0 .positive)).unpack = _
  rw [word, normal, round]
  exact unpack_pack canonical

/-- Whether parts are those of a power of ten. -/
def Parts.isPowerOfTen (k : Nat) : Parts → Bool
  | .finite false m e => m * 2 ^ e.toNat = 10 ^ k * 2 ^ (-e).toNat
  | _ => false

/-- Every entry of the table is its power of ten. -/
theorem isPowerOfTen_parts : ∀ k : Fin Float.exactlyRepresentablePowersOfTen.size,
    (parts Float.exactlyRepresentablePowersOfTen[k]).isPowerOfTen k = true := by
  decide +kernel

/-- The powers of ten in the table are exact. -/
theorem exists_unpack_powerOfTen (k : Nat) (small : k < Float.exactlyRepresentablePowersOfTen.size) :
    ∃ m e, ∃ h : Canonical m e, Float.exactlyRepresentablePowersOfTen[k].toModel.unpack =
      .finite .positive m e h.positive ∧ (10 : Rat) ^ k = m * 2 ^ e := by
  have entry := isPowerOfTen_parts ⟨k, small⟩
  unfold Parts.isPowerOfTen at entry
  split at entry
  · rename_i m e found
    have exact := of_decide_eq_true entry
    have positive : 0 < m := by
      apply Nat.pos_of_ne_zero
      rintro rfl
      rw [Nat.zero_mul] at exact
      exact absurd exact.symm (by positivity)
    refine ⟨m, e, canonical_of_parts found positive, unpack_of_parts found positive, ?_⟩
    have exact : (m : Rat) * 2 ^ e.toNat = 10 ^ k * 2 ^ (-e).toNat := by exact_mod_cast exact
    rw [zpow_eq_div (by norm_num)]
    field_simp
    linarith
  · cases entry

/-! ## Digits with a power of ten -/

/-- The numbers that are rounded to doubles lie in a range. -/
theorem RoundsTo.range {v : Rat} {m : Nat} {e : Int} (rounds : RoundsTo v m e) (h : Canonical m e) :
    2 ^ (-1075 : Int) ≤ v ∧ v < 2 ^ (1024 : Int) := by
  have reach := half_le_reachBelow m e
  have one : (1 : Rat) ≤ m := by exact_mod_cast h.positive
  have short : (m : Rat) + 1 ≤ 2 ^ 53 := by exact_mod_cast h.below
  have power : (0 : Rat) < 2 ^ e := by positivity
  have least : (2 : Rat) ^ (-1074 : Int) ≤ 2 ^ e := zpow_le_zpow_right₀ (by norm_num) h.least
  have greatest : (2 : Rat) ^ e ≤ 2 ^ (971 : Int) := zpow_le_zpow_right₀ (by norm_num) h.greatest
  constructor
  · calc (2 : Rat) ^ (-1075 : Int) = 1 / 2 * 2 ^ (-1074 : Int) := by
          rw [show (-1075 : Int) = -1 + -1074 from rfl, zpow_add₀ (by norm_num), zpow_neg_one, one_div]
      _ ≤ (m - reachBelow m e) * 2 ^ e := by
          apply mul_le_mul _ least (by positivity)
          · linarith
          · linarith
      _ ≤ v := rounds.low
  · calc v ≤ (m + 1 / 2) * 2 ^ e := rounds.high
      _ < 2 ^ 53 * 2 ^ e := by
          apply mul_lt_mul_of_pos_right _ power
          linarith
      _ ≤ 2 ^ 53 * 2 ^ (971 : Int) := by
          apply mul_le_mul_of_nonneg_left greatest
          positivity
      _ = 2 ^ (1024 : Int) := by
          rw [← zpow_natCast, ← zpow_add₀ (by norm_num)]
          rfl

section Scientific

variable {n m : Nat} {e scale : Int}

/-- Digits with a power of ten are computed from exact fractions. -/
theorem ofScientific_of_roundsTo (h : Canonical m e) (rounds : RoundsTo (n * 10 ^ scale) m e) :
    UnpackedFloat.ofScientific .binary64 n scale = .finite .positive m e h.positive := by
  obtain ⟨lower, upper⟩ := rounds.range h
  have positive : 0 < n := by
    apply Nat.pos_of_ne_zero
    rintro rfl
    have := rounds.positive h.positive
    simp at this
  have one : (1 : Rat) ≤ n := by exact_mod_cast positive
  -- Numbers in the range of doubles have scales that are not cut off as too large or too small.
  have notHuge : scale < 1024 := by
    have : (10 : Rat) ^ scale < 10 ^ (1024 : Int) := by
      calc (10 : Rat) ^ scale ≤ n * 10 ^ scale := le_mul_of_one_le_left (by positivity) one
        _ < 2 ^ (1024 : Int) := upper
        _ ≤ 10 ^ (1024 : Int) := zpow_le_zpow_left₀ (by decide) (by norm_num) (by norm_num)
    exact (zpow_lt_zpow_iff_right₀ (by norm_num)).1 this
  have notTiny : scale < 0 → -1076 < n.log2 + scale := by
    intro negative
    have digits : (n : Rat) < 2 ^ (n.log2 + 1) := by exact_mod_cast Nat.lt_log2_self
    have power : (10 : Rat) ^ scale ≤ 2 ^ scale := by
      obtain ⟨k, rfl⟩ := Int.eq_negSucc_of_lt_zero negative
      rw [zpow_negSucc, zpow_negSucc]
      apply inv_anti₀ (by positivity)
      exact pow_le_pow_left₀ (by norm_num) (by norm_num) _
    have : (2 : Rat) ^ (-1075 : Int) < 2 ^ ((n.log2 + 1 : Nat) + scale) := by
      calc (2 : Rat) ^ (-1075 : Int) ≤ n * 10 ^ scale := lower
        _ ≤ n * 2 ^ scale := mul_le_mul_of_nonneg_left power (by positivity)
        _ < 2 ^ (n.log2 + 1) * 2 ^ scale := mul_lt_mul_of_pos_right digits (by positivity)
        _ = 2 ^ ((n.log2 + 1 : Nat) + scale) := by rw [zpow_add₀ (by norm_num), zpow_natCast]
    have := (zpow_lt_zpow_iff_right₀ (by norm_num : (1 : Rat) < 2)).1 this
    push_cast at this
    omega
  rw [UnpackedFloat.ofScientific, dif_neg (Nat.ne_of_gt positive),
    if_neg (show ¬ scale > 2 ^ 11 by omega), if_neg (show ¬ scale < -(2 ^ 11 + n.log2) by omega)]
  split
  -- A scale from zero on multiplies by a power of ten, and a negative one divides by it.
  · rename_i whole
    refine mul_of_roundsTo h _ _ ?_ ?_ rounds
    · show 2 ^ 52 ≤ n <<< 53
      rw [Nat.shiftLeft_eq]
      omega
    · show (n * 10 ^ scale : Rat) = (n <<< 53 : Nat) * 2 ^ (-(53 : Nat) : Int) *
        ((10 ^ scale.toNat : Nat) * 2 ^ (0 : Int))
      obtain ⟨k, rfl⟩ := Int.eq_ofNat_of_zero_le whole
      rw [Nat.shiftLeft_eq, Nat.cast_mul, Nat.cast_pow, Nat.cast_pow, zpow_neg, zpow_natCast,
        zpow_natCast, zpow_zero, Int.toNat_natCast]
      push_cast
      field_simp
  · rename_i fraction
    refine div_of_roundsTo h positive _ ?_ rounds
    rw [zpow_zero, zpow_eq_div (by norm_num), Int.toNat_of_nonpos (by omega)]
    push_cast
    ring

/-- Digits with a power of ten are read as the double in whose rounding interval they lie. -/
theorem unpack_ofScientific (h : Canonical m e) (n : Nat) (negative : Bool) (k : Nat)
    (rounds : RoundsTo (n * 10 ^ (if negative then -k else k : Int)) m e) :
    (Float.ofScientific n negative k).toModel.unpack = .finite .positive m e h.positive := by
  have value := rounds.positive h.positive
  have positive : 0 < n := by
    apply Nat.pos_of_ne_zero
    rintro rfl
    simp at value
  unfold Float.ofScientific
  split
  · rename_i fast
    obtain ⟨m₁, e₁, h₁, u₁, long, v₁⟩ := exists_unpack_ofUInt64 positive fast.1
    obtain ⟨m₂, e₂, h₂, u₂, v₂⟩ := exists_unpack_powerOfTen k (by simp [Float.exactlyRepresentablePowersOfTen]; omega)
    cases negative with
    | false =>
      have product : (n * 10 ^ (k : Int) : Rat) = m₁ * 2 ^ e₁ * (m₂ * 2 ^ e₂) := by
        rw [← v₁, ← v₂, zpow_natCast]
      show (Float.Model.pack (UnpackedFloat.mul _ _ _)).unpack = _
      rw [u₁, u₂, mul_of_roundsTo h h₁.positive h₂.positive long product rounds]
      exact unpack_pack h
    | true =>
      have quotient : (n * 10 ^ (-k : Int) : Rat) = m₁ * 2 ^ e₁ / (m₂ * 2 ^ e₂) := by
        rw [← v₁, ← v₂, zpow_neg, zpow_natCast]
        rfl
      show (Float.Model.pack (UnpackedFloat.div _ _ _)).unpack = _
      rw [u₁, u₂, div_of_roundsTo h h₁.positive h₂.positive quotient rounds]
      exact unpack_pack h
  · show (Float.Model.pack (UnpackedFloat.ofScientific _ n (if negative then Int.negOfNat k else Int.ofNat k))).unpack = _
    have same : (if negative then Int.negOfNat k else Int.ofNat k) = (if negative then -k else k : Int) := by
      cases negative with
      | false => rfl
      | true => exact Int.negOfNat_eq
    rw [same, ofScientific_of_roundsTo h rounds]
    exact unpack_pack h

end Scientific

/-! ## Decimals -/

/-- The number that a decimal denotes. -/
def Decimal.value (d : Decimal) : Rat := d.digits * 10 ^ d.scale

/-- A number is less than the power of ten with all its digits. -/
theorem lt_pow_digitCount (n : Nat) : n < 10 ^ digitCount n :=
  (Nat.length_toDigits_le_iff (by decide) Nat.length_toDigits_pos).1 (Nat.le_refl _)

/-- A number is not less than the power of ten with one digit fewer. -/
theorem pow_digitCount_le {n : Nat} (positive : 0 < n) : 10 ^ (digitCount n - 1) ≤ n := by
  by_cases single : digitCount n - 1 = 0
  · rw [single]
    exact positive
  · by_contra less
    have := (Nat.length_toDigits_le_iff (by decide) (Nat.pos_of_ne_zero single)).2 (not_le.1 less)
    have : digitCount n ≤ digitCount n - 1 := this
    omega

/-- A decimal lies between the powers of ten around its first digit. -/
theorem Decimal.value_between {d : Decimal} (positive : 0 < d.digits) :
    10 ^ d.exponent ≤ d.value ∧ d.value < 10 ^ (d.exponent + 1) := by
  have some : 0 < digitCount d.digits := Nat.length_toDigits_pos
  have below : (10 : Rat) ^ (digitCount d.digits - 1) ≤ d.digits := by
    exact_mod_cast pow_digitCount_le positive
  have above : (d.digits : Rat) < 10 ^ digitCount d.digits := by
    exact_mod_cast lt_pow_digitCount d.digits
  have power : (0 : Rat) < 10 ^ d.scale := by positivity
  unfold Decimal.exponent Decimal.value
  constructor
  · rw [show d.scale + (digitCount d.digits : Int) - 1 = (digitCount d.digits - 1 : Nat) + d.scale by omega,
      zpow_add₀ (by norm_num), zpow_natCast]
    exact mul_le_mul_of_nonneg_right below power.le
  · rw [show d.scale + (digitCount d.digits : Int) - 1 + 1 = digitCount d.digits + d.scale by omega,
      zpow_add₀ (by norm_num), zpow_natCast]
    exact mul_lt_mul_of_pos_right above power

/-- A decimal is read as the double in whose rounding interval it lies. -/
theorem Decimal.unpack_toFloat {d : Decimal} {m : Nat} {e : Int} (h : Canonical m e)
    (rounds : RoundsTo d.value m e) :
    d.toFloat.toModel.unpack = .finite .positive m e h.positive := by
  obtain ⟨lower, upper⟩ := rounds.range h
  have positive : 0 < d.digits := by
    apply Nat.pos_of_ne_zero
    intro zero
    have := rounds.positive h.positive
    rw [Decimal.value, zero] at this
    simp at this
  obtain ⟨below, above⟩ := Decimal.value_between positive
  have one : (1 : Rat) < 10 := by norm_num
  -- The decimal is not so large or so small that reading it is cut short: it lies in the range of
  -- doubles.
  have greatest : d.exponent < 384 := by
    have power : (2 : Rat) ^ (1024 : Int) ≤ 10 ^ (384 : Int) := by
      calc (2 : Rat) ^ (1024 : Int) = (2 ^ 8) ^ 128 := by rw [← pow_mul]; rfl
        _ ≤ (10 ^ 3) ^ 128 := pow_le_pow_left₀ (by norm_num) (by norm_num) _
        _ = 10 ^ (384 : Int) := by rw [← pow_mul]; rfl
    exact (zpow_lt_zpow_iff_right₀ one).1 ((below.trans_lt upper).trans_le power)
  have least : -344 < d.exponent + 1 := by
    have power : (10 : Rat) ^ (-344 : Int) ≤ 2 ^ (-1075 : Int) := by
      show ((10 : Rat) ^ 344)⁻¹ ≤ (2 ^ 1075)⁻¹
      apply inv_anti₀ (by positivity)
      calc (2 : Rat) ^ 1075 = (2 ^ 25) ^ 43 := by rw [← pow_mul]
        _ ≤ (10 ^ 8) ^ 43 := pow_le_pow_left₀ (by norm_num) (by norm_num) _
        _ = 10 ^ 344 := by rw [← pow_mul]
    exact (zpow_lt_zpow_iff_right₀ one).1 ((power.trans lower).trans_lt above)
  have sign : (if decide (d.scale < 0) then -(d.scale.natAbs : Int) else d.scale.natAbs) = d.scale := by
    by_cases negative : d.scale < 0
    · rw [if_pos (decide_eq_true negative)]
      omega
    · rw [if_neg (by simpa using negative)]
      omega
  rw [Decimal.toFloat, if_neg (by omega), if_neg (by omega), if_neg (by omega)]
  apply unpack_ofScientific h
  rw [sign]
  exact rounds

/-- A whole number is read as the double in whose rounding interval it lies. -/
theorem unpack_ofNat {n m : Nat} {e : Int} (h : Canonical m e) (rounds : RoundsTo n m e) :
    (Float.ofNat n).toModel.unpack = .finite .positive m e h.positive := by
  show (Float.ofScientific n false 0).toModel.unpack = _
  apply unpack_ofScientific h
  simpa using rounds

end BlockEditor.Number
