import BlockEditor.Proofs.Nearest

/-!
# Shortest decimals are read back

The decimal that the grid search finds lies in the rounding interval of the double it is written
for, so that reading it gives the double back.
-/

namespace BlockEditor.Number

/-! ## The interval of a double -/

section Intervals

variable {m : Nat} {e : Int} {v : Rat}

/-- The unit of an interval is not zero. -/
theorem unit_pos (m : Nat) (e : Int) : 0 < (Interval.ofParts m e).unit := by
  show 0 < 1 <<< (2 - e).toNat
  rw [Nat.one_shiftLeft]
  exact Nat.two_pow_pos _

/-- One quarter of the last place, in units of the interval. -/
theorem quarter_eq (e : Int) :
    ((1 <<< (e - 2).toNat : Nat) : Rat) / ((1 <<< (2 - e).toNat : Nat) : Rat) = 2 ^ e / 4 := by
  have split : (2 : Rat) ^ e = 4 * 2 ^ (e - 2) := by
    rw [show (4 : Rat) = 2 ^ (2 : Int) by norm_num, ← zpow_add₀ (by norm_num)]
    congr 1
    omega
  rw [split, zpow_eq_div (by norm_num) (e - 2), Int.neg_sub, Nat.one_shiftLeft, Nat.one_shiftLeft]
  push_cast
  field_simp

/-- The double of an interval, in its units. -/
theorem value_ofParts (m : Nat) (e : Int) :
    ((Interval.ofParts m e).value : Rat) = m * 2 ^ e * (Interval.ofParts m e).unit := by
  have quarter := quarter_eq e
  have unit : ((Interval.ofParts m e).unit : Rat) ≠ 0 := by exact_mod_cast (unit_pos m e).ne'
  unfold Interval.ofParts at *
  rw [div_eq_iff unit] at quarter
  push_cast at *
  rw [quarter]
  ring

/-- The reach below it. -/
theorem below_ofParts (m : Nat) (e : Int) : ((Interval.ofParts m e).below : Rat) =
    reachBelow m e * 2 ^ e * (Interval.ofParts m e).unit := by
  have quarter := quarter_eq e
  have unit : ((Interval.ofParts m e).unit : Rat) ≠ 0 := by exact_mod_cast (unit_pos m e).ne'
  unfold Interval.ofParts reachBelow at *
  rw [div_eq_iff unit] at quarter
  dsimp only
  split
  · rw [quarter]
    ring
  · push_cast at *
    rw [quarter]
    ring

/-- The reach above it. -/
theorem above_ofParts (m : Nat) (e : Int) : ((Interval.ofParts m e).above : Rat) =
    1 / 2 * 2 ^ e * (Interval.ofParts m e).unit := by
  have quarter := quarter_eq e
  have unit : ((Interval.ofParts m e).unit : Rat) ≠ 0 := by exact_mod_cast (unit_pos m e).ne'
  unfold Interval.ofParts at *
  rw [div_eq_iff unit] at quarter
  push_cast at *
  rw [quarter]
  ring

/-- A distance is within reach if it is shorter, or as long and the interval is closed. -/
theorem within_iff (i : Interval) (distance reach : Nat) :
    i.within distance reach = true ↔ distance < reach ∨ (i.closed = true ∧ distance = reach) := by
  simp [Interval.within]

/-- The interval of an even mantissa is closed. -/
theorem closed_ofParts : (Interval.ofParts m e).closed = true ↔ m % 2 = 0 := by
  simp [Interval.ofParts]

/-- A number below a double that is within reach is rounded to it. -/
theorem roundsTo_of_below {distance factor : Nat} (some : 0 < factor)
    (within : (Interval.ofParts m e).within distance ((Interval.ofParts m e).below * factor) = true)
    (value : v = m * 2 ^ e - distance / ((Interval.ofParts m e).unit * factor)) : RoundsTo v m e := by
  have unit : (0 : Rat) < (Interval.ofParts m e).unit * factor := by
    have := unit_pos m e
    positivity
  have power : (0 : Rat) < 2 ^ e := by positivity
  have reach : (((Interval.ofParts m e).below * factor : Nat) : Rat) / ((Interval.ofParts m e).unit * factor) =
      reachBelow m e * 2 ^ e := by
    rw [div_eq_iff unit.ne', Nat.cast_mul, below_ofParts]
    ring
  have above : v < (m + 1 / 2) * 2 ^ e := by
    have : (0 : Rat) ≤ distance / ((Interval.ofParts m e).unit * factor) := by positivity
    rw [value]
    linarith
  rcases (within_iff ..).1 within with less | ⟨closed, same⟩
  · have near : (distance : Rat) / ((Interval.ofParts m e).unit * factor) < reachBelow m e * 2 ^ e := by
      rw [← reach]
      exact div_lt_div_of_pos_right (by exact_mod_cast less) unit
    have below : (m - reachBelow m e) * 2 ^ e < v := by
      rw [value]
      linarith
    exact ⟨below.le, above.le, .inr ⟨below, above⟩⟩
  · have low : v = (m - reachBelow m e) * 2 ^ e := by
      rw [value, same, reach]
      ring
    exact ⟨low.ge, above.le, .inl (closed_ofParts.1 closed)⟩

/-- A number above a double that is within reach is rounded to it. -/
theorem roundsTo_of_above {distance factor : Nat} (some : 0 < factor)
    (within : (Interval.ofParts m e).within distance ((Interval.ofParts m e).above * factor) = true)
    (value : v = m * 2 ^ e + distance / ((Interval.ofParts m e).unit * factor)) : RoundsTo v m e := by
  have unit : (0 : Rat) < (Interval.ofParts m e).unit * factor := by
    have := unit_pos m e
    positivity
  have power : (0 : Rat) < 2 ^ e := by positivity
  have reach : (((Interval.ofParts m e).above * factor : Nat) : Rat) / ((Interval.ofParts m e).unit * factor) =
      1 / 2 * 2 ^ e := by
    rw [div_eq_iff unit.ne', Nat.cast_mul, above_ofParts]
    ring
  have below : (m - reachBelow m e) * 2 ^ e < v := by
    have : (0 : Rat) ≤ distance / ((Interval.ofParts m e).unit * factor) := by positivity
    have : 0 < reachBelow m e * 2 ^ e := mul_pos (reachBelow_pos m e) power
    rw [value]
    linarith
  rcases (within_iff ..).1 within with less | ⟨closed, same⟩
  · have near : (distance : Rat) / ((Interval.ofParts m e).unit * factor) < 1 / 2 * 2 ^ e := by
      rw [← reach]
      exact div_lt_div_of_pos_right (by exact_mod_cast less) unit
    have above : v < (m + 1 / 2) * 2 ^ e := by
      rw [value]
      linarith
    exact ⟨below.le, above.le, .inr ⟨below, above⟩⟩
  · have high : v = (m + 1 / 2) * 2 ^ e := by
      rw [value, same, reach]
      ring
    exact ⟨below.le, high.le, .inl (closed_ofParts.1 closed)⟩

end Intervals

/-! ## The grid -/

section Grid

variable {m : Nat} {e scale : Int} {tie : Tie} {d : Decimal}

/-- The grid of an exponent: its step, in units of the interval times a factor. -/
theorem step_eq (i : Interval) (positive : 0 < i.unit) (scale : Int) :
    ((i.unit * Nat.pow 10 scale.toNat : Nat) : Rat) =
      10 ^ scale * (i.unit * (Nat.pow 10 (-scale).toNat : Nat)) := by
  have unit : (i.unit : Rat) ≠ 0 := by exact_mod_cast positive.ne'
  rw [zpow_eq_div (by norm_num) scale]
  push_cast [Nat.pow_eq]
  field_simp

/-- What the grid search finds is rounded to the double. -/
theorem roundsTo_of_nearest? (found : (Interval.ofParts m e).nearest? tie scale = some d) :
    d.scale = scale ∧ RoundsTo d.value m e := by
  have units := unit_pos m e
  have step := step_eq _ units scale
  have exact := value_ofParts m e
  have some : 0 < Nat.pow 10 (-scale).toNat := Nat.pow_pos (by decide)
  have steps : 0 < (Interval.ofParts m e).unit * Nat.pow 10 scale.toNat :=
    Nat.mul_pos units (Nat.pow_pos (by decide))
  unfold Interval.nearest? at found
  dsimp only at found
  generalize Nat.pow 10 (-scale).toNat = factor at *
  generalize hst : (Interval.ofParts m e).unit * Nat.pow 10 scale.toNat = st at *
  have whole := Nat.div_add_mod ((Interval.ofParts m e).value * factor) st
  have rest := Nat.mod_lt ((Interval.ofParts m e).value * factor) steps
  generalize (Interval.ofParts m e).value * factor / st = n at *
  generalize (Interval.ofParts m e).value * factor % st = r at *
  have grid : (0 : Rat) < (Interval.ofParts m e).unit * factor := by positivity
  -- The point below, its distance and the double, all in the same units.
  have balance : (n : Rat) * 10 ^ scale * ((Interval.ofParts m e).unit * factor) + r =
      m * 2 ^ e * ((Interval.ofParts m e).unit * factor) := by
    have whole : (st : Rat) * n + r = (Interval.ofParts m e).value * factor := by exact_mod_cast whole
    rw [step, exact] at whole
    linarith
  split at found
  · rename_i low
    cases found
    have within := (Bool.and_eq_true_iff.1 (Bool.and_eq_true_iff.1 low).1).2
    refine ⟨rfl, roundsTo_of_below some within ?_⟩
    rw [Decimal.value, eq_sub_iff_add_eq, ← mul_left_inj' grid.ne', add_mul, div_mul_cancel₀ _ grid.ne']
    exact balance
  · split at found
    · rename_i high
      cases found
      refine ⟨rfl, roundsTo_of_above some high ?_⟩
      rw [Decimal.value, ← mul_left_inj' grid.ne', add_mul, div_mul_cancel₀ _ grid.ne',
        Nat.cast_sub rest.le, step]
      push_cast
      linarith
    · cases found

/-- The grid search finds a point if one of the neighbouring points is within reach. -/
theorem exists_nearest? {i : Interval} {step factor : Nat} (hs : step = i.unit * Nat.pow 10 scale.toNat)
    (hf : factor = Nat.pow 10 (-scale).toNat)
    (within : (i.value * factor / step ≠ 0 ∧
        i.within (i.value * factor % step) (i.below * factor) = true) ∨
      i.within (step - i.value * factor % step) (i.above * factor) = true) :
    ∃ d, i.nearest? tie scale = some d := by
  subst hs hf
  unfold Interval.nearest?
  dsimp only
  split
  · exact ⟨_, rfl⟩
  · rename_i notBelow
    split
    · exact ⟨_, rfl⟩
    · rename_i notAbove
      rcases within with ⟨nonzero, below⟩ | above
      · refine absurd ?_ notBelow
        rw [decide_eq_true nonzero, below, Bool.eq_false_iff.2 notAbove]
        rfl
      · exact absurd above notAbove

/-- A grid that is finer than the interval has a point in it. -/
theorem exists_nearest?_of_fine (fine : (10 : Rat) ^ scale < (reachBelow m e + 1 / 2) * 2 ^ e)
    (low : (10 : Rat) ^ scale ≤ m * 2 ^ e) :
    ∃ d, (Interval.ofParts m e).nearest? tie scale = some d := by
  have units := unit_pos m e
  have step := step_eq _ units scale
  have some : 0 < Nat.pow 10 (-scale).toNat := Nat.pow_pos (by decide)
  have steps : 0 < (Interval.ofParts m e).unit * Nat.pow 10 scale.toNat :=
    Nat.mul_pos units (Nat.pow_pos (by decide))
  apply exists_nearest? rfl rfl
  generalize Nat.pow 10 (-scale).toNat = factor at *
  generalize (Interval.ofParts m e).unit * Nat.pow 10 scale.toNat = st at *
  have grid : (0 : Rat) < (Interval.ofParts m e).unit * factor := by positivity
  have rest := Nat.mod_lt ((Interval.ofParts m e).value * factor) steps
  have nonzero : (Interval.ofParts m e).value * factor / st ≠ 0 := by
    refine (Nat.div_pos ?_ steps).ne'
    have : (st : Rat) ≤ (Interval.ofParts m e).value * factor := by
      rw [step, value_ofParts, mul_assoc]
      exact mul_le_mul_of_nonneg_right low grid.le
    exact_mod_cast this
  have narrow : st < (Interval.ofParts m e).below * factor + (Interval.ofParts m e).above * factor := by
    have : (st : Rat) < (Interval.ofParts m e).below * factor + (Interval.ofParts m e).above * factor := by
      have := mul_lt_mul_of_pos_right fine grid
      rw [step, below_ofParts, above_ofParts]
      linarith
    exact_mod_cast this
  -- the two neighbouring points cannot both be out of reach
  by_cases near : (Interval.ofParts m e).value * factor % st < (Interval.ofParts m e).below * factor
  · exact .inl ⟨nonzero, (within_iff ..).2 (.inl near)⟩
  · exact .inr ((within_iff ..).2 (.inl (by omega)))

/-- A double that is not zero has an interval around a positive number. -/
theorem value_pos (positive : 0 < m) : 0 < (Interval.ofParts m e).value := by
  show 0 < 4 * m * (1 <<< (e - 2).toNat)
  rw [Nat.one_shiftLeft]
  positivity

/-- A double without a fraction is a multiple of the unit. -/
theorem unit_dvd_value (whole : m % (1 <<< (-e).toNat) = 0) :
    (Interval.ofParts m e).unit ∣ (Interval.ofParts m e).value := by
  show 1 <<< (2 - e).toNat ∣ 4 * m * (1 <<< (e - 2).toNat)
  rw [Nat.one_shiftLeft] at whole ⊢
  by_cases large : 0 < e
  · have : (2 - e).toNat ≤ 2 := by omega
    exact ((Nat.pow_dvd_pow 2 this).mul_right m).mul_right _
  · rw [show (2 - e).toNat = 2 + (-e).toNat by omega, Nat.pow_add]
    exact (Nat.mul_dvd_mul_left 4 (Nat.dvd_of_mod_eq_zero whole)).mul_right _

/-- A whole number is a point of the grid of ones. -/
theorem exists_nearest?_zero (positive : 0 < m) (whole : m % (1 <<< (-e).toNat) = 0) :
    ∃ d, (Interval.ofParts m e).nearest? tie 0 = some d := by
  have value := value_pos (e := e) positive
  have divides := unit_dvd_value whole
  have below : 0 < (Interval.ofParts m e).below := by
    have : (0 : Rat) < (Interval.ofParts m e).below := by
      have reach := reachBelow_pos m e
      have units := unit_pos m e
      rw [below_ofParts]
      positivity
    exact_mod_cast this
  have unit : (Interval.ofParts m e).unit = (Interval.ofParts m e).unit * Nat.pow 10 (0 : Int).toNat :=
    (Nat.mul_one _).symm
  refine exists_nearest? unit (show 1 = _ from rfl) (.inl ⟨?_, ?_⟩)
  · rw [Nat.mul_one]
    exact (Nat.div_pos (Nat.le_of_dvd value divides) (unit_pos m e)).ne'
  · rw [Nat.mul_one, Nat.mul_one, Nat.mod_eq_zero_of_dvd divides]
    exact (within_iff ..).2 (.inl below)

/-! ## The search -/

/-- The search finds what the first successful grid finds. -/
theorem search_eq {i : Interval} (fuel : Nat) (scale : Int) (k : Nat) (enough : k < fuel)
    (found : ∃ d, i.nearest? tie (scale - k) = some d) :
    ∃ j ≤ k, i.nearest? tie (scale - j) = some (i.search tie fuel scale) := by
  induction fuel generalizing scale k with
  | zero => omega
  | succ fuel ih =>
    rw [Interval.search]
    cases here : i.nearest? tie scale with
    | some d => exact ⟨0, Nat.zero_le k, by rw [Int.natCast_zero, Int.sub_zero, here]⟩
    | none =>
      cases k with
      | zero =>
        rw [Int.natCast_zero, Int.sub_zero, here] at found
        obtain ⟨d, none⟩ := found
        cases none
      | succ k =>
        rw [show scale - (k + 1 : Nat) = scale - 1 - k by omega] at found
        obtain ⟨j, within, first⟩ := ih (scale - 1) k (by omega) found
        exact ⟨j + 1, by omega, by rw [← first]; congr 1; omega⟩

/-- The first significant digit of a quotient stands at its leading exponent. -/
theorem pow_leadingExponent_le {a b : Nat} (ha : 0 < a) (hb : 0 < b) :
    (10 : Rat) ^ leadingExponent a b ≤ a / b := by
  have dividend : (0 : Rat) < a := by exact_mod_cast ha
  have divisor : (0 : Rat) < b := by exact_mod_cast hb
  unfold leadingExponent
  split
  · rename_i large
    have quotient : 0 < a / b := Nat.div_pos large hb
    have some : 0 < digitCount (a / b) := Nat.length_toDigits_pos
    rw [show (digitCount (a / b) : Int) - 1 = (digitCount (a / b) - 1 : Nat) by omega, zpow_natCast,
      le_div_iff₀ divisor]
    exact_mod_cast (Nat.le_div_iff_mul_le hb).1 (pow_digitCount_le quotient)
  · dsimp only
    rw [Int.negOfNat_eq, zpow_neg, Int.ofNat_eq_natCast, zpow_natCast, le_div_iff₀ divisor, inv_mul_le_iff₀ (by positivity)]
    have ceiling : b ≤ (b + a - 1) / a * a := by
      have whole := Nat.div_add_mod (b + a - 1) a
      have rest := Nat.mod_lt (b + a - 1) ha
      rw [Nat.mul_comm]
      omega
    have digits := lt_pow_digitCount ((b + a - 1) / a - 1)
    have : b ≤ 10 ^ digitCount ((b + a - 1) / a - 1) * a := by
      refine ceiling.trans (Nat.mul_le_mul_right a ?_)
      omega
    exact_mod_cast this

/-- The leading exponent of a quotient from one on is not negative. -/
theorem leadingExponent_nonneg {a b : Nat} (large : b ≤ a) : 0 ≤ leadingExponent a b := by
  have some : 0 < digitCount (a / b) := Nat.length_toDigits_pos
  rw [leadingExponent, if_pos large]
  omega

/-- Zeros at the end can be dropped without changing the number. -/
theorem value_strip (fuel : Nat) (d : Decimal) :
    (d.strip fuel).value = d.value ∧ d.scale ≤ (d.strip fuel).scale := by
  induction fuel generalizing d with
  | zero => exact ⟨rfl, Int.le_refl _⟩
  | succ fuel ih =>
    rw [Decimal.strip]
    split
    · rename_i zero
      obtain ⟨value, scale⟩ := ih ⟨d.digits / 10, d.scale + 1⟩
      have digits : (d.digits : Rat) = 10 * (d.digits / 10 : Nat) := by
        have : d.digits = 10 * (d.digits / 10) := by omega
        exact_mod_cast this
      have power : (10 : Rat) ^ (d.scale + 1) = 10 ^ d.scale * 10 := zpow_add_one₀ (by norm_num) d.scale
      refine ⟨?_, (Int.le_of_lt (Int.lt_succ d.scale)).trans scale⟩
      rw [value, Decimal.value, Decimal.value, digits, power]
      ring
    · exact ⟨rfl, Int.le_refl _⟩

/-- Seventeen digits are finer than the interval. -/
theorem fine_of_leading {m : Nat} {e lead : Int} (h : Canonical m e)
    (leading : (10 : Rat) ^ lead ≤ m * 2 ^ e) :
    (10 : Rat) ^ (lead - 16) < (reachBelow m e + 1 / 2) * 2 ^ e := by
  have power : (0 : Rat) < 2 ^ e := by positivity
  have split : (10 : Rat) ^ (lead - 16) = 10 ^ lead / 10 ^ 16 := by
    rw [zpow_sub₀ (by norm_num)]
    rfl
  rw [split, div_lt_iff₀ (by norm_num)]
  unfold reachBelow
  split
  · rename_i lowest
    have mantissa : (m : Rat) = 2 ^ 52 := by
      rw [lowest.1, show leadingBit = 2 ^ 52 from rfl]
      norm_num
    rw [mantissa] at leading
    linarith
  · have mantissa : (m : Rat) < 2 ^ 53 := by exact_mod_cast h.below
    have := mul_lt_mul_of_pos_right mantissa power
    linarith

end Grid

/-- The shortest decimal of a double is rounded to it, and has no fraction if the double has
none. -/
theorem roundsTo_shortest {m : Nat} {e : Int} (h : Canonical m e) (tie : Tie) :
    RoundsTo (shortest tie m e).value m e ∧
      (m % (1 <<< (-e).toNat) = 0 → 0 ≤ (shortest tie m e).scale) := by
  have value : ((Interval.ofParts m e).value : Rat) / (Interval.ofParts m e).unit = m * 2 ^ e := by
    have unit : ((Interval.ofParts m e).unit : Rat) ≠ 0 := by exact_mod_cast (unit_pos m e).ne'
    rw [value_ofParts, mul_div_cancel_right₀ _ unit]
  have positive := value_pos (e := e) h.positive
  have leading := pow_leadingExponent_le positive (unit_pos m e)
  have nonneg : m % (1 <<< (-e).toNat) = 0 →
      0 ≤ leadingExponent (Interval.ofParts m e).value (Interval.ofParts m e).unit :=
    fun whole => leadingExponent_nonneg (Nat.le_of_dvd positive (unit_dvd_value whole))
  unfold shortest
  dsimp only
  rw [value] at leading
  generalize leadingExponent (Interval.ofParts m e).value (Interval.ofParts m e).unit = lead at *
  generalize found : (Interval.ofParts m e).search tie 17 lead = d
  obtain ⟨same, scale⟩ := value_strip 18 d
  -- The grid of seventeen digits has a point in the interval, so the search finds one.
  have finest : ∃ d, (Interval.ofParts m e).nearest? tie (lead - (16 : Nat)) = some d := by
    apply exists_nearest?_of_fine (fine_of_leading h leading)
    refine le_trans (zpow_le_zpow_right₀ (by norm_num) ?_) leading
    omega
  constructor
  · obtain ⟨j, -, first⟩ := search_eq 17 lead 16 (by decide) finest
    rw [found] at first
    rw [same]
    exact (roundsTo_of_nearest? first).2
  · intro whole
    refine le_trans ?_ scale
    have nonneg := nonneg whole
    -- A whole number of at most seventeen digits is found on the grid of ones at the latest, and
    -- a longer one on a coarser grid.
    by_cases short : lead ≤ 16
    · have ones : ∃ d, (Interval.ofParts m e).nearest? tie (lead - (lead.toNat : Int)) = some d := by
        rw [Int.toNat_of_nonneg nonneg, Int.sub_self]
        exact exists_nearest?_zero h.positive whole
      obtain ⟨j, within, first⟩ := search_eq 17 lead lead.toNat (by omega) ones
      rw [found] at first
      have := (roundsTo_of_nearest? first).1
      omega
    · obtain ⟨j, within, first⟩ := search_eq 17 lead 16 (by decide) finest
      rw [found] at first
      have := (roundsTo_of_nearest? first).1
      omega

end BlockEditor.Number
