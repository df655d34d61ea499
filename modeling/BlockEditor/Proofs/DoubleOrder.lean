import BlockEditor.Machine.Value
import BlockEditor.Proofs.Doubles

/-!
# The order of doubles

Doubles that are numbers are ordered as what they stand for: any two of them are comparable, both
ways around alike, and those that are equal compare alike to all others.  A finite double stands for
an exact number, and the order of doubles is that of their numbers.
-/

namespace BlockEditor

namespace Number

open Float.Model (UnpackedFloat)

/-- Mantissas and exponents that are exchanged are ordered the other way around. -/
theorem compare_forms_swap (m n : Nat) (e d : Int) :
    (compare d e).then (compare n m) = ((compare e d).then (compare m n)).swap := by
  rw [Ordering.swap_then, Int.compare_swap, Nat.compare_swap]

section Unpacked

variable {u v : UnpackedFloat}

/-- Two doubles that are exchanged are ordered the other way around. -/
theorem compare_swap (u v : UnpackedFloat) : v.compare u = (u.compare v).map Ordering.swap := by
  cases u with
  | notANumber => cases v <;> rfl
  | zero s =>
    cases v with
    | infinity t | finite t => cases t <;> rfl
    | _ => rfl
  | infinity s =>
    cases v with
    | infinity t => cases s <;> cases t <;> rfl
    | _ => cases s <;> rfl
  | finite s m e =>
    cases v with
    | infinity t => cases s <;> cases t <;> rfl
    | finite t n d =>
      have swapped := compare_forms_swap m n e d
      cases s <;> cases t
      · exact congrArg (some ·.swap) swapped
      · rfl
      · rfl
      · exact congrArg some swapped
    | _ => cases s <;> rfl

/-- Doubles that compare as equal are the same, or both are zero. -/
theorem eq_of_compare (equal : u.compare v = some .eq) :
    u = v ∨ ∃ s t, u = .zero s ∧ v = .zero t := by
  cases u with
  | notANumber => cases equal
  | zero s =>
    cases v with
    | zero t => exact .inr ⟨s, t, rfl, rfl⟩
    | infinity t | finite t => cases t <;> cases equal
    | notANumber => cases equal
  | infinity s =>
    cases v with
    | infinity t =>
      cases s <;> cases t
      · exact .inl rfl
      · cases equal
      · cases equal
      · exact .inl rfl
    | _ => cases s <;> cases equal
  | finite s m e =>
    cases v with
    | infinity t => cases s <;> cases t <;> cases equal
    | finite t n d =>
      -- Finite doubles are compared by their exponents first and then by their fractions.
      have parts (same : (compare e d).then (compare m n) = .eq) : m = n ∧ e = d := by
        rw [Ordering.then_eq_eq, Int.compare_eq_eq, Nat.compare_eq_eq] at same
        exact same.symm
      cases s <;> cases t
      · obtain ⟨rfl, rfl⟩ := parts (Ordering.swap_eq_eq.1 (Option.some.inj equal))
        exact .inl rfl
      · cases equal
      · cases equal
      · obtain ⟨rfl, rfl⟩ := parts (Option.some.inj equal)
        exact .inl rfl
    | _ => cases s <;> cases equal

/-- A double equals itself unless it is no number. -/
theorem compare_self (u : UnpackedFloat) : u.compare u = if u.isNaN then none else some .eq := by
  cases u with
  | notANumber | zero => rfl
  | infinity s => cases s <;> rfl
  | finite s m e =>
    have same : (compare e e).then (compare m m) = .eq := by
      rw [Int.compare_eq_eq.2 rfl, Nat.compare_eq_eq.2 rfl, Ordering.eq_then]
    cases s
    · exact congrArg (some ·.swap) same
    · exact congrArg some same

/-- Doubles that are equal compare alike to all others. -/
theorem compare_congr (equal : u.compare v = some .eq) (w : UnpackedFloat) :
    u.compare w = v.compare w := by
  rcases eq_of_compare equal with rfl | ⟨s, t, rfl, rfl⟩
  · rfl
  · cases w with
    | infinity r | finite r => cases r <;> rfl
    | _ => rfl

end Unpacked

/-! ## Equality -/

variable {x y : Float}

/-- Doubles are equal if their unpacked forms compare as equal. -/
theorem beq_iff : (x == y) = true ↔ x.toModel.unpack.compare y.toModel.unpack = some .eq := by
  rw [beq_eq]
  exact beq_iff_eq

/-- What equals a double does not depend on which of two equal doubles it is. -/
theorem beq_congr (equal : (x == y) = true) (z : Float) : (x == z) = (y == z) := by
  rw [beq_eq, beq_eq, UnpackedFloat.beq, compare_congr (beq_iff.1 equal)]
  rfl

/-- Equality of doubles does not depend on their order. -/
theorem beq_comm (x y : Float) : (x == y) = (y == x) := by
  rw [Bool.eq_iff_iff, beq_iff, beq_iff, compare_swap x.toModel.unpack]
  cases x.toModel.unpack.compare y.toModel.unpack with
  | none => rfl
  | some order => cases order <;> decide

/-- A double equals itself unless it is no number. -/
theorem beq_self (x : Float) : (x == x) = !x.isNaN := by
  show (x.toModel.unpack.compare x.toModel.unpack == some .eq) = !x.toModel.unpack.isNaN
  rw [compare_self]
  cases x.toModel.unpack.isNaN <;> rfl

/-! ## Exact numbers -/

/-- The number that a finite double stands for. -/
def value? (x : Float) : Option Rat :=
  match parts x with
  | .finite negative mantissa exponent =>
    let magnitude : Rat := mantissa * 2 ^ exponent
    some (if negative then -magnitude else magnitude)
  | _ => none

/-- Exactly the finite doubles stand for numbers. -/
theorem isSome_value? (x : Float) : (value? x).isSome = isFinite x := by
  unfold value? isFinite
  cases parts x <;> rfl

/-- Doubles that are equal stand for one number. -/
theorem value?_congr (equal : (x == y) = true) : value? x = value? y := by
  unfold value?
  rw [parts_eq, parts_eq]
  rcases eq_of_compare (beq_iff.1 equal) with same | ⟨s, t, left, right⟩
  · rw [same]
  · rw [left, right]
    cases s <;> cases t <;> simp [Parts.ofUnpacked]

/-- Both zeros stand for zero. -/
theorem value?_of_zero {s : UnpackedFloat.Sign} (u : x.toModel.unpack = .zero s) :
    value? x = some 0 := by
  rw [value?, parts_eq, u]
  cases s <;> simp [Parts.ofUnpacked]

/-- The number of a double is its mantissa times a power of two, with its sign. -/
theorem value?_of_unpack {s : UnpackedFloat.Sign} {m : Nat} {e : Int} {positive : 0 < m}
    (u : x.toModel.unpack = .finite s m e positive) :
    value? x = some (if s == .negative then -((m : Rat) * 2 ^ e) else (m : Rat) * 2 ^ e) := by
  rw [value?, parts_eq, u]
  rfl

/-- A double that stands for a number is a zero, or has a canonical form. -/
theorem unpack_of_value? {q : Rat} (number : value? x = some q) :
    (∃ s, x.toModel.unpack = .zero s ∧ q = 0) ∨
      ∃ s m e, ∃ h : Canonical m e, x.toModel.unpack = .finite s m e h.positive ∧
        q = if s == .negative then -((m : Rat) * 2 ^ e) else (m : Rat) * 2 ^ e := by
  have finite : isFinite x = true := by rw [← isSome_value?, number, Option.isSome_some]
  rcases unpack_of_isFinite finite with ⟨s, u⟩ | ⟨s, m, e, h, u⟩
  · exact .inl ⟨s, u, Option.some.inj (number.symm.trans (value?_of_zero u))⟩
  · exact .inr ⟨s, m, e, h, u, Option.some.inj (number.symm.trans (value?_of_unpack u))⟩

/-! ## The order of exact numbers -/

section Magnitudes

variable {m n : Nat} {d e : Int}

/-- Of two canonical forms, the one with the greater exponent stands for the greater number. -/
theorem magnitude_lt_of_exponent (h : Canonical m e) (k : Canonical n d) (less : e < d) :
    (m : Rat) * 2 ^ e < n * 2 ^ d := by
  have full : 2 ^ 52 ≤ n := k.normal.resolve_right (by have := h.least; omega)
  have below : (m : Rat) < 2 ^ 53 := by exact_mod_cast h.below
  have above : (2 : Rat) ^ 52 ≤ n := by exact_mod_cast full
  calc (m : Rat) * 2 ^ e
    _ < 2 ^ 53 * 2 ^ e := by gcongr
    _ = 2 ^ 52 * 2 ^ (e + 1) := by rw [zpow_add_one₀ two_ne_zero]; ring
    _ ≤ n * 2 ^ d := by gcongr; exacts [one_le_two, less]

/-- Canonical forms are ordered by their exponents and then by their mantissas. -/
theorem magnitude_lt_iff (h : Canonical m e) (k : Canonical n d) :
    (m : Rat) * 2 ^ e < n * 2 ^ d ↔ (compare e d).then (compare m n) = .lt := by
  rcases lt_trichotomy e d with less | rfl | more
  · rw [Int.compare_eq_lt.2 less]
    exact iff_of_true (magnitude_lt_of_exponent h k less) rfl
  · have unit : (0 : Rat) < 2 ^ e := by positivity
    rw [Int.compare_eq_eq.2 rfl, Ordering.eq_then, Nat.compare_eq_lt, mul_lt_mul_iff_left₀ unit,
      Nat.cast_lt]
  · rw [Int.compare_eq_gt.2 more]
    exact iff_of_false (not_lt_of_gt (magnitude_lt_of_exponent k h more)) nofun

/-- A canonical form stands for a positive number. -/
theorem magnitude_pos (h : Canonical m e) : (0 : Rat) < m * 2 ^ e := by
  have := h.positive
  positivity

end Magnitudes

/-- Finite doubles are ordered as the numbers that they stand for. -/
theorem lt_iff_of_value? {p q : Rat} (left : value? x = some p) (right : value? y = some q) :
    x < y ↔ p < q := by
  rw [lt_iff, UnpackedFloat.lt, beq_iff_eq]
  rcases unpack_of_value? left with ⟨s, u, rfl⟩ | ⟨s, m, e, h, u, rfl⟩ <;>
    rcases unpack_of_value? right with ⟨t, v, rfl⟩ | ⟨t, n, d, k, v, rfl⟩ <;> rw [u, v]
  · exact iff_of_false nofun (lt_irrefl 0)
  · have above := magnitude_pos k
    cases t with
    | positive => exact iff_of_true rfl above
    | negative => exact iff_of_false nofun (neg_neg_of_pos above).not_gt
  · have above := magnitude_pos h
    cases s with
    | positive => exact iff_of_false nofun above.not_gt
    | negative => exact iff_of_true rfl (neg_neg_of_pos above)
  · have aboveLeft := magnitude_pos h
    have aboveRight := magnitude_pos k
    cases s <;> cases t
    · -- both are negative, so that their magnitudes are ordered the other way around
      show some ((compare e d).then (compare m n)).swap = some .lt ↔
        -((m : Rat) * 2 ^ e) < -((n : Rat) * 2 ^ d)
      rw [neg_lt_neg_iff, magnitude_lt_iff k h, compare_forms_swap m n e d, Option.some_inj]
    · exact iff_of_true rfl ((neg_neg_of_pos aboveLeft).trans aboveRight)
    · exact iff_of_false nofun ((neg_neg_of_pos aboveRight).trans aboveLeft).not_gt
    · exact Option.some_inj.trans (magnitude_lt_iff h k).symm

/-- A number lies below a double: below a greater one, or below plus infinity. -/
def IsBelow (q : Rat) (bound : Float) : Prop :=
  parts bound = .infinite false ∨ ∃ b, value? bound = some b ∧ q < b

/-- A double is less than another exactly if its number lies below that. -/
theorem lt_iff_isBelow {q : Rat} (number : value? x = some q) (bound : Float) :
    x < bound ↔ IsBelow q bound := by
  cases read : value? bound with
  | some b =>
    have finite : parts bound ≠ .infinite false := by
      intro infinite
      rw [value?, infinite] at read
      cases read
    simp [IsBelow, read, finite, lt_iff_of_value? number read]
  | none =>
    rw [IsBelow, read, lt_iff, UnpackedFloat.lt, beq_iff_eq, parts_eq]
    cases v : bound.toModel.unpack with
    | zero t => rw [value?_of_zero v] at read; cases read
    | finite t n d => rw [value?_of_unpack v] at read; cases read
    | notANumber =>
      refine iff_of_false ?_ (by simp [Parts.ofUnpacked])
      rcases unpack_of_value? number with ⟨s, u, -⟩ | ⟨s, m, e, h, u, -⟩ <;> rw [u] <;> rintro ⟨⟩
    | infinity t =>
      rcases unpack_of_value? number with ⟨s, u, -⟩ | ⟨s, m, e, h, u, -⟩ <;> rw [u] <;>
        cases t <;> simp [Parts.ofUnpacked, UnpackedFloat.compare]

/-! ## Whole numbers -/

/-- A magnitude is whole exactly if no bit of the mantissa stands behind the point. -/
theorem magnitude_whole_iff (m : Nat) (e : Int) :
    (∃ n : Int, (m : Rat) * 2 ^ e = n) ↔ m % (1 <<< (-e).toNat) = 0 := by
  rw [Nat.one_shiftLeft, ← Nat.dvd_iff_mod_eq_zero]
  obtain ⟨k, rfl | rfl⟩ := e.eq_nat_or_neg
  · have noBits : (-(k : Int)).toNat = 0 := by omega
    rw [noBits, pow_zero]
    exact iff_of_true ⟨m * 2 ^ k, by push_cast; rw [zpow_natCast]⟩ (one_dvd m)
  · have bits : (- -(k : Int)).toNat = k := by omega
    have unit : (2 : Rat) ^ k ≠ 0 := by positivity
    rw [bits, zpow_neg, zpow_natCast]
    constructor
    · rintro ⟨n, whole⟩
      rw [mul_inv_eq_iff_eq_mul₀ unit] at whole
      have split : (m : Int) = n * (2 ^ k : Nat) := by exact_mod_cast whole
      exact Int.natCast_dvd_natCast.1 ⟨n, by rw [split, mul_comm]⟩
    · rintro ⟨n, rfl⟩
      refine ⟨n, ?_⟩
      push_cast
      field_simp

/-- A double is whole exactly if its number is an integer. -/
theorem isWhole_iff {q : Rat} (number : value? x = some q) :
    isWhole x = true ↔ ∃ n : Int, q = n := by
  unfold value? at number
  cases read : parts x with
  | nan | infinite => rw [read] at number; cases number
  | finite negative m e =>
    rw [read] at number
    obtain rfl := Option.some.inj number
    have whole := (magnitude_whole_iff m e).symm
    simp only [isWhole, read, decide_eq_true_eq]
    cases negative with
    | false => exact whole
    | true =>
      refine whole.trans (neg_surjective.exists.trans (exists_congr fun n => ?_))
      show _ = ((-n : Int) : Rat) ↔ -((m : Rat) * 2 ^ e) = n
      rw [Int.cast_neg, neg_eq_iff_eq_neg]

end Number

/-! ## Order -/

/-- The order of two doubles is that of what they stand for. -/
theorem Value.compareFloats?_eq (x y : Float) :
    compareFloats? x y = x.toModel.unpack.compare y.toModel.unpack := by
  have above : y < x ↔ x.toModel.unpack.compare y.toModel.unpack = some .gt := by
    rw [Number.lt_iff, Float.Model.UnpackedFloat.lt, beq_iff_eq,
      Number.compare_swap x.toModel.unpack]
    cases x.toModel.unpack.compare y.toModel.unpack with
    | none => decide
    | some order => cases order <;> decide
  have below : x < y ↔ x.toModel.unpack.compare y.toModel.unpack = some .lt := by
    rw [Number.lt_iff, Float.Model.UnpackedFloat.lt, beq_iff_eq]
  unfold compareFloats?
  simp only [above, below, Number.beq_iff]
  cases x.toModel.unpack.compare y.toModel.unpack with
  | none => rfl
  | some order => cases order <;> rfl

end BlockEditor
