import BlockEditor.Number.Binary64
import Mathlib

/-!
# Doubles as exact numbers

A finite double is a sign, a mantissa and an exponent in canonical form, and there is exactly one
double for each of these.
-/

namespace BlockEditor.Number

open Float.Model (UnpackedFloat Format)
open Float.Model.UnpackedFloat (Sign unpackMantissa unpackExponent unpackSign)

/-! ## The fields of a word -/

/-- What an unpacked double stands for. -/
def Parts.ofUnpacked : UnpackedFloat → Parts
  | .notANumber => .nan
  | .infinity s => .infinite (s == .negative)
  | .zero s => .finite (s == .negative) 0 (-1074)
  | .finite s m e _ => .finite (s == .negative) m e

section Fields

variable (b : BitVec 64)

/-- The mantissa of a word is in its low bits. -/
theorem toNat_unpackMantissa :
    (@unpackMantissa .binary64 b).toNat = b.toNat % leadingBit := by
  simp [unpackMantissa, BitVec.extractLsb, leadingBit]

/-- Its exponent is in the eleven bits above these. -/
theorem toNat_unpackExponent :
    (@unpackExponent .binary64 b).toNat = b.toNat / leadingBit % 2048 := by
  simp [unpackExponent, BitVec.extractLsb, Nat.shiftRight_eq_div_pow, leadingBit]

/-- Its sign is the highest bit. -/
theorem toNat_unpackSign : (@unpackSign .binary64 b).toNat = b.toNat >>> 63 := by
  have bound := b.isLt
  simp [unpackSign, BitVec.extractLsb, Nat.shiftRight_eq_div_pow]
  omega

/-- A double is negative if its highest bit is one. -/
theorem ofBitVec_unpackSign :
    (Sign.ofBitVec (@unpackSign .binary64 b) == .negative) = decide (b.toNat >>> 63 = 1) := by
  rw [← toNat_unpackSign]
  generalize @unpackSign .binary64 b = v
  revert v
  decide

end Fields

/-- The parts of a double are those of what it unpacks to. -/
theorem parts_eq (x : Float) : parts x = .ofUnpacked x.toModel.unpack := by
  obtain ⟨⟨bits, valid⟩⟩ := x
  have read : (Float.ofModel ⟨bits, valid⟩).toBits = bits := rfl
  unfold parts Float.Model.unpack UnpackedFloat.unpack
  rw [read]
  dsimp only
  have field := toNat_unpackExponent bits.toBitVec
  have fraction := toNat_unpackMantissa bits.toBitVec
  have sign := ofBitVec_unpackSign bits.toBitVec
  have word : bits.toBitVec.toNat = bits.toNat := rfl
  rw [word] at field fraction sign
  -- The model takes bit vectors apart where the program divides a word, so its tests are restated
  -- for the word.
  have atTop : @unpackExponent .binary64 bits.toBitVec = -1#11 ↔
      bits.toNat / leadingBit % 2048 = 2047 := by
    rw [← BitVec.toNat_inj, field]
    rfl
  have atBottom : @unpackExponent .binary64 bits.toBitVec = 0#11 ↔
      bits.toNat / leadingBit % 2048 = 0 := by
    rw [← BitVec.toNat_inj, field]
    rfl
  have noFraction : @unpackMantissa .binary64 bits.toBitVec = 0#52 ↔
      bits.toNat % leadingBit = 0 := by
    rw [← BitVec.toNat_inj, fraction]
    rfl
  have mantissa : (1#1 ++ @unpackMantissa .binary64 bits.toBitVec).toNat =
      leadingBit + bits.toNat % leadingBit := by
    have small : bits.toNat % leadingBit < 2 ^ 52 := Nat.mod_lt _ (by decide)
    rw [BitVec.toNat_append, fraction]
    show 1 <<< 52 ||| _ = _
    rw [← Nat.shiftLeft_add_eq_or_of_lt small]
    rfl
  have bias : (Format.binary64.exponentBias : Int) + (52 : Nat) = 1075 := rfl
  simp only [atTop, atBottom]
  by_cases top : bits.toNat / leadingBit % 2048 = 2047
  · rw [if_pos top, if_pos top]
    simp only [noFraction]
    by_cases none : bits.toNat % leadingBit = 0
    · rw [if_pos none, if_pos none, Parts.ofUnpacked, sign]
    · rw [if_neg none, if_neg none, Parts.ofUnpacked]
  · rw [if_neg top, if_neg top]
    by_cases bottom : bits.toNat / leadingBit % 2048 = 0
    · rw [if_pos bottom, if_pos bottom]
      by_cases none : bits.toNat % leadingBit = 0
      · rw [dif_pos (noFraction.2 none), Parts.ofUnpacked, sign, none]
      · rw [dif_neg fun h => none (noFraction.1 h), Parts.ofUnpacked, sign, fraction, field, bottom,
          bias]
        rfl
    · rw [if_neg bottom, if_neg bottom, Parts.ofUnpacked, sign, mantissa, field, bias]

/-! ## Canonical form -/

/-- The mantissa and exponent of a finite double other than zero. -/
structure Canonical (m : Nat) (e : Int) : Prop where
  positive : 0 < m
  below : m < 2 ^ 53
  least : -1074 ≤ e
  greatest : e ≤ 971
  normal : 2 ^ 52 ≤ m ∨ e = -1074

/-- Three fields make up a word in the order of sign, exponent and mantissa. -/
theorem toNat_packComponents (s : Sign) (e : BitVec 11) (m : BitVec 52) :
    (UnpackedFloat.packComponents .binary64 s e m).toNat =
      s.toBitVec.toNat * 2 ^ 63 + e.toNat * 2 ^ 52 + m.toNat := by
  have inner : (s.toBitVec ++ e).toNat = s.toBitVec.toNat * 2 ^ 11 + e.toNat := by
    rw [BitVec.toNat_append, ← Nat.shiftLeft_add_eq_or_of_lt e.isLt, Nat.shiftLeft_eq]
  show (s.toBitVec ++ e ++ m).toNat = _
  rw [BitVec.toNat_append, ← Nat.shiftLeft_add_eq_or_of_lt m.isLt, Nat.shiftLeft_eq, inner]
  omega

/-- Every word is made up of its own fields. -/
theorem packComponents_unpack (b : BitVec 64) :
    UnpackedFloat.packComponents .binary64 (.ofBitVec (@unpackSign .binary64 b))
      (@unpackExponent .binary64 b) (@unpackMantissa .binary64 b) = b := by
  have sign : ∀ v : BitVec 1, (Sign.ofBitVec v).toBitVec = v := by decide
  have bound := b.isLt
  apply BitVec.eq_of_toNat_eq
  rw [toNat_packComponents, sign, toNat_unpackSign, toNat_unpackExponent, toNat_unpackMantissa,
    Nat.shiftRight_eq_div_pow, show leadingBit = 2 ^ 52 from rfl]
  omega

/-- The sign of a word is the one that it was made up of. -/
theorem unpackSign_packComponents (s : Sign) (e : BitVec 11) (m : BitVec 52) :
    Sign.ofBitVec (unpackSign (UnpackedFloat.packComponents .binary64 s e m)) = s := by
  have fields : (unpackSign (UnpackedFloat.packComponents .binary64 s e m)).toNat = s.toBitVec.toNat := by
    have top := e.isLt
    have low := m.isLt
    rw [toNat_unpackSign, toNat_packComponents, Nat.shiftRight_eq_div_pow]
    omega
  rw [BitVec.eq_of_toNat_eq fields]
  cases s <;> rfl

/-- A one in front of a fraction. -/
theorem toNat_append_fraction (v : BitVec 52) : (1#1 ++ v).toNat = leadingBit + v.toNat := by
  rw [BitVec.toNat_append, ← Nat.shiftLeft_add_eq_or_of_lt v.isLt]
  rfl

/-- Finite forms with the same mantissa and the same exponent are the same. -/
theorem finite_congr {s : Sign} {m n : Nat} {d e : Int} {positive : 0 < m} {positive' : 0 < n}
    (mantissa : m = n) (exponent : d = e) :
    UnpackedFloat.finite s m d positive = .finite s n e positive' := by
  subst mantissa exponent
  rfl

/-- Packing a double in canonical form loses nothing. -/
theorem unpack_pack {s : Sign} {m : Nat} {e : Int} (h : Canonical m e) :
    (Float.Model.pack (.finite s m e h.positive)).unpack = .finite s m e h.positive := by
  have positive := h.positive
  have below := h.below
  have least := h.least
  have greatest := h.greatest
  have bias : (Format.binary64.exponentBias : Int) = 1023 := rfl
  have width : Format.binary64.mantissaBits = 53 := rfl
  show UnpackedFloat.unpack .binary64 (UnpackedFloat.pack .binary64 _) = _
  rw [UnpackedFloat.pack]
  dsimp only
  rw [if_neg (by rw [bias]; omega), width]
  -- A normal double has its leading bit left out and a biased exponent, a subnormal one has
  -- neither.
  by_cases normal : 2 ^ 52 ≤ m
  · have log : m.log2 = 52 := (Nat.log2_eq_iff (by omega)).2 ⟨normal, below⟩
    rw [if_pos (by rw [log]), UnpackedFloat.unpack]
    simp only [UnpackedFloat.unpackMantissa_packComponents, UnpackedFloat.unpackExponent_packComponents, unpackSign_packComponents]
    have exponent : (BitVec.ofNat 11 (e + (Format.binary64.exponentBias : Int) + (52 : Nat)).toNat).toNat = (e + 1075).toNat := by
      rw [BitVec.toNat_ofNat, bias]
      omega
    rw [if_neg, if_neg]
    · apply finite_congr
      · rw [toNat_append_fraction, BitVec.toNat_ofNat, show leadingBit = 2 ^ 52 from rfl]
        omega
      · rw [exponent, bias]
        omega
    · intro zero
      rw [zero] at exponent
      have : (0 : Nat) = (e + 1075).toNat := exponent
      omega
    · intro top
      rw [top] at exponent
      have : (2047 : Nat) = (e + 1075).toNat := exponent
      omega
  · have log : m.log2 < 52 := (Nat.log2_lt (by omega)).2 (by omega)
    obtain rfl : e = -1074 := h.normal.resolve_left normal
    rw [if_neg (by omega), UnpackedFloat.unpack]
    simp only [UnpackedFloat.unpackMantissa_packComponents, UnpackedFloat.unpackExponent_packComponents, unpackSign_packComponents]
    have fraction : (BitVec.ofNat 52 m).toNat = m := by
      rw [BitVec.toNat_ofNat]
      omega
    have nonzero : BitVec.ofNat 52 m ≠ 0#52 := by
      intro zero
      rw [zero] at fraction
      have : 0 = m := fraction
      omega
    rw [if_neg (by decide), if_pos trivial, dif_neg nonzero]
    exact finite_congr fraction rfl

/-- Packing puts the fields of a normal number together. -/
theorem pack_normal (s : Sign) {x : BitVec 11} (v : BitVec 52) (notTop : x ≠ -1#11)
    (notBottom : x ≠ 0#11) (positive : 0 < (1#1 ++ v).toNat) :
    UnpackedFloat.pack .binary64 (.finite s (1#1 ++ v).toNat
      (x.toNat - (Format.binary64.exponentBias + (52 : Nat)) : Int) positive) =
        UnpackedFloat.packComponents .binary64 s x v := by
  have bias : (Format.binary64.exponentBias : Int) = 1023 := rfl
  have width : Format.binary64.mantissaBits = 53 := rfl
  have lead : leadingBit = 2 ^ 52 := rfl
  have low := v.isLt
  have top : x.toNat < 2047 := by
    have range := x.isLt
    have : x.toNat ≠ 2047 := fun same => notTop (BitVec.eq_of_toNat_eq same)
    omega
  have bottom : x.toNat ≠ 0 := fun same => notBottom (BitVec.eq_of_toNat_eq same)
  have log : (leadingBit + v.toNat).log2 = 52 :=
    (Nat.log2_eq_iff (by omega)).2 ⟨by omega, by omega⟩
  have biased : ((x.toNat : Int) - (1023 + (52 : Nat)) + 1023 + (52 : Nat)).toNat = x.toNat := by omega
  have fraction : BitVec.ofNat 52 (leadingBit + v.toNat) = v := by
    apply BitVec.eq_of_toNat_eq
    rw [BitVec.toNat_ofNat]
    omega
  rw [UnpackedFloat.pack]
  dsimp only
  rw [bias, biased, if_neg (by omega), width, toNat_append_fraction, if_pos (by rw [log]),
    BitVec.ofNat_toNat, BitVec.setWidth_eq, fraction]

/-- Packing puts the fields of a number without a leading bit together. -/
theorem pack_subnormal (s : Sign) (v : BitVec 52) (positive : 0 < v.toNat) :
    UnpackedFloat.pack .binary64 (.finite s v.toNat (-1074) positive) =
      UnpackedFloat.packComponents .binary64 s 0#11 v := by
  have width : Format.binary64.mantissaBits = 53 := rfl
  have log : v.toNat.log2 < 52 := (Nat.log2_lt (by omega)).2 v.isLt
  rw [UnpackedFloat.pack]
  dsimp only
  rw [if_neg (by decide), width, if_neg (by omega), BitVec.ofNat_toNat, BitVec.setWidth_eq]

/-- Every double is what it unpacks to. -/
theorem pack_unpack (x : Float.Model) : Float.Model.pack x.unpack = x := by
  obtain ⟨bits, valid⟩ := x
  have same : UnpackedFloat.pack .binary64 (UnpackedFloat.unpack .binary64 bits.toBitVec) =
      bits.toBitVec := by
    have whole := packComponents_unpack bits.toBitVec
    unfold UnpackedFloat.unpack
    dsimp only
    split
    · rename_i top
      split
      · rename_i none
        rw [top, none] at whole
        exact whole
      · rename_i some
        exact (valid.eq_packedNaN top some).symm
    · rename_i notTop
      split
      · rename_i bottom
        split
        · rename_i none
          rw [none, bottom] at whole
          exact whole
        · rw [bottom] at whole ⊢
          exact Eq.trans (pack_subnormal _ _ _) whole
      · rename_i notBottom
        exact Eq.trans (pack_normal _ _ notTop notBottom _) whole
  show Float.Model.mk (UInt64.ofBitVec
    (UnpackedFloat.pack .binary64 (UnpackedFloat.unpack .binary64 bits.toBitVec))) _ = _
  congr 1
  rw [same]

/-- Doubles that unpack to the same are the same. -/
theorem eq_of_unpack_eq {x y : Float} (h : x.toModel.unpack = y.toModel.unpack) : x = y := by
  obtain ⟨x⟩ := x
  obtain ⟨y⟩ := y
  have h : x.unpack = y.unpack := h
  rw [← pack_unpack x, h, pack_unpack]

/-- The parts of a finite double other than zero are in canonical form. -/
theorem canonical_of_parts {x : Float} {negative : Bool} {m : Nat} {e : Int}
    (h : parts x = .finite negative m e) (positive : 0 < m) : Canonical m e := by
  have lead : leadingBit = 2 ^ 52 := rfl
  have low : x.toBits.toNat % leadingBit < leadingBit := Nat.mod_lt _ (by decide)
  unfold parts at h
  dsimp only at h
  split at h
  · split at h <;> cases h
  · rename_i notTop
    split at h
    · cases h
      exact ⟨positive, by omega, by omega, by omega, .inr rfl⟩
    · cases h
      exact ⟨positive, by omega, by omega, by omega, .inl (by omega)⟩

/-- What a finite double other than zero unpacks to is in canonical form. -/
theorem canonical_of_unpack {x : Float} {s : Sign} {m : Nat} {e : Int} {positive : 0 < m}
    (h : x.toModel.unpack = .finite s m e positive) : Canonical m e := by
  have read : parts x = .finite (s == .negative) m e := by
    rw [parts_eq, h, Parts.ofUnpacked]
  exact canonical_of_parts read positive

/-- The parts of a double other than zero are what it unpacks to. -/
theorem unpack_of_parts {x : Float} {negative : Bool} {m : Nat} {e : Int}
    (h : parts x = .finite negative m e) (positive : 0 < m) :
    x.toModel.unpack = .finite (if negative then .negative else .positive) m e positive := by
  rw [parts_eq] at h
  cases u : x.toModel.unpack with
  | notANumber => rw [u] at h; cases h
  | infinity s => rw [u] at h; cases h
  | zero s =>
    rw [u] at h
    cases h
    cases positive
  | finite s m e positive =>
    rw [u] at h
    cases h
    cases s <;> rfl

/-! ## Finite doubles -/

/-- A finite double is a zero, or has a canonical form. -/
theorem unpack_of_isFinite {x : Float} (finite : isFinite x = true) :
    (∃ s, x.toModel.unpack = .zero s) ∨
      ∃ s m e, ∃ h : Canonical m e, x.toModel.unpack = .finite s m e h.positive := by
  unfold isFinite at finite
  rw [parts_eq] at finite
  cases u : x.toModel.unpack with
  | notANumber => rw [u] at finite; cases finite
  | infinity s => rw [u] at finite; cases finite
  | zero s => exact .inl ⟨s, rfl⟩
  | finite s m e positive => exact .inr ⟨s, m, e, canonical_of_unpack u, rfl⟩

/-- A finite double is a number. -/
theorem isNaN_of_isFinite {x : Float} (finite : isFinite x = true) : x.isNaN = false := by
  show x.toModel.unpack.isNaN = false
  rcases unpack_of_isFinite finite with ⟨s, u⟩ | ⟨s, m, e, h, u⟩ <;> rw [u] <;> rfl

/-- A finite double is not infinite. -/
theorem isInf_of_isFinite {x : Float} (finite : isFinite x = true) : x.isInf = false := by
  show x.toModel.unpack.isInf = false
  rcases unpack_of_isFinite finite with ⟨s, u⟩ | ⟨s, m, e, h, u⟩ <;> rw [u] <;> rfl

/-! ## Signs -/

theorem lt_iff (x y : Float) : x < y ↔ UnpackedFloat.lt x.toModel.unpack y.toModel.unpack = true :=
  decide_eq_true_iff (p := x.toModel < y.toModel)

/-- The literal zero unpacks to the zero without a sign. -/
theorem unpack_zero : (0.0 : Float).toModel.unpack = .zero .positive := by
  rfl

section Signs

variable {x y : Float} {s t : Sign} {m : Nat} {e : Int}

/-- No zero is negative. -/
theorem not_lt_zero_of_zero (u : x.toModel.unpack = .zero s) : ¬ x < 0.0 := by
  rw [lt_iff, u, unpack_zero]
  nofun

/-- A double other than zero is negative exactly if its sign is. -/
theorem lt_zero_iff {positive : 0 < m} (u : x.toModel.unpack = .finite s m e positive) :
    x < 0.0 ↔ s = .negative := by
  rw [lt_iff, u, unpack_zero]
  cases s with
  | negative => exact iff_of_true rfl rfl
  | positive => exact iff_of_false nofun nofun

/-- The magnitude of a zero is the zero without a sign. -/
theorem abs_of_zero (u : x.toModel.unpack = .zero s) : x.abs = 0.0 := by
  apply eq_of_unpack_eq
  show (Float.Model.pack x.toModel.unpack.abs).unpack = _
  rw [u]
  rfl

/-- The magnitude of a double has the same mantissa and the same exponent. -/
theorem unpack_abs {positive : 0 < m} (u : x.toModel.unpack = .finite s m e positive) :
    x.abs.toModel.unpack = .finite .positive m e positive := by
  show (Float.Model.pack x.toModel.unpack.abs).unpack = _
  rw [u]
  exact unpack_pack (canonical_of_unpack u)

/-! ## Equality -/

theorem beq_eq (x y : Float) : (x == y) = UnpackedFloat.beq x.toModel.unpack y.toModel.unpack := rfl

/-- All zeros are equal. -/
theorem beq_of_zero (u : x.toModel.unpack = .zero s) (v : y.toModel.unpack = .zero t) :
    (x == y) = true := by
  rw [beq_eq, u, v]
  rfl

/-- Doubles that unpack to the same are equal. -/
theorem beq_of_unpack {positive : 0 < m} (u : x.toModel.unpack = .finite s m e positive)
    (v : y.toModel.unpack = .finite s m e positive) : (x == y) = true := by
  have same : (compare e e).then (compare m m) = .eq := by
    rw [Int.compare_eq_eq.2 rfl, Nat.compare_eq_eq.2 rfl]
    rfl
  rw [beq_eq, u, v]
  cases s with
  | negative =>
    show (some ((compare e e).then (compare m m)).swap == some .eq) = true
    rw [same]
    rfl
  | positive =>
    show (some ((compare e e).then (compare m m)) == some .eq) = true
    rw [same]
    rfl

/-- Negating a double only changes its sign. -/
theorem unpack_neg {positive : 0 < m} (u : x.toModel.unpack = .finite s m e positive) :
    (-x).toModel.unpack = .finite (-s) m e positive := by
  show (Float.Model.pack x.toModel.unpack.neg).unpack = _
  rw [u]
  exact unpack_pack (canonical_of_unpack u)

theorem unpack_neg_of_zero (u : x.toModel.unpack = .zero s) :
    (-x).toModel.unpack = .zero (-s) := by
  show (Float.Model.pack x.toModel.unpack.neg).unpack = _
  rw [u]
  cases s <;> rfl

/-- A zero is finite. -/
theorem isFinite_of_zero (u : x.toModel.unpack = .zero s) : isFinite x = true := by
  rw [isFinite, parts_eq, u]
  rfl

/-- What unpacks to a mantissa and an exponent is finite. -/
theorem isFinite_of_unpack {positive : 0 < m} (u : x.toModel.unpack = .finite s m e positive) :
    isFinite x = true := by
  rw [isFinite, parts_eq, u]
  rfl

end Signs

/-- The negation of a finite double is finite. -/
theorem isFinite_neg {x : Float} (finite : isFinite x = true) : isFinite (-x) = true := by
  rcases unpack_of_isFinite finite with ⟨s, u⟩ | ⟨s, m, e, h, u⟩
  · exact isFinite_of_zero (unpack_neg_of_zero u)
  · exact isFinite_of_unpack (unpack_neg u)

theorem isFinite_abs {x : Float} (finite : isFinite x = true) : isFinite x.abs = true := by
  rcases unpack_of_isFinite finite with ⟨s, u⟩ | ⟨s, m, e, h, u⟩
  · rw [abs_of_zero u]
    exact isFinite_of_zero unpack_zero
  · exact isFinite_of_unpack (unpack_abs u)

/-- A double that is not negative equals its magnitude. -/
theorem beq_abs {x : Float} (finite : isFinite x = true) (nonneg : ¬ x < 0.0) :
    (x == x.abs) = true := by
  rcases unpack_of_isFinite finite with ⟨s, u⟩ | ⟨s, m, e, h, u⟩
  · rw [abs_of_zero u]
    exact beq_of_zero u unpack_zero
  · cases s with
    | negative => exact absurd ((lt_zero_iff u).2 rfl) nonneg
    | positive => exact beq_of_unpack u (unpack_abs u)

/-- A negative double equals the negation of its magnitude. -/
theorem beq_neg_abs {x : Float} (finite : isFinite x = true) (negative : x < 0.0) :
    (x == -x.abs) = true := by
  rcases unpack_of_isFinite finite with ⟨s, u⟩ | ⟨s, m, e, h, u⟩
  · exact absurd negative (not_lt_zero_of_zero u)
  · obtain rfl := (lt_zero_iff u).1 negative
    exact beq_of_unpack u (unpack_neg (unpack_abs u))

end BlockEditor.Number
