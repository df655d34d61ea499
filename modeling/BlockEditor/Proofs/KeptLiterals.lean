import BlockEditor.Proofs.AlikeRuns
import BlockEditor.Proofs.Retranslation

/-!
# Literals that are kept

A literal has the same value as the literal that its block is written as: the same text, or the same
number if the number is kept.  A number that is finite but not kept still comes back as one that is
zero exactly if it was zero.
-/

namespace BlockEditor

open Number

/-! ## Signs and zeros of doubles -/

namespace Number

section Zeros

variable {x : Float}

/-- Negating a double twice gives it back. -/
theorem neg_neg (x : Float) : - -x = x := by
  apply eq_of_unpack_eq
  have packed : ∀ y : Float, (-y).toModel = Float.Model.pack y.toModel.unpack.neg := fun _ => rfl
  cases u : x.toModel.unpack with
  | finite s m e positive =>
    rw [unpack_neg (unpack_neg u)]
    cases s <;> rfl
  | zero s =>
    rw [unpack_neg_of_zero (unpack_neg_of_zero u)]
    cases s <;> rfl
  | infinity s =>
    rw [packed, packed, u]
    cases s <;> rfl
  | notANumber =>
    rw [packed, packed, u]
    rfl

/-- A double other than zero does not equal zero. -/
theorem beq_zero_of_unpack {s : Float.Model.UnpackedFloat.Sign} {m : Nat} {e : Int}
    {positive : 0 < m} (u : x.toModel.unpack = .finite s m e positive) : (x == 0.0) = false := by
  rw [beq_eq, u, unpack_zero]
  cases s <;> rfl

/-- The negation of a double is zero exactly if the double is. -/
theorem beq_zero_neg (finite : isFinite x = true) : (-x == 0.0) = (x == 0.0) := by
  rcases unpack_of_isFinite finite with ⟨s, u⟩ | ⟨s, m, e, h, u⟩
  · rw [beq_of_zero u unpack_zero, beq_of_zero (unpack_neg_of_zero u) unpack_zero]
  · rw [beq_zero_of_unpack u, beq_zero_of_unpack (unpack_neg u)]

theorem beq_zero_abs (finite : isFinite x = true) : (x.abs == 0.0) = (x == 0.0) := by
  rcases unpack_of_isFinite finite with ⟨s, u⟩ | ⟨s, m, e, h, u⟩
  · rw [abs_of_zero u, beq_of_zero u unpack_zero, beq_of_zero unpack_zero unpack_zero]
  · rw [beq_zero_of_unpack u, beq_zero_of_unpack (unpack_abs u)]

/-- A double and its negation have the same magnitude. -/
theorem abs_neg (finite : isFinite x = true) : (-x).abs = x.abs := by
  rcases unpack_of_isFinite finite with ⟨s, u⟩ | ⟨s, m, e, h, u⟩
  · rw [abs_of_zero u, abs_of_zero (unpack_neg_of_zero u)]
  · exact eq_of_unpack_eq ((unpack_abs (unpack_neg u)).trans (unpack_abs u).symm)

/-- The negation of a positive double is negative. -/
theorem neg_lt_zero (finite : isFinite x = true) (nonneg : ¬ x < 0.0) (nonzero : (x == 0.0) = false) :
    -x < 0.0 := by
  rcases unpack_of_isFinite finite with ⟨s, u⟩ | ⟨s, m, e, h, u⟩
  · rw [beq_of_zero u unpack_zero] at nonzero
    cases nonzero
  · cases s with
    | negative => exact absurd ((lt_zero_iff u).2 rfl) nonneg
    | positive => exact (lt_zero_iff (unpack_neg u)).2 rfl

end Zeros

/-- The double of a natural number is zero exactly if the number is, and has no sign. -/
theorem ofInt_nonneg {n : Int64} (nonneg : 0 ≤ n) : (Float.ofInt n.toInt).abs = Float.ofInt n.toInt ∧
    (Float.ofInt n.toInt == 0.0) = (n == 0) := by
  have high := n.toInt_lt
  obtain ⟨k, e⟩ := Int.eq_ofNat_of_zero_le (Int64.le_iff_toInt_le.1 nonneg)
  have zero : (0 : Int64).toInt = 0 := rfl
  rw [e] at high ⊢
  show (Float.ofNat k).abs = Float.ofNat k ∧ (Float.ofNat k == 0.0) = (n == 0)
  rcases Nat.eq_zero_or_pos k with rfl | positive
  · obtain rfl : n = 0 := Int64.toInt_inj.1 (by omega)
    rw [abs_of_zero unpack_ofNat_zero, beq_of_zero unpack_ofNat_zero unpack_zero]
    exact ⟨eq_of_unpack_eq (unpack_zero.trans unpack_ofNat_zero.symm), rfl⟩
  · obtain ⟨m, d, h, u, -⟩ := exists_unpack_ofNat positive (by omega)
    have nonzero : n ≠ 0 := by
      rintro rfl
      omega
    rw [beq_zero_of_unpack u]
    exact ⟨eq_of_unpack_eq ((unpack_abs u).trans u.symm), by simpa using nonzero⟩

end Number

/-! ## Constants behind signs -/

namespace Constant

variable {c : Constant} {x : Float}

/-- Whether a constant is a number literal with a finite double. -/
def isFinite : Constant → Bool
  | .int n => decide (0 ≤ n)
  | .float x => Number.isFinite x
  | _ => false

/-- The value of a number literal behind signs. -/
def signedValue (negative : Bool) : Constant → Value
  | .int n => .int (if negative then -n else n)
  | .float x => .float (if negative then -x else x)
  | _ => .none

/-- A number behind signs is no function. -/
theorem isData_signedValue (c : Constant) (negative : Bool) : (c.signedValue negative).IsData := by
  cases c <;> nofun

/-- A number that is kept is finite. -/
theorem isFinite_of_isKept (kept : c.isKept = true) : c.isFinite = true := by
  cases c with
  | int n => exact decide_eq_true (isKept_int.1 kept).1
  | float x => exact (isKept_float.1 kept).1
  | _ => cases kept

/-- A finite number is a number. -/
theorem isNumber_of_isFinite (finite : c.isFinite = true) : c.isNumber = true := by
  cases c with
  | int | float => first | exact finite | rfl
  | _ => cases finite

/-- A finite number has a finite double. -/
theorem exists_double? (finite : c.isFinite = true) :
    ∃ x, c.double? = some x ∧ Number.isFinite x = true := by
  cases c with
  | int n => exact ⟨_, rfl, isFinite_ofInt n⟩
  | float x => exact ⟨x, rfl, finite⟩
  | _ => cases finite

/-- The double of a kept literal has no sign, and it is no zero unless the literal is the integer
zero. -/
theorem double_of_isKept (kept : c.isKept = true) (value : c.double? = some x) :
    x.abs = x ∧ ¬ x < 0.0 ∧ ((x == 0.0) = true → c = .int 0) := by
  cases c with
  | int n =>
    cases value
    obtain ⟨nonneg, -⟩ := isKept_int.1 kept
    obtain ⟨same, zero⟩ := ofInt_nonneg nonneg
    refine ⟨same, (isWhole_ofInt nonneg).2, ?_⟩
    rw [zero, beq_iff_eq]
    rintro rfl
    rfl
  | float x =>
    cases value
    obtain ⟨finite, nonneg, large⟩ := isKept_float.1 kept
    have nonzero : (x == 0.0) = false := by
      rcases unpack_of_isFinite finite with ⟨s, u⟩ | ⟨s, m, e, h, u⟩
      · obtain ⟨positive, limit⟩ := unpack_wordLimit
        refine absurd ⟨?_, ?_⟩ large
        · rw [isWhole, parts_eq, u]
          rfl
        · rw [lt_iff, u, limit]
          rfl
      · exact beq_zero_of_unpack u
    exact ⟨abs_eq_self finite nonneg nonzero, nonneg, by simp [nonzero]⟩
  | _ => cases kept

/-- A number literal behind signs holds as a condition unless its double is zero. -/
theorem truthy_signedValue (finite : c.isFinite = true) (value : c.double? = some x)
    (negative : Bool) : (c.signedValue negative).truthy = (x != 0.0) := by
  cases c with
  | int n =>
    cases value
    have zero := (ofInt_nonneg (of_decide_eq_true finite)).2
    rw [bne, zero]
    cases negative with
    | false => rfl
    | true =>
      have opposite : -n = 0 ↔ n = 0 := by
        rw [← Int64.neg_zero, Int64.neg_inj, Int64.neg_zero]
      simp [signedValue, Value.truthy, bne, opposite]
  | float x =>
    cases value
    cases negative with
    | false => rfl
    | true => exact congrArg not (beq_zero_neg finite)
  | _ => cases finite

/-- Zero has no sign as an integer. -/
theorem signedValue_zero (negative : Bool) : (int 0).signedValue negative = .int 0 := by
  cases negative with
  | false => rfl
  | true => exact congrArg Value.int Int64.neg_zero

/-- A minus in front of a number behind signs turns its sign. -/
theorem unaryOperation_neg (number : c.isNumber = true) (negative : Bool) :
    (c.signedValue negative).unaryOperation .neg = .ok (c.signedValue !negative) := by
  cases c with
  | int n =>
    have nonneg := Int64.le_iff_toInt_le.1 (of_decide_eq_true number)
    have zero : (0 : Int64).toInt = 0 := rfl
    have high := n.toInt_lt
    have opposite : (-n).toInt = -n.toInt := by
      rw [Int64.toInt_neg, Int.bmod_eq_of_le] <;> omega
    cases negative with
    | false =>
      have fits := (toInt64?_eq_some_iff (-n.toInt) (-n)).2 opposite
      show Value.ofInt (-n.toInt) = .ok (.int (-n))
      rw [Value.ofInt, fits]
    | true =>
      have fits := (toInt64?_eq_some_iff (-(-n).toInt) n).2 (by omega)
      show Value.ofInt (-(-n).toInt) = .ok (.int n)
      rw [Value.ofInt, fits]
  | float x =>
    cases negative with
    | false => rfl
    | true => exact congrArg (Except.ok ∘ Value.float) (Number.neg_neg x)
  | _ => cases number

/-- A plus in front of it changes nothing. -/
theorem unaryOperation_pos (number : c.isNumber = true) (negative : Bool) :
    (c.signedValue negative).unaryOperation .pos = .ok (c.signedValue negative) := by
  cases c with
  | int | float => rfl
  | _ => cases number

end Constant

/-! ## Literals behind signs -/

namespace Expr

variable {e : Expr} {c : Constant} {negative : Bool}

/-- The constant behind the signs of an expression, and whether the signs negate it. -/
def signed? : Expr → Option (Bool × Constant)
  | .constant _ c => some (false, c)
  | .unary _ .neg e => (signed? e).map fun s => (!s.1, s.2)
  | .unary _ .pos e => signed? e
  | _ => none

/-- Whether an expression is the literal of a text, or behind any signs that of a number which passes
a test. -/
def isLiteral (test : Constant → Bool) : Expr → Bool
  | .constant _ (.str _) => true
  | e => e.signed?.any fun s => test s.2

/-- A literal is a text, or a number behind signs that passes the test. -/
theorem isLiteral_cases {test : Constant → Bool} (h : e.isLiteral test = true) :
    (∃ span text, e = .constant span (.str text)) ∨
      ∃ negative c, e.signed? = some (negative, c) ∧ test c = true := by
  unfold isLiteral at h
  split at h
  · exact .inl ⟨_, _, rfl⟩
  · obtain ⟨⟨negative, c⟩, signed, holds⟩ := (Option.any_eq_true _ _).1 h
    exact .inr ⟨negative, c, signed, holds⟩

/-- A number literal behind signs has a value. -/
theorem hasValue_of_signed? (signed : e.signed? = some (negative, c)) (number : c.isNumber = true) :
    e.HasValue (c.signedValue negative) := by
  fun_induction signed? e generalizing negative c with
  | case1 span c =>
    cases signed
    intro g
    cases c with
    | int | float => rfl
    | _ => cases number
  | case2 span e ih =>
    obtain ⟨⟨s, c⟩, inner, pair⟩ := Option.map_eq_some_iff.1 signed
    cases pair
    exact (ih inner number).unary (Constant.unaryOperation_neg number s) span
  | case3 span e ih => exact (ih signed number).unary (Constant.unaryOperation_pos number _) span
  | case4 => cases signed

/-- A literal has a value, which is no function. -/
theorem exists_hasValue (literal : e.isLiteral Constant.isNumber = true) :
    ∃ v, e.HasValue v ∧ v.IsData := by
  rcases isLiteral_cases literal with ⟨span, text, rfl⟩ | ⟨negative, c, signed, number⟩
  · exact ⟨.str text, fun g => rfl, nofun⟩
  · exact ⟨_, hasValue_of_signed? signed number, c.isData_signedValue negative⟩

/-- The number of a literal behind signs. -/
theorem number?_of_signed? {x : Float} (signed : e.signed? = some (negative, c))
    (finite : c.isFinite = true) (value : c.double? = some x) :
    e.number? = some (if negative then -x else x) := by
  fun_induction signed? e generalizing negative c with
  | case1 span c =>
    cases signed
    cases c with
    | int n =>
      cases value
      rfl
    | float y =>
      cases value
      exact if_pos finite
    | _ => cases value
  | case2 span e ih =>
    obtain ⟨⟨s, c⟩, inner, pair⟩ := Option.map_eq_some_iff.1 signed
    cases pair
    rw [number?, ih inner finite value]
    cases s with
    | false => rfl
    | true => exact congrArg some (Number.neg_neg x)
  | case3 span e ih => exact ih signed finite value
  | case4 => cases signed

/-- The literal in the code of a number has the value of a kept literal, behind the sign of the
number. -/
theorem IsNumber.hasValue {x : Float} (h : e.IsNumber x) (kept : e.NumberKept) :
    ∃ c : Constant, c.isKept = true ∧ c.double? = some x.abs ∧
      e.HasValue (c.signedValue (decide (x < 0.0))) := by
  obtain ⟨span, c, value, form⟩ := h
  have signed : e.signed? = some (decide (x < 0.0), c) ∧ c.isKept = true := by
    split at form
    · rename_i less
      obtain ⟨outer, rfl⟩ := form
      exact ⟨by rw [decide_eq_true less]; rfl, kept _ value⟩
    · rename_i notLess
      subst form
      exact ⟨by rw [decide_eq_false notLess]; rfl, kept _ value⟩
  obtain ⟨signed, isKept⟩ := signed
  have number := Constant.isNumber_of_isFinite (Constant.isFinite_of_isKept isKept)
  exact ⟨c, isKept, value, hasValue_of_signed? signed number⟩

end Expr

/-! ## Literals of blocks -/

namespace Block

variable {b : Block} {slot : String} {absent : Constant} {e e' : Expr}

section Slots

variable (filled : b.value? slot = e.block?) (mirrors : b.SlotMirrors slot absent e')
  (numberKept : e'.NumberKept)

include filled mirrors

/-- What is written for the block of an expression mirrors the block. -/
theorem literalMirrors_of_slot {c : Block} (block : e.block? = some c) : c.LiteralMirrors e' := by
  unfold SlotMirrors at mirrors
  rw [filled, block] at mirrors
  exact mirrors

/-- What is written for a number behind signs is the number of its double. -/
theorem literalMirrors_of_signed? {negative : Bool} {c : Constant} {x : Float}
    (signed : e.signed? = some (negative, c)) (finite : c.isFinite = true)
    (value : c.double? = some x) : e'.IsNumber (if negative then -x else x) := by
  apply LiteralMirrors.isNumber
  apply literalMirrors_of_slot filled mirrors
  exact block?_of_number? (Expr.number?_of_signed? signed finite value)

include numberKept

/-- A literal that is kept has the value of the literal that is written for it. -/
theorem hasValue_of_isKept (literal : e.isLiteral Constant.isKept = true) :
    ∃ v, e.HasValue v ∧ e'.HasValue v := by
  rcases Expr.isLiteral_cases literal with ⟨span, text, rfl⟩ | ⟨negative, c, signed, kept⟩
  · obtain ⟨span', rfl⟩ := (literalMirrors_of_slot filled mirrors rfl).isText
    exact ⟨.str text, fun g => rfl, fun g => rfl⟩
  · have finite := Constant.isFinite_of_isKept kept
    obtain ⟨x, value, finiteX⟩ := Constant.exists_double? finite
    obtain ⟨same, nonneg, zero⟩ := Constant.double_of_isKept kept value
    have written := literalMirrors_of_signed? filled mirrors signed finite value
    obtain ⟨c', kept', value', has⟩ := written.hasValue numberKept
    have magnitude : (if negative then -x else x).abs = x := by
      cases negative with
      | false => exact same
      | true => exact (Number.abs_neg finiteX).trans same
    rw [magnitude, ← value] at value'
    obtain rfl := Constant.eq_of_isKept kept' kept value'
    refine ⟨_, Expr.hasValue_of_signed? signed (Constant.isNumber_of_isFinite finite), ?_⟩
    cases negative with
    | false =>
      have has : e'.HasValue (c'.signedValue (decide (x < 0.0))) := has
      rwa [decide_eq_false nonneg] at has
    | true =>
      have has : e'.HasValue (c'.signedValue (decide (-x < 0.0))) := has
      cases isZero : x == 0.0 with
      | false =>
        rwa [decide_eq_true (Number.neg_lt_zero finiteX nonneg isZero)] at has
      | true =>
        -- zero is written without its sign, and as an integer it has none
        obtain rfl := zero isZero
        rw [Constant.signedValue_zero] at has ⊢
        exact has

/-- A condition that is a text or a finite number holds exactly if the one that is written for it
does. -/
theorem truthy_of_isFinite (literal : e.isLiteral Constant.isFinite = true) :
    ∃ v v', e.HasValue v ∧ e'.HasValue v' ∧ v.truthy = v'.truthy := by
  rcases Expr.isLiteral_cases literal with ⟨span, text, rfl⟩ | ⟨negative, c, signed, finite⟩
  · obtain ⟨span', rfl⟩ := (literalMirrors_of_slot filled mirrors rfl).isText
    exact ⟨_, _, fun g => rfl, fun g => rfl, rfl⟩
  · obtain ⟨x, value, finiteX⟩ := Constant.exists_double? finite
    have written := literalMirrors_of_signed? filled mirrors signed finite value
    obtain ⟨c', kept', value', has⟩ := written.hasValue numberKept
    refine ⟨_, _, Expr.hasValue_of_signed? signed (Constant.isNumber_of_isFinite finite), has, ?_⟩
    rw [Constant.truthy_signedValue finite value,
      Constant.truthy_signedValue (Constant.isFinite_of_isKept kept') value']
    have magnitude : (if negative then -x else x).abs = x.abs := by
      cases negative with
      | false => rfl
      | true => exact Number.abs_neg finiteX
    rw [magnitude, bne, bne, Number.beq_zero_abs finiteX]

omit filled in
/-- What is written for a value has a value itself, which is no function. -/
theorem exists_hasValue (noFunction : absent = .none) : ∃ v, e'.HasValue v ∧ v.IsData := by
  unfold SlotMirrors at mirrors
  split at mirrors
  · cases mirrors with
    | number _ number =>
      obtain ⟨c, -, -, has⟩ := number.hasValue numberKept
      exact ⟨_, has, c.isData_signedValue _⟩
    | text _ text =>
      obtain ⟨span, rfl⟩ := text
      exact ⟨_, fun g => rfl, nofun⟩
  · obtain ⟨span, rfl⟩ := mirrors
    subst noFunction
    exact ⟨.none, fun g => rfl, nofun⟩

end Slots

end Block

end BlockEditor
