import BlockEditor.Proofs.ValueOrder
import BlockEditor.Proofs.WordDoubles

/-!
# Transitivity of equality

Integers are compared exactly, but with a double after they are rounded to one, so two integers
that are rounded to the same double both equal it.  Nothing else keeps equality from being
transitive, and integers of at most 53 bits are not rounded.
-/

namespace BlockEditor

/-! ## Integers that are doubles -/

namespace Number

variable {x : Float}

/-- The opposite of a double stands for the opposite number. -/
theorem value?_neg {q : Rat} (number : value? x = some q) : value? (-x) = some (-q) := by
  have finite : isFinite x = true := by rw [← isSome_value?, number, Option.isSome_some]
  rcases unpack_of_isFinite finite with ⟨s, u⟩ | ⟨s, m, e, h, u⟩
  · obtain rfl := Option.some.inj ((value?_of_zero u).symm.trans number)
    rw [value?_of_zero (unpack_neg_of_zero u), neg_zero]
  · obtain rfl := Option.some.inj ((value?_of_unpack u).symm.trans number)
    rw [value?_of_unpack (unpack_neg u)]
    cases s
    · exact congrArg some (Rat.neg_neg _).symm
    · rfl

/-- Numbers of at most 53 bits, and the next one, have a canonical form. -/
theorem exists_canonical {n : Nat} (positive : 0 < n) (small : n ≤ 2 ^ 53) :
    ∃ m e, Canonical m e ∧ (n : Rat) = m * 2 ^ e := by
  rcases Nat.lt_or_eq_of_le small with short | rfl
  · exact ⟨_, _, canonical_of_short positive short, value_scaled n _⟩
  · exact ⟨2 ^ 52, 1, ⟨by decide, by decide, by decide, by decide, .inl (by decide)⟩, by norm_num⟩

/-- Natural numbers of at most 53 bits are doubles. -/
theorem value?_ofNat {n : Nat} (small : n ≤ 2 ^ 53) : value? (Float.ofNat n) = some (n : Rat) := by
  rcases Nat.eq_zero_or_pos n with rfl | positive
  · rw [value?_of_zero unpack_ofNat_zero, Nat.cast_zero]
  · obtain ⟨m, e, h, value⟩ := exists_canonical positive small
    have exact : RoundsTo n m e := by
      rw [value]
      exact RoundsTo.self m e
    rw [value?_of_unpack (unpack_ofNat h exact), value]
    rfl

/-- Integers of at most 53 bits are doubles. -/
theorem value?_ofInt {n : Int} (small : n.natAbs ≤ 2 ^ 53) :
    value? (Float.ofInt n) = some (n : Rat) := by
  cases n with
  | ofNat n => exact value?_ofNat small
  | negSucc n =>
    rw [Int.cast_negSucc]
    exact value?_neg (value?_ofNat small)

/-- Integers of at most 53 bits that equal a double are equal. -/
theorem eq_of_beq_ofInt {m n : Int} (shortLeft : m.natAbs ≤ 2 ^ 53) (shortRight : n.natAbs ≤ 2 ^ 53)
    (left : (x == Float.ofInt m) = true) (right : (x == Float.ofInt n) = true) : m = n := by
  have same : some (m : Rat) = some (n : Rat) := by
    rw [← value?_ofInt shortLeft, ← value?_ofInt shortRight, ← value?_congr left,
      ← value?_congr right]
  exact_mod_cast Option.some.inj same

end Number

/-- Ranges that equal one range are equal. -/
theorem Range.sameItems_trans {r s t : Range} (rs : r.sameItems s = true)
    (st : s.sameItems t = true) : r.sameItems t = true := by
  unfold sameItems at *
  simp only [Bool.and_eq_true, Bool.or_eq_true, beq_iff_eq, decide_eq_true_eq] at *
  grind

namespace Value

/-! ## What equals a value -/

section Kinds

variable {a b : Value} {n : Int64} {x y : Float}

/-- Only `None` equals `None`. -/
theorem same_none_iff : a.same none = true ↔ a = none := by
  cases a <;> simp [same, sameNumber, asInt?, asFloat?]

/-- Only the same text equals a text. -/
theorem same_str_iff {s : String} : a.same (str s) = true ↔ a = str s := by
  cases a <;> simp [same, sameNumber, asInt?, asFloat?]

/-- Only the same function equals a function. -/
theorem same_builtin_iff {f : Builtin} : a.same (builtin f) = true ↔ a = builtin f := by
  cases a <;> simp [same, sameNumber, asInt?, asFloat?]

/-- A range is equal to ranges with the same items. -/
theorem same_range_iff {s : Range} :
    a.same (range s) = true ↔ ∃ r, a = range r ∧ r.sameItems s = true := by
  cases a <;> simp [same, sameNumber, asInt?, asFloat?]

/-- A list is equal to lists with equal items. -/
theorem same_list_iff {bs : List Value} :
    a.same (list bs) = true ↔ ∃ as, a = list as ∧ sameAll as bs = true := by
  cases a <;> simp [same, sameNumber, asInt?, asFloat?]

/-- A tuple is equal to tuples with equal items. -/
theorem same_tuple_iff {bs : List Value} :
    a.same (tuple bs) = true ↔ ∃ as, a = tuple as ∧ sameAll as bs = true := by
  cases a <;> simp [same, sameNumber, asInt?, asFloat?]

/-- A double is equal to numbers with an equal double. -/
theorem same_float_iff :
    a.same (float y) = true ↔ ∃ x, a.asFloat? = some x ∧ (x == y) = true := by
  cases a <;> simp [same, sameNumber, asInt?, asFloat?]

/-- An integer is equal to itself and to the doubles that equal the double nearest to it. -/
theorem same_integer_iff (integer : b.asInt? = some n) :
    a.same b = true ↔
      a.asInt? = some n ∨ ∃ x, a = float x ∧ (x == Float.ofInt n.toInt) = true := by
  cases b with
  | int m | bool m =>
    cases integer
    cases a <;> simp [same, sameNumber, asInt?, asFloat?]
  | _ => cases integer

/-- An integer is compared with doubles as the double nearest to it. -/
theorem asFloat?_of_integer (integer : a.asInt? = some n) :
    a.asFloat? = some (Float.ofInt n.toInt) := by
  cases a with
  | int m | bool m =>
    cases integer
    rfl
  | _ => cases integer

/-- A number is a double or an integer. -/
theorem eq_float_or_integer (number : a.asFloat? = some x) :
    a = float x ∨ ∃ n, a.asInt? = some n ∧ x = Float.ofInt n.toInt := by
  cases a with
  | float y =>
    cases number
    exact .inl rfl
  | int m | bool m =>
    cases number
    exact .inr ⟨_, rfl, rfl⟩
  | _ => cases number

end Kinds

/-! ## Integers apart -/

/-- Two values are parted by one that equals both: somewhere inside they hold two integers that
differ, where the one between holds a double that equals both of them. -/
inductive Parted : Value → Value → Value → Prop
  | numbers {a c : Value} {x : Float} {m n : Int64} : a.asInt? = some m → c.asInt? = some n →
      m ≠ n → (x == Float.ofInt m.toInt) = true → (x == Float.ofInt n.toInt) = true →
      Parted a (float x) c
  | list {as bs cs : List Value} {a b c : Value} : (a, b, c) ∈ as.zip (bs.zip cs) →
      Parted a b c → Parted (list as) (list bs) (list cs)
  | tuple {as bs cs : List Value} {a b c : Value} : (a, b, c) ∈ as.zip (bs.zip cs) →
      Parted a b c → Parted (tuple as) (tuple bs) (tuple cs)

section Parted

variable {a b c : Value} {as bs cs : List Value}

/-- Lists are parted where items at one position are. -/
theorem parted_list_iff : Parted (list as) (list bs) (list cs) ↔
    ∃ t ∈ as.zip (bs.zip cs), Parted t.1 t.2.1 t.2.2 := by
  constructor
  · rintro ⟨⟩
    exact ⟨_, ‹_›, ‹_›⟩
  · rintro ⟨t, member, parted⟩
    exact .list member parted

theorem parted_tuple_iff : Parted (tuple as) (tuple bs) (tuple cs) ↔
    ∃ t ∈ as.zip (bs.zip cs), Parted t.1 t.2.1 t.2.2 := by
  constructor
  · rintro ⟨⟩
    exact ⟨_, ‹_›, ‹_›⟩
  · rintro ⟨t, member, parted⟩
    exact .tuple member parted

/-! ## Transitivity -/

/-- Numbers that equal an integer are equal. -/
theorem same_of_integer {n : Int64} (integer : b.asInt? = some n) (ab : a.same b = true)
    (cb : c.same b = true) : a.same c = true := by
  rcases (same_integer_iff integer).1 ab with left | ⟨x, rfl, left⟩
  · rcases (same_integer_iff integer).1 cb with right | ⟨y, rfl, right⟩
    · exact (same_integer_iff right).2 (.inl left)
    · refine same_float_iff.2 ⟨_, asFloat?_of_integer left, ?_⟩
      rwa [Number.beq_comm]
  · rcases (same_integer_iff integer).1 cb with right | ⟨y, rfl, right⟩
    · exact (same_integer_iff right).2 (.inr ⟨x, rfl, left⟩)
    · refine same_float_iff.2 ⟨x, rfl, ?_⟩
      rwa [Number.beq_congr left, Number.beq_comm]

/-- Numbers that equal a double are equal unless they are two integers that differ. -/
theorem same_iff_of_float {x : Float} (ab : a.same (float x) = true)
    (cb : c.same (float x) = true) : a.same c = true ↔ ¬ Parted a (float x) c := by
  obtain ⟨u, left, ux⟩ := same_float_iff.1 ab
  obtain ⟨w, right, wx⟩ := same_float_iff.1 cb
  have uw : (u == w) = true := by rwa [Number.beq_congr ux, Number.beq_comm]
  -- unless both are integers, they are compared as the doubles that equal `x`
  rcases eq_float_or_integer right with rfl | ⟨n, integer, rfl⟩
  · exact iff_of_true (same_float_iff.2 ⟨u, left, uw⟩) nofun
  · rw [same_integer_iff integer]
    rcases eq_float_or_integer left with rfl | ⟨m, other, rfl⟩
    · exact iff_of_true (.inr ⟨u, rfl, uw⟩) nofun
    · rw [Number.beq_comm] at ux wx
      constructor
      · rintro (same | ⟨y, rfl, -⟩) parted
        · cases parted with
          | numbers left right differ =>
            exact differ (Option.some.inj (left.symm.trans (same.trans (integer.symm.trans right))))
        · cases other
      · intro joined
        by_contra differ
        refine joined (.numbers other integer (fun same => differ (.inl ?_)) ux wx)
        rw [other, same]

/-- Sequences that equal one sequence are equal unless some of their items are parted. -/
theorem sameAll_trans_iff
    (each : ∀ b ∈ bs, ∀ a c, a.same b = true → b.same c = true → (a.same c = true ↔ ¬ Parted a b c))
    (left : sameAll as bs = true) (right : sameAll bs cs = true) :
    sameAll as cs = true ↔ ¬ ∃ t ∈ as.zip (bs.zip cs), Parted t.1 t.2.1 t.2.2 := by
  induction bs generalizing as cs with
  | nil =>
    cases as with
    | cons => cases left
    | nil =>
      cases cs with
      | cons => cases right
      | nil => exact iff_of_true rfl nofun
  | cons b bs ih =>
    obtain ⟨first, others⟩ := List.forall_mem_cons.1 each
    cases as with
    | nil => cases left
    | cons a as =>
      cases cs with
      | nil => cases right
      | cons c cs =>
        rw [sameAll, Bool.and_eq_true] at left right
        rw [sameAll, Bool.and_eq_true, first a c left.1 right.1, ih others left.2 right.2,
          List.zip_cons_cons, List.zip_cons_cons, List.exists_mem_cons_iff, not_or]

/-- Values that equal one value are equal unless it parts them. -/
theorem same_iff_not_parted (ab : a.same b = true) (bc : b.same c = true) :
    a.same c = true ↔ ¬ Parted a b c := by
  induction b using induct_inner generalizing a c with
  | step b ih =>
    have each : ∀ w ∈ b.inner, ∀ a c, a.same w = true → w.same c = true →
        (a.same c = true ↔ ¬ Parted a w c) := fun w member a c => ih w member
    have cb : c.same b = true := by rwa [same_comm]
    -- the value between decides of which kind the other two are
    cases b with
    | int n => exact iff_of_true (same_of_integer (n := n) rfl ab cb) nofun
    | bool b => exact iff_of_true (same_of_integer (n := if b then 1 else 0) rfl ab cb) nofun
    | float x => exact same_iff_of_float ab cb
    | none =>
      obtain rfl := same_none_iff.1 ab
      exact iff_of_true bc nofun
    | str s =>
      obtain rfl := same_str_iff.1 ab
      exact iff_of_true bc nofun
    | builtin f =>
      obtain rfl := same_builtin_iff.1 ab
      exact iff_of_true bc nofun
    | range s =>
      obtain ⟨r, rfl, rs⟩ := same_range_iff.1 ab
      obtain ⟨t, rfl, -⟩ := same_range_iff.1 cb
      exact iff_of_true (Range.sameItems_trans rs bc) nofun
    | list bs =>
      obtain ⟨as, rfl, left⟩ := same_list_iff.1 ab
      obtain ⟨cs, rfl, -⟩ := same_list_iff.1 cb
      rw [parted_list_iff]
      exact sameAll_trans_iff each left bc
    | tuple bs =>
      obtain ⟨as, rfl, left⟩ := same_tuple_iff.1 ab
      obtain ⟨cs, rfl, -⟩ := same_tuple_iff.1 cb
      rw [parted_tuple_iff]
      exact sameAll_trans_iff each left bc

end Parted

/-! ## Short integers -/

/-- Whether all integers in a value have at most 53 bits; the next one is short as well. -/
def Short (v : Value) : Prop := ∀ n, OccursIn (int n) v → n.toInt.natAbs ≤ 2 ^ 53

section Short

variable {a b c : Value} {items : List Value}

/-- The integers in a list are those in its items. -/
theorem short_list_iff : Short (list items) ↔ ∀ v ∈ items, Short v := by
  constructor
  · exact fun short v member n inside => short n (.list member inside)
  · intro short n inside
    cases inside with
    | list member within => exact short _ member n within

theorem short_tuple_iff : Short (tuple items) ↔ ∀ v ∈ items, Short v := by
  constructor
  · exact fun short v member n inside => short n (.tuple member inside)
  · intro short n inside
    cases inside with
    | tuple member within => exact short _ member n within

/-- An integer is short if it has at most 53 bits. -/
theorem short_integer_iff {n : Int64} (integer : a.asInt? = some n) :
    Short a ↔ n.toInt.natAbs ≤ 2 ^ 53 := by
  cases a with
  | int m =>
    cases integer
    constructor
    · exact fun short => short n .self
    · rintro small m ⟨⟩
      exact small
  | bool b =>
    cases integer
    refine iff_of_true nofun ?_
    cases b <;> decide
  | _ => cases integer

/-- Short integers are not rounded, so no double equals two of them. -/
theorem Short.not_parted (left : Short a) (right : Short c) : ¬ Parted a b c := by
  intro parted
  induction parted with
  | numbers first second differ here there =>
    rw [short_integer_iff first] at left
    rw [short_integer_iff second] at right
    exact differ (Int64.toInt_inj.1 (Number.eq_of_beq_ofInt left right here there))
  | list member _ ih =>
    obtain ⟨inLeft, rest⟩ := List.of_mem_zip member
    exact ih (short_list_iff.1 left _ inLeft)
      (short_list_iff.1 right _ (List.of_mem_zip rest).2)
  | tuple member _ ih =>
    obtain ⟨inLeft, rest⟩ := List.of_mem_zip member
    exact ih (short_tuple_iff.1 left _ inLeft)
      (short_tuple_iff.1 right _ (List.of_mem_zip rest).2)

/-- Equality is transitive unless the value between parts the other two, which it cannot do if they
hold no integers above 53 bits. -/
theorem same_trans_iff (ab : a.same b = true) (bc : b.same c = true) :
    (a.same c = true ↔ ¬ Parted a b c) ∧ (Short a → Short c → a.same c = true) :=
  ⟨same_iff_not_parted ab bc, fun left right =>
    (same_iff_not_parted ab bc).2 (left.not_parted right)⟩

end Short

/-- A list of a truth value and a number, with doubles between. -/
theorem same_trans_iff_nested :
    (list [bool true, tuple [int 7]]).same (list [float 1, tuple [float 7]]) = true ∧
      (list [float 1, tuple [float 7]]).same (list [int 1, tuple [int 7]]) = true ∧
      (list [bool true, tuple [int 7]]).same (list [int 1, tuple [int 7]]) = true := by
  have left : (list [bool true, tuple [int 7]]).same (list [float 1, tuple [float 7]]) = true := by
    decide +kernel
  have right : (list [float 1, tuple [float 7]]).same (list [int 1, tuple [int 7]]) = true := by
    decide +kernel
  have one (v : Value) (number : v.asInt? = some 1) : Short v :=
    (short_integer_iff number).2 (by decide)
  have seven : Short (tuple [int 7]) :=
    short_tuple_iff.2 (List.forall_mem_singleton.2 ((short_integer_iff rfl).2 (by decide)))
  have pair (v : Value) (number : v.asInt? = some 1) : Short (list [v, tuple [int 7]]) :=
    short_list_iff.2 (List.forall_mem_cons.2 ⟨one v number, List.forall_mem_singleton.2 seven⟩)
  exact ⟨left, right, (same_trans_iff left right).2 (pair _ rfl) (pair _ rfl)⟩

/-- 2 ^ 53 + 1 equals the double 2 ^ 53, which equals the integer 2 ^ 53. -/
theorem not_same_trans_nextInteger :
    ¬ ∀ a b c : Value, (∀ x, OccursIn (float x) a ∨ OccursIn (float x) b ∨ OccursIn (float x) c →
      x.isNaN = false) → a.same b = true → b.same c = true → a.same c = true := by
  intro transitive
  have joined := transitive (int 9007199254740993) (float 9007199254740992) (int 9007199254740992)
    ?_ (by decide +kernel) (by decide +kernel)
  · revert joined
    decide
  · rintro x (inside | inside | inside)
    · exact absurd (inside.eq_of_scalar nofun nofun) nofun
    · obtain rfl : x = 9007199254740992 := float.inj (inside.eq_of_scalar nofun nofun)
      decide +kernel
    · exact absurd (inside.eq_of_scalar nofun nofun) nofun

end Value

end BlockEditor
