import BlockEditor.Machine.Assign
import BlockEditor.Proofs.Progressions
import BlockEditor.Proofs.Verdicts

/-!
# Arithmetic that stays in its words

The checked operations of the machine are never used outside their domains: the quotients and
remainders of words exist, sums of words fit into wide words, and the reckoning with ranges and
positions is exact at both ends of the words.
-/

namespace BlockEditor

/-- A computation does not break down, and what it gives has a property. -/
def Sound {α : Type} (P : α → Prop) (r : Except Cause α) : Prop := Meets (· ≠ .breakdown) P r

@[simp]
theorem sound_error_iff {α : Type} {P : α → Prop} {cause : Cause} :
    Sound P (.error cause) ↔ cause ≠ .breakdown := Iff.rfl

/-! ## Words -/

namespace Checked

/-- A value in the range of the words fits. -/
theorem word_eq {n : Int} (low : -2 ^ 63 ≤ n) (high : n < 2 ^ 63) :
    word n = .ok (Int64.ofInt n) := by
  have fits : Number.toInt64? n = some (Int64.ofInt n) :=
    (Number.toInt64?_eq_some_iff n _).2 (Int64.toInt_ofInt_of_le low high)
  rw [word, fits]

/-- A value in the range of the wide words fits. -/
theorem wide_eq {n : Int} (low : -2 ^ 127 ≤ n) (high : n < 2 ^ 127) : wide n = .ok n :=
  if_pos ⟨low, Int.le_sub_one_of_lt high⟩

/-- A value that is a few words large fits into a wide word. -/
theorem wide_eq_of_natAbs {n : Int} (small : n.natAbs < 2 ^ 67) : wide n = .ok n :=
  wide_eq (by omega) (by omega)

/-- The size of a word. -/
theorem natAbs_toInt_le (w : Int64) : w.toInt.natAbs ≤ 2 ^ 63 := by
  have low := w.le_toInt
  have high := w.toInt_lt
  omega

/-- A word other than zero is no zero as an integer. -/
theorem toInt_ne_zero {w : Int64} (h : w ≠ 0) : w.toInt ≠ 0 := fun e =>
  h (Int64.toInt_inj.1 (e.trans Int64.toInt_zero.symm))

/-- A quotient by what is not zero is not larger than the dividend. -/
theorem quotient_eq {a b : Int} (small : a.natAbs < 2 ^ 67) (divides : b ≠ 0) :
    quotient a b = .ok (Int.tdiv a b) := by
  have smaller : (Int.tdiv a b).natAbs ≤ a.natAbs := by
    rw [Int.natAbs_tdiv]
    exact Nat.div_le_self _ _
  rw [quotient, if_neg divides, wide_eq_of_natAbs (by omega)]

/-- A remainder of what is a few words large exists and is that of the integers. -/
theorem remainder_eq {a b : Int} (small : a.natAbs < 2 ^ 67) (divides : b ≠ 0) :
    remainder a b = .ok (Int.tmod a b) := by
  rw [remainder, quotient_eq small divides]
  rfl

/-- A remainder of words is a word, and smaller than the divisor. -/
theorem wordRemainder_eq {a b q : Int64} (divides : b ≠ 0)
    (fits : Number.toInt64? (Int.tdiv a.toInt b.toInt) = some q) :
    ∃ rest, wordRemainder a b = .ok rest ∧ rest.toInt = Int.tmod a.toInt b.toInt ∧
      rest.toInt.natAbs < b.toInt.natAbs := by
  have size := natAbs_toInt_le b
  have smaller : (Int.tmod a.toInt b.toInt).natAbs < b.toInt.natAbs := by
    rw [Int.natAbs_tmod]
    have := toInt_ne_zero divides
    exact Nat.mod_lt _ (by omega)
  have exact' : (Int64.ofInt (Int.tmod a.toInt b.toInt)).toInt = Int.tmod a.toInt b.toInt :=
    Int64.toInt_ofInt_of_le (by omega) (by omega)
  refine ⟨Int64.ofInt (Int.tmod a.toInt b.toInt), ?_, exact', by rwa [exact']⟩
  have first : word (Int.tdiv a.toInt b.toInt) = .ok q := by rw [word, fits]
  rw [wordRemainder, if_neg divides, first]
  exact word_eq (by omega) (by omega)

end Checked

/-! ## Integer division -/

namespace Value

open Checked

/-- A quotient that leaves a rest is not the least word, so that there is room for one less. -/
theorem natAbs_quotient_lt {a b q : Int64} (fits : Number.toInt64? (Int.tdiv a.toInt b.toInt) = some q)
    (rest : Int.tmod a.toInt b.toInt ≠ 0) : q.toInt.natAbs < 2 ^ 63 := by
  rw [(Number.toInt64?_eq_some_iff _ q).1 fits, Int.natAbs_tdiv]
  have size := natAbs_toInt_le a
  have parts := Nat.div_add_mod a.toInt.natAbs b.toInt.natAbs
  rw [← Int.natAbs_tmod] at parts
  rcases Nat.eq_zero_or_pos b.toInt.natAbs with zero | positive
  · change a.toInt.natAbs / b.toInt.natAbs < 2 ^ 63
    rw [zero, Nat.div_zero]
    omega
  · have le := Nat.le_mul_of_pos_left (a.toInt.natAbs / b.toInt.natAbs) positive
    change a.toInt.natAbs / b.toInt.natAbs < 2 ^ 63
    omega

/-- The quotient of two words is a word where the divisor is not zero. -/
theorem sound_floorQuotient {m n : Int64} (divides : n ≠ 0) :
    Sound (∃ w, · = Value.int w) (floorQuotient m n) := by
  unfold floorQuotient
  split
  · simp
  · rename_i q fits
    obtain ⟨rest, remains, rest_eq, -⟩ := wordRemainder_eq divides fits
    rw [remains]
    change Sound _ (if rest ≠ 0 ∧ ¬ (m < 0 ↔ n < 0) then Value.int <$> word (q.toInt - 1) else .ok (.int q))
    split
    · rename_i rounded
      have size := natAbs_quotient_lt fits (rest_eq ▸ toInt_ne_zero rounded.1)
      rw [word_eq (by omega) (by omega)]
      exact ⟨_, rfl⟩
    · exact ⟨q, rfl⟩

theorem sound_floorRemainder {m n : Int64} (divides : n ≠ 0) :
    Sound (∃ w, · = Value.int w) (floorRemainder m n) := by
  unfold floorRemainder
  split
  · simp
  · rename_i q fits
    obtain ⟨rest, remains, -, smaller⟩ := wordRemainder_eq divides fits
    rw [remains]
    change Sound _ (if rest ≠ 0 ∧ ¬ (rest < 0 ↔ n < 0) then
      Value.int <$> word (rest.toInt + n.toInt) else .ok (.int rest))
    split
    · rename_i rounded
      -- the rest and the divisor have opposite signs, so the sum lies between them
      have size := natAbs_toInt_le n
      have signs := rounded.2
      rw [Int64.lt_iff_toInt_lt, Int64.lt_iff_toInt_lt, Int64.toInt_zero] at signs
      rw [word_eq (by omega) (by omega)]
      exact ⟨_, rfl⟩
    · exact ⟨rest, rfl⟩

end Value

/-! ## Ranges -/

namespace Range

open Checked

variable {r : Range} {i : Nat}

/-- The integer at a position, whether or not the range is that long. -/
def element (r : Range) (i : Nat) : Int := r.start.toInt + (i : Int) * r.step.toInt

/-- The positions of a range are those whose integers stand in front of its end. -/
theorem lt_length_iff (moves : r.step.toInt ≠ 0) :
    i < r.length ↔ Precedes r.step.toInt r.stop.toInt (r.element i) := lt_stepCount_iff moves

/-- A range without a direction has no positions. -/
theorem length_eq_zero (still : r.step.toInt = 0) : r.length = 0 := by
  rw [length, still, stepCount_zero]

/-- Every integer of a range lies between its bounds, and is a word as they are. -/
theorem element_bounds (h : i < r.length) : -2 ^ 63 ≤ r.element i ∧ r.element i < 2 ^ 63 := by
  have low := r.start.le_toInt
  have high := r.start.toInt_lt
  have low' := r.stop.le_toInt
  have high' := r.stop.toInt_lt
  by_cases still : r.step.toInt = 0
  · rw [length_eq_zero still] at h
    omega
  · have below := (lt_length_iff still).1 h
    unfold Precedes element at below
    unfold element
    rcases below with ⟨up, below⟩ | ⟨down, above⟩
    · have ahead : 0 ≤ (i : Int) * r.step.toInt := Int.mul_nonneg (by omega) (by omega)
      omega
    · have back : (i : Int) * r.step.toInt ≤ 0 :=
        Int.mul_nonpos_of_nonneg_of_nonpos (by omega) (by omega)
      omega

/-- An element of a range is not cut down when it is made a word. -/
theorem toInt_item (h : i < r.length) : (r.item i).toInt = r.element i := by
  obtain ⟨low, high⟩ := element_bounds h
  exact Int64.toInt_ofInt_of_le low high

/-- An element of a range is reckoned without leaving the wide words. -/
theorem checkedItem_eq (h : i < r.length) : r.checkedItem i = .ok (r.item i) := by
  have first := natAbs_toInt_le r.start
  have bounds := element_bounds h
  have step : wide ((i : Int) * r.step.toInt) = .ok ((i : Int) * r.step.toInt) := by
    unfold element at bounds
    exact wide_eq_of_natAbs (by omega)
  have sum : wide (r.start.toInt + (i : Int) * r.step.toInt) = .ok (r.element i) :=
    wide_eq_of_natAbs (n := r.element i) (by omega)
  unfold checkedItem
  rw [step]
  change (wide (r.start.toInt + (i : Int) * r.step.toInt)).bind _ = _
  rw [sum]
  rfl

/-- The length of a range is reckoned without leaving the wide words. -/
theorem checkedLength_eq (r : Range) : r.checkedLength = .ok r.length := by
  have low := natAbs_toInt_le r.start
  have high := natAbs_toInt_le r.stop
  have step := natAbs_toInt_le r.step
  unfold checkedLength length stepCount
  dsimp only
  split
  · rename_i up
    -- every sum on the way is a few words large
    simp (disch := omega) only [wide_eq_of_natAbs, quotient_eq, Int.tdiv_eq_ediv_of_nonneg, bind,
      Except.bind, pure, Except.pure]
  · split
    · rename_i down
      simp (disch := omega) only [wide_eq_of_natAbs, quotient_eq, Int.tdiv_eq_ediv_of_nonneg, bind,
        Except.bind, pure, Except.pure]
    · rfl

/-- A range has less than 2 ^ 66 positions. -/
theorem length_lt (r : Range) : r.length < 2 ^ 66 := by
  have low := natAbs_toInt_le r.start
  have high := natAbs_toInt_le r.stop
  have step := natAbs_toInt_le r.step
  unfold length stepCount
  split
  · have := Int.ediv_le_self r.step.toInt
      (show 0 ≤ r.stop.toInt - r.start.toInt + r.step.toInt - 1 by omega)
    omega
  · split
    · have := Int.ediv_le_self (-r.step.toInt)
        (show 0 ≤ r.start.toInt - r.stop.toInt - r.step.toInt - 1 by omega)
      omega
    · omega

/-- A word is among the elements of a range if one of its positions has it. -/
theorem mem_items_iff {n : Int64} : n ∈ r.items ↔ ∃ i < r.length, r.element i = n.toInt := by
  unfold items
  rw [List.mem_map]
  constructor
  · rintro ⟨i, inside, rfl⟩
    rw [List.mem_range] at inside
    exact ⟨i, inside, (toInt_item inside).symm⟩
  · rintro ⟨i, inside, e⟩
    exact ⟨i, List.mem_range.2 inside, Int64.toInt_inj.1 ((toInt_item inside).trans e)⟩

/-- The membership test of a range with a direction finds its elements, and does not leave the wide
words. -/
theorem contains_eq (stepped : r.step ≠ 0) (n : Int64) :
    r.contains n = .ok (decide (n ∈ r.items)) := by
  have start := natAbs_toInt_le r.start
  have size := natAbs_toInt_le n
  have divides := toInt_ne_zero stepped
  unfold contains
  simp (disch := first | omega | assumption) only [wide_eq_of_natAbs, quotient_eq, remainder_eq,
    checkedLength_eq, bind, Except.bind, pure, Except.pure]
  split
  -- The distance from the start is a multiple of the step: the quotient is the position.
  · rename_i multiple
    have position := Int.tdiv_mul_cancel (Int.dvd_of_tmod_eq_zero multiple)
    congr 1
    rw [decide_eq_decide, mem_items_iff]
    unfold element
    constructor
    · rintro ⟨nonneg, inside⟩
      refine ⟨(Int.tdiv (n.toInt - r.start.toInt) r.step.toInt).toNat, by omega, ?_⟩
      rw [Int.toNat_of_nonneg nonneg, position]
      omega
    · rintro ⟨i, inside, e⟩
      have offset : n.toInt - r.start.toInt = (i : Int) * r.step.toInt := by omega
      rw [offset, Int.mul_tdiv_cancel _ divides]
      omega
  · rename_i between
    congr 1
    rw [eq_comm, decide_eq_false_iff_not, mem_items_iff]
    rintro ⟨i, -, e⟩
    unfold element at e
    have offset : n.toInt - r.start.toInt = (i : Int) * r.step.toInt := by omega
    rw [offset, Int.mul_tmod_left] at between
    exact between rfl

end Range

/-! ## Positions -/

namespace Checked

variable {check : Int → Except Cause Int} {length : Nat} {n : Int}

/-- Memory has room only for lengths that are words, so that a check need only hold of those. -/
theorem within_eq (h : length < 2 ^ 63 → check n = .ok n) : within length check n = .ok n := by
  unfold within
  split
  · rename_i word
    obtain ⟨w, e⟩ := Option.isSome_iff_exists.1 word
    have value := (Number.toInt64?_eq_some_iff _ w).1 e
    have high := w.toInt_lt
    exact h (by omega)
  · rfl

/-- An item at a position that exists is found. -/
theorem sound_item {α : Type} {items : Array α} {i : Nat} (inside : i < items.size) :
    Sound (· ∈ items) (item items i) := by
  rw [item, Array.getElem?_eq_getElem inside]
  exact Array.getElem_mem inside

end Checked

/-- The position from the front that an index names in a list of a length. -/
def place (length : Nat) : Int → Option Nat
  | .ofNat n => if n < length then some n else none
  | .negSucc n => if n < length then some (length - 1 - n) else none

/-- A position that an index names exists. -/
theorem lt_of_place {length at' : Nat} {i : Int} (named : place length i = some at') : at' < length := by
  cases i with
  | ofNat n =>
    rw [place, Option.ite_none_right_eq_some, Option.some.injEq] at named
    omega
  | negSucc n =>
    rw [place, Option.ite_none_right_eq_some, Option.some.injEq] at named
    omega

namespace Value

open Checked

variable {index : Int64} {length : Nat}

/-- The position that an index names is reckoned as it should be, if the sum that it is reckoned by
fits. -/
theorem position_eq {fits : Int → Except Cause Int}
    (reckoned : index < 0 → fits (index.toInt + length) = .ok (index.toInt + length)) :
    position fits index length = .ok (place length index.toInt) := by
  rw [Int64.lt_iff_toInt_lt, Int64.toInt_zero] at reckoned
  unfold position
  simp only [Int64.lt_iff_toInt_lt, Int64.toInt_zero]
  cases value : index.toInt with
  | ofNat n =>
    rw [Int.ofNat_eq_natCast, if_neg (by omega)]
    change Except.ok (if 0 ≤ (n : Int) ∧ (n : Int) < length then some (n : Int).toNat else Option.none) =
      .ok (if n < length then some n else Option.none)
    rw [Int.toNat_natCast]
    exact congrArg Except.ok (if_congr (by omega) rfl rfl)
  | negSucc n =>
    have negative := Int.negSucc_lt_zero n
    rw [value] at reckoned
    rw [if_pos negative, reckoned negative]
    change Except.ok (if 0 ≤ Int.negSucc n + length ∧ Int.negSucc n + length < length then
      some (Int.negSucc n + length).toNat else Option.none) =
        .ok (if n < length then some (length - 1 - n) else Option.none)
    rw [show (Int.negSucc n + length).toNat = length - 1 - n by omega]
    exact congrArg Except.ok (if_congr (by omega) rfl rfl)

/-- A position that is found exists. -/
theorem sound_position {fits : Int → Except Cause Int}
    (reckoned : index < 0 → fits (index.toInt + length) = .ok (index.toInt + length)) :
    Sound (∀ i ∈ ·, i < length) (position fits index length) := by
  rw [position_eq reckoned]
  exact fun i named => lt_of_place named

/-- The sum of a negative word and a length that is a word is a word. -/
theorem itemPosition_eq (index : Int64) (length : Nat) :
    itemPosition index length = .ok (place length index.toInt) := by
  refine position_eq fun negative => within_eq fun small => ?_
  have low := index.le_toInt
  rw [Int64.lt_iff_toInt_lt, Int64.toInt_zero] at negative
  rw [word_eq (by omega) (by omega)]
  change Except.ok (Int64.ofInt (index.toInt + length)).toInt = _
  rw [Int64.toInt_ofInt_of_le (by omega) (by omega)]

/-- Where an index of a tuple or a text names a position, the position exists. -/
theorem sound_itemPosition (index : Int64) (length : Nat) :
    Sound (∀ i ∈ ·, i < length) (itemPosition index length) := by
  rw [itemPosition_eq]
  exact fun i named => lt_of_place named

/-- The position that an index of a list names exists. -/
theorem sound_listPosition (index : Value) (length : Nat) :
    Sound (· < length) (listPosition index length) := by
  unfold listPosition
  split
  · simp
  · rename_i i _
    refine (sound_itemPosition i length).bind fun found inside => ?_
    cases found with
    | none => simp
    | some at' => exact inside at' rfl

/-- Items at positions that exist. -/
theorem sound_itemsAt {α : Type} {items : Array α} {positions : Array Int}
    (inside : ∀ i ∈ positions, 0 ≤ i ∧ i < (items.size : Int)) :
    Sound (∀ a ∈ ·, a ∈ items) (itemsAt items positions) := by
  refine Meets.mapM_all fun i member => ?_
  obtain ⟨low, high⟩ := inside i (Array.mem_toList_iff.1 member)
  rw [if_neg (by omega)]
  exact sound_item (by omega)

end Value

/-! ## Patterns -/

namespace Checked

/-- What is not larger can be taken away. -/
theorem sound_difference {a b : Nat} (le : b ≤ a) : Sound (· = a - b) (difference a b) := by
  rw [difference, if_pos le]
  exact rfl

/-- What stands on the two sides of a position that exists. -/
theorem sound_split {α : Type} {items : List α} {i : Nat} (inside : i ≤ items.length) :
    Sound (fun parts => parts.1.length = i ∧ ∀ a, a ∈ parts.1 ∨ a ∈ parts.2 → a ∈ items)
      (split items i) := by
  rw [split, if_pos inside, List.splitAt_eq]
  refine ⟨by rw [List.length_take]; omega, fun a member => ?_⟩
  rcases member with front | back
  · exact List.mem_of_mem_take front
  · exact List.mem_of_mem_drop back

end Checked

namespace Action

open Checked

/-- The values for the targets of a pattern are the items, except for the list of those that a
starred target takes. -/
theorem sound_distribute (targets : List Expr) (items : List Value) :
    Sound (∀ v ∈ ·, v ∈ items ∨ ∃ middle, v = .list middle ∧ ∀ w ∈ middle, w ∈ items)
      (distribute targets items) := by
  unfold distribute
  split
  · split
    · simp
    · split
      · simp
      · exact fun v member => .inl member
  · rename_i front starred
    -- the star is one of the targets, so no more than the others can stand in front of it
    have inside : front < targets.length := (List.findIdx?_eq_some_iff_getElem.1 starred).1
    refine (sound_difference (by omega)).bind fun fixed fixed_eq => ?_
    split
    · simp
    · refine (sound_difference (by omega)).bind fun behind behind_eq => ?_
      refine (sound_difference (by omega)).bind fun back back_eq => ?_
      refine (sound_split (by omega)).bind fun ⟨others, last⟩ ⟨size, parts⟩ => ?_
      have room : front ≤ others.length := by
        rw [show others.length = back from size]
        omega
      refine (sound_split room).bind fun ⟨first, middle⟩ ⟨_, parts'⟩ => ?_
      intro v member
      rcases List.mem_append.1 member with member | member
      · rcases List.mem_append.1 member with member | member
        · exact .inl (parts v (.inl (parts' v (.inl member))))
        · refine .inr ⟨middle, List.mem_singleton.1 member, fun w taken => ?_⟩
          exact parts w (.inl (parts' w (.inr taken)))
      · exact .inl (parts v (.inr member))

end Action

end BlockEditor
