import BlockEditor.Machine.Range
import Mathlib.Algebra.Order.Ring.Int

/-!
# Progressions

The integers from a start on, a step apart, in front of a stop.  They are listed one by one, and the
closed form counts them and reckons each of them from its position.
-/

namespace BlockEditor

variable {start stop step n : Int} {i count : Nat}

/-! ## One integer after the other -/

/-- Whether an integer stands strictly before a stop in the direction of a step. -/
def Precedes (step stop n : Int) : Prop := 0 < step ∧ n < stop ∨ step < 0 ∧ stop < n

instance : Decidable (Precedes step stop n) := inferInstanceAs (Decidable (_ ∨ _))

/-- The integers `start`, `start + step`, `start + 2 * step`, … that stand strictly before `stop` in
the direction of the step. -/
def stepsFrom (step stop start : Int) : List Int :=
  if Precedes step stop start then start :: stepsFrom step stop (start + step) else []
termination_by (if 0 < step then stop - start else start - stop).toNat
decreasing_by
  rename_i ahead
  unfold Precedes at ahead
  split <;> omega

example : stepsFrom (-2) 0 5 = [5, 3, 1] := by
  simp [stepsFrom, Precedes]

/-- In front of the stop, the start is listed and then what follows it. -/
theorem stepsFrom_of_precedes (ahead : Precedes step stop start) :
    stepsFrom step stop start = start :: stepsFrom step stop (start + step) := by
  rw [stepsFrom, if_pos ahead]

/-- Nothing is listed from the stop on. -/
theorem stepsFrom_of_not_precedes (done : ¬ Precedes step stop start) :
    stepsFrom step stop start = [] := by
  rw [stepsFrom, if_neg done]

/-! ## The closed form -/

@[simp] theorem progression_zero (start step : Int) : progression start step 0 = [] := rfl

/-- A progression goes on from its second integer. -/
theorem progression_succ (start step : Int) (count : Nat) :
    progression start step (count + 1) = start :: progression (start + step) step count := by
  unfold progression
  rw [List.range_succ_eq_map, List.map_cons, List.map_map]
  congr 1
  · omega
  · refine List.map_congr_left fun i _ => ?_
    change start + ((i + 1 : Nat) : Int) * step = start + step + i * step
    rw [Int.natCast_add, Int.add_mul]
    omega

/-- The count of a progression is the position where it reaches its stop. -/
theorem lt_stepCount_iff (moves : step ≠ 0) :
    i < stepCount start stop step ↔ Precedes step stop (start + i * step) := by
  unfold stepCount Precedes
  rcases Int.lt_or_gt_of_ne moves with down | up
  · have behind : (i : Int) * -step = -(i * step) := Int.mul_neg _ _
    have ahead : 0 ≤ (i : Int) * -step := Int.mul_nonneg (by omega) (by omega)
    rw [if_neg (by omega)]
    by_cases less : stop < start
    · rw [if_pos ⟨down, less⟩, Int.lt_toNat, Int.lt_iff_add_one_le,
        Int.le_ediv_iff_mul_le (by omega), Int.add_mul, Int.one_mul, behind]
      omega
    · rw [if_neg (by omega)]
      omega
  · have ahead : 0 ≤ (i : Int) * step := Int.mul_nonneg (by omega) (by omega)
    by_cases less : start < stop
    · rw [if_pos ⟨up, less⟩, Int.lt_toNat, Int.lt_iff_add_one_le, Int.le_ediv_iff_mul_le up,
        Int.add_mul, Int.one_mul]
      omega
    · rw [if_neg (by omega), if_neg (by omega)]
      omega

/-- A walk that reaches its stop after `count` integers lists a progression of that length. -/
theorem stepsFrom_eq_of_stops (inside : ∀ i < count, Precedes step stop (start + (i : Nat) * step))
    (stops : ¬ Precedes step stop (start + count * step)) :
    stepsFrom step stop start = progression start step count := by
  induction count generalizing start with
  | zero =>
    rw [Int.natCast_zero, Int.zero_mul, Int.add_zero] at stops
    rw [stepsFrom_of_not_precedes stops, progression_zero]
  | succ count ih =>
    -- the positions of the rest are the later positions of the whole
    have later (i : Nat) : start + step + (i : Int) * step = start + ((i + 1 : Nat) : Int) * step := by
      rw [Int.natCast_add, Int.add_mul]
      omega
    have first : Precedes step stop start := by
      have := inside 0 (by omega)
      rwa [Int.natCast_zero, Int.zero_mul, Int.add_zero] at this
    rw [stepsFrom_of_precedes first, progression_succ]
    congr 1
    refine ih (fun i less => ?_) ?_
    · rw [later]
      exact inside (i + 1) (by omega)
    · rwa [later]

/-- The integers in front of a stop are as many as the closed form counts, and those that it
reckons. -/
theorem stepsFrom_eq (moves : step ≠ 0) :
    stepsFrom step stop start = progression start step (stepCount start stop step) :=
  stepsFrom_eq_of_stops (fun _ less => (lt_stepCount_iff moves).1 less)
    fun ahead => absurd ((lt_stepCount_iff moves).2 ahead) (Nat.lt_irrefl _)

/-! ## What is listed -/

/-- As many integers are listed as the closed form counts. -/
theorem length_stepsFrom (moves : step ≠ 0) :
    (stepsFrom step stop start).length = stepCount start stop step := by
  rw [stepsFrom_eq moves, length_progression]

/-- All integers that are listed stand between the start and the stop. -/
theorem bounds_of_mem_stepsFrom (member : n ∈ stepsFrom step stop start) :
    0 < step ∧ start ≤ n ∧ n < stop ∨ step < 0 ∧ n ≤ start ∧ stop < n := by
  fun_induction stepsFrom step stop start with
  | case1 start ahead ih =>
    unfold Precedes at ahead
    rcases List.mem_cons.1 member with rfl | later
    · omega
    · have := ih later
      omega
  | case2 start done => cases member

/-- No integer is listed twice. -/
theorem nodup_stepsFrom (step stop start : Int) : (stepsFrom step stop start).Nodup := by
  fun_induction stepsFrom step stop start with
  | case1 start ahead ih =>
    refine List.nodup_cons.2 ⟨fun again => ?_, ih⟩
    unfold Precedes at ahead
    have := bounds_of_mem_stepsFrom again
    omega
  | case2 start done => exact List.nodup_nil

end BlockEditor
