import BlockEditor.Proofs.CheckedArithmetic
import Mathlib.Data.List.Nodup

/-!
# Slices

A slice selects the positions of a progression between two bounds, which are first brought into the
sequence.  The machine walks along exactly these positions, all of which exist.
-/

namespace BlockEditor

variable {length : Nat} {lower upper : Option Int} {low high n step i : Int}

/-! ## The positions of a slice -/

namespace Slice

/-- The limits of the bounds of a slice: a slice that goes up may stop behind the last position, and
one that goes down in front of the first. -/
def limits (length : Nat) (step : Int) : Int × Int :=
  if step < 0 then (-1, length - 1) else (0, length)

/-- What a bound stands for: a negative one counts from the end, and what lies outside of the limits
stands for the limit. -/
def resolve (length : Nat) (low high n : Int) : Int :=
  if n < 0 then max (n + length) low else min n high

/-- The position that a slice begins at, the end that it comes from if none is given. -/
def start (length : Nat) (lower : Option Int) (step : Int) : Int :=
  let (low, high) := limits length step
  match lower with
  | some n => resolve length low high n
  | none => if step < 0 then high else low

/-- The position that a slice does not reach, the end that it goes to if none is given. -/
def stop (length : Nat) (upper : Option Int) (step : Int) : Int :=
  let (low, high) := limits length step
  match upper with
  | some n => resolve length low high n
  | none => if step < 0 then low else high

/-- The positions that a slice selects from a sequence of a length. -/
def positions (length : Nat) (lower upper : Option Int) (step : Int) : List Int :=
  stepsFrom step (stop length upper step) (start length lower step)

example : positions 5 (some 1) (some 3) 1 = [1, 2] ∧ positions 5 none none (-2) = [4, 2, 0] ∧
    positions 3 (some (-2)) (some 10) 1 = [1, 2] := by
  simp [positions, start, stop, limits, resolve, stepsFrom, Precedes]

/-- A slice that goes up has its limits at the first position and behind the last one. -/
theorem limits_of_pos (up : 0 < step) : limits length step = (0, (length : Int)) :=
  if_neg (by omega)

/-- One that goes down has them one position further to the front. -/
theorem limits_of_neg (down : step < 0) : limits length step = (-1, (length : Int) - 1) := if_pos down

/-- What a bound stands for lies between the limits. -/
theorem resolve_bounds (ordered : low ≤ high) (front : low ≤ 0) (back : (length : Int) - 1 ≤ high) :
    low ≤ resolve length low high n ∧ resolve length low high n ≤ high := by
  unfold resolve
  split <;> omega

/-- A slice that goes up begins in the sequence or behind it and stops there. -/
theorem bounds_of_pos (length : Nat) (up : 0 < step) (lower upper : Option Int) :
    0 ≤ start length lower step ∧ stop length upper step ≤ length := by
  unfold start stop
  rw [limits_of_pos up]
  have inside (n : Int) := resolve_bounds (n := n) (Int.natCast_nonneg length) (Int.le_refl 0)
    (show (length : Int) - 1 ≤ length by omega)
  constructor
  · cases lower with
    | none => simp only [if_neg (show ¬ step < 0 by omega), Int.le_refl]
    | some n => exact (inside n).1
  · cases upper with
    | none => simp only [if_neg (show ¬ step < 0 by omega), Int.le_refl]
    | some n => exact (inside n).2

/-- A slice that goes down begins in the sequence or in front of it and stops there. -/
theorem bounds_of_neg (length : Nat) (down : step < 0) (lower upper : Option Int) :
    start length lower step < length ∧ -1 ≤ stop length upper step := by
  unfold start stop
  rw [limits_of_neg down]
  have inside (n : Int) := resolve_bounds (n := n) (show (-1 : Int) ≤ length - 1 by omega)
    (show (-1 : Int) ≤ 0 by omega) (Int.le_refl (length - 1))
  constructor
  · cases lower with
    | none =>
      simp only [if_pos down]
      omega
    | some n =>
      have := (inside n).2
      dsimp only
      omega
  · cases upper with
    | none => simp only [if_pos down, Int.le_refl]
    | some n => exact (inside n).1

/-- A slice selects positions of the sequence. -/
theorem inside_of_mem_positions (member : i ∈ positions length lower upper step) :
    0 ≤ i ∧ i < length := by
  rcases bounds_of_mem_stepsFrom member with ⟨up, from_, upTo⟩ | ⟨down, from_, downTo⟩
  · have := bounds_of_pos length up lower upper
    omega
  · have := bounds_of_neg length down lower upper
    omega

/-- The positions of a slice, counted from the front. -/
def places (length : Nat) (lower upper : Option Int) (step : Int) : List Nat :=
  (positions length lower upper step).map Int.toNat

/-- As integers, the places of a slice are its positions. -/
theorem map_places (length : Nat) (lower upper : Option Int) (step : Int) :
    (places length lower upper step).map Int.ofNat = positions length lower upper step := by
  rw [places, List.map_map]
  refine (List.map_congr_left fun i member => ?_).trans (List.map_id _)
  exact Int.toNat_of_nonneg (inside_of_mem_positions member).1

/-- Every place exists. -/
theorem lt_of_mem_places {at' : Nat} (member : at' ∈ places length lower upper step) :
    at' < length := by
  obtain ⟨i, inside, rfl⟩ := List.mem_map.1 member
  have := inside_of_mem_positions inside
  omega

/-- No place is selected twice. -/
theorem nodup_places (length : Nat) (lower upper : Option Int) (step : Int) :
    (places length lower upper step).Nodup := by
  have distinct := nodup_stepsFrom step (stop length upper step) (start length lower step)
  change (positions length lower upper step).Nodup at distinct
  rw [← map_places] at distinct
  exact List.Nodup.of_map _ distinct

end Slice

/-! ## The walk of the machine -/

namespace Value

open Checked

/-- A bound is clamped to what it stands for. -/
theorem clampBound_eq (bound : Int64) (ordered : low ≤ high) (front : low ≤ 0)
    (back : (length : Int) - 1 ≤ high) :
    clampBound bound length low high = .ok (Slice.resolve length low high bound.toInt) := by
  have size := natAbs_toInt_le bound
  have clamped (n : Int) : clamp low high n = .ok (max low (min n high)) := if_pos ordered
  unfold clampBound Slice.resolve
  simp only [Int64.lt_iff_toInt_lt, Int64.toInt_zero]
  split
  · rw [within_eq fun small => wide_eq_of_natAbs (by omega)]
    change clamp low high (bound.toInt + length) = _
    rw [clamped]
    congr 1
    omega
  · change clamp low high bound.toInt = _
    rw [clamped]
    congr 1
    omega

/-- What a bound of the machine is brought to is what it stands for, or the limit where there is
none. -/
theorem boundOr_eq (bound : Option Int64) {limit : Int} (ordered : low ≤ high) (front : low ≤ 0)
    (back : (length : Int) - 1 ≤ high) :
    boundOr bound limit length low high =
      .ok (match bound.map Int64.toInt with
        | some n => Slice.resolve length low high n
        | Option.none => limit) := by
  cases bound with
  | none => rfl
  | some n => exact clampBound_eq n ordered front back

/-- A walk visits the integers of a progression, if each step from one of them fits. -/
theorem walk_eq {fits : Int → Except Cause Int} {stop start : Int}
    (reckoned : ∀ i ∈ stepsFrom step stop start, fits (i + step) = .ok (i + step))
    (visited : Array Int) :
    walk fits step stop start visited = .ok (visited ++ (stepsFrom step stop start).toArray) := by
  fun_induction walk fits step stop start visited with
  | case1 i visited ahead next fitted ih =>
    rw [stepsFrom_of_precedes ahead] at reckoned ⊢
    rw [ih fun j member => reckoned j (List.mem_cons_of_mem _ member)]
    simp
  | case2 i visited ahead cause failed =>
    rw [stepsFrom_of_precedes ahead] at reckoned
    rw [reckoned i List.mem_cons_self] at failed
    cases failed
  | case3 i visited done =>
    rw [stepsFrom_of_not_precedes done]
    simp

/-- The machine walks along the positions of a slice. -/
theorem slicePositions_eq (length : Nat) (lower upper : Option Int64) {step : Int64}
    (stepped : step ≠ 0) :
    slicePositions length lower upper step =
      .ok (Slice.positions length (lower.map Int64.toInt) (upper.map Int64.toInt)
        step.toInt).toArray := by
  have size := natAbs_toInt_le step
  have moves := toInt_ne_zero stepped
  -- No position and no step from one leaves the words, so no check of the walk fails.
  have walked (lower upper : Option Int) :
      walk (within length wide) step.toInt (Slice.stop length upper step.toInt)
          (Slice.start length lower step.toInt) #[] =
        .ok (Slice.positions length lower upper step.toInt).toArray := by
    refine (walk_eq (fun i member => ?_) #[]).trans (congrArg Except.ok Array.empty_append)
    have := Slice.inside_of_mem_positions member
    exact within_eq fun small => wide_eq_of_natAbs (by omega)
  unfold slicePositions
  simp only [Int64.lt_iff_toInt_lt, Int64.toInt_zero]
  rcases Int.lt_or_gt_of_ne moves with down | up
  · have up : ¬ 0 < step.toInt := by omega
    simp only [if_neg up]
    rw [boundOr_eq lower (by omega) (by omega) (by omega),
      boundOr_eq upper (by omega) (by omega) (by omega), ← walked]
    simp only [Slice.start, Slice.stop, Slice.limits_of_neg down, if_pos down]
    rfl
  · have down : ¬ step.toInt < 0 := by omega
    simp only [if_pos up]
    rw [boundOr_eq lower (by omega) (by omega) (by omega),
      boundOr_eq upper (by omega) (by omega) (by omega), ← walked]
    simp only [Slice.start, Slice.stop, Slice.limits_of_pos up, if_neg down]
    rfl

/-- A slice selects positions of the sequence. -/
theorem sound_slicePositions (length : Nat) (lower upper : Option Int64) {step : Int64}
    (stepped : step ≠ 0) :
    Sound (fun found => ∀ i ∈ found, 0 ≤ i ∧ i < (length : Int))
      (slicePositions length lower upper step) := by
  rw [slicePositions_eq length lower upper stepped]
  exact fun i member => Slice.inside_of_mem_positions (List.mem_toArray.1 member)

/-- Items at positions that exist are found. -/
theorem itemsAt_eq {α : Type} (items : List α) {places : List Nat}
    (inside : ∀ i ∈ places, i < items.length) :
    ∃ picked, picked.map some = places.map (items[·]?) ∧
      itemsAt items.toArray (places.map Int.ofNat).toArray = .ok picked := by
  unfold itemsAt
  dsimp only
  induction places with
  | nil => exact ⟨[], rfl, rfl⟩
  | cons i places ih =>
    obtain ⟨first, others⟩ := List.forall_mem_cons.1 inside
    obtain ⟨picked, each, found⟩ := ih others
    refine ⟨items[i] :: picked, ?_, ?_⟩
    · rw [List.map_cons, List.map_cons, each, List.getElem?_eq_getElem first]
    · rw [List.map_cons, List.mapM_cons, found]
      have here : item items.toArray i = .ok items[i] := by
        rw [item, List.getElem?_toArray, List.getElem?_eq_getElem first]
      change (if (i : Int) < 0 then .error .breakdown else item items.toArray (i : Int).toNat).bind _ = _
      rw [if_neg (by omega), Int.toNat_natCast, here]
      rfl

/-- The items at the positions of a slice are picked, in their order. -/
theorem pick_places {α : Type} (items : List α) (lower upper : Option Int64) {step : Int64}
    (stepped : step ≠ 0) :
    ∃ picked, picked.map some = (Slice.places items.length (lower.map Int64.toInt)
        (upper.map Int64.toInt) step.toInt).map (items[·]?) ∧
      (slicePositions items.toArray.size lower upper step >>= itemsAt items.toArray) =
        .ok picked := by
  have inside : ∀ i ∈ Slice.places items.length (lower.map Int64.toInt) (upper.map Int64.toInt)
      step.toInt, i < items.length := fun i => Slice.lt_of_mem_places
  obtain ⟨picked, each, found⟩ := itemsAt_eq items inside
  refine ⟨picked, each, ?_⟩
  rw [List.size_toArray, slicePositions_eq _ _ _ stepped, ← Slice.map_places]
  exact found

/-! ## Slices of sequences -/

/-- What a slice of a sequence of a length selects, given by the positions of the items. -/
structure Selects (length : Nat) (lower upper step : Option Int64) (places : List Nat) : Prop where
  /-- The machine reckons the positions, without leaving its words. -/
  reckoned : slicePositions length lower upper (step.getD 1) = .ok (places.map Int.ofNat).toArray
  /-- All of them exist. -/
  inside : ∀ i ∈ places, i < length
  /-- No position is selected twice. -/
  distinct : places.Nodup
  /-- Of a list, the items at the positions are picked, in their order. -/
  list : ∀ items : List Value, items.length = length →
    ∃ picked, picked.map some = places.map (items[·]?) ∧
      sliceOf (.list items) lower upper step = .ok (.list picked)
  /-- So they are of a tuple. -/
  tuple : ∀ items : List Value, items.length = length →
    ∃ picked, picked.map some = places.map (items[·]?) ∧
      sliceOf (.tuple items) lower upper step = .ok (.tuple picked)
  /-- Of a string, the characters are. -/
  str : ∀ text : String, text.toList.length = length →
    ∃ picked, picked.map some = places.map (text.toList[·]?) ∧
      sliceOf (.str text) lower upper step = .ok (.str (String.ofList picked))

/-- A slice of a sequence selects the positions from its start on, its step apart, strictly before its
stop in the direction of the step. -/
theorem selects_positions (length : Nat) (lower upper step : Option Int64)
    (stepped : step.getD 1 ≠ 0) :
    ∃ places, places.map Int.ofNat = Slice.positions length (lower.map Int64.toInt)
        (upper.map Int64.toInt) (step.getD 1).toInt ∧
      Selects length lower upper step places := by
  refine ⟨_, Slice.map_places _ _ _ _, ?_⟩
  -- Lists, tuples and texts are sliced alike; only what is made of the items is different.
  have picks {α : Type} (items : List α) (count : items.length = length) :
      ∃ picked, picked.map some = (Slice.places length (lower.map Int64.toInt)
          (upper.map Int64.toInt) (step.getD 1).toInt).map (items[·]?) ∧
        (slicePositions items.toArray.size lower upper (step.getD 1) >>= itemsAt items.toArray) =
          .ok picked :=
    count ▸ pick_places items lower upper stepped
  exact
    { reckoned := by rw [Slice.map_places, slicePositions_eq _ _ _ stepped]
      inside := fun i => Slice.lt_of_mem_places
      distinct := Slice.nodup_places _ _ _ _
      list := fun items count => by
        obtain ⟨picked, each, found⟩ := picks items count
        exact ⟨picked, each, (if_neg stepped).trans (congrArg (Value.list <$> ·) found)⟩
      tuple := fun items count => by
        obtain ⟨picked, each, found⟩ := picks items count
        exact ⟨picked, each, (if_neg stepped).trans (congrArg (Value.tuple <$> ·) found)⟩
      str := fun text count => by
        obtain ⟨picked, each, found⟩ := picks text.toList count
        exact ⟨picked, each, (if_neg stepped).trans
          (congrArg ((fun cs => Value.str (String.ofList cs)) <$> ·) found)⟩ }

/-- With the widest step down, there is one position. -/
theorem selects_positions_widest : (some Int64.minValue).getD 1 ≠ 0 ∧
    ∃ places, places.map Int.ofNat = [2] ∧
      Selects 3 Option.none Option.none (some Int64.minValue) places := by
  have widest : ((some Int64.minValue).getD 1).toInt = -9223372036854775808 := rfl
  have listed : Slice.positions 3 Option.none Option.none (-9223372036854775808) = [2] := by
    simp [Slice.positions, Slice.start, Slice.stop, Slice.limits, stepsFrom, Precedes]
  obtain ⟨places, each, selects⟩ :=
    selects_positions 3 Option.none Option.none (some Int64.minValue) (by decide)
  rw [widest] at each
  exact ⟨by decide, places, each.trans listed, selects⟩

end Value

end BlockEditor
