import BlockEditor.Machine.Checked

/-!
# Ranges

Arithmetic progressions of words, given by a start, a bound that is not reached, and a step.
-/

namespace BlockEditor

/-! ## Progressions of integers -/

/-- How many of `start`, `start + step`, `start + 2 * step`, … stand before `stop` in the direction
of `step`. -/
def stepCount (start stop step : Int) : Nat :=
  if 0 < step ∧ start < stop then ((stop - start + step - 1) / step).toNat
  else if step < 0 ∧ stop < start then ((start - stop - step - 1) / -step).toNat
  else 0

/-- Without a direction there is nothing to count. -/
theorem stepCount_zero (start stop : Int) : stepCount start stop 0 = 0 := by
  simp [stepCount]

/-- The first `count` of `start`, `start + step`, `start + 2 * step`, …. -/
def progression (start step : Int) (count : Nat) : List Int :=
  (List.range count).map fun (i : Nat) => start + (i : Int) * step

@[simp] theorem length_progression (start step : Int) (count : Nat) :
    (progression start step count).length = count := by
  simp [progression]

/-! ## Ranges of words -/

/-- A range of words. -/
structure Range where
  start : Int64
  stop : Int64
  step : Int64
  deriving DecidableEq, Repr

namespace Range

/-- Number of elements of a range; a range with step zero has none. -/
def length (r : Range) : Nat := stepCount r.start.toInt r.stop.toInt r.step.toInt

/-- The element at a position. -/
def item (r : Range) (at' : Nat) : Int64 := Int64.ofInt (r.start.toInt + (at' : Int) * r.step.toInt)

/-- The elements of a range in order. -/
def items (r : Range) : List Int64 := (List.range r.length).map r.item

/-- Whether two ranges have the same elements. -/
def sameItems (r s : Range) : Bool :=
  r.length == s.length && (r.length == 0 || r.item 0 == s.item 0) &&
    (r.length ≤ 1 || r.step == s.step)

example : (Range.mk 5 0 (-2)).items = [5, 3, 1] ∧ (Range.mk 4 0 1).sameItems ⟨9, 2, 3⟩ := by
  decide

/-! ## Ranges in wide words -/

/-- The number of elements, counted in words of 128 bits. -/
def checkedLength (r : Range) : Except Cause Nat := do
  let start := r.start.toInt
  let stop := r.stop.toInt
  let step := r.step.toInt
  if 0 < step ∧ start < stop then
    let distance ← Checked.wide (stop - start)
    let reach ← Checked.wide (distance + step)
    let last ← Checked.wide (reach - 1)
    let count ← Checked.quotient last step
    return count.toNat
  else if step < 0 ∧ stop < start then
    let distance ← Checked.wide (start - stop)
    let reach ← Checked.wide (distance - step)
    let last ← Checked.wide (reach - 1)
    let down ← Checked.wide (-step)
    let count ← Checked.quotient last down
    return count.toNat
  else return 0

/-- The element at a position, reckoned in words of 128 bits and cut down to 64. -/
def checkedItem (r : Range) (at' : Nat) : Except Cause Int64 := do
  let offset ← Checked.wide (at' * r.step.toInt)
  let value ← Checked.wide (r.start.toInt + offset)
  return Int64.ofInt value

/-- Whether a word is an element of a range.  The step must not be zero. -/
def contains (r : Range) (n : Int64) : Except Cause Bool := do
  let offset ← Checked.wide (n.toInt - r.start.toInt)
  let rest ← Checked.remainder offset r.step.toInt
  if rest = 0 then
    let count ← r.checkedLength
    let position ← Checked.quotient offset r.step.toInt
    return decide (0 ≤ position ∧ position < count)
  else return false

example : (Range.mk 5 0 (-2)).contains 3 = .ok true ∧
    (Range.mk 5 0 (-2)).contains (-1) = .ok false ∧
    (Range.mk 5 0 0).contains 5 = .error .breakdown :=
  ⟨rfl, rfl, rfl⟩

end Range

end BlockEditor
