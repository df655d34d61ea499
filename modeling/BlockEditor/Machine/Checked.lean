import BlockEditor.Diagnostic
import BlockEditor.Number.Int64

/-!
# Checked operations

The partial operations that the machine is built on: sums and quotients of words, and items at
positions.  Outside its domain each of them is a breakdown, which is not a failure of the program
that runs but of the machine.
-/

namespace BlockEditor.Checked

/-! ## Words -/

/-- The word of 64 bits with a value, which must fit. -/
def word (n : Int) : Except Cause Int64 :=
  match Number.toInt64? n with
  | some w => .ok w
  | none => .error .breakdown

/-- A value that must fit into a word of 128 bits. -/
def wide (n : Int) : Except Cause Int :=
  if (BitVec.intMin 128).toInt ≤ n ∧ n ≤ (BitVec.intMax 128).toInt then .ok n
  else .error .breakdown

/-- A quotient of wide words, rounded toward zero. -/
def quotient (a b : Int) : Except Cause Int :=
  if b = 0 then .error .breakdown else wide (Int.tdiv a b)

/-- A remainder of wide words.  It exists where the quotient does, and has the sign of `a`. -/
def remainder (a b : Int) : Except Cause Int := (quotient a b).map fun _ => Int.tmod a b

/-- A remainder of words of 64 bits. -/
def wordRemainder (a b : Int64) : Except Cause Int64 :=
  if b = 0 then .error .breakdown
  else (word (Int.tdiv a.toInt b.toInt)).bind fun _ => word (Int.tmod a.toInt b.toInt)

/-- A value brought between two bounds, which must not cross. -/
def clamp (low high n : Int) : Except Cause Int :=
  if low ≤ high then .ok (max low (min n high)) else .error .breakdown

/-- A check on a number that is reckoned from the length of something in memory.  Memory has room only
for lengths that are words, and nothing is asked beyond them. -/
def within (length : Nat) (check : Int → Except Cause Int) (n : Int) : Except Cause Int :=
  if (Number.toInt64? length).isSome then check n else .ok n

/-! ## Positions -/

/-- A difference of two lengths, which must not be negative. -/
def difference (a b : Nat) : Except Cause Nat := if b ≤ a then .ok (a - b) else .error .breakdown

/-- The item at a position, which must exist. -/
def item {α : Type} (items : Array α) (at' : Nat) : Except Cause α :=
  match items[at']? with
  | some a => .ok a
  | none => .error .breakdown

/-- What stands in front of a position and what stands behind it; the position must exist. -/
def split {α : Type} (items : List α) (at' : Nat) : Except Cause (List α × List α) :=
  if at' ≤ items.length then .ok (items.splitAt at') else .error .breakdown

end BlockEditor.Checked
