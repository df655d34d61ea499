import BlockEditor.Number.Binary64

/-!
# Shortest decimals

The decimal with the fewest digits among those that round to a given double, and of these the one
nearest to it.  Everything is exact arithmetic on natural numbers.
-/

namespace BlockEditor.Number

/-- The decimal number `digits * 10 ^ scale`. -/
structure Decimal where
  digits : Nat
  scale : Int
  deriving DecidableEq, Repr

/-- Number of decimal digits of a natural number; zero has one. -/
def digitCount (n : Nat) : Nat := (Nat.toDigits 10 n).length

/-- The decimal exponent of the first significant digit. -/
def Decimal.exponent (d : Decimal) : Int := d.scale + digitCount d.digits - 1

/-- Which of two equally near decimals is taken: the greater one, or the one whose last digit is
even. -/
inductive Tie where
  | up
  | even
  deriving DecidableEq, Repr

/-! ## The grid search -/

/-- The numbers that round to a double: those from `value - below` to `value + above`, all in
units of `1 / unit`, with both ends if `closed`. -/
structure Interval where
  value : Nat
  below : Nat
  above : Nat
  unit : Nat
  closed : Bool

/-- The interval of `mantissa * 2 ^ exponent`.  The gap below a power of two is half as wide,
unless it is the least normal number. -/
def Interval.ofParts (mantissa : Nat) (exponent : Int) : Interval :=
  let up := 1 <<< (exponent - 2).toNat
  { value := 4 * mantissa * up
    below := if mantissa = leadingBit ∧ -1074 < exponent then up else 2 * up
    above := 2 * up
    unit := 1 <<< (2 - exponent).toNat
    closed := mantissa % 2 = 0 }

/-- Whether `distance` stays within `reach`. -/
def Interval.within (i : Interval) (distance reach : Nat) : Bool :=
  distance < reach || (i.closed && distance = reach)

/-- The multiple of `10 ^ scale` in the interval that is nearest to its value. -/
def Interval.nearest? (i : Interval) (tie : Tie) (scale : Int) : Option Decimal :=
  let step := i.unit * Nat.pow 10 scale.toNat
  let factor := Nat.pow 10 (-scale).toNat
  let n := i.value * factor / step
  let r := i.value * factor % step
  let low := n ≠ 0 && i.within r (i.below * factor)
  let high := i.within (step - r) (i.above * factor)
  let lower := r < step - r || (r = step - r && tie = .even && n % 2 = 0)
  if low && (!high || lower) then some ⟨n, scale⟩
  else if high then some ⟨n + 1, scale⟩
  else none

/-- The decimal exponent of the first significant digit of a positive quotient. -/
def leadingExponent (numerator denominator : Nat) : Int :=
  if denominator ≤ numerator then digitCount (numerator / denominator) - 1
  else
    let c := (denominator + numerator - 1) / numerator
    Int.negOfNat (digitCount (c - 1))

/-- Tries ever finer grids, and takes the first one that has a point in the interval. -/
def Interval.search (i : Interval) (tie : Tie) : Nat → Int → Decimal
  | 0, scale => ⟨i.value * Nat.pow 10 (-scale).toNat / (i.unit * Nat.pow 10 scale.toNat), scale⟩
  | fuel + 1, scale =>
    match i.nearest? tie scale with
    | some d => d
    | none => i.search tie fuel (scale - 1)

/-- Drops trailing zeros, of which there are at most `fuel`. -/
def Decimal.strip : Nat → Decimal → Decimal
  | 0, d => d
  | fuel + 1, d =>
    if d.digits ≠ 0 ∧ d.digits % 10 = 0 then Decimal.strip fuel ⟨d.digits / 10, d.scale + 1⟩ else d

/-- The shortest decimal that rounds to the positive number `mantissa * 2 ^ exponent`.  Seventeen
digits always suffice. -/
def shortest (tie : Tie) (mantissa : Nat) (exponent : Int) : Decimal :=
  let i := Interval.ofParts mantissa exponent
  (i.search tie 17 (leadingExponent i.value i.unit)).strip 18

example : shortest .up 5404319552844595 (-54) = ⟨3, -1⟩ := by decide +kernel

example : shortest .up 1 (-1074) = ⟨5, -324⟩ := by decide +kernel

example : shortest .up (leadingBit + 2) (-3) = ⟨5629499534213123, -1⟩ ∧
    shortest .even (leadingBit + 2) (-3) = ⟨5629499534213122, -1⟩ := by
  decide +kernel

end BlockEditor.Number
