import BlockEditor.Number.Int64

/-!
# Binary floating point

A double as an exact number: its sign, and a natural number times a power of two.  From these come
the operations that need the exact value: truncation, floor and remainder.
-/

namespace BlockEditor.Number

/-! ## Taking a double apart -/

/-- What a double stands for.  A finite one is `mantissa * 2 ^ exponent`, negated if
`negative`. -/
inductive Parts where
  | nan
  | infinite (negative : Bool)
  | finite (negative : Bool) (mantissa : Nat) (exponent : Int)
  deriving DecidableEq, Repr

/-- The bit in front of the fraction of a normal number. -/
def leadingBit : Nat := 1 <<< 52

/-- Reads the sign, exponent and fraction fields of a double. -/
def parts (x : Float) : Parts :=
  let bits := x.toBits.toNat
  let negative : Bool := bits >>> 63 = 1
  let field : Nat := bits / leadingBit % 2048
  let fraction : Nat := bits % leadingBit
  if field = 2047 then
    if fraction = 0 then .infinite negative else .nan
  else if field = 0 then .finite negative fraction (-1074)
  else .finite negative (leadingBit + fraction) ((field : Int) - 1075)

/-- Whether a double is a finite number. -/
def isFinite (x : Float) : Bool :=
  match parts x with
  | .finite .. => true
  | _ => false

/-- Whether a double is a whole number. -/
def isWhole (x : Float) : Bool :=
  match parts x with
  | .finite _ mantissa exponent => mantissa % (1 <<< (-exponent).toNat) = 0
  | _ => false

example : isWhole 3.0 ∧ ¬ isWhole 2.5 ∧ isWhole (-0.0) ∧ isWhole 1e300 := by
  decide +kernel

/-! ## Exact operations -/

/-- Drops what stands behind the point of `mantissa * 2 ^ exponent`. -/
def wholePart (mantissa : Nat) (exponent : Int) : Nat :=
  mantissa <<< exponent.toNat >>> (-exponent).toNat

/-- A finite double without its fraction, as an integer. -/
def truncate? (x : Float) : Option Int :=
  match parts x with
  | .finite negative mantissa exponent =>
    let n : Int := wholePart mantissa exponent
    some (if negative then -n else n)
  | _ => none

/-- The greatest whole number that is not above `x`; what is whole or not finite stays. -/
def floor (x : Float) : Float :=
  match parts x with
  | .finite negative mantissa exponent =>
    if isWhole x then x
    else
      let n : Int := wholePart mantissa exponent
      Float.ofInt (if negative then -(n + 1) else n)
  | _ => x

/-- The double `2 ^ exponent`, for exponents from -1074 to 1023. -/
def powerOfTwo (exponent : Int) : Float :=
  if exponent < -1022 then Float.ofBits (1 <<< (exponent + 1074).toNat).toUInt64
  else Float.ofBits ((exponent + 1023).toNat * leadingBit).toUInt64

/-- The exact remainder of a division that rounds toward zero; it has the sign of `x`. -/
def remainder (x y : Float) : Float :=
  match parts x, parts y with
  | .finite negative m e, .finite _ n d =>
    let low := min e d
    let r := (m <<< (e - low).toNat) % (n <<< (d - low).toNat)
    let magnitude := Float.ofNat r * powerOfTwo low
    if negative then -magnitude else magnitude
  | .finite .., .infinite _ => x
  | _, _ => 0.0 / 0.0

example : (floor (-2.5)).toBits = (-3.0 : Float).toBits ∧ truncate? (-2.5) = some (-2) := by
  decide +kernel

example : (remainder (-7.5) 2.0).toBits = (-1.5 : Float).toBits := by
  decide +kernel

end BlockEditor.Number
