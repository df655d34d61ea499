import BlockEditor.Json.Written
import BlockEditor.Number.Reading

/-!
# Written scalars

The double that a written number denotes, and the text that a written string denotes.
-/

namespace BlockEditor.Json

/-! ## Numbers -/

/-- A number as an integer that fits into 64 bits, scaled by a power of ten. -/
structure Scaled where
  significand : Nat
  exponent : Int
  deriving DecidableEq, Repr

/-- The value of a digit. -/
def digitOf (c : Char) : Nat := c.toNat - '0'.toNat

/-- Takes up digits in front of the point as long as the significand fits, and counts the others. -/
def takeWhole : Nat → List Char → Scaled
  | n, [] => ⟨n, 0⟩
  | n, c :: cs =>
    if 10 * n + digitOf c < UInt64.size then takeWhole (10 * n + digitOf c) cs
    else ⟨n, (c :: cs).length⟩

/-- Takes up digits behind the point as long as the significand fits, and ignores the others. -/
def takeFraction : Scaled → List Char → Scaled
  | s, [] => s
  | s, c :: cs =>
    if 10 * s.significand + digitOf c < UInt64.size then
      takeFraction ⟨10 * s.significand + digitOf c, s.exponent - 1⟩ cs
    else s

/-- A power of ten as a double. -/
def tenTo (n : Nat) : Float := Float.ofScientific 1 false n

/-- The double for a scaled integer: one product or quotient with a power of ten, or two quotients
for very small numbers.  What is too large has none. -/
def Scaled.toFloat? (s : Scaled) : Option Float :=
  let x := Float.ofNat s.significand
  if s.significand = 0 then some 0.0
  else if 308 < s.exponent then none
  else if 0 ≤ s.exponent then
    let product := x * tenTo s.exponent.toNat
    if Number.isFinite product then some product else none
  else
    let n := (-s.exponent).toNat
    if n ≤ 308 then some (x / tenTo n)
    else if n ≤ 616 then some (x / tenTo 308 / tenTo (n - 308))
    else some 0.0

/-- The double that a written number denotes, if it is not too large. -/
def Numeral.toFloat? (n : Numeral) : Option Float :=
  let scaled := takeFraction (takeWhole 0 n.whole) n.fraction
  let shift : Int :=
    match n.exponent with
    | some (negative, digits) =>
      let size : Int := (Number.readDigits? 10 digits).getD 0
      if negative then -size else size
    | none => 0
  (Scaled.toFloat? ⟨scaled.significand, scaled.exponent + shift⟩).map fun x =>
    if n.negative then -x else x

/-! ## Strings -/

/-- The character of an escape of one letter. -/
def unescapeLetter (c : Char) : Char :=
  match c with
  | 'b' => '\x08'
  | 'f' => '\x0c'
  | 'n' => '\n'
  | 'r' => '\r'
  | 't' => '\t'
  | _ => c

/-- Whether a code unit is the first half of a pair. -/
def isHighHalf (n : Nat) : Bool := 0xD800 ≤ n && n < 0xDC00

/-- Whether a code unit is the second half of a pair. -/
def isLowHalf (n : Nat) : Bool := 0xDC00 ≤ n && n < 0xE000

/-- The character of a pair of halves. -/
def joinHalves (high low : Nat) : Char :=
  Char.ofNat (0x10000 + (high - 0xD800) * 0x400 + (low - 0xDC00))

/-- The characters that the body of a string denotes, given the first half of a pair that stands
directly in front of it.  A half without its other half denotes nothing. -/
def decodeFrom : Option Nat → List Char → Option (List Char)
  | none, [] => some []
  | some _, [] => none
  | high, '\\' :: 'u' :: a :: b :: c :: d :: cs =>
    let n := Text.hexNumber [a, b, c, d]
    match high with
    | some high =>
      if isLowHalf n then (decodeFrom none cs).map (joinHalves high n :: ·) else none
    | none =>
      if isHighHalf n then decodeFrom (some n) cs
      else if isLowHalf n then none
      else (decodeFrom none cs).map (Char.ofNat n :: ·)
  | none, '\\' :: c :: cs => (decodeFrom none cs).map (unescapeLetter c :: ·)
  | none, c :: cs => (decodeFrom none cs).map (c :: ·)
  | some _, _ :: _ => none

/-- The text that the body of a string denotes. -/
def decodeBody? (body : List Char) : Option String := (decodeFrom none body).map String.ofList

example : decodeBody? "a\\u00e9\\ud83d\\ude00\\n".toList = some "aé😀\n" ∧
    decodeBody? "\\ud83d".toList = none ∧ decodeBody? "\\ude00".toList = none ∧
    decodeBody? "\\ud83dx".toList = none := by
  decide

end BlockEditor.Json
