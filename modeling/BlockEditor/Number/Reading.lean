import BlockEditor.Number.Shortest

/-!
# Reading numbers

Texts of digits as integers in a base, as words, and as the double nearest to a decimal.
-/

namespace BlockEditor.Number

/-! ## Integers -/

/-- The value of a digit, up to sixteen of them. -/
def digitValue? (base : Nat) (c : Char) : Option Nat :=
  let value :=
    if '0' ≤ c ∧ c ≤ '9' then some (c.toNat - '0'.toNat)
    else if 'a' ≤ c ∧ c ≤ 'f' then some (c.toNat - 'a'.toNat + 10)
    else if 'A' ≤ c ∧ c ≤ 'F' then some (c.toNat - 'A'.toNat + 10)
    else none
  value.filter (· < base)

/-- The number that digits in a base denote, continuing from `n`. -/
def readDigitsFrom? (base : Nat) : Nat → List Char → Option Nat
  | n, [] => some n
  | n, c :: cs => (digitValue? base c).bind fun d => readDigitsFrom? base (base * n + d) cs

/-- The number that a non-empty text of digits denotes. -/
def readDigits? (base : Nat) (cs : List Char) : Option Nat :=
  if cs.isEmpty then none else readDigitsFrom? base 0 cs

/-- The word that an optionally signed decimal text denotes, if it fits. -/
def readInt64? : List Char → Option Int64
  | '-' :: cs => (readDigits? 10 cs).bind fun n => toInt64? (-(n : Int))
  | '+' :: cs => (readDigits? 10 cs).bind fun n => toInt64? n
  | cs => (readDigits? 10 cs).bind fun n => toInt64? n

example : readInt64? "-9223372036854775808".toList = some (-9223372036854775808) ∧
    readInt64? "9223372036854775808".toList = none ∧ readInt64? "+7".toList = some 7 ∧
    readInt64? "-".toList = none := by
  decide

/-! ## Doubles -/

/-- The double nearest to a decimal, with halves to even mantissas.  Decimals far beyond the range
of doubles are decided by their size alone. -/
def Decimal.toFloat (d : Decimal) : Float :=
  if d.digits = 0 then 0.0
  else if 400 < d.exponent then 1.0 / 0.0
  else if d.exponent < -400 then 0.0
  else Float.ofScientific d.digits (d.scale < 0) d.scale.natAbs

/-- The sign in front of a number, and what follows it. -/
def readSign : List Char → Bool × List Char
  | '-' :: cs => (true, cs)
  | '+' :: cs => (false, cs)
  | cs => (false, cs)

/-- The exponent part of a decimal: nothing, or a mark with an optionally signed number. -/
def readExponent? : List Char → Option Int
  | [] => some 0
  | c :: cs =>
    if c = 'e' ∨ c = 'E' then
      let (negative, ds) := readSign cs
      (readDigits? 10 ds).map fun n => if negative then -(n : Int) else n
    else none

/-- An unsigned decimal: digits with an optional point among them, at least one of them, and an
optional exponent part. -/
def readDecimal? (cs : List Char) : Option Decimal :=
  let whole := cs.takeWhile Char.isDigit
  let afterWhole := cs.dropWhile Char.isDigit
  let (fraction, rest) := match afterWhole with
    | '.' :: ds => (ds.takeWhile Char.isDigit, ds.dropWhile Char.isDigit)
    | ds => ([], ds)
  match readDigits? 10 (whole ++ fraction), readExponent? rest with
  | some n, some e => some ⟨n, e - fraction.length⟩
  | _, _ => none

/-- Not a number. -/
def nanFloat : Float := 0.0 / 0.0

/-- Positive infinity. -/
def infinityFloat : Float := 1.0 / 0.0

/-- The double that a special name denotes, in any mix of cases. -/
def readSpecial? (cs : List Char) : Option Float :=
  let lower := cs.map Char.toLower
  if lower = "inf".toList ∨ lower = "infinity".toList then some infinityFloat
  else if lower = "nan".toList then some nanFloat
  else none

/-- The double that an optionally signed decimal text or special name denotes. -/
def readFloat? (cs : List Char) : Option Float :=
  let (negative, ds) := readSign cs
  let magnitude := (readSpecial? ds).or ((readDecimal? ds).map Decimal.toFloat)
  magnitude.map fun x => if negative then -x else x

example : readDecimal? "12.50e-3".toList = some ⟨1250, -5⟩ ∧ readDecimal? "5.".toList = some ⟨5, 0⟩ ∧
    readDecimal? ".".toList = none ∧ readDecimal? "1e".toList = none ∧
    readDecimal? "e5".toList = none := by
  decide

end BlockEditor.Number
