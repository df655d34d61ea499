import BlockEditor.Number.Shortest

/-!
# Writing numbers

A double is written with its shortest digits.  Where the point stands, when an exponent is used
and how special values are spelled is the choice of a layout.
-/

namespace BlockEditor.Number

/-- How a double is laid out around its digits. -/
structure DecimalLayout where
  /-- Which digits are taken where two shortest decimals are equally near. -/
  tie : Tie
  /-- The least and greatest decimal exponents that are written without an exponent part;
  `none` stands for all of them. -/
  positional : Option (Int × Int)
  /-- Whether whole numbers in positional form end in `.0`. -/
  wholePoint : Bool
  /-- The least number of digits in the exponent part. -/
  exponentWidth : Nat
  /-- Whether zero keeps its sign. -/
  signedZero : Bool
  nanText : String
  infinityText : String

/-- The decimal digits of a natural number. -/
def digitsText (n : Nat) : List Char := Nat.toDigits 10 n

/-- Fills up with zeros on the left. -/
def padZeros (width : Nat) (cs : List Char) : List Char :=
  List.replicate (width - cs.length) '0' ++ cs

/-- Positional form of a decimal with the digits `ds` and the point `point` places behind their
start. -/
def positionalText (wholePoint : Bool) (ds : List Char) (point : Int) : List Char :=
  if point ≤ 0 then '0' :: '.' :: (List.replicate (-point).toNat '0' ++ ds)
  else
    let n := point.toNat
    let whole := ds.take n ++ List.replicate (n - ds.length) '0'
    match ds.drop n with
    | [] => if wholePoint then whole ++ ['.', '0'] else whole
    | rest => whole ++ '.' :: rest

/-- Scientific form of a decimal with the digits `ds` and the exponent `exponent`. -/
def scientificText (width : Nat) (ds : List Char) (exponent : Int) : List Char :=
  let mantissa :=
    match ds with
    | [] => []
    | [d] => [d]
    | d :: rest => d :: '.' :: rest
  let sign := if exponent < 0 then '-' else '+'
  mantissa ++ 'e' :: sign :: padZeros width (digitsText exponent.natAbs)

/-- Text of a positive decimal. -/
def DecimalLayout.decimal (layout : DecimalLayout) (d : Decimal) : List Char :=
  let ds := digitsText d.digits
  let exponent := d.exponent
  let plain := match layout.positional with
    | none => true
    | some (least, greatest) => least ≤ exponent && exponent ≤ greatest
  if plain then positionalText layout.wholePoint ds (exponent + 1)
  else scientificText layout.exponentWidth ds exponent

/-- Text of a double. -/
def DecimalLayout.text (layout : DecimalLayout) (x : Float) : List Char :=
  let signed (negative : Bool) (cs : List Char) := if negative then '-' :: cs else cs
  match parts x with
  | .nan => layout.nanText.toList
  | .infinite negative => signed negative layout.infinityText.toList
  | .finite negative 0 _ =>
    signed (negative && layout.signedZero) (if layout.wholePoint then ['0', '.', '0'] else ['0'])
  | .finite negative mantissa exponent =>
    signed negative (layout.decimal (shortest layout.tie mantissa exponent))

/-! ## The layouts in use -/

/-- Numbers are printed by programs with a point or an exponent: positional from `1e-4` to below
`1e16`, and else with at least two digits of exponent. -/
def printedLayout : DecimalLayout := ⟨.up, some (-4, 15), true, 2, true, "nan", "inf"⟩

/-- Numbers in documents written as data are positional from `1e-5` to below `1e16`. -/
def dataLayout : DecimalLayout := ⟨.even, some (-5, 15), true, 1, true, "null", "null"⟩

/-- Numbers in fields of blocks and in generated code never have an exponent, whole ones no point,
and zero no sign. -/
def fieldLayout : DecimalLayout := ⟨.up, none, false, 1, false, "NaN", "inf"⟩

/-- Bounds in messages are written like numbers in fields, but zero keeps its sign. -/
def boundLayout : DecimalLayout := { fieldLayout with signedZero := true }

example : String.ofList (printedLayout.text 1e16) = "1e+16" ∧
    String.ofList (printedLayout.text 1.5e-7) = "1.5e-07" ∧
    String.ofList (printedLayout.text (-0.0)) = "-0.0" ∧
    String.ofList (dataLayout.text 0.00001) = "0.00001" ∧
    String.ofList (fieldLayout.text 1e16) = "10000000000000000" ∧
    String.ofList (fieldLayout.text (-2.5)) = "-2.5" := by
  decide +kernel

end BlockEditor.Number
