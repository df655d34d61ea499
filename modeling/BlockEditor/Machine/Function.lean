import BlockEditor.Machine.Sequence
import BlockEditor.Number.Binary64
import BlockEditor.Number.Reading
import BlockEditor.Text.Blank

/-!
# Built-in functions

What the built-in functions return.  Printing is not among them, since it leaves a trace.
-/

namespace BlockEditor

namespace Value

/-! ## Conversions -/

/-- The text of a number without the blanks around it and the underscores in it. -/
def numeralText (text : String) : List Char := (Text.trim text.toList).filter (· != '_')

/-- Converts a value to an integer; a double loses its fraction and stops at the ends of the word
range. -/
def toInteger : Value → Except Cause Value
  | .float x =>
    match Number.truncate? x with
    | some n => .ok (.int (Number.clampInt64 n))
    | Option.none =>
      if x.isNaN then .error (.invalidValue .nanToInteger) else .error .overflow
  | .str text =>
    match Number.readInt64? (numeralText text) with
    | some n => .ok (.int n)
    | Option.none => .error (.invalidValue (.integerText (String.ofList (repr (.str text)))))
  | v =>
    match v.asInt? with
    | some n => .ok (.int n)
    | Option.none => .error (.typeMismatch (.conversion "int" v.typeName))

/-- The double that a text denotes.  In front of a special name there may be any run of signs, of
which the first decides. -/
def readFloat? (text : String) : Option Float :=
  let numeral := numeralText text
  let unsigned := numeral.dropWhile fun c => c == '+' || c == '-'
  match Number.readSpecial? unsigned with
  | some x => some (if numeral.head? = some '-' then -x else x)
  | Option.none => Number.readFloat? numeral

/-- Converts a value to a double. -/
def toDouble : Value → Except Cause Value
  | .str text =>
    match readFloat? text with
    | some x => .ok (.float x)
    | Option.none => .error (.invalidValue (.floatText (String.ofList (repr (.str text)))))
  | v =>
    match v.asFloat? with
    | some x => .ok (.float x)
    | Option.none => .error (.typeMismatch (.conversion "float" v.typeName))

/-! ## Measures -/

/-- Number of items of a sequence. -/
def lengthOf : Value → Except Cause Value
  | .str text => .ok (.int (Int64.ofNat text.length))
  | .list items => .ok (.int (Int64.ofNat items.length))
  | .tuple items => .ok (.int (Int64.ofNat items.length))
  | .range r => do
    let length ← r.checkedLength
    match Number.toInt64? length with
    | some n => return .int n
    | Option.none => .error .overflow
  | v => .error (.typeMismatch (.noLength v.typeName))

/-- The distance of a number from zero. -/
def absolute : Value → Except Cause Value
  | .float x => .ok (.float x.abs)
  | v =>
    match v.asInt? with
    | some n =>
      match Number.toInt64? n.toInt.natAbs with
      | some m => .ok (.int m)
      | Option.none => .error .overflow
    | Option.none => .error (.typeMismatch (.absoluteValue v.typeName))

/-- The first of the extreme values, continuing from `best`: a later one replaces it only if it
compares as `wanted`. -/
def extremeFrom (wanted : Ordering) : Value → List Value → Except Cause Value
  | best, [] => .ok best
  | best, v :: vs =>
    match v.compare? best with
    | some order => extremeFrom wanted (if order = wanted then v else best) vs
    | Option.none => .error (.typeMismatch (.unordered "<" v.typeName best.typeName))

/-- The extreme one of the arguments, or of the items of the only argument. -/
def extreme (function : Builtin) (wanted : Ordering) (args : List Value) : Except Cause Value := do
  let candidates ← match args with
    | [] => .error (.typeMismatch (.noCandidates function.name))
    | [v] => v.itemsOf
    | vs => .ok vs
  match candidates with
  | [] => .error (.invalidValue (.emptySequence function.name))
  | v :: vs => extremeFrom wanted v vs

/-! ## Ranges -/

/-- The integers that arguments stand for. -/
def integers : List Value → Except Cause (List Int64)
  | [] => .ok []
  | v :: vs =>
    match v.asInt? with
    | some n => (integers vs).map (n :: ·)
    | Option.none => .error (.typeMismatch (.notAnInteger v.typeName))

/-- The range with given bounds; its step must not be zero. -/
def rangeOf : List Int64 → Except Cause Value
  | [stop] => .ok (.range ⟨0, stop, 1⟩)
  | [start, stop] => .ok (.range ⟨start, stop, 1⟩)
  | [start, stop, step] =>
    if step = 0 then .error (.invalidValue .zeroRangeStep) else .ok (.range ⟨start, stop, step⟩)
  | _ => .ok (.range ⟨0, 0, 1⟩)

end Value

/-! ## Calls -/

namespace Builtin

/-- The least and the greatest number of arguments of a function, if it counts them. -/
def arity? : Builtin → Option (Nat × Nat)
  | range => some (1, 3)
  | len | abs => some (1, 1)
  | str | int | float | bool => some (0, 1)
  | print | min | max => none

/-- What a function other than printing returns for a suitable number of arguments.  A length and a
distance from zero need an argument. -/
def result (function : Builtin) (args : List Value) : Except Cause Value :=
  match function, args with
  | range, _ => (Value.integers args).bind Value.rangeOf
  | len, v :: _ => v.lengthOf
  | len, [] => .error .breakdown
  | abs, v :: _ => v.absolute
  | abs, [] => .error .breakdown
  | str, [v] => .ok (.str v.text)
  | str, _ => .ok (.str "")
  | bool, [v] => .ok (.bool v.truthy)
  | bool, _ => .ok (.bool false)
  | int, [v] => v.toInteger
  | int, _ => .ok (.int 0)
  | float, [v] => v.toDouble
  | float, _ => .ok (.float 0.0)
  | min, _ => Value.extreme min .lt args
  | max, _ => Value.extreme max .gt args
  | print, _ => .ok .none

/-- Calls a function other than printing. -/
def call (function : Builtin) (args : List Value) : Except Cause Value :=
  match function.arity? with
  | some (least, greatest) =>
    if args.length < least ∨ greatest < args.length then
      .error (.typeMismatch (.argumentCount function.name least greatest args.length))
    else function.result args
  | none => function.result args

end Builtin

end BlockEditor
