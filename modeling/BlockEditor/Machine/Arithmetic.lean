import BlockEditor.Machine.Value
import BlockEditor.Number.Binary64
import BlockEditor.Syntax.Tree

/-!
# Arithmetic

The operators on values.  Integer results are exact or do not fit; doubles follow the standard for
binary floating point, with divisions rounded to the floor.
-/

namespace BlockEditor.Value

/-! ## Integers -/

/-- An exact integer as a value, if it fits into a word. -/
def ofInt (n : Int) : Except Cause Value :=
  match Number.toInt64? n with
  | some w => .ok (.int w)
  | Option.none => .error .overflow

/-- The power of an integer.  Exponents beyond 32 bits are refused; beyond 64 only the powers of
0, 1 and -1 fit, and of those only the parity of the exponent matters. -/
def intPower (base : Int64) (exponent : Nat) : Except Cause Value :=
  if UInt32.size ≤ exponent then .error .overflow
  else if exponent ≤ 64 then ofInt (base.toInt.pow exponent)
  else if 1 < base.toInt.natAbs then .error .overflow
  else ofInt (base.toInt.pow (64 + exponent % 2))

/-! ## Doubles -/

/-- An operator on doubles. -/
def floatOperation (op : BinOp) (x y : Float) : Except Cause Value :=
  match op with
  | .add => .ok (.float (x + y))
  | .sub => .ok (.float (x - y))
  | .mul => .ok (.float (x * y))
  | .div =>
    if y == 0.0 then .error (.zeroDivision .division) else .ok (.float (x / y))
  | .floorDiv =>
    if y == 0.0 then .error (.zeroDivision .floorDivision)
    else .ok (.float (Number.floor (x / y)))
  | .mod =>
    if y == 0.0 then .error (.zeroDivision .modulo)
    else
      let r := Number.remainder x y
      .ok (.float (if r != 0.0 && decide (r < 0.0) != decide (y < 0.0) then r + y else r))
  | .pow =>
    if x == 0.0 && decide (y < 0.0) then .error (.zeroDivision .power)
    else .ok (.float (x.pow y))

/-- A quotient of integers rounded to the floor: one less than the quotient toward zero where that
one was rounded up. -/
def floorQuotient (m n : Int64) : Except Cause Value :=
  match Number.toInt64? (Int.tdiv m.toInt n.toInt) with
  | Option.none => .error .overflow
  | some q => do
    let rest ← Checked.wordRemainder m n
    if rest ≠ 0 ∧ ¬ (m < 0 ↔ n < 0) then .int <$> Checked.word (q.toInt - 1) else return .int q

/-- A remainder of integers with the sign of `n`.  It exists only where the quotient fits. -/
def floorRemainder (m n : Int64) : Except Cause Value :=
  match Number.toInt64? (Int.tdiv m.toInt n.toInt) with
  | Option.none => .error .overflow
  | some _ => do
    let rest ← Checked.wordRemainder m n
    if rest ≠ 0 ∧ ¬ (rest < 0 ↔ n < 0) then .int <$> Checked.word (rest.toInt + n.toInt)
    else return .int rest

/-- An operator on integers. -/
def intOperation (op : BinOp) (m n : Int64) : Except Cause Value :=
  let inFloats := floatOperation op (Float.ofInt m.toInt) (Float.ofInt n.toInt)
  match op with
  | .add => ofInt (m.toInt + n.toInt)
  | .sub => ofInt (m.toInt - n.toInt)
  | .mul => ofInt (m.toInt * n.toInt)
  | .div => inFloats
  | .floorDiv => if n = 0 then .error (.zeroDivision .integer) else floorQuotient m n
  | .mod => if n = 0 then .error (.zeroDivision .integer) else floorRemainder m n
  | .pow => if n < 0 then inFloats else intPower m n.toInt.toNat

/-! ## All values -/

/-- A list put `n` times in a row; nothing stays nothing, however often it is repeated. -/
def copies {α : Type} (n : Nat) (items : List α) : List α :=
  if items.isEmpty then [] else (List.replicate n items).flatten

/-- A sequence repeated; less than once is not at all. -/
def repeated? (times : Int64) (v : Value) : Option Value :=
  let count := times.toInt.toNat
  match v with
  | .str text => some (.str (String.ofList (copies count text.toList)))
  | .list items => some (.list (copies count items))
  | .tuple items => some (.tuple (copies count items))
  | _ => Option.none

/-- A sum of two sequences of one type, or a product of a sequence and an integer. -/
def sequenceOperation? : BinOp → Value → Value → Option Value
  | .add, .str a, .str b => some (.str (a ++ b))
  | .add, .list a, .list b => some (.list (a ++ b))
  | .add, .tuple a, .tuple b => some (.tuple (a ++ b))
  | .mul, a, b =>
    (b.asInt?.bind fun times => a.repeated? times).or
      (a.asInt?.bind fun times => b.repeated? times)
  | _, _, _ => Option.none

/-- An operator on any two values. -/
def operation (op : BinOp) (a b : Value) : Except Cause Value :=
  match a.asInt?, b.asInt? with
  | some m, some n => intOperation op m n
  | _, _ =>
    match a.asFloat?, b.asFloat? with
    | some x, some y => floatOperation op x y
    | _, _ =>
      match sequenceOperation? op a b with
      | some v => .ok v
      | Option.none =>
        .error (.typeMismatch (.binaryOperands op.symbol a.typeName b.typeName))

/-- An operator on one value. -/
def unaryOperation (op : UnaryOp) (v : Value) : Except Cause Value :=
  match op with
  | .not => .ok (.bool !v.truthy)
  | .neg =>
    match v with
    | .float x => .ok (.float (-x))
    | _ =>
      match v.asInt? with
      | some n => ofInt (-n.toInt)
      | Option.none => .error (.typeMismatch (.unaryOperand "-" v.typeName))
  | .pos =>
    match v with
    | .float x => .ok (.float x)
    | _ =>
      match v.asInt? with
      | some n => .ok (.int n)
      | Option.none => .error (.typeMismatch (.unaryOperand "+" v.typeName))

end BlockEditor.Value
