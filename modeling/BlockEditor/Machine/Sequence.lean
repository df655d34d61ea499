import BlockEditor.Machine.Value
import BlockEditor.Syntax.Tree
import BlockEditor.Text.Bytes

/-!
# Sequences

Items, membership, indices and slices of values, and the comparisons between values.
-/

namespace BlockEditor.Value

/-! ## Items -/

/-- The one-character strings of a text. -/
def characters (text : String) : List Value := text.toList.map fun c => .str (String.singleton c)

/-- The items of a sequence in order. -/
def items? : Value → Option (List Value)
  | .list items => some items
  | .tuple items => some items
  | .str text => some (characters text)
  | .range r => some (r.items.map .int)
  | _ => Option.none

/-- The items of a value that has some. -/
def itemsOf (v : Value) : Except Cause (List Value) :=
  match v.items? with
  | some items => .ok items
  | Option.none => .error (.typeMismatch (.notIterable v.typeName))

/-- Whether an item is among the items of a container. -/
def isMember (item container : Value) : Except Cause Bool :=
  match container, item with
  | .str text, .str part => .ok (Text.occursIn part.toList text.toList)
  | .str _, _ => .error (.typeMismatch (.textMember item.typeName))
  | .list items, _ => .ok (items.any (·.same item))
  | .tuple items, _ => .ok (items.any (·.same item))
  | .range r, _ =>
    match item.asInt? with
    | some n => r.contains n
    | Option.none => .ok false
  | _, _ => .error (.typeMismatch (.notContainer container.typeName))

/-! ## Indices -/

/-- The position that an index names in a sequence of a length: negative ones count from the end.
The sum of an index and a length must be as `fits` asks. -/
def position (fits : Int → Except Cause Int) (index : Int64) (length : Nat) :
    Except Cause (Option Nat) := do
  let at' ← if index < 0 then fits (index.toInt + length) else .ok index.toInt
  return if 0 ≤ at' ∧ at' < length then some at'.toNat else Option.none

/-- The position that an index names among items in memory, reckoned in words of 64 bits. -/
def itemPosition (index : Int64) (length : Nat) : Except Cause (Option Nat) :=
  position (Checked.within length fun n => Int64.toInt <$> Checked.word n) index length

/-- The item that an index names in a sequence with a name. -/
def pick (items : Array Value) (index : Int64) (name : String) : Except Cause Value := do
  match ← itemPosition index items.size with
  | some at' => Checked.item items at'
  | Option.none => .error (.indexOutOfRange name)

/-- The item at an index. -/
def itemAt (container index : Value) : Except Cause Value :=
  match index.asInt? with
  | Option.none =>
    .error (.typeMismatch (.sequenceIndex container.typeName index.typeName))
  | some i =>
    match container with
    | .list items => pick items.toArray i "list"
    | .tuple items => pick items.toArray i "tuple"
    | .str text => pick (characters text).toArray i "string"
    | .range r => do
      let length ← r.checkedLength
      match ← position Checked.wide i length with
      | some at' => .int <$> r.checkedItem at'
      | Option.none => .error (.indexOutOfRange "range object")
    | _ => .error (.typeMismatch (.notSubscriptable container.typeName))

/-- The position that an index of a list names, where a list is changed. -/
def listPosition (index : Value) (length : Nat) : Except Cause Nat :=
  match index.asInt? with
  | Option.none => .error (.typeMismatch (.sequenceIndex "list" index.typeName))
  | some i => do
    match ← itemPosition i length with
    | some at' => return at'
    | Option.none => .error (.indexOutOfRange "list assignment")

/-! ## Slices -/

/-- A bound of a slice: negative ones count from the end, and all are brought between `low` and
`high`. -/
def clampBound (bound : Int64) (length : Nat) (low high : Int) : Except Cause Int := do
  let n ← if bound < 0 then Checked.within length Checked.wide (bound.toInt + length)
    else .ok bound.toInt
  Checked.clamp low high n

/-- A bound of a slice if it is given, and else the limit that stands for it. -/
def boundOr (bound : Option Int64) (limit : Int) (length : Nat) (low high : Int) :
    Except Cause Int :=
  match bound with
  | some n => clampBound n length low high
  | Option.none => .ok limit

/-- The values from `at'` on, `step` apart, in front of `stop` in the direction of the step, behind
those that were visited before.  Each value must be as `fits` asks. -/
def walk (fits : Int → Except Cause Int) (step stop at' : Int) (visited : Array Int) :
    Except Cause (Array Int) :=
  if (0 < step ∧ at' < stop) ∨ (step < 0 ∧ stop < at') then
    match fits (at' + step) with
    | .ok _ => walk fits step stop (at' + step) (visited.push at')
    | .error cause => .error cause
  else .ok visited
termination_by (if 0 < step then stop - at' else at' - stop).toNat
decreasing_by
  split <;> omega

/-- The positions that a slice selects from a sequence of a length. -/
def slicePositions (length : Nat) (lower upper : Option Int64) (step : Int64) :
    Except Cause (Array Int) := do
  let (low, high) : Int × Int := if 0 < step then (0, length) else (-1, (length : Int) - 1)
  let start ← boundOr lower (if 0 < step then low else high) length low high
  let stop ← boundOr upper (if 0 < step then high else low) length low high
  walk (Checked.within length Checked.wide) step.toInt stop start #[]

/-- The items at given positions, none of which may be negative. -/
def itemsAt {α : Type} (items : Array α) (positions : Array Int) : Except Cause (List α) :=
  positions.toList.mapM fun at' =>
    if at' < 0 then .error .breakdown else Checked.item items at'.toNat

/-- The part of a sequence that a slice selects. -/
def sliceOf (container : Value) (lower upper step : Option Int64) : Except Cause Value :=
  let step := step.getD 1
  if step = 0 then .error (.invalidValue .zeroSliceStep)
  else
    let pick {α : Type} (items : Array α) : Except Cause (List α) := do
      let positions ← slicePositions items.size lower upper step
      itemsAt items positions
    match container with
    | .list items => .list <$> pick items.toArray
    | .tuple items => .tuple <$> pick items.toArray
    | .str text => (fun cs => .str (String.ofList cs)) <$> pick text.toList.toArray
    | _ => .error (.typeMismatch (.notSubscriptable container.typeName))

/-! ## Comparisons -/

/-- An ordering comparison.  Numbers without an order, such as those that are not numbers at all,
satisfy none. -/
def ordered (symbol : String) (accepts : Ordering → Bool) (a b : Value) : Except Cause Bool :=
  match a.compare? b with
  | some order => .ok (accepts order)
  | Option.none =>
    if a.isNumeric && b.isNumeric then .ok false
    else .error (.typeMismatch (.unordered symbol a.typeName b.typeName))

/-- A comparison between two values. -/
def comparison (op : CmpOp) (a b : Value) : Except Cause Bool :=
  match op with
  | .eq => .ok (a.same b)
  | .notEq => .ok !(a.same b)
  | .lt => ordered "<" (· == .lt) a b
  | .ltE => ordered "<=" (· != .gt) a b
  | .gt => ordered ">" (· == .gt) a b
  | .gtE => ordered ">=" (· != .lt) a b
  | .isIn => isMember a b
  | .notIn => (isMember a b).map (!·)
  | .is => .ok (a.identical b)
  | .isNot => .ok !(a.identical b)

end BlockEditor.Value
