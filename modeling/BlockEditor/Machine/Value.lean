import BlockEditor.Machine.Range
import BlockEditor.Number.DecimalText
import BlockEditor.Text.Quoted

/-!
# Values

What variables hold and expressions denote, with their texts, their equality and their order.
Lists are plain values: a changed list is a new list.
-/

namespace BlockEditor

/-! ## Built-in functions -/

/-- A function that every program can call. -/
inductive Builtin where
  | print | range | len | str | int | float | bool | abs | min | max
  deriving DecidableEq, Repr

namespace Builtin

/-- All built-in functions. -/
def all : List Builtin := [print, range, len, str, int, float, bool, abs, min, max]

/-- The name that a program calls a function by. -/
def name : Builtin → String
  | print => "print"
  | range => "range"
  | len => "len"
  | str => "str"
  | int => "int"
  | float => "float"
  | bool => "bool"
  | abs => "abs"
  | min => "min"
  | max => "max"

/-- The function of a name. -/
def ofName? (name : String) : Option Builtin := all.find? fun b => b.name == name

example : ∀ b ∈ all, ofName? b.name = some b := by
  decide

end Builtin

/-! ## Values -/

/-- A value. -/
inductive Value where
  | none
  | bool (b : Bool)
  | int (n : Int64)
  | float (x : Float)
  | str (text : String)
  | list (items : List Value)
  | tuple (items : List Value)
  | range (r : Range)
  | builtin (function : Builtin)

namespace Value

/-- The name of the type of a value. -/
def typeName : Value → String
  | none => "NoneType"
  | bool _ => "bool"
  | int _ => "int"
  | float _ => "float"
  | str _ => "str"
  | list _ => "list"
  | tuple _ => "tuple"
  | range _ => "range"
  | builtin _ => "builtin_function_or_method"

/-- Whether a condition with this value holds: zero and what is empty do not. -/
def truthy : Value → Bool
  | none => false
  | bool b => b
  | int n => n != 0
  | float x => x != 0.0
  | str text => !text.isEmpty
  | list items => !items.isEmpty
  | tuple items => !items.isEmpty
  | range r => r.length != 0
  | builtin _ => true

/-- The integer that an integer or a truth value stands for. -/
def asInt? : Value → Option Int64
  | int n => some n
  | bool b => some (if b then 1 else 0)
  | _ => Option.none

/-- The double nearest to a number. -/
def asFloat? : Value → Option Float
  | float x => some x
  | v => v.asInt?.map fun n => Float.ofInt n.toInt

/-- Whether a value is a number; truth values are. -/
def isNumeric (v : Value) : Bool := v.asFloat?.isSome

/-! ## Texts -/

/-- The texts of neighbouring arguments after the name of a function. -/
def callText (function : String) (arguments : List (List Char)) : List Char :=
  function.toList ++ '(' :: Text.joinWith [',', ' '] arguments ++ [')']

mutual

/-- The text of a value as it stands inside a list. -/
def repr : Value → List Char
  | none => ['N', 'o', 'n', 'e']
  | bool b => if b then ['T', 'r', 'u', 'e'] else ['F', 'a', 'l', 's', 'e']
  | int n => (toString n.toInt).toList
  | float x => Number.printedLayout.text x
  | str text => Text.encodeQuoted (Text.preferredQuote text.toList) text.toList
  | list items => '[' :: reprItems items ++ [']']
  | tuple [item] => '(' :: repr item ++ [',', ')']
  | tuple items => '(' :: reprItems items ++ [')']
  | range r =>
    let bounds := if r.step = 1 then [r.start, r.stop] else [r.start, r.stop, r.step]
    callText "range" (bounds.map fun n => (toString n.toInt).toList)
  | builtin function => '<' :: "built-in function ".toList ++ function.name.toList ++ ['>']

/-- The texts of neighbouring items. -/
def reprItems : List Value → List Char
  | [] => []
  | [item] => repr item
  | item :: items => repr item ++ ',' :: ' ' :: reprItems items

end

/-- The text of a value as it is printed: a string is its own text. -/
def text : Value → String
  | str text => text
  | v => String.ofList v.repr

/-! ## Equality and order -/

/-- Whether two values are numbers and equal; integers are compared exactly, and with a double as
doubles. -/
def sameNumber (a b : Value) : Bool :=
  match a.asInt?, b.asInt? with
  | some m, some n => m == n
  | _, _ =>
    match a.asFloat?, b.asFloat? with
    | some x, some y => x == y
    | _, _ => false

mutual

/-- Whether two values are equal.  Numbers are compared across their types. -/
def same : Value → Value → Bool
  | none, none => true
  | str a, str b => a == b
  | list a, list b => sameAll a b
  | tuple a, tuple b => sameAll a b
  | range a, range b => a.sameItems b
  | builtin a, builtin b => a == b
  | a, b => sameNumber a b

/-- Whether two sequences have equal items. -/
def sameAll : List Value → List Value → Bool
  | [], [] => true
  | a :: as, b :: bs => same a b && sameAll as bs
  | _, _ => false

end

/-- The order of two doubles, unless one of them is no number. -/
def compareFloats? (x y : Float) : Option Ordering :=
  if x < y then some .lt else if x == y then some .eq else if y < x then some .gt else Option.none

/-- The order of two numbers; integers are compared exactly, and with a double as doubles. -/
def compareNumbers? (a b : Value) : Option Ordering :=
  match a.asInt?, b.asInt? with
  | some m, some n => some (compare m.toInt n.toInt)
  | _, _ =>
    match a.asFloat?, b.asFloat? with
    | some x, some y => compareFloats? x y
    | _, _ => Option.none

mutual

/-- The order of two values, if they have one: numbers by size, strings by their characters,
sequences of one type by the first items that differ. -/
def compare? : Value → Value → Option Ordering
  | str a, str b => some (compare a b)
  | list a, list b => compareAll? a b
  | tuple a, tuple b => compareAll? a b
  | a, b => compareNumbers? a b

/-- The order of two sequences. -/
def compareAll? : List Value → List Value → Option Ordering
  | [], [] => some .eq
  | [], _ :: _ => some .lt
  | _ :: _, [] => some .gt
  | a :: as, b :: bs => if a.same b then compareAll? as bs else compare? a b

end

/-- Whether two values are one and the same: equal constants of one type are. -/
def identical : Value → Value → Bool
  | none, none => true
  | bool a, bool b => a == b
  | int a, int b => a == b
  | str a, str b => a == b
  | builtin a, builtin b => a == b
  | _, _ => false

example : (list [int 1, str "it's", tuple [none]]).text = "[1, \"it's\", (None,)]" := by
  decide +kernel

example : same (int 1) (bool true) ∧ compare? (list [int 1, int 2]) (list [int 1]) = some .gt := by
  decide +kernel

end Value

end BlockEditor
