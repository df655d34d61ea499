import BlockEditor.Number.DecimalText
import BlockEditor.Text.Quoted

/-!
# Data notation

Trees of data, and their text laid out over indented lines.  The members of an object keep their
order.
-/

namespace BlockEditor

/-- A tree of data. -/
inductive Json where
  | null
  | bool (b : Bool)
  | int (n : Int)
  | float (x : Float)
  | string (text : String)
  | array (items : List Json)
  | object (members : List (String × Json))

namespace Json

/-! ## Scalars -/

/-- One character of a string. -/
def escapeChar (c : Char) : List Char :=
  if c = '"' then ['\\', '"']
  else if c = '\\' then ['\\', '\\']
  else if c = '\x08' then ['\\', 'b']
  else if c = '\x0c' then ['\\', 'f']
  else if c = '\n' then ['\\', 'n']
  else if c = '\r' then ['\\', 'r']
  else if c = '\t' then ['\\', 't']
  else if c.toNat < 32 then
    ['\\', 'u', '0', '0', Text.hexDigit (c.toNat / 16), Text.hexDigit (c.toNat % 16)]
  else [c]

/-- A string between quotes. -/
def quote (cs : List Char) : List Char := '"' :: cs.flatMap escapeChar ++ ['"']

/-- A number; what is not finite has no notation and becomes `null`. -/
def floatText (x : Float) : List Char :=
  if Number.isFinite x then Number.dataLayout.text x else ['n', 'u', 'l', 'l']

/-! ## Layout -/

/-- The line end and the indentation in front of an item at a depth. -/
def lineBreak (depth : Nat) : List Char := '\n' :: List.replicate (2 * depth) ' '

mutual

/-- The text of a tree whose first line stands at a depth. -/
def textAt (depth : Nat) : Json → List Char
  | null => ['n', 'u', 'l', 'l']
  | bool b => if b then ['t', 'r', 'u', 'e'] else ['f', 'a', 'l', 's', 'e']
  | int n => (toString n).toList
  | float x => floatText x
  | string text => quote text.toList
  | array [] => ['[', ']']
  | array (item :: items) =>
    '[' :: (itemsAt (depth + 1) (item :: items) ++ lineBreak depth ++ [']'])
  | object [] => ['\x7b', '\x7d']
  | object (member :: members) =>
    '\x7b' :: (membersAt (depth + 1) (member :: members) ++ lineBreak depth ++ ['\x7d'])

/-- The items of an array, each on its own lines. -/
def itemsAt (depth : Nat) : List Json → List Char
  | [] => []
  | [item] => lineBreak depth ++ textAt depth item
  | item :: items => lineBreak depth ++ textAt depth item ++ ',' :: itemsAt depth items

/-- The members of an object, each on its own lines. -/
def membersAt (depth : Nat) : List (String × Json) → List Char
  | [] => []
  | [(key, value)] =>
    lineBreak depth ++ quote key.toList ++ ':' :: ' ' :: textAt depth value
  | (key, value) :: members =>
    lineBreak depth ++ quote key.toList ++ ':' :: ' ' :: textAt depth value
      ++ ',' :: membersAt depth members

end

/-- The text of a tree over indented lines. -/
def pretty (json : Json) : String := String.ofList (json.textAt 0)

/-- An array of strings. -/
def ofStrings (texts : List String) : Json := array (texts.map string)

/-- A value that may be missing. -/
def ofOption : Option Json → Json
  | none => null
  | some json => json

end Json

end BlockEditor
