import BlockEditor.Block.Basic
import BlockEditor.Text.Bytes
import BlockEditor.Text.Quoted

/-!
# Code of blocks

The program that a document denotes, with two blanks of indentation for every level.
-/

namespace BlockEditor

/-! ## Expressions -/

/-- The literal for a number.  Negative numbers stand in parentheses, and what is not finite is
converted from a text. -/
def numberCode (x : Float) : List Char :=
  if x.isNaN then "float('nan')".toList
  else if x.isInf then (if 0.0 < x then "float('inf')" else "float('-inf')").toList
  else if x < 0.0 then '(' :: Number.fieldLayout.text x ++ [')']
  else Number.fieldLayout.text x

/-- The literal for a text. -/
def textCode (text : String) : List Char := Text.encodeQuoted '\'' text.toList

namespace Block

/-- The expression that a literal block denotes. -/
def expressionCode? (b : Block) : Option (List Char) :=
  if b.kind = BlockKind.number then some (numberCode ((b.numberField? Slot.number).getD 0.0))
  else if b.kind = BlockKind.text then some (textCode ((b.textField? Slot.text).getD ""))
  else none

/-- The expression in a value slot, or a word for an empty slot. -/
def valueCode (b : Block) (slot absent : String) : List Char :=
  ((b.value? slot).bind expressionCode?).getD absent.toList

/-- The variable of a block, or a name for one that has none. -/
def variableCode (b : Block) (absent : String) : List Char :=
  match b.textField? Slot.variableName with
  | some name => if name = "" then absent.toList else name.toList
  | none => absent.toList

/-- The bound of a loop. -/
def countCode (b : Block) : List Char := ((b.field? Slot.count).map FieldValue.display).getD ['0']

/-! ## Statements -/

/-- Moves a line one level to the right. -/
def indented (line : List Char) : List Char := ' ' :: ' ' :: line

/-- The lines of a block, given the lines of its body. -/
def linesWith (b : Block) (body : List (List Char)) : List (List Char) :=
  if b.kind = BlockKind.print then
    ["print(".toList ++ b.valueCode Slot.text "None" ++ [')']]
  else if b.kind = BlockKind.assign then
    [b.variableCode "x" ++ " = ".toList ++ b.valueCode Slot.value "None"]
  else if b.kind = BlockKind.branch then
    ("if ".toList ++ b.valueCode Slot.condition "False" ++ [':']) :: body.map indented
  else if b.kind = BlockKind.loop then
    ("for ".toList ++ b.variableCode "i" ++ " in range(".toList ++ b.countCode ++ "):".toList) ::
      body.map indented
  else b.expressionCode?.toList

mutual

/-- The lines of a block. -/
def lines : Block → List (List Char)
  | mk kind fields values statements =>
    linesWith (mk kind fields values statements)
      ((slotAt? Slot.body (slotLines statements)).getD ["pass".toList])

/-- The lines of a sequence of blocks. -/
def linesOfAll : List Block → List (List Char)
  | [] => []
  | b :: bs => lines b ++ linesOfAll bs

/-- The lines of each statement slot; an empty one holds a statement that does nothing. -/
def slotLines : List (String × List Block) → List (String × List (List Char))
  | [] => []
  | (name, []) :: slots => (name, ["pass".toList]) :: slotLines slots
  | (name, b :: bs) :: slots => (name, lines b ++ linesOfAll bs) :: slotLines slots

end

end Block

/-- The program of a document; every line ends with a line feed. -/
def Document.code (d : Document) : String :=
  String.ofList ((Block.linesOfAll d.blocks).flatMap fun line => line ++ ['\n'])

example :
    (Document.mk [(Block.ofKind BlockKind.loop).withField Slot.count (.number 3.0)
      |>.withStatements Slot.body [(Block.ofKind BlockKind.print).withValue Slot.text
        (some (Block.ofText "it's"))]]).code
      = "for i in range(3):\n  print('it\\'s')\n" := by
  decide +kernel

end BlockEditor
