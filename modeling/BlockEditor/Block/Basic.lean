import BlockEditor.Number.DecimalText

/-!
# Block documents

Programs as trees of blocks.  A block has a kind, literal fields, value slots that hold one block
each, and statement slots that hold a sequence of blocks.  Fields and slots are kept in the order of
their names.
-/

namespace BlockEditor

/-! ## Names with contents -/

/-- The content under a name. -/
def slotAt? {α : Type} (name : String) : List (String × α) → Option α
  | [] => none
  | (key, a) :: slots => if key = name then some a else slotAt? name slots

/-- Puts a content under a name, in place of what stands there, and keeps ascending names
ascending. -/
def putSlot {α : Type} (name : String) (a : α) : List (String × α) → List (String × α)
  | [] => [(name, a)]
  | (key, old) :: slots =>
    if name < key then (name, a) :: (key, old) :: slots
    else if key = name then (name, a) :: slots
    else (key, old) :: putSlot name a slots

/-- Contents under names, where a later one takes the place of an earlier one. -/
def slotsOf {α : Type} (entries : List (String × α)) : List (String × α) :=
  entries.foldl (fun slots entry => putSlot entry.1 entry.2 slots) []

/-! ## Blocks -/

/-- A literal in a block. -/
inductive FieldValue where
  | number (x : Float)
  | text (content : String)

/-- The text of a field as it is shown. -/
def FieldValue.display : FieldValue → List Char
  | number x => Number.fieldLayout.text x
  | text content => content.toList

/-- A block with everything in it. -/
inductive Block where
  | mk (kind : String) (fields : List (String × FieldValue)) (values : List (String × Block))
      (statements : List (String × List Block))

namespace Block

/-- The kind of a block. -/
def kind : Block → String
  | mk kind .. => kind

/-- The literals of a block. -/
def fields : Block → List (String × FieldValue)
  | mk _ fields .. => fields

/-- The filled value slots of a block. -/
def values : Block → List (String × Block)
  | mk _ _ values _ => values

/-- The statement slots of a block. -/
def statements : Block → List (String × List Block)
  | mk _ _ _ statements => statements

/-- A block without fields and slots. -/
def ofKind (kind : String) : Block := mk kind [] [] []

/-- Sets a field. -/
def withField (b : Block) (name : String) (v : FieldValue) : Block :=
  mk b.kind (putSlot name v b.fields) b.values b.statements

/-- Fills a value slot, or leaves it as it is. -/
def withValue (b : Block) (name : String) (child : Option Block) : Block :=
  match child with
  | some c => mk b.kind b.fields (putSlot name c b.values) b.statements
  | none => b

/-- Fills a statement slot. -/
def withStatements (b : Block) (name : String) (children : List Block) : Block :=
  mk b.kind b.fields b.values (putSlot name children b.statements)

/-- The literal of a field. -/
def field? (b : Block) (name : String) : Option FieldValue := slotAt? name b.fields

/-- The block in a value slot. -/
def value? (b : Block) (name : String) : Option Block := slotAt? name b.values

/-- The text in a field that holds one. -/
def textField? (b : Block) (name : String) : Option String :=
  match b.field? name with
  | some (.text text) => some text
  | _ => none

/-- The number in a field that holds one. -/
def numberField? (b : Block) (name : String) : Option Float :=
  match b.field? name with
  | some (.number x) => some x
  | _ => none

mutual

/-- Number of blocks in a block, with itself. -/
def size : Block → Nat
  | mk _ _ values statements => 1 + valueSizes values + slotSizes statements

/-- Number of blocks in a sequence. -/
def sizes : List Block → Nat
  | [] => 0
  | b :: bs => size b + sizes bs

/-- Number of blocks in value slots. -/
def valueSizes : List (String × Block) → Nat
  | [] => 0
  | (_, b) :: slots => size b + valueSizes slots

/-- Number of blocks in statement slots. -/
def slotSizes : List (String × List Block) → Nat
  | [] => 0
  | (_, bs) :: slots => sizes bs + slotSizes slots

end

end Block

/-! ## Documents -/

/-- A document: its top blocks in order. -/
structure Document where
  blocks : List Block

namespace Document

/-- The document without blocks. -/
def empty : Document := ⟨[]⟩

/-- Whether a document has no blocks. -/
def isEmpty (d : Document) : Bool := d.blocks.isEmpty

/-- Number of blocks at all depths. -/
def size (d : Document) : Nat := Block.sizes d.blocks

end Document

/-! ## The vocabulary -/

namespace BlockKind

/-- A statement that prints a value. -/
def print : String := "print-statement"

/-- A statement that gives a value to a variable. -/
def assign : String := "assign-statement"

/-- A statement that depends on a condition. -/
def branch : String := "if-statement"

/-- A statement that repeats its body. -/
def loop : String := "for-statement"

/-- A literal number. -/
def number : String := "math_number"

/-- A literal text. -/
def text : String := "text"

end BlockKind

namespace Slot

/-- The text of a literal, and what is printed. -/
def text : String := "TEXT"

/-- The name of a variable. -/
def variableName : String := "VAR"

/-- What is assigned. -/
def value : String := "VALUE"

/-- The condition of a branch. -/
def condition : String := "COND"

/-- The body of a branch or loop. -/
def body : String := "DO"

/-- How often a loop runs. -/
def count : String := "RANGE"

/-- The number of a literal. -/
def number : String := "NUM"

end Slot

namespace Block

/-- The block for a number. -/
def ofNumber (x : Float) : Block := (ofKind BlockKind.number).withField Slot.number (.number x)

/-- The block for a text. -/
def ofText (text : String) : Block := (ofKind BlockKind.text).withField Slot.text (.text text)

end Block

/-! ## Order of names -/

/-- A content that was put under a name stands there, and no other name is affected. -/
theorem slotAt?_putSlot {α : Type} (name other : String) (a : α) (slots : List (String × α)) :
    slotAt? other (putSlot name a slots) = if other = name then some a else slotAt? other slots := by
  induction slots with
  | nil =>
    by_cases h : other = name
    · simp [putSlot, slotAt?, h]
    · simp [putSlot, slotAt?, h, Ne.symm h]
  | cons entry slots ih =>
    obtain ⟨key, old⟩ := entry
    simp only [putSlot]
    split
    · by_cases h : other = name
      · simp [slotAt?, h]
      · simp [slotAt?, h, Ne.symm h]
    · split
      · rename_i same
        subst same
        by_cases h : other = key
        · simp [slotAt?, h]
        · simp [slotAt?, h, Ne.symm h]
      · rename_i differ
        by_cases h : key = other
        · subst h
          simp [slotAt?, differ]
        · simp [slotAt?, h, ih]

end BlockEditor
