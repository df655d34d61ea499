import BlockEditor.Block.Basic
import BlockEditor.Diagnostic
import BlockEditor.Json.Basic
import BlockEditor.Number.Binary64
import Std.Data.HashMap

/-!
# Schemas

What a kind of block may carry, the registry of known kinds, and the check of documents against it.
-/

namespace BlockEditor

/-! ## Schemas -/

/-- Where a block may stand. -/
inductive Shape where
  | statement
  | output
  deriving DecidableEq, Repr

/-- The name of a shape. -/
def Shape.text : Shape → String
  | statement => "statement"
  | output => "output"

/-- The name of the position that a shape belongs to. -/
def Shape.position : Shape → String
  | statement => "statement"
  | output => "value"

/-- What a field may hold, and what it holds at first. -/
inductive FieldRule where
  | text (start : String)
  | number (start : Float) (least : Option Float) (whole : Bool)

/-- The content of a field at first. -/
def FieldRule.initial : FieldRule → FieldValue
  | text start => .text start
  | number start .. => .number start

/-- The declaration of a kind of block. -/
structure Schema where
  id : String
  label : String
  colour : Nat
  tooltip : String
  shape : Shape
  fields : List (String × FieldRule)
  valueSlots : List String
  statementSlots : List String

namespace Schema

/-- A kind without fields and slots. -/
def bare (id label : String) (colour : Nat) (tooltip : String) (shape : Shape) : Schema :=
  ⟨id, label, colour, tooltip, shape, [], [], []⟩

/-- Declares a field behind all others. -/
def withField (s : Schema) (name : String) (rule : FieldRule) : Schema :=
  { s with fields := s.fields ++ [(name, rule)] }

/-- Declares a value slot behind all others. -/
def withValueSlot (s : Schema) (name : String) : Schema :=
  { s with valueSlots := s.valueSlots ++ [name] }

/-- Declares a statement slot behind all others. -/
def withStatementSlot (s : Schema) (name : String) : Schema :=
  { s with statementSlots := s.statementSlots ++ [name] }

/-- The rule of a field; the first declaration of a name counts. -/
def rule? (s : Schema) (name : String) : Option FieldRule := slotAt? name s.fields

/-- A new block of a kind, with every field as it is at first. -/
def instantiate (s : Schema) : Block :=
  s.fields.foldl (fun b entry => b.withField entry.1 entry.2.initial) (Block.ofKind s.id)

end Schema

/-! ## Registries -/

/-- The known kinds in the order in which they were first registered, and the position of each. -/
structure Registry where
  schemas : Array Schema
  index : Std.HashMap String Nat

namespace Registry

/-- A registry without kinds. -/
def empty : Registry := ⟨#[], ∅⟩

/-- Registers a kind: in place of an earlier one with its id, or else behind all others. -/
def register (r : Registry) (s : Schema) : Registry :=
  match r.index[s.id]? with
  | some at' => { r with schemas := r.schemas.setIfInBounds at' s }
  | none => ⟨r.schemas.push s, r.index.insert s.id r.schemas.size⟩

/-- The kind of an id. -/
def get? (r : Registry) (id : String) : Option Schema := r.index[id]?.bind fun at' => r.schemas[at']?

/-- Whether a kind is known. -/
def contains (r : Registry) (id : String) : Bool := r.index.contains id

/-- Number of known kinds. -/
def size (r : Registry) : Nat := r.schemas.size

/-- The ids of the known kinds in order. -/
def toolbox (r : Registry) : List String := r.schemas.toList.map Schema.id

end Registry

/-! ## Checks -/

namespace Schema

/-- Whether a field may hold a content. -/
def checkField (s : Schema) (name : String) (v : FieldValue) : Except Cause Unit :=
  match s.rule? name, v with
  | none, _ => .error (.unknownSlot s.id "field" name)
  | some (.text _), .text _ => .ok ()
  | some (.number _ least whole), .number x =>
    if !Number.isFinite x then .error (.typeMismatch (.fieldNotFinite name s.id))
    else if whole && !Number.isWhole x then .error (.typeMismatch (.fieldNotWhole name s.id))
    else
      match least with
      | none => .ok ()
      | some bound =>
        if x < bound then
          let text := String.ofList (Number.boundLayout.text bound)
          .error (.typeMismatch (.fieldBelow name s.id text))
        else .ok ()
  | some _, _ => .error (.typeMismatch (.fieldKind name s.id))

/-- Whether all fields of a block may hold their contents. -/
def checkFields (s : Schema) : List (String × FieldValue) → Except Cause Unit
  | [] => .ok ()
  | (name, v) :: fields => do
    s.checkField name v
    checkFields s fields

/-- Whether a block of a kind may stand at a position. -/
def checkShape (s : Schema) (expected : Option Shape) : Except Cause Unit :=
  match expected with
  | none => .ok ()
  | some shape =>
    if s.shape = shape then .ok ()
    else .error (.typeMismatch (.blockPosition s.id shape.position))

end Schema

namespace Registry

mutual

/-- Checks a block and everything in it, given the shape that its position asks for. -/
def checkBlock (r : Registry) (expected : Option Shape) : Block → Except Cause Unit
  | .mk kind fields values statements =>
    match r.get? kind with
    | none => .error (.unknownBlockType kind)
    | some schema => do
      schema.checkShape expected
      schema.checkFields fields
      checkValues r schema values
      checkSlots r schema statements

/-- Checks the blocks of a sequence. -/
def checkAll (r : Registry) (expected : Option Shape) : List Block → Except Cause Unit
  | [] => .ok ()
  | b :: bs => do
    checkBlock r expected b
    checkAll r expected bs

/-- Checks the value slots of a block of a kind. -/
def checkValues (r : Registry) (s : Schema) : List (String × Block) → Except Cause Unit
  | [] => .ok ()
  | (name, b) :: slots =>
    if s.valueSlots.contains name then do
      checkBlock r (some .output) b
      checkValues r s slots
    else .error (.unknownSlot s.id "value slot" name)

/-- Checks the statement slots of a block of a kind. -/
def checkSlots (r : Registry) (s : Schema) : List (String × List Block) → Except Cause Unit
  | [] => .ok ()
  | (name, bs) :: slots =>
    if s.statementSlots.contains name then do
      checkAll r (some .statement) bs
      checkSlots r s slots
    else .error (.unknownSlot s.id "statement slot" name)

end

/-- Checks a document; its top blocks may have either shape. -/
def validate (r : Registry) (d : Document) : Except Diagnostic Unit :=
  reportAs .session Source.placeholder
    ((r.checkAll none d.blocks).mapError fun cause => ⟨cause, .none⟩)

end Registry

/-! ## The standard kinds -/

/-- The kinds that the editor offers. -/
def Registry.standard : Registry :=
  let schemas : List Schema := [
    (Schema.bare BlockKind.print "print %1" 160 "Print a value" .statement).withValueSlot
      Slot.text,
    ((Schema.bare BlockKind.assign "set %1 to %2" 230 "Assign a value to a variable"
      .statement).withField Slot.variableName (.text "x")).withValueSlot Slot.value,
    ((Schema.bare BlockKind.branch "if %1 do %2" 210 "Run the body when the condition holds"
      .statement).withValueSlot Slot.condition).withStatementSlot Slot.body,
    (((Schema.bare BlockKind.loop "for %1 in range %2 do %3" 120
      "Repeat the body a fixed number of times" .statement).withField Slot.variableName
      (.text "i")).withField Slot.count (.number 5.0 (some 0.0) true)).withStatementSlot
      Slot.body,
    (Schema.bare BlockKind.number "%1" 230 "A number" .output).withField Slot.number
      (.number 0.0 none false),
    (Schema.bare BlockKind.text "\"%1\"" 160 "A piece of text" .output).withField Slot.text
      (.text "")]
  schemas.foldl Registry.register .empty

/-! ## Data -/

/-- The data of a field rule. -/
def FieldRule.toJson : FieldRule → Json
  | text start => .object [("kind", .string "text"), ("default", .string start)]
  | number start least whole =>
    .object [("kind", .string "number"), ("default", .float start),
      ("min", .ofOption (least.map .float)), ("integer", .bool whole)]

/-- The data of a schema. -/
def Schema.toJson (s : Schema) : Json :=
  .object [("id", .string s.id), ("label", .string s.label), ("colour", .int s.colour),
    ("tooltip", .string s.tooltip), ("shape", .string s.shape.text),
    ("fields", .array (s.fields.map fun entry => .array [.string entry.1, entry.2.toJson])),
    ("value_slots", .ofStrings s.valueSlots), ("statement_slots", .ofStrings s.statementSlots)]

/-- The data of a registry. -/
def Registry.toJson (r : Registry) : Json := .array (r.schemas.toList.map Schema.toJson)

end BlockEditor
