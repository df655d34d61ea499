import BlockEditor.Block.Basic
import BlockEditor.Diagnostic
import BlockEditor.Json.Basic
import BlockEditor.Json.Scalar

/-!
# Documents as data

Documents in data notation.  A block is an object with its kind under `type` and with `fields`,
`values` and `statements`, which are left out if empty.
-/

namespace BlockEditor

/-! ## Writing -/

/-- The data of a field. -/
def FieldValue.toJson : FieldValue → Json
  | number x => .float x
  | text content => .string content

namespace Block

/-- A member that is left out if it is empty. -/
def optionalMember (key : String) (members : List (String × Json)) : List (String × Json) :=
  if members.isEmpty then [] else [(key, .object members)]

mutual

/-- The data of a block. -/
def toJson : Block → Json
  | mk kind fields values statements =>
    .object ([("type", .string kind)] ++
      optionalMember "fields" (fields.map fun entry => (entry.1, entry.2.toJson)) ++
      optionalMember "values" (valuesJson values) ++
      optionalMember "statements" (slotsJson statements))

/-- The data of a sequence of blocks. -/
def sequenceJson : List Block → List Json
  | [] => []
  | b :: bs => toJson b :: sequenceJson bs

/-- The data of value slots. -/
def valuesJson : List (String × Block) → List (String × Json)
  | [] => []
  | (name, b) :: slots => (name, toJson b) :: valuesJson slots

/-- The data of statement slots. -/
def slotsJson : List (String × List Block) → List (String × Json)
  | [] => []
  | (name, bs) :: slots => (name, .array (sequenceJson bs)) :: slotsJson slots

end

end Block

/-- The data of a document. -/
def Document.toJson (d : Document) : Json := .object [("blocks", .array (Block.sequenceJson d.blocks))]

/-- The written form of a document. -/
def Document.notationText (d : Document) : String := d.toJson.pretty

/-! ## Reading -/

open Json (Written)

namespace Block

/-- How deep arrays and objects may be nested in a document that is read. -/
def depthLimit : Nat := 127

/-- The text that a written string denotes. -/
def readText? : Written → Option String
  | .string body => Json.decodeBody? body
  | _ => none

/-- A field: a number or a text. -/
def readField? : Written → Option FieldValue
  | .number n => n.toFloat?.map .number
  | .string body => (Json.decodeBody? body).map .text
  | _ => none

/-- Fields under their names. -/
def readFields? : List (List Char × Written) → Option (List (String × FieldValue))
  | [] => some []
  | (key, w) :: members => do
    let name ← Json.decodeBody? key
    let field ← readField? w
    let rest ← readFields? members
    return (name, field) :: rest

/-- What has been read of a block. -/
structure Draft where
  kind : Option String
  fields : Option (List (String × FieldValue))
  values : Option (List (String × Block))
  statements : Option (List (String × List Block))

/-- Nothing read yet. -/
def Draft.blank : Draft := ⟨none, none, none, none⟩

/-- The block of a draft, which must have a kind. -/
def Draft.block? (draft : Draft) : Option Block :=
  draft.kind.map fun kind =>
    Block.mk kind (slotsOf (draft.fields.getD [])) (slotsOf (draft.values.getD []))
      (slotsOf (draft.statements.getD []))

/-- The fields of a block, one level down. -/
def readFieldsAt? : Nat → Written → Option (List (String × FieldValue))
  | _ + 1, .object members => readFields? members
  | _, _ => none

mutual

/-- A block that is nested at most `depth` deep: an object, or an array of its parts in order. -/
def read? (depth : Nat) : Written → Option Block
  | .object members =>
    match depth with
    | depth + 1 => do
      let draft ← readMembers? depth .blank members
      draft.block?
    | 0 => none
  | .array [kind] =>
    match depth with
    | _ + 1 => do
      let kind ← readText? kind
      Draft.block? ⟨kind, none, none, none⟩
    | 0 => none
  | .array [kind, fields] =>
    match depth with
    | depth + 1 => do
      let kind ← readText? kind
      let fields ← readFieldsAt? depth fields
      Draft.block? ⟨kind, fields, none, none⟩
    | 0 => none
  | .array [kind, fields, values] =>
    match depth with
    | depth + 1 => do
      let kind ← readText? kind
      let fields ← readFieldsAt? depth fields
      let values ← readValues? depth values
      Draft.block? ⟨kind, fields, values, none⟩
    | 0 => none
  | .array [kind, fields, values, statements] =>
    match depth with
    | depth + 1 => do
      let kind ← readText? kind
      let fields ← readFieldsAt? depth fields
      let values ← readValues? depth values
      let statements ← readSlots? depth statements
      Draft.block? ⟨kind, fields, values, statements⟩
    | 0 => none
  | _ => none

/-- The members of a block.  A known one stands once at most, and others are ignored. -/
def readMembers? (depth : Nat) (draft : Draft) : List (List Char × Written) → Option Draft
  | [] => some draft
  | (key, w) :: members =>
    match Json.decodeBody? key, draft.kind, draft.fields, draft.values, draft.statements with
    | none, _, _, _, _ => none
    | some "type", none, _, _, _ => do
      let kind ← readText? w
      readMembers? depth { draft with kind := some kind } members
    | some "fields", _, none, _, _ => do
      let fields ← readFieldsAt? depth w
      readMembers? depth { draft with fields := some fields } members
    | some "values", _, _, none, _ => do
      let values ← readValues? depth w
      readMembers? depth { draft with values := some values } members
    | some "statements", _, _, _, none => do
      let statements ← readSlots? depth w
      readMembers? depth { draft with statements := some statements } members
    | some name, _, _, _, _ =>
      if ["type", "fields", "values", "statements"].contains name then none
      else readMembers? depth draft members

/-- The value slots of a block. -/
def readValues? (depth : Nat) : Written → Option (List (String × Block))
  | .object members =>
    match depth with
    | depth + 1 => readValueMembers? depth members
    | 0 => none
  | _ => none

/-- Blocks under their names. -/
def readValueMembers? (depth : Nat) : List (List Char × Written) → Option (List (String × Block))
  | [] => some []
  | (key, w) :: members => do
    let name ← Json.decodeBody? key
    let b ← read? depth w
    let rest ← readValueMembers? depth members
    return (name, b) :: rest

/-- The statement slots of a block. -/
def readSlots? (depth : Nat) : Written → Option (List (String × List Block))
  | .object members =>
    match depth with
    | depth + 1 => readSlotMembers? depth members
    | 0 => none
  | _ => none

/-- Sequences of blocks under their names. -/
def readSlotMembers? (depth : Nat) :
    List (List Char × Written) → Option (List (String × List Block))
  | [] => some []
  | (key, w) :: members => do
    let name ← Json.decodeBody? key
    let bs ← readSequence? depth w
    let rest ← readSlotMembers? depth members
    return (name, bs) :: rest

/-- A sequence of blocks. -/
def readSequence? (depth : Nat) : Written → Option (List Block)
  | .array items =>
    match depth with
    | depth + 1 => readItems? depth items
    | 0 => none
  | _ => none

/-- The blocks of a sequence. -/
def readItems? (depth : Nat) : List Written → Option (List Block)
  | [] => some []
  | w :: ws => do
    let b ← read? depth w
    let rest ← readItems? depth ws
    return b :: rest

end

end Block

namespace Document

/-- The blocks of a document that is an object, of which other members are ignored. -/
def readBlocks? (found : Option (List Block)) :
    List (List Char × Written) → Option (Option (List Block))
  | [] => some found
  | (key, w) :: members => do
    let name ← Json.decodeBody? key
    if name = "blocks" then
      if found.isSome then none
      else
        let bs ← Block.readSequence? (Block.depthLimit - 1) w
        readBlocks? (some bs) members
    else readBlocks? found members

/-- The document of a tree of data: an object, or an array with the blocks. -/
def ofWritten? : Written → Option Document
  | .object members => do
    let found ← readBlocks? none members
    found.map Document.mk
  | .array [w] => (Block.readSequence? (Block.depthLimit - 1) w).map Document.mk
  | _ => none

/-- The document that a text denotes. -/
def read? (text : String) : Option Document := (Json.readWritten? text.toList).bind ofWritten?

/-- The document in a named text. -/
def ofSource (s : Source) : Except Diagnostic Document :=
  match read? s.content with
  | some d => .ok d
  | none => .error ⟨⟨.invalidDocument, .none⟩, .session, s.name⟩

end Document

end BlockEditor
