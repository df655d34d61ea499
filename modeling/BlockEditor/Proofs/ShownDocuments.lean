import BlockEditor.Proofs.MarkupReading

/-!
# Documents from their markup

The markup of a document can be read in one way only.  Its tags are balanced, and a reader that
matches tags recovers the document from it, whatever kinds, names and texts it holds: every block
with its kind, its fields, its value slots and its statement slots, and all sequences in their
order.  What is lost is what markup does not show, the difference between a number and its text, and
empty statement slots.
-/

namespace BlockEditor

namespace Block

open Markup

/-! ## The nodes of blocks -/

/-- The element of a field. -/
def fieldElement (entry : String × FieldValue) : Node :=
  .element "field".toList (some ("name".toList, entry.1.toList))
    (if entry.2.display = [] then [] else [.text entry.2.display])

/-- The element of a block with the given content. -/
def blockElement (b : Block) (content : List Node) : Node :=
  .element "block".toList (some ("type".toList, b.kind.toList)) content

mutual

/-- The elements in a block, without the one for the blocks behind it. -/
def partElements : Block → List Node
  | mk _ fields values statements =>
    fields.map fieldElement ++ valueElements values ++ slotElements statements

/-- The elements of value slots. -/
def valueElements : List (String × Block) → List Node
  | [] => []
  | (name, b) :: slots =>
    .element "value".toList (some ("name".toList, name.toList))
      [b.blockElement (partElements b)] :: valueElements slots

/-- The elements of statement slots. -/
def slotElements : List (String × List Block) → List Node
  | [] => []
  | (_, []) :: slots => slotElements slots
  | (name, b :: bs) :: slots =>
    .element "statement".toList (some ("name".toList, name.toList))
      [b.blockElement (partElements b ++ nextElements bs)] :: slotElements slots

/-- The element for the blocks behind a block. -/
def nextElements : List Block → List Node
  | [] => []
  | b :: bs =>
    [.element "next".toList none [b.blockElement (partElements b ++ nextElements bs)]]

end

/-- The element of a sequence of blocks. -/
def chainElements : List Block → List Node
  | [] => []
  | b :: bs => [b.blockElement (partElements b ++ nextElements bs)]

/-! ## Markup is read as nodes -/

open Node (marks marksOf)

/-- An element is read as its node, if what stands in it is. -/
theorem reads_element {name attr : String} (named : isName name.toList)
    (called : isName attr.toList) (value : List Char) {content : List Char} {ns : List Node}
    (inside : Reads content (marksOf ns)) :
    Reads (Markup.element name attr value content)
      (Node.element name.toList (some (attr.toList, value)) ns).marks :=
  ((reads_openTag named called value).append inside).append (reads_closeTag named)

/-- A field is read as its element. -/
theorem reads_field (entry : String × FieldValue) :
    Reads (field entry) (fieldElement entry).marks := by
  have texts : marksOf (if entry.2.display = [] then [] else [.text entry.2.display]) =
      textMarks entry.2.display := by
    unfold textMarks
    split <;> rfl
  have named : isName "field".toList := by decide
  have called : isName "name".toList := by decide
  have read := (reads_openTag named called entry.1.toList).append
    (reads_text named entry.2.display)
  rw [field, Markup.element, List.append_assoc, fieldElement, marks, texts]
  exact read

/-- The element of a block with the blocks behind it. -/
theorem reads_block {b : Block} {bs : List Block} (head : Reads (markupHead b)
      (.opening "block".toList (some ("type".toList, b.kind.toList)) :: marksOf (partElements b)))
    (behind : Reads (nextMarkup bs) (marksOf (nextElements bs))) :
    Reads (chainMarkup (b :: bs)) (marksOf (chainElements (b :: bs))) := by
  have named : isName "block".toList := by decide
  have read := (head.append behind).append (reads_closeTag named)
  rw [chainMarkup, chainElements, blockElement, marksOf, marksOf, List.append_nil, marks,
    Node.marksOf_append]
  exact read

mutual

/-- The start of a block is read as its tag and its parts. -/
theorem reads_markupHead : ∀ b : Block, Reads (markupHead b)
    (.opening "block".toList (some ("type".toList, b.kind.toList)) :: marksOf (partElements b))
  | mk kind fields values statements => by
    have named : isName "block".toList := by decide
    have called : isName "type".toList := by decide
    have opening := reads_openTag named called kind.toList
    have literals : Reads (fields.flatMap field) (marksOf (fields.map fieldElement)) := by
      have same : marksOf (fields.map fieldElement) =
          fields.flatMap fun e => (fieldElement e).marks := by
        induction fields with
        | nil => rfl
        | cons entry fields ih => rw [List.map_cons, marksOf, ih, List.flatMap_cons]
      rw [same]
      exact .flatMap reads_field fields
    rw [markupHead, partElements, Node.marksOf_append, Node.marksOf_append, List.append_assoc,
      List.append_assoc, List.append_assoc]
    exact opening.append (literals.append ((reads_valueMarkup values).append
      (reads_slotMarkup statements)))

/-- Value slots are read as their elements. -/
theorem reads_valueMarkup : ∀ slots : List (String × Block),
    Reads (valueMarkup slots) (marksOf (valueElements slots))
  | [] => .nil
  | (name, b) :: slots => by
    have block : Reads (chainMarkup [b]) (marksOf (chainElements [b])) :=
      reads_block (reads_markupHead b) .nil
    have inside : Reads (markupHead b ++ closeTag "block") (marksOf (chainElements [b])) := by
      rwa [chainMarkup, nextMarkup, nextHeads, nextTails, List.length_nil, List.replicate_zero,
        List.flatten_nil, List.append_nil, List.append_nil] at block
    rw [chainElements, nextElements, List.append_nil] at inside
    rw [valueMarkup, valueElements, marksOf]
    exact (reads_element (by decide) (by decide) name.toList inside).append
      (reads_valueMarkup slots)

theorem reads_slotMarkup : ∀ slots : List (String × List Block),
    Reads (slotMarkup slots) (marksOf (slotElements slots))
  | [] => .nil
  | (_, []) :: slots => by rw [slotMarkup, slotElements]; exact reads_slotMarkup slots
  | (name, b :: bs) :: slots => by
    have block := reads_block (reads_markupHead b) (reads_nextMarkup bs)
    rw [chainMarkup, nextMarkup, ← List.append_assoc (markupHead b)] at block
    rw [slotMarkup, slotElements, marksOf]
    exact (reads_element (by decide) (by decide) name.toList block).append (reads_slotMarkup slots)

theorem reads_nextMarkup : ∀ bs : List Block, Reads (nextMarkup bs) (marksOf (nextElements bs))
  | [] => .nil
  | b :: bs => by
    have block := reads_block (reads_markupHead b) (reads_nextMarkup bs)
    rw [nextMarkup_cons, nextElements, marksOf, marksOf, List.append_nil]
    exact ((reads_bareTag (by decide)).append block).append (reads_closeTag (by decide))

end

theorem reads_chainMarkup : ∀ bs : List Block, Reads (chainMarkup bs) (marksOf (chainElements bs))
  | [] => .nil
  | b :: bs => reads_block (reads_markupHead b) (reads_nextMarkup bs)

/-! ## Blocks from nodes -/

/-- What stands in the element of a block: its fields, its slots, and the blocks behind it. -/
structure Parts where
  fields : List (String × FieldValue)
  values : List (String × Block)
  statements : List (String × List Block)
  next : List Block

/-- The text in an element that holds no other element. -/
def textOf? : List Node → Option String
  | [] => some (String.ofList [])
  | [.text content] => some (String.ofList content)
  | _ => none

/-- Adds a slot with a chain of blocks: a value slot, which holds one block, or a statement slot. -/
def Parts.addSlot? (p : Parts) (element : List Char) (name : String) (bs : List Block) :
    Option Parts :=
  if element = "statement".toList then some { p with statements := (name, bs) :: p.statements }
  else if element = "value".toList then match bs with
    | [b] => some { p with values := (name, b) :: p.values }
    | _ => none
  else none

/-- Adds the blocks behind a block. -/
def Parts.addNext? (p : Parts) (element : List Char) (bs : List Block) : Option Parts :=
  if element = "next".toList ∧ p.next = [] then some { p with next := bs } else none

/-- A value slot takes a single block. -/
theorem Parts.addSlot?_value (p : Parts) (name : String) (b : Block) :
    p.addSlot? "value".toList name [b] = some { p with values := (name, b) :: p.values } := by
  rw [addSlot?, if_neg (by decide), if_pos rfl]

/-- A statement slot takes a sequence. -/
theorem Parts.addSlot?_statement (p : Parts) (name : String) (bs : List Block) :
    p.addSlot? "statement".toList name bs =
      some { p with statements := (name, bs) :: p.statements } := if_pos rfl

/-- The blocks behind a block are taken once. -/
theorem Parts.addNext?_next {p : Parts} (free : p.next = []) (bs : List Block) :
    p.addNext? "next".toList bs = some { p with next := bs } := if_pos ⟨rfl, free⟩

mutual

/-- The blocks of the chain that an element starts. -/
def chainOf? : Node → Option (List Block)
  | .text _ => none
  | .element _ none _ => none
  | .element name (some (attr, kind)) content =>
    if name = "block".toList ∧ attr = "type".toList then
      (partsOf? content).map fun p =>
        mk (String.ofList kind) p.fields p.values p.statements :: p.next
    else none

/-- The blocks in an element that holds nothing but a chain. -/
def sequenceOf? : List Node → Option (List Block)
  | [] => some []
  | [n] => chainOf? n
  | _ :: _ :: _ => none

/-- What stands in the element of a block. -/
def partsOf? : List Node → Option Parts
  | [] => some ⟨[], [], [], []⟩
  | .text _ :: _ => none
  | .element element none content :: ns => (partsOf? ns).bind fun p =>
    (sequenceOf? content).bind (p.addNext? element)
  | .element element (some (attr, name)) content :: ns => (partsOf? ns).bind fun p =>
    if attr = "name".toList then
      if element = "field".toList then (textOf? content).map fun text =>
        { p with fields := (String.ofList name, .text text) :: p.fields }
      else (sequenceOf? content).bind (p.addSlot? element (String.ofList name))
    else none

end

/-! ## What is recovered -/

/-- A field with its text as it is shown. -/
def shownField (entry : String × FieldValue) : String × FieldValue :=
  (entry.1, .text (String.ofList entry.2.display))

mutual

/-- A block as markup shows it: fields hold their texts, and no statement slot is empty. -/
def shown : Block → Block
  | mk kind fields values statements =>
    mk kind (fields.map shownField) (shownValues values) (shownSlots statements)

/-- Blocks as markup shows them. -/
def shownAll : List Block → List Block
  | [] => []
  | b :: bs => shown b :: shownAll bs

/-- Value slots as markup shows them. -/
def shownValues : List (String × Block) → List (String × Block)
  | [] => []
  | (name, b) :: slots => (name, shown b) :: shownValues slots

/-- Statement slots as markup shows them. -/
def shownSlots : List (String × List Block) → List (String × List Block)
  | [] => []
  | (_, []) :: slots => shownSlots slots
  | (name, b :: bs) :: slots => (name, shown b :: shownAll bs) :: shownSlots slots

end

/-- The parts of a block with the blocks behind it. -/
def Parts.ofBlock (b : Block) (next : List Block) : Parts :=
  ⟨b.fields, b.values, b.statements, next⟩

/-- A field is recovered from its element. -/
theorem partsOf?_fieldElement (entry : String × FieldValue) (ns : List Node) :
    partsOf? (fieldElement entry :: ns) =
      (partsOf? ns).map fun p => { p with fields := shownField entry :: p.fields } := by
  have text : textOf? (if entry.2.display = [] then [] else [.text entry.2.display]) =
      some (String.ofList entry.2.display) := by
    split
    case isTrue empty => rw [empty, textOf?]
    case isFalse some => rw [textOf?]
  rw [fieldElement, partsOf?, text, Option.map_eq_bind]
  simp only [if_pos, Option.map_some, String.ofList_toList]
  rfl

theorem partsOf?_fieldElements (fields : List (String × FieldValue)) (ns : List Node) :
    partsOf? (fields.map fieldElement ++ ns) =
      (partsOf? ns).map fun p => { p with fields := fields.map shownField ++ p.fields } := by
  induction fields with
  | nil => exact (Option.map_id' (x := partsOf? ns)).symm
  | cons entry fields ih =>
    rw [List.map_cons, List.cons_append, partsOf?_fieldElement, ih, Option.map_map]
    rfl

/-- A block is recovered with those behind it, if its parts are. -/
theorem chainOf?_block {b : Block} {next : List Block} {ns : List Node}
    (parts : partsOf? ns = some (.ofBlock b.shown next)) :
    chainOf? (b.blockElement ns) = some (b.shown :: next) := by
  obtain ⟨kind, fields, values, statements⟩ := b
  rw [blockElement, chainOf?, if_pos ⟨rfl, rfl⟩, parts, Option.map_some, Block.kind,
    String.ofList_toList]
  rfl

mutual

/-- The parts of a block are recovered from its elements. -/
theorem partsOf?_partElements : ∀ (b : Block) (ns : List Node) (next : List Block),
    partsOf? ns = some ⟨[], [], [], next⟩ →
      partsOf? (partElements b ++ ns) = some (.ofBlock b.shown next)
  | mk kind fields values statements, ns, next, behind => by
    rw [partElements, List.append_assoc, List.append_assoc, partsOf?_fieldElements,
      partsOf?_valueElements, partsOf?_slotElements, behind]
    simp only [Option.map_some, List.append_nil]
    rfl

theorem partsOf?_valueElements : ∀ (slots : List (String × Block)) (ns : List Node),
    partsOf? (valueElements slots ++ ns) =
      (partsOf? ns).map fun p => { p with values := shownValues slots ++ p.values }
  | [], ns => (Option.map_id' (x := partsOf? ns)).symm
  | (name, b) :: slots, ns => by
    have parts := partsOf?_partElements b [] [] rfl
    rw [List.append_nil] at parts
    rw [valueElements, List.cons_append, partsOf?, sequenceOf?, chainOf?_block parts,
      partsOf?_valueElements slots ns]
    cases partsOf? ns with
    | none => rfl
    | some p =>
      rw [Option.map_some, Option.bind_some, if_pos rfl, if_neg (by decide), Option.bind_some,
        Parts.addSlot?_value, shownValues, String.ofList_toList]
      rfl

theorem partsOf?_slotElements : ∀ (slots : List (String × List Block)) (ns : List Node),
    partsOf? (slotElements slots ++ ns) =
      (partsOf? ns).map fun p => { p with statements := shownSlots slots ++ p.statements }
  | [], ns => (Option.map_id' (x := partsOf? ns)).symm
  | (_, []) :: slots, ns => by rw [slotElements, shownSlots, partsOf?_slotElements slots ns]
  | (name, b :: bs) :: slots, ns => by
    have parts := partsOf?_partElements b _ _ (partsOf?_nextElements bs)
    rw [slotElements, List.cons_append, partsOf?, sequenceOf?, chainOf?_block parts,
      partsOf?_slotElements slots ns]
    cases partsOf? ns with
    | none => rfl
    | some p =>
      rw [Option.map_some, Option.bind_some, if_pos rfl, if_neg (by decide), Option.bind_some,
        Parts.addSlot?_statement, shownSlots, String.ofList_toList]
      rfl

theorem partsOf?_nextElements : ∀ bs : List Block,
    partsOf? (nextElements bs) = some ⟨[], [], [], shownAll bs⟩
  | [] => rfl
  | b :: bs => by
    have parts := partsOf?_partElements b _ _ (partsOf?_nextElements bs)
    rw [nextElements, partsOf?, sequenceOf?, chainOf?_block parts, partsOf?, Option.bind_some,
      Option.bind_some, Parts.addNext?_next rfl, shownAll]

end

theorem sequenceOf?_chainElements : ∀ bs : List Block,
    sequenceOf? (chainElements bs) = some (shownAll bs)
  | [] => rfl
  | b :: bs => by
    rw [chainElements, sequenceOf?,
      chainOf?_block (partsOf?_partElements b _ _ (partsOf?_nextElements bs)), shownAll]

end Block

/-! ## Documents -/

namespace Document

open Markup

/-- A document as markup shows it. -/
def shown (d : Document) : Document := ⟨Block.shownAll d.blocks⟩

/-- The document with the given marks. -/
def ofMarks? (marks : List Mark) : Option Document :=
  match nest? [] [] marks with
  | some [.element name (some (attr, value)) content] =>
    if name = "xml".toList ∧ attr = "xmlns".toList ∧ value = vocabulary.toList then
      (Block.sequenceOf? content).map Document.mk
    else none
  | _ => none

/-- The element of a document. -/
def node (d : Document) : Node :=
  .element "xml".toList (some ("xmlns".toList, vocabulary.toList)) (Block.chainElements d.blocks)

/-- The markup of a document is read as the marks of its element. -/
theorem readMarks_markup (d : Document) : readMarks d.markup.toList = some d.node.marks := by
  rw [markup, String.toList_ofList]
  exact (Block.reads_element (by decide) (by decide) _ (Block.reads_chainMarkup d.blocks)).readMarks

/-- From those marks the document is recovered, as it is shown. -/
theorem ofMarks?_marks (d : Document) : ofMarks? d.node.marks = some d.shown := by
  have nested := d.node.nest?_marks [] [] []
  rw [List.append_nil] at nested
  rw [ofMarks?, nested]
  simp [nest?, node, Block.sequenceOf?_chainElements, shown]

/-- Markup can be read in one way only.  The tags of a document's markup are balanced, and from them
the document is recovered with its kinds, the shown texts of its fields, its value slots, the
statement slots that are not empty, and the order of every sequence. -/
theorem ofMarks?_readMarks_markup (d : Document) :
    ∃ marks, readMarks d.markup.toList = some marks ∧ Balanced marks ∧
      ofMarks? marks = some d.shown := by
  have balanced := d.node.balanced_marks_append .nil
  rw [List.append_nil] at balanced
  exact ⟨d.node.marks, readMarks_markup d, balanced, ofMarks?_marks d⟩

end Document

end BlockEditor
