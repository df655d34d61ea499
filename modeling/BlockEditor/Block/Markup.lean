import BlockEditor.Block.Basic

/-!
# Markup of blocks

Documents as markup with nested tags.  Neighbouring blocks form a chain: each but the last holds its
successor in a `next` element.
-/

namespace BlockEditor

namespace Markup

/-! ## Text -/

/-- A character between tags or in an attribute. -/
def escapeChar (c : Char) : List Char :=
  if c = '&' then "&amp;".toList
  else if c = '<' then "&lt;".toList
  else if c = '>' then "&gt;".toList
  else if c = '"' then "&quot;".toList
  else if c = '\'' then "&apos;".toList
  else if c = '\n' then "&#10;".toList
  else [c]

/-- A text between tags or in an attribute. -/
def escape (cs : List Char) : List Char := cs.flatMap escapeChar

/-! ## Elements -/

/-- The tag that opens an element with one attribute. -/
def openTag (element attr : String) (value : List Char) : List Char :=
  '<' :: element.toList ++ ' ' :: attr.toList ++ "=\"".toList ++ escape value ++ "\">".toList

/-- The tag that opens an element without attributes. -/
def bareTag (element : String) : List Char := '<' :: element.toList ++ ['>']

/-- The tag that closes an element. -/
def closeTag (element : String) : List Char := '<' :: '/' :: element.toList ++ ['>']

/-- An element with one attribute. -/
def element (element attr : String) (value content : List Char) : List Char :=
  openTag element attr value ++ content ++ closeTag element

/-- The element of a field. -/
def field (entry : String × FieldValue) : List Char :=
  element "field" "name" entry.1.toList (escape entry.2.display)

end Markup

namespace Block

open Markup

/-! ## Chains -/

/-- The tags that close the `next` elements of `n` blocks. -/
def nextTails (n : Nat) : List Char :=
  (List.replicate n (closeTag "block" ++ closeTag "next")).flatten

mutual

/-- The opening tag of a block with the contents of the block behind it. -/
def markupHead : Block → List Char
  | mk kind fields values statements =>
    openTag "block" "type" kind.toList ++ fields.flatMap field ++ valueMarkup values ++
      slotMarkup statements

/-- The elements of value slots. -/
def valueMarkup : List (String × Block) → List Char
  | [] => []
  | (name, b) :: slots =>
    element "value" "name" name.toList (markupHead b ++ closeTag "block") ++ valueMarkup slots

/-- The elements of statement slots; an empty one has none. -/
def slotMarkup : List (String × List Block) → List Char
  | [] => []
  | (_, []) :: slots => slotMarkup slots
  | (name, b :: bs) :: slots =>
    element "statement" "name" name.toList
      (markupHead b ++ nextHeads bs ++ nextTails bs.length ++ closeTag "block") ++
        slotMarkup slots

/-- The blocks behind a block, each in a `next` element that is left open. -/
def nextHeads : List Block → List Char
  | [] => []
  | b :: bs => bareTag "next" ++ markupHead b ++ nextHeads bs

end

/-- The element for the blocks behind a block. -/
def nextMarkup (bs : List Block) : List Char := nextHeads bs ++ nextTails bs.length

/-- The chain of a sequence of blocks. -/
def chainMarkup : List Block → List Char
  | [] => []
  | b :: bs => markupHead b ++ nextMarkup bs ++ closeTag "block"

/-- The tags of one block more stand behind all others. -/
theorem nextTails_succ (n : Nat) :
    nextTails (n + 1) = nextTails n ++ (closeTag "block" ++ closeTag "next") := by
  unfold nextTails
  rw [List.replicate_succ', List.flatten_append, List.flatten_singleton]

/-- A block holds its successors in its own `next` element. -/
theorem nextMarkup_cons (b : Block) (bs : List Block) :
    nextMarkup (b :: bs) = bareTag "next" ++ chainMarkup (b :: bs) ++ closeTag "next" := by
  unfold nextMarkup chainMarkup
  simp only [nextMarkup, nextHeads, List.length_cons, nextTails_succ, List.append_assoc]

end Block

/-- The name of the markup vocabulary. -/
def Markup.vocabulary : String := "https://developers.google.com/blockly/xml"

/-- The markup of a document. -/
def Document.markup (d : Document) : String :=
  String.ofList (Markup.element "xml" "xmlns" Markup.vocabulary.toList
    (Block.chainMarkup d.blocks))

end BlockEditor
