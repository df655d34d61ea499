import BlockEditor.Text.Bytes

/-!
# Text buffers

A text with a cursor, which is a byte offset into the text and never stands inside a character.
-/

namespace BlockEditor

/-- A text under edit.  The revision counts the changes of the text. -/
structure TextBuffer where
  text : List Char
  cursor : Nat
  revision : Nat
  deriving DecidableEq, Repr

namespace TextBuffer

/-- A buffer without text. -/
def empty : TextBuffer := ⟨[], 0, 0⟩

/-- A buffer with a text, and the cursor behind it. -/
def ofText (text : List Char) : TextBuffer := ⟨text, Text.byteLength text, 0⟩

/-- The text in front of the cursor, and the text behind it. -/
def sides (b : TextBuffer) : List Char × List Char := Text.splitAtByte b.cursor b.text

/-- Moves the cursor to an offset, or back to the last place before it where a cursor may stand. -/
def moveTo (b : TextBuffer) (offset : Nat) : TextBuffer :=
  { b with cursor := Text.byteLength (Text.splitAtByte offset b.text).1 }

/-- Types a text at the cursor. -/
def insert (b : TextBuffer) (input : List Char) : TextBuffer :=
  let (before, after) := b.sides
  ⟨before ++ input ++ after, b.cursor + Text.byteLength input, b.revision + 1⟩

/-- Deletes the character in front of the cursor, if there is one. -/
def backspace (b : TextBuffer) : TextBuffer :=
  let (before, after) := b.sides
  match before.getLast? with
  | some c => ⟨before.dropLast ++ after, b.cursor - c.utf8Size, b.revision + 1⟩
  | none => b

/-- Replaces the text, and puts the cursor in front of it. -/
def setText (b : TextBuffer) (text : List Char) : TextBuffer := ⟨text, 0, b.revision + 1⟩

example : ((ofText "aé".toList).moveTo 2).cursor = 1 ∧
    (ofText "aé".toList).backspace.text = ['a'] ∧
    (((ofText "ab".toList).moveTo 1).insert ['é']).text = ['a', 'é', 'b'] := by
  decide

end TextBuffer

end BlockEditor
