import BlockEditor.Editor.TextBuffer
import BlockEditor.Proofs.Boundaries
import Mathlib.Data.List.Induction
import Mathlib.Data.Nat.Find

/-!
# The cursor of a text

The text under edit is stored as bytes, with a cursor that counts bytes.  Cutting these bytes inside a
character is not possible, but no edit comes to this: the cursor stays in front of a character or at
the end, and the text is that of the characters on its two sides.
-/

namespace BlockEditor

namespace Text

/-! ## Cutting a text -/

variable {text before after : List Char} {offset : Nat}

/-- A text is cut at a boundary into what stands on its two sides. -/
theorem splitAtByte_byteLength (before after : List Char) :
    splitAtByte (byteLength before) (before ++ after) = (before, after) := by
  induction before with
  | nil =>
    cases after with
    | nil => rfl
    | cons c cs =>
      have := c.utf8Size_pos
      rw [byteLength_nil, List.nil_append, splitAtByte, if_neg (by omega)]
  | cons c cs ih =>
    rw [List.cons_append, splitAtByte, byteLength_cons, if_pos (Nat.le_add_right _ _),
      Nat.add_sub_cancel_left, ih]

/-- No more characters fit in front of an offset than those that a text is cut behind. -/
theorem byteLength_le_splitAtByte (fits : byteLength before ≤ offset) (after : List Char) :
    byteLength before ≤ byteLength (splitAtByte offset (before ++ after)).1 := by
  induction before generalizing offset with
  | nil => exact Nat.zero_le _
  | cons c cs ih =>
    rw [byteLength_cons] at fits
    have := ih (show byteLength cs ≤ offset - c.utf8Size by omega)
    rw [List.cons_append, splitAtByte, if_pos (by omega), byteLength_cons, byteLength_cons]
    omega

/-- A text is cut no earlier than at a boundary in front of the offset. -/
theorem IsBoundary.le_splitAtByte {boundary : Nat} (h : IsBoundary text boundary)
    (le : boundary ≤ offset) : boundary ≤ byteLength (splitAtByte offset text).1 := by
  obtain ⟨before, after, rfl, rfl⟩ := h
  exact byteLength_le_splitAtByte le after

/-- The greatest number of characters at the front of a text that take no more bytes than given. -/
def fitting (offset : Nat) (text : List Char) : Nat :=
  Nat.findGreatest (fun n => byteLength (text.take n) ≤ offset) text.length

/-- A text is cut behind the characters that fit in front of the offset. -/
theorem splitAtByte_eq_fitting (offset : Nat) (text : List Char) :
    splitAtByte offset text = (text.take (fitting offset text), text.drop (fitting offset text)) := by
  rcases halves : splitAtByte offset text with ⟨before, after⟩
  have whole := splitAtByte_append offset text
  have fits := byteLength_splitAtByte_le offset text
  rw [halves] at whole fits
  subst whole
  have count : fitting offset (before ++ after) = before.length := by
    refine (Nat.findGreatest_eq_iff).2 ⟨by simp, fun _ => by rwa [List.take_left], ?_⟩
    -- with one more character in front, the text would have been cut further behind
    intro n more within fits'
    have most := byteLength_le_splitAtByte fits' ((before ++ after).drop n)
    rw [List.take_append_drop, halves, List.take_append, byteLength_append,
      List.take_of_length_le (by omega)] at most
    rw [List.length_append] at within
    cases after with
    | nil =>
      rw [List.length_nil] at within
      omega
    | cons c cs =>
      obtain ⟨k, rfl⟩ : ∃ k, n = before.length + (k + 1) := ⟨n - before.length - 1, by omega⟩
      have := c.utf8Size_pos
      rw [Nat.add_sub_cancel_left, List.take_succ_cons, byteLength_cons] at most
      dsimp only at most
      omega
  rw [count, List.take_left, List.drop_left]

/-! ## Cutting its bytes -/

/-- Whether bytes can be cut at an offset: at either end, or in front of the first byte of a character. -/
def canCut (bs : List UInt8) (offset : Nat) : Bool :=
  offset == 0 || offset == bs.length || bs[offset]?.any fun b => decide b.IsUTF8FirstByte

/-- The bytes on the two sides of an offset, if they can be cut there. -/
def cut? (bs : List UInt8) (offset : Nat) : Option (List UInt8 × List UInt8) :=
  if canCut bs offset then some (bs.take offset, bs.drop offset) else none

/-- The bytes without the character behind an offset.  They must be cut there, and there must be a
character. -/
def without? (bs : List UInt8) (offset : Nat) : Option (List UInt8) :=
  match cut? bs offset with
  | some (front, _ :: rest) => some (front ++ rest.dropWhile fun b => !decide b.IsUTF8FirstByte)
  | _ => none

/-- Number of bytes of the last character, if there is one. -/
def lastWidth? (bs : List UInt8) : Option Nat :=
  (bs.reverse.findIdx? fun b => decide b.IsUTF8FirstByte).map (· + 1)

/-- An offset moved back until the bytes can be cut there; it cannot be moved back beyond the start. -/
def snap? (bs : List UInt8) : Nat → Option Nat
  | 0 => if canCut bs 0 then some 0 else none
  | n + 1 => if canCut bs (n + 1) then some (n + 1) else snap? bs n

section Bytes

variable {bs : List UInt8} {c : Char}

/-- Only the first byte of a character is a first byte. -/
theorem exists_utf8EncodeChar (c : Char) : ∃ first others, String.utf8EncodeChar c = first :: others ∧
    first.IsUTF8FirstByte ∧ ∀ b ∈ others, ¬ b.IsUTF8FirstByte := by
  have size := String.length_utf8EncodeChar c
  have marked : ∀ i (inside : i < (String.utf8EncodeChar c).length),
      (String.utf8EncodeChar c)[i].IsUTF8FirstByte ↔ i = 0 :=
    fun _ _ => UInt8.isUTF8FirstByte_getElem_utf8EncodeChar
  cases encoded : String.utf8EncodeChar c with
  | nil =>
    have := c.utf8Size_pos
    rw [encoded, List.length_nil] at size
    omega
  | cons first others =>
    simp only [encoded] at marked
    refine ⟨first, others, rfl, (marked 0 (Nat.succ_pos _)).2 rfl, fun b member => ?_⟩
    obtain ⟨i, inside, rfl⟩ := List.mem_iff_getElem.1 member
    exact fun isFirst => Nat.succ_ne_zero i ((marked (i + 1) (Nat.succ_lt_succ inside)).1 isFirst)

theorem bytes_cons (c : Char) (cs : List Char) :
    bytes (c :: cs) = String.utf8EncodeChar c ++ bytes cs := rfl

/-- Bytes can be cut at their ends and in front of a first byte. -/
theorem canCut_iff : canCut bs offset = true ↔
    offset = 0 ∨ offset = bs.length ∨ ∃ b, bs[offset]? = some b ∧ b.IsUTF8FirstByte := by
  simp [canCut, Option.any_eq_true, or_assoc]

/-- Inside a character the bytes cannot be cut, and behind it they can be cut where those of the rest can. -/
theorem canCut_of_canCut_bytes_cons {cs : List Char} (cuts : canCut (bytes (c :: cs)) offset = true) :
    offset = 0 ∨ ∃ k, offset = c.utf8Size + k ∧ canCut (bytes cs) k = true := by
  obtain ⟨first, others, encoded, -, inner⟩ := exists_utf8EncodeChar c
  have size : (first :: others).length = c.utf8Size := by
    rw [← encoded, String.length_utf8EncodeChar]
  rw [bytes_cons, encoded] at cuts
  -- The offset lies in the first character or behind it.
  rcases Nat.lt_or_ge offset c.utf8Size with within | behind
  · left
    rcases canCut_iff.1 cuts with zero | whole | ⟨b, found, isFirst⟩
    · exact zero
    · rw [List.length_append] at whole
      omega
    · rw [List.getElem?_append_left (by omega)] at found
      cases offset with
      | zero => rfl
      | succ i =>
        rw [List.getElem?_cons_succ] at found
        exact absurd isFirst (inner b (List.mem_of_getElem? found))
  · right
    obtain ⟨k, rfl⟩ := Nat.exists_eq_add_of_le behind
    refine ⟨k, rfl, canCut_iff.2 ?_⟩
    rw [← size] at cuts
    rcases canCut_iff.1 cuts with zero | whole | ⟨b, found, isFirst⟩
    · rw [List.length_cons] at zero
      omega
    · rw [List.length_append] at whole
      exact .inr (.inl (by omega))
    · rw [List.getElem?_append_right (Nat.le_add_right _ _), Nat.add_sub_cancel_left] at found
      exact .inr (.inr ⟨b, found, isFirst⟩)

/-- The bytes of a text can be cut at a boundary. -/
theorem IsBoundary.canCut (h : IsBoundary text offset) : canCut (bytes text) offset = true := by
  obtain ⟨before, after, rfl, rfl⟩ := h
  rw [canCut_iff, bytes_append, ← length_bytes]
  cases after with
  | nil => exact .inr (.inl (by simp [bytes]))
  | cons c cs =>
    obtain ⟨first, others, encoded, isFirst, -⟩ := exists_utf8EncodeChar c
    refine .inr (.inr ⟨first, ?_, isFirst⟩)
    rw [List.getElem?_append_right (Nat.le_refl _), Nat.sub_self, bytes_cons, encoded]
    rfl

/-- The bytes of a text can be cut exactly at the boundaries of the text. -/
theorem canCut_bytes_iff : canCut (bytes text) offset = true ↔ IsBoundary text offset := by
  refine ⟨fun cuts => ?_, IsBoundary.canCut⟩
  induction text generalizing offset with
  | nil =>
    rcases canCut_iff.1 cuts with rfl | rfl | ⟨b, found, -⟩
    · exact isBoundary_zero []
    · exact isBoundary_zero []
    · cases found
  | cons c cs ih =>
    rcases canCut_of_canCut_bytes_cons cuts with rfl | ⟨k, rfl, cuts'⟩
    · exact isBoundary_zero _
    · obtain ⟨before, after, rfl, rfl⟩ := ih cuts'
      exact ⟨c :: before, after, rfl, rfl⟩

/-- There they are cut into those of the two sides. -/
theorem cut?_bytes (before after : List Char) :
    cut? (bytes (before ++ after)) (byteLength before) = some (bytes before, bytes after) := by
  rw [cut?, if_pos (canCut_bytes_iff.2 (isBoundary_append before after)), bytes_append, ← length_bytes,
    List.take_left, List.drop_left]

/-- The bytes of a text begin with a first byte. -/
theorem dropWhile_bytes (text : List Char) :
    (bytes text).dropWhile (fun b => !decide b.IsUTF8FirstByte) = bytes text := by
  cases text with
  | nil => rfl
  | cons c cs =>
    obtain ⟨first, others, encoded, isFirst, -⟩ := exists_utf8EncodeChar c
    rw [bytes_cons, encoded, List.cons_append, List.dropWhile_cons_of_neg (by simpa using isFirst)]

/-- Behind a boundary one character is taken out. -/
theorem without?_bytes (before after : List Char) (c : Char) :
    without? (bytes (before ++ c :: after)) (byteLength before) = some (bytes (before ++ after)) := by
  obtain ⟨first, others, encoded, -, inner⟩ := exists_utf8EncodeChar c
  rw [without?, cut?_bytes, bytes_cons, encoded]
  change some (bytes before ++ (others ++ bytes after).dropWhile _) = _
  rw [List.dropWhile_append_of_pos (by simpa using inner), dropWhile_bytes, bytes_append]

/-- The last character of a text is as wide as its bytes show. -/
theorem lastWidth?_bytes_append (before : List Char) (c : Char) :
    lastWidth? (bytes (before ++ [c])) = some c.utf8Size := by
  obtain ⟨first, others, encoded, isFirst, inner⟩ := exists_utf8EncodeChar c
  have size := String.length_utf8EncodeChar c
  rw [encoded, List.length_cons] at size
  have none : others.reverse.findIdx? (fun b => decide b.IsUTF8FirstByte) = none :=
    List.findIdx?_eq_none_iff.2 fun b member =>
      decide_eq_false (inner b (List.mem_reverse.1 member))
  rw [lastWidth?, bytes_append, bytes_cons, encoded]
  simp [List.findIdx?_append, none, List.findIdx?_cons, isFirst, size, bytes]

/-- An offset is moved back to the greatest one below it at which the bytes can be cut. -/
theorem snap?_eq_some {n k : Nat} (here : canCut bs k = true) (le : k ≤ n)
    (above : ∀ j, k < j → j ≤ n → canCut bs j = false) : snap? bs n = some k := by
  induction n with
  | zero =>
    obtain rfl := Nat.le_zero.1 le
    rw [snap?, if_pos here]
  | succ n ih =>
    rw [snap?]
    rcases Nat.eq_or_lt_of_le le with rfl | less
    · rw [if_pos here]
    · rw [above (n + 1) less (Nat.le_refl _)]
      exact ih (by omega) fun j more within => above j more (by omega)

/-- In the bytes of a text this is the place behind the characters that fit in front of the offset. -/
theorem snap?_bytes (offset : Nat) (text : List Char) :
    snap? (bytes text) (min offset (bytes text).length) =
      some (byteLength (splitAtByte offset text).1) := by
  have boundary : IsBoundary text (byteLength (splitAtByte offset text).1) :=
    ⟨_, _, (splitAtByte_append offset text).symm, rfl⟩
  rw [length_bytes]
  refine snap?_eq_some (canCut_bytes_iff.2 boundary)
    (Nat.le_min.2 ⟨byteLength_splitAtByte_le offset text, boundary.le⟩) fun j more within => ?_
  rw [Bool.eq_false_iff]
  intro other
  have := (canCut_bytes_iff.1 other).le_splitAtByte (show j ≤ offset by omega)
  omega

end Bytes

end Text

/-! ## Edits -/

namespace TextBuffer

/-- What can be done to a text under edit. -/
inductive Edit where
  | insert (input : List Char)
  | backspace
  | moveTo (offset : Nat)
  | setText (text : List Char)

/-- Carries out an edit. -/
def edit (b : TextBuffer) : Edit → TextBuffer
  | .insert input => b.insert input
  | .backspace => b.backspace
  | .moveTo offset => b.moveTo offset
  | .setText text => b.setText text

/-- Carries out edits one after the other. -/
def run (b : TextBuffer) (edits : List Edit) : TextBuffer := edits.foldl edit b

/-- The characters in front of a cursor and those behind it. -/
structure Sides where
  before : List Char
  after : List Char

namespace Sides

/-- What an edit does to the characters.  A new place of the cursor is given in bytes, and as many characters
come to stand in front of it as fit into them. -/
def edit (p : Sides) : Edit → Sides
  | .insert input => ⟨p.before ++ input, p.after⟩
  | .backspace => ⟨p.before.dropLast, p.after⟩
  | .moveTo offset =>
    let text := p.before ++ p.after
    ⟨text.take (Text.fitting offset text), text.drop (Text.fitting offset text)⟩
  | .setText text => ⟨[], text⟩

/-- What edits do to the characters one after the other. -/
def run (p : Sides) (edits : List Edit) : Sides := edits.foldl edit p

/-- As many characters as have been typed are deleted again. -/
theorem run_insert_backspaces (p : Sides) (input : List Char) :
    p.run (.insert input :: List.replicate input.length .backspace) = p := by
  suffices deleted : ∀ input front, run ⟨front ++ input, p.after⟩
      (List.replicate input.length .backspace) = ⟨front, p.after⟩ from deleted input p.before
  -- the character typed last is deleted first
  intro input
  induction input using List.reverseRecOn with
  | nil =>
    intro front
    rw [List.append_nil]
    rfl
  | append_singleton input c ih =>
    intro front
    rw [List.length_append, List.length_singleton, List.replicate_succ, ← List.append_assoc]
    change run ⟨(front ++ input ++ [c]).dropLast, p.after⟩ _ = _
    rw [List.dropLast_concat]
    exact ih front

end Sides

/-- A text as it is stored, in bytes. -/
structure Stored where
  bytes : List UInt8
  cursor : Nat
  revision : Nat

namespace Stored

open BlockEditor.Text (cut? without? lastWidth? snap?)

/-- Types bytes at the cursor. -/
def insert? (s : Stored) (input : List UInt8) : Option Stored := do
  let (front, back) ← cut? s.bytes s.cursor
  return ⟨front ++ input ++ back, s.cursor + input.length, s.revision + 1⟩

/-- Deletes the character in front of the cursor, if there is one. -/
def backspace? (s : Stored) : Option Stored := do
  let (front, _) ← cut? s.bytes s.cursor
  match lastWidth? front with
  | none => return s
  | some width =>
    if width ≤ s.cursor then
      let bytes ← without? s.bytes (s.cursor - width)
      return ⟨bytes, s.cursor - width, s.revision + 1⟩
    else none

/-- Moves the cursor to an offset, or back from there. -/
def moveTo? (s : Stored) (offset : Nat) : Option Stored := do
  let cursor ← snap? s.bytes (min offset s.bytes.length)
  return { s with cursor }

/-- Carries out an edit, if it cuts the bytes only where that can be done. -/
def edit? (s : Stored) : Edit → Option Stored
  | .insert input => s.insert? (Text.bytes input)
  | .backspace => s.backspace?
  | .moveTo offset => s.moveTo? offset
  | .setText text => some ⟨Text.bytes text, 0, s.revision + 1⟩

/-- Carries out edits one after the other, if none of them fails. -/
def run? (s : Stored) (edits : List Edit) : Option Stored := edits.foldlM edit? s

end Stored

/-- In two bytes of one character nothing can be typed. -/
example : Stored.insert? ⟨Text.bytes ['é'], 1, 0⟩ (Text.bytes ['a']) = none := rfl

/-- How a text is stored. -/
def stored (b : TextBuffer) : Stored := ⟨Text.bytes b.text, b.cursor, b.revision⟩

/-- The text consists of the characters on two sides, and the cursor stands between them. -/
structure Shows (b : TextBuffer) (p : Sides) : Prop where
  text : b.text = p.before ++ p.after
  cursor : b.cursor = Text.byteLength p.before

section Steps

variable {b : TextBuffer} {p : Sides}

/-- The two sides of a text are those that it shows. -/
theorem Shows.sides (h : b.Shows p) : b.sides = (p.before, p.after) := by
  rw [TextBuffer.sides, h.text, h.cursor, Text.splitAtByte_byteLength]

/-- The cursor stands at a boundary. -/
theorem Shows.isBoundary (h : b.Shows p) : Text.IsBoundary b.text b.cursor :=
  ⟨p.before, p.after, h.text, h.cursor.symm⟩

/-- A new text shows its characters, with the cursor at the end. -/
theorem shows_ofText (text : List Char) : (ofText text).Shows ⟨text, []⟩ :=
  ⟨(List.append_nil text).symm, rfl⟩

/-- Typing does the same to the sides and to the bytes. -/
theorem Shows.insert (h : b.Shows p) (input : List Char) :
    (b.insert input).Shows (p.edit (.insert input)) ∧
      b.stored.insert? (Text.bytes input) = some (b.insert input).stored := by
  have inserted : b.insert input = ⟨p.before ++ input ++ p.after, b.cursor + Text.byteLength input,
      b.revision + 1⟩ := by
    rw [TextBuffer.insert, h.sides]
  rw [inserted]
  refine ⟨⟨rfl, ?_⟩, ?_⟩
  · rw [h.cursor, ← Text.byteLength_append]
    rfl
  · rw [Stored.insert?, stored, h.text, h.cursor]
    dsimp only
    rw [Text.cut?_bytes]
    simp [stored]

theorem Shows.backspace (h : b.Shows p) :
    b.backspace.Shows (p.edit .backspace) ∧ b.stored.backspace? = some b.backspace.stored := by
  obtain ⟨before, after⟩ := p
  rw [TextBuffer.backspace, h.sides, Stored.backspace?, stored, h.text, h.cursor]
  dsimp only
  rw [Text.cut?_bytes]
  rcases List.eq_nil_or_concat' before with rfl | ⟨front, c, rfl⟩
  · refine ⟨h, ?_⟩
    change some (⟨_, _, _⟩ : Stored) = some b.stored
    rw [stored, h.text, h.cursor]
  · have width : Text.byteLength (front ++ [c]) = Text.byteLength front + c.utf8Size := by
      rw [Text.byteLength_append]
      rfl
    rw [List.getLast?_concat, List.dropLast_concat, Option.bind_eq_bind, Option.bind_some,
      Text.lastWidth?_bytes_append]
    dsimp only
    rw [width, Nat.add_sub_cancel, if_pos (Nat.le_add_left _ _), List.append_assoc,
      List.singleton_append, Text.without?_bytes]
    rw [Sides.edit, List.dropLast_concat]
    exact ⟨⟨rfl, rfl⟩, rfl⟩

theorem Shows.moveTo (h : b.Shows p) (offset : Nat) :
    (b.moveTo offset).Shows (p.edit (.moveTo offset)) ∧
      b.stored.moveTo? offset = some (b.moveTo offset).stored := by
  have shown : p.edit (.moveTo offset) =
      ⟨(Text.splitAtByte offset b.text).1, (Text.splitAtByte offset b.text).2⟩ := by
    rw [Text.splitAtByte_eq_fitting, h.text]
    rfl
  rw [shown]
  refine ⟨⟨(Text.splitAtByte_append offset b.text).symm, rfl⟩, ?_⟩
  rw [Stored.moveTo?, stored, Text.snap?_bytes]
  rfl

/-- An edit of the text does to the bytes and to the characters the same, and does not fail. -/
theorem Shows.edit (h : b.Shows p) (e : Edit) :
    (b.edit e).Shows (p.edit e) ∧ b.stored.edit? e = some (b.edit e).stored := by
  cases e with
  | insert input => exact h.insert input
  | backspace => exact h.backspace
  | moveTo offset => exact h.moveTo offset
  | setText text => exact ⟨⟨rfl, rfl⟩, rfl⟩

/-- So do edits one after the other, and none of them fails. -/
theorem Shows.run (h : b.Shows p) (edits : List Edit) :
    (b.run edits).Shows (p.run edits) ∧ b.stored.run? edits = some (b.run edits).stored := by
  induction edits generalizing b p with
  | nil => exact ⟨h, rfl⟩
  | cons e edits ih =>
    obtain ⟨next, done⟩ := h.edit e
    obtain ⟨shown, ran⟩ := ih next
    refine ⟨shown, ?_⟩
    rw [Stored.run?, List.foldlM_cons, done]
    exact ran

end Steps

/-- From any text, no edit cuts the bytes of the text inside a character: the cursor is always at a boundary,
the text and the cursor are those of the characters in front of the cursor and behind it, and what
is typed can be deleted again. -/
theorem run_sound (text : List Char) (edits : List Edit) :
    let b := (ofText text).run edits
    Text.IsBoundary b.text b.cursor ∧ b.cursor ≤ Text.byteLength b.text ∧
      (ofText text).stored.run? edits = some b.stored ∧ b.Shows (Sides.run ⟨text, []⟩ edits) ∧
      ∀ input, (b.run (.insert input :: List.replicate input.length .backspace)).text = b.text ∧
        (b.run (.insert input :: List.replicate input.length .backspace)).cursor = b.cursor := by
  obtain ⟨shown, ran⟩ := (shows_ofText text).run edits
  refine ⟨shown.isBoundary, shown.isBoundary.le, ran, shown, fun input => ?_⟩
  obtain ⟨undone, -⟩ := shown.run (.insert input :: List.replicate input.length .backspace)
  rw [Sides.run_insert_backspaces] at undone
  exact ⟨undone.text.trans shown.text.symm, undone.cursor.trans shown.cursor.symm⟩

end TextBuffer

end BlockEditor
