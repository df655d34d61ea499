import BlockEditor.Diagnostic
import Mathlib.Data.List.Basic

/-!
# Offsets in a text

An offset counts bytes, so it can fall inside a character.  A boundary is one that does not: a
character begins there, or the text ends.  Places in a text are spans between two boundaries.
-/

namespace BlockEditor

namespace Text

/-! ## Boundaries -/

/-- An offset at which a character of a text begins or the text ends. -/
def IsBoundary (text : List Char) (offset : Nat) : Prop :=
  ∃ before after, text = before ++ after ∧ byteLength before = offset

/-- A boundary stands between any two parts of a text. -/
theorem isBoundary_append (before after : List Char) :
    IsBoundary (before ++ after) (byteLength before) := ⟨before, after, rfl, rfl⟩

theorem isBoundary_zero (text : List Char) : IsBoundary text 0 := isBoundary_append [] text

namespace IsBoundary

variable {text : List Char} {offset : Nat}

/-- A boundary lies in the text. -/
theorem le (h : IsBoundary text offset) : offset ≤ byteLength text := by
  obtain ⟨before, after, rfl, rfl⟩ := h
  rw [byteLength_append]
  exact Nat.le_add_right _ _

/-- A boundary of a part of a text, counted from where the part stands. -/
theorem within (h : IsBoundary text offset) (before after : List Char) :
    IsBoundary (before ++ text ++ after) (byteLength before + offset) := by
  obtain ⟨front, back, rfl, rfl⟩ := h
  exact ⟨before ++ front, back ++ after, by simp, byteLength_append _ _⟩

end IsBoundary

/-! ## Bytes -/

/-- The bytes of a text in UTF-8. -/
def bytes (text : List Char) : List UInt8 := text.flatMap String.utf8EncodeChar

@[simp] theorem bytes_append (a b : List Char) : bytes (a ++ b) = bytes a ++ bytes b :=
  List.flatMap_append

@[simp] theorem length_bytes (text : List Char) : (bytes text).length = byteLength text := by
  induction text with
  | nil => rfl
  | cons c text ih =>
    rw [bytes, List.flatMap_cons, List.length_append, String.length_utf8EncodeChar]
    exact congrArg (c.utf8Size + ·) ih

/-- A space is one byte. -/
theorem bytes_replicate_space (n : Nat) : bytes (List.replicate n ' ') = List.replicate n 32 := by
  induction n with
  | zero => rfl
  | succ n ih =>
    rw [List.replicate_succ, bytes, List.flatMap_cons]
    exact congrArg (32 :: ·) ih

theorem byteLength_replicate_space (n : Nat) : byteLength (List.replicate n ' ') = n := by
  rw [← length_bytes, bytes_replicate_space, List.length_replicate]

end Text

/-! ## Spans in a text -/

namespace Span

/-- A span lies in a text: it begins and ends at boundaries. -/
def In (text : List Char) (s : Span) : Prop :=
  Text.IsBoundary text s.start ∧ Text.IsBoundary text s.stop ∧ s.start ≤ s.stop

/-- A span covers some characters of a text. -/
def Covers (text : List Char) (s : Span) : Prop :=
  Text.IsBoundary text s.start ∧ Text.IsBoundary text s.stop ∧ s.start < s.stop

/-- The empty span at the start of a text lies in every text. -/
theorem none_in (text : List Char) : Span.none.In text :=
  ⟨Text.isBoundary_zero text, Text.isBoundary_zero text, Nat.le_refl 0⟩

/-- The empty span at a boundary lies in the text. -/
theorem point_in {text : List Char} {offset : Nat} (h : Text.IsBoundary text offset) :
    (point offset).In text := ⟨h, h, Nat.le_refl offset⟩

namespace Covers

variable {text : List Char} {s t : Span}

/-- A span that covers some of a text lies in it. -/
theorem within (h : s.Covers text) : s.In text := ⟨h.1, h.2.1, Nat.le_of_lt h.2.2⟩

/-- The join of two spans begins where one of them does, and ends where one of them does. -/
theorem join (hs : s.Covers text) (ht : t.Covers text) : (s.join t).Covers text := by
  refine ⟨?_, ?_, Nat.lt_of_le_of_lt (Nat.min_le_left _ _) (Nat.lt_of_lt_of_le hs.2.2 (Nat.le_max_left _ _))⟩
  · show Text.IsBoundary text (min s.start t.start)
    rcases Nat.le_total s.start t.start with le | le
    · rw [Nat.min_eq_left le]
      exact hs.1
    · rw [Nat.min_eq_right le]
      exact ht.1
  · show Text.IsBoundary text (max s.stop t.stop)
    rcases Nat.le_total s.stop t.stop with le | le
    · rw [Nat.max_eq_right le]
      exact ht.2.1
    · rw [Nat.max_eq_left le]
      exact hs.2.1

end Covers

end Span

end BlockEditor
