/-!
# Byte lengths of text

Offsets into a source text count the bytes of its UTF-8 form, while the text itself is a list of
characters.  This module measures one in terms of the other.
-/

namespace BlockEditor.Text

/-! ## Measuring -/

/-- Number of bytes that the characters of a text take in UTF-8. -/
def byteLength : List Char → Nat
  | [] => 0
  | c :: cs => c.utf8Size + byteLength cs

@[simp] theorem byteLength_nil : byteLength [] = 0 := rfl

@[simp] theorem byteLength_cons (c : Char) (cs : List Char) :
    byteLength (c :: cs) = c.utf8Size + byteLength cs := rfl

/-- Byte lengths add up over concatenation. -/
theorem byteLength_append (a b : List Char) :
    byteLength (a ++ b) = byteLength a + byteLength b := by
  induction a with
  | nil => simp
  | cons c cs ih => simp [ih, Nat.add_assoc]

/-- The byte length of a string is that of its characters. -/
theorem byteLength_eq_utf8ByteSize (s : String) : byteLength s.toList = s.utf8ByteSize := by
  have listed (cs : List Char) : (String.ofList cs).utf8ByteSize = byteLength cs := by
    induction cs with
    | nil => rfl
    | cons c cs ih =>
      rw [byteLength_cons, ← ih, ← List.singleton_append, String.ofList_append,
        String.utf8ByteSize_append, ← String.singleton_eq_ofList, String.utf8ByteSize_singleton]
  rw [← listed, String.ofList_toList]

/-! ## Cutting at a byte offset -/

/-- The longest initial run of characters that fits into `n` bytes, and what follows it.
An offset inside a character cuts before that character. -/
def splitAtByte : Nat → List Char → List Char × List Char
  | _, [] => ([], [])
  | n, c :: cs =>
    if c.utf8Size ≤ n then
      let (before, after) := splitAtByte (n - c.utf8Size) cs
      (c :: before, after)
    else ([], c :: cs)

/-- Cutting loses nothing. -/
theorem splitAtByte_append (n : Nat) (cs : List Char) :
    (splitAtByte n cs).1 ++ (splitAtByte n cs).2 = cs := by
  induction cs generalizing n with
  | nil => rfl
  | cons c cs ih =>
    simp only [splitAtByte]
    split
    · simp [ih]
    · rfl

/-- The part before the cut is no longer than the offset. -/
theorem byteLength_splitAtByte_le (n : Nat) (cs : List Char) :
    byteLength (splitAtByte n cs).1 ≤ n := by
  induction cs generalizing n with
  | nil => simp [splitAtByte]
  | cons c cs ih =>
    simp only [splitAtByte]
    split
    · have := ih (n - c.utf8Size)
      simp only [byteLength_cons]
      omega
    · simp

/-! ## Literal starts -/

/-- What follows `lead` in `cs`, if `cs` begins with it. -/
def dropLead : List Char → List Char → Option (List Char)
  | [], cs => some cs
  | _ :: _, [] => none
  | l :: ls, c :: cs => if l = c then dropLead ls cs else none

/-- A literal start is dropped exactly where it stands. -/
theorem dropLead_eq_some_iff (lead cs rest : List Char) :
    dropLead lead cs = some rest ↔ cs = lead ++ rest := by
  induction lead generalizing cs with
  | nil => simp [dropLead, eq_comm]
  | cons l ls ih =>
    cases cs with
    | nil => simp [dropLead]
    | cons c cs =>
      by_cases h : l = c
      · simp [dropLead, h, ih]
      · simp [dropLead, h, Ne.symm h]

/-- Whether `needle` occurs in `cs` as a run of neighbouring characters. -/
def occursIn (needle : List Char) : List Char → Bool
  | [] => needle.isEmpty
  | c :: cs => (dropLead needle (c :: cs)).isSome || occursIn needle cs

/-! ## Separators -/

/-- The pieces of `cs` between the occurrences of `mark`, of which there is always at least one. -/
def splitOnChar (mark : Char) : List Char → List (List Char)
  | [] => [[]]
  | c :: cs =>
    match splitOnChar mark cs with
    | [] => [[c]]
    | piece :: pieces => if c = mark then [] :: piece :: pieces else (c :: piece) :: pieces

/-- Puts `separator` between neighbouring pieces. -/
def joinWith (separator : List Char) : List (List Char) → List Char
  | [] => []
  | [piece] => piece
  | piece :: pieces => piece ++ separator ++ joinWith separator pieces

end BlockEditor.Text
