/-!
# Blank characters

The characters with the property White_Space, and trimming text of them.
-/

namespace BlockEditor.Text

/-- The ranges of code points that have the property White_Space. -/
def blankRanges : List (Nat × Nat) :=
  [(9, 13), (32, 32), (133, 133), (160, 160), (5760, 5760), (8192, 8202), (8232, 8233),
    (8239, 8239), (8287, 8287), (12288, 12288)]

/-- Whether `n` lies in one of the ascending ranges; the search stops at the first range above
`n`. -/
def inRanges (n : Nat) : List (Nat × Nat) → Bool
  | [] => false
  | (low, high) :: ranges =>
    if n < low then false else if n ≤ high then true else inRanges n ranges

/-- Whether a character is blank, that is, has the property White_Space. -/
def isBlank (c : Char) : Bool := inRanges c.toNat blankRanges

example : isBlank ' ' ∧ isBlank '\n' ∧ isBlank '\x0b' ∧ isBlank '\u3000' ∧ ¬ isBlank '_' := by
  decide

/-- Drops the blanks at the end of a text. -/
def trimEnd (cs : List Char) : List Char := (cs.reverse.dropWhile isBlank).reverse

/-- Drops the blanks at both ends of a text. -/
def trim (cs : List Char) : List Char := trimEnd (cs.dropWhile isBlank)

/-- A text without any other character than blanks. -/
def isBlankText (cs : List Char) : Bool := cs.all isBlank

end BlockEditor.Text
