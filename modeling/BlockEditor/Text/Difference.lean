import BlockEditor.Text.Blank
import BlockEditor.Text.Bytes

/-!
# Differences

What two texts have in common line by line, and what only one of them has.
-/

namespace BlockEditor.Text

/-- A line of a text. -/
abbrev Line := List Char

/-! ## Common lines -/

/-- The next row of lengths: for each initial part of `right`, how many lines it has in common with
the part of the other text that ends with `line`.  `above` is the row before, `corner` its entry one
place to the left, and `left` the entry that was computed last. -/
def nextRow (line : Line) : List Line → List Nat → Nat → Nat → List Nat
  | [], _, _, _ => []
  | other :: right, above, corner, left =>
    let up := above.headD 0
    let entry := if line = other then corner + 1 else max left up
    entry :: nextRow line right above.tail up entry

/-- The rows of lengths for all initial parts of a text. -/
def lengthRows (right : List Line) : List Line → List Nat → List (List Nat)
  | [], _ => []
  | line :: left, above =>
    let row := nextRow line right above 0 0
    row :: lengthRows right left row

/-- All lengths row after row.  The place in front of a row is the last one of the row above. -/
def commonLengths (left right : List Line) : Array Nat := (lengthRows right left []).flatten.toArray

/-- Walks back from the ends of both texts and collects common lines, the last one first.  `i` and
`j` lines are left; `fuel` is at least their sum. -/
def walkBack (left right : Array Line) (lengths : Array Nat) : Nat → Nat → Nat → List Line
  | fuel + 1, i + 1, j + 1 =>
    let a := left.getD i []
    if a = right.getD j [] then a :: walkBack left right lengths fuel i j
    else if i = 0 ∧ j = 0 then []
    else
      let here := i * right.size + j
      if i = 0 ∨ lengths.getD (here - right.size) 0 < lengths.getD (here - 1) 0 then
        walkBack left right lengths fuel (i + 1) j
      else walkBack left right lengths fuel i (j + 1)
  | _, _, _ => []

/-- Lines that two texts have in common, in order. -/
def commonLines (left right : List Line) : List Line :=
  (walkBack left.toArray right.toArray (commonLengths left right) (left.length + right.length)
    left.length right.length).reverse

/-! ## Runs -/

/-- Neighbouring lines that are in both texts, or only in the old one, or only in the new one. -/
inductive Run where
  | same (lines : List Line)
  | removed (lines : List Line)
  | added (lines : List Line)
  deriving DecidableEq, Repr

/-- How many lines stand at the start of all three texts. -/
def agreement : List Line → List Line → List Line → Nat
  | a :: left, b :: right, c :: common => if a = c ∧ b = c then agreement left right common + 1 else 0
  | _, _, _ => 0

/-- The lines in front of the next common line. -/
def untilCommon (lines : List Line) (common : List Line) : List Line :=
  lines.takeWhile fun line => common.head? != some line

/-- The runs of two texts with given common lines: what is common, then what was removed, then what
was added, again and again. -/
def runsWithin : Nat → List Line → List Line → List Line → List Run
  | 0, _, _, _ => []
  | fuel + 1, left, right, common =>
    if left.isEmpty && right.isEmpty then []
    else
      let n := agreement left right common
      let removed := untilCommon (left.drop n) (common.drop n)
      let added := untilCommon (right.drop n) (common.drop n)
      .same (left.take n) :: .removed removed :: .added added ::
        runsWithin fuel ((left.drop n).drop removed.length) ((right.drop n).drop added.length)
          (common.drop n)

/-- The lines of a text, of which an empty text has none. -/
def linesOf (cs : List Char) : List Line := if cs.isEmpty then [] else splitOnChar '\n' cs

/-- The runs of two texts, of which some may be empty, or nothing if the texts have the same
lines. -/
def difference? (old new : List Char) : Option (List Run) :=
  let left := splitOnChar '\n' old
  let right := splitOnChar '\n' new
  if left = right then none
  else
    let common := linesOf (joinWith ['\n'] (commonLines left right))
    some (runsWithin (left.length + right.length + 1) (linesOf old) (linesOf new) common)

/-! ## Printing -/

/-- The lines of a text where the last one need not be ended.  A carriage return before a line feed
belongs to the end of the line. -/
def shownLines (cs : List Char) : List Line :=
  let pieces := splitOnChar '\n' cs
  let ended := pieces.dropLast.map fun line =>
    if line.getLast? = some '\r' then line.dropLast else line
  ended ++ (pieces.getLast?.filter fun line => !line.isEmpty).toList

/-- The lines that show a run, each behind a mark. -/
def Run.shown (r : Run) : List Char :=
  let show' (mark : Char) (lines : List Line) : List Char :=
    (shownLines (joinWith ['\n'] lines)).flatMap fun line => mark :: line ++ ['\n']
  match r with
  | same lines => show' ' ' lines
  | removed lines => show' '-' lines
  | added lines => show' '+' lines

/-- The comparison of two texts without the blanks at their ends. -/
def comparison (old new : List Char) : List Char :=
  match difference? (trimEnd old) (trimEnd new) with
  | none => "round-trip is lossless\n".toList
  | some runs => runs.flatMap Run.shown

example : String.ofList (comparison "a\nb\nc\n".toList "a\nx\nc".toList) = " a\n-b\n+x\n c\n" := by
  decide +kernel

end BlockEditor.Text
