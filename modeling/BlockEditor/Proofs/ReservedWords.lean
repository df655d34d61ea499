import BlockEditor.Proofs.Scanned
import BlockEditor.Syntax.Grammar
import Mathlib.Data.List.Pairwise

/-!
# Reserved words and identifiers

The word that a text begins with is its longest run of identifier characters.  It is read whole: as
the reserved word that it spells, or else as an identifier, whatever reserved word it begins with.
-/

namespace BlockEditor

namespace Text

/-! ## Characters of words -/

/-- Ranges that end below a number are of no account for it. -/
theorem inRanges_dropWhile {n : Nat} {p : Nat × Nat → Bool} (below : ∀ r, p r = true → r.1 ≤ r.2 ∧ r.2 < n)
    (ranges : List (Nat × Nat)) : inRanges n (ranges.dropWhile p) = inRanges n ranges := by
  induction ranges with
  | nil => rfl
  | cons r ranges ih =>
    by_cases behind : p r = true
    · have := below r behind
      rw [List.dropWhile_cons_of_pos behind, ih, inRanges, if_neg (by omega), if_neg (by omega)]
    · rw [List.dropWhile_cons_of_neg behind]

/-- Whether each of some ranges lies inside one of others, where both ascend. -/
def coveredBy : List (Nat × Nat) → List (Nat × Nat) → Bool
  | [], _ => true
  | (low, high) :: ranges, others =>
    match others.dropWhile fun r => r.1 ≤ r.2 && r.2 < low with
    | [] => false
    | (first, last) :: others =>
      first ≤ low && high ≤ last && coveredBy ranges ((first, last) :: others)

/-- A number in some ranges is in others that cover them. -/
theorem inRanges_of_coveredBy {n : Nat} {ranges others : List (Nat × Nat)}
    (covered : coveredBy ranges others = true) (inside : inRanges n ranges = true) :
    inRanges n others = true := by
  induction ranges generalizing others with
  | nil => cases inside
  | cons range ranges ih =>
    obtain ⟨low, high⟩ := range
    rw [inRanges] at inside
    by_cases below : n < low
    · simp [below] at inside
    · rw [if_neg below] at inside
      rw [← inRanges_dropWhile (p := fun r => r.1 ≤ r.2 && r.2 < low) (by simp; omega)]
      rw [coveredBy] at covered
      split at covered
      · cases covered
      · rename_i first last others left
        rw [left]
        simp only [Bool.and_eq_true, decide_eq_true_eq] at covered
        obtain ⟨⟨starts, ends⟩, covered⟩ := covered
        split at inside
        · rw [inRanges, if_neg (by omega), if_pos (by omega)]
        · exact ih covered inside

/-- An identifier goes on with whatever it can start with. -/
theorem isIdentifierContinue_of_start {c : Char} (start : isIdentifierStart c = true ∨ c = '_') :
    isIdentifierContinue c = true := by
  rcases start with start | rfl
  · have covered : coveredBy identifierStartRanges identifierContinueRanges = true := by
      decide +kernel
    exact inRanges_of_coveredBy covered start
  · decide +kernel

/-! ## Leading words -/

/-- The word that a text begins with: its longest run of identifier characters. -/
def leadingWord (cs : List Char) : List Char := cs.takeWhile isIdentifierContinue

/-- What stands behind the word that a text begins with. -/
def behindWord (cs : List Char) : List Char := cs.dropWhile isIdentifierContinue

section Append

variable {w : List Char} (continues : ∀ c ∈ w, isIdentifierContinue c = true) (rest : List Char)

include continues

/-- Identifier characters in front of a text are in front of its word. -/
theorem leadingWord_append : leadingWord (w ++ rest) = w ++ leadingWord rest :=
  List.takeWhile_append_of_pos continues

/-- They do not change what stands behind the word. -/
theorem behindWord_append : behindWord (w ++ rest) = behindWord rest :=
  List.dropWhile_append_of_pos continues

/-- Identifier characters that a text begins with belong to its word. -/
theorem prefix_leadingWord {cs : List Char} (lead : w <+: cs) : w <+: leadingWord cs := by
  obtain ⟨rest, rfl⟩ := lead
  exact ⟨leadingWord rest, (leadingWord_append continues rest).symm⟩

end Append

/-- Without a word in front, all of a text stands behind it. -/
theorem behindWord_of_nil {cs : List Char} (none : leadingWord cs = []) : behindWord cs = cs := by
  have whole : leadingWord cs ++ behindWord cs = cs := List.takeWhile_append_dropWhile
  rwa [none] at whole

end Text

open Text (leadingWord behindWord)

/-! ## The list of reserved words -/

namespace Word

/-- The spellings of all reserved words. -/
def spellings : List (List Char) := all.map fun w => w.spelling.toList

/-- The spellings are those of the reserved words. -/
theorem mem_spellings {cs : List Char} : cs ∈ spellings ↔ ∃ w : Word, w.spelling.toList = cs := by
  simp [spellings, mem_all]

/-- No reserved word begins one that stands behind it in the list. -/
theorem ordered_all : all.Pairwise fun v w => ¬ v.spelling.toList <+: w.spelling.toList := by
  decide +kernel

/-- No two reserved words are spelled alike. -/
theorem spelling_inj {v w : Word} (same : v.spelling.toList = w.spelling.toList) : v = w := by
  by_contra other
  have distinct : all.Pairwise fun v w => v.spelling.toList ≠ w.spelling.toList :=
    ordered_all.imp fun apart same => apart (by simp [same])
  have : Std.Symm fun v w : Word => v.spelling.toList ≠ w.spelling.toList :=
    ⟨fun _ _ => Ne.symm⟩
  exact distinct.forall v.mem_all w.mem_all other same

end Word

/-! ## Patterns of reserved words -/

/-- An ordered choice takes what the first of its patterns takes that takes anything. -/
theorem Pattern.scan_firstOf (ps : List Pattern) (cs : List Char) :
    (firstOf ps).scan cs = ps.findSome? fun p => p.scan cs := by
  fun_induction firstOf ps with
  | case1 => rfl
  | case2 p =>
    rw [List.findSome?_cons, List.findSome?_nil]
    cases p.scan cs <;> rfl
  | case3 p ps _ ih =>
    rw [scan_alt, ih, List.findSome?_cons]
    cases p.scan cs <;> rfl

/-- A fixed text is taken exactly where it stands. -/
theorem Pattern.scan_lit (s : String) (cs : List Char) :
    (lit s).scan cs = none ∧ ¬ s.toList <+: cs ∨
      ∃ rest, cs = s.toList ++ rest ∧ (lit s).scan cs = some (s.toList, rest) := by
  rw [lit, scan]
  cases lead : Text.dropLead s.toList cs with
  | none =>
    refine .inl ⟨rfl, ?_⟩
    rintro ⟨rest, whole⟩
    rw [(Text.dropLead_eq_some_iff _ _ _).2 whole.symm] at lead
    cases lead
  | some rest => exact .inr ⟨rest, (Text.dropLead_eq_some_iff _ _ _).1 lead, rfl⟩

/-- No identifier character follows exactly where no word stands. -/
theorem scan_absent_continue (cs : List Char) :
    (Pattern.absent (.one .identifierContinue)).scan cs =
      if leadingWord cs = [] then some ([], cs) else none := by
  cases cs with
  | nil => rfl
  | cons c cs =>
    by_cases continues : Text.isIdentifierContinue c = true
    · simp [Pattern.scan, CharClass.holds, leadingWord, continues]
    · simp [Pattern.scan, CharClass.holds, leadingWord, continues]

theorem wordPattern_eq (w : Word) :
    wordPattern w = (Pattern.lit w.spelling).seq (.absent (.one .identifierContinue)) := rfl

theorem reservedPattern_eq : reservedPattern =
    (Pattern.firstOf (Word.all.map fun w => .lit w.spelling)).seq
      (.absent (.one .identifierContinue)) := rfl

/-- A reserved word is taken exactly where it is the word that the text begins with. -/
theorem scan_wordPattern (w : Word) (cs : List Char) : (wordPattern w).scan cs =
    if leadingWord cs = w.spelling.toList then some (leadingWord cs, behindWord cs) else none := by
  rw [wordPattern_eq, Pattern.scan_seq]
  rcases Pattern.scan_lit w.spelling cs with ⟨refused, apart⟩ | ⟨rest, rfl, taken⟩
  · have other : leadingWord cs ≠ w.spelling.toList := by
      intro same
      exact apart (same ▸ List.takeWhile_prefix Text.isIdentifierContinue)
    rw [refused, if_neg other]
  · rw [taken, Text.leadingWord_append w.continues_spelling,
      Text.behindWord_append w.continues_spelling]
    simp only [scan_absent_continue]
    by_cases ends : leadingWord rest = []
    · simp [ends, Text.behindWord_of_nil ends]
    · simp [ends]

/-- Where the text begins with a reserved word, the choice of all reserved words settles on it. -/
theorem scan_reservedPattern {w : Word} {cs : List Char}
    (spelled : leadingWord cs = w.spelling.toList) :
    reservedPattern.scan cs = (wordPattern w).scan cs := by
  obtain ⟨earlier, later, split⟩ := List.append_of_mem w.mem_all
  have ordered := Word.ordered_all
  rw [split] at ordered
  have refused : ∀ v ∈ earlier, (Pattern.lit v.spelling).scan cs = none := by
    intro v member
    rcases Pattern.scan_lit v.spelling cs with ⟨refused, -⟩ | ⟨rest, whole, -⟩
    · exact refused
    · -- an earlier word that stands here would begin the leading word
      have lead := Text.prefix_leadingWord v.continues_spelling ⟨rest, whole.symm⟩
      rw [spelled] at lead
      exact absurd lead ((List.pairwise_append.1 ordered).2.2 v member w (by simp))
  have chosen : (Pattern.firstOf (Word.all.map fun w => .lit w.spelling)).scan cs =
      (Pattern.lit w.spelling).scan cs := by
    have none : earlier.findSome? ((fun p => p.scan cs) ∘ fun w => Pattern.lit w.spelling) = none :=
      List.findSome?_eq_none_iff.2 refused
    rw [Pattern.scan_firstOf, List.findSome?_map, split, List.findSome?_append, none,
      Option.none_or, List.findSome?_cons]
    rcases Pattern.scan_lit w.spelling cs with ⟨-, apart⟩ | ⟨rest, -, taken⟩
    · exact absurd (spelled ▸ List.takeWhile_prefix Text.isIdentifierContinue) apart
    · simp [taken]
  rw [reservedPattern_eq, wordPattern_eq, Pattern.scan_seq, Pattern.scan_seq, chosen]

/-- A reserved word stands in front exactly if the leading word is one. -/
theorem isSome_scan_reservedPattern (cs : List Char) :
    (reservedPattern.scan cs).isSome = true ↔ leadingWord cs ∈ Word.spellings := by
  rw [Word.mem_spellings]
  constructor
  · intro found
    rw [reservedPattern_eq, Pattern.scan_seq, Pattern.scan_firstOf, List.findSome?_map] at found
    cases chosen : Word.all.findSome? ((fun p => p.scan cs) ∘ fun w => Pattern.lit w.spelling) with
    | none => simp [chosen] at found
    | some x =>
      obtain ⟨w, -, taken⟩ := List.exists_of_findSome?_eq_some chosen
      rw [chosen] at found
      have whole : ((wordPattern w).scan cs).isSome := by
        rw [wordPattern_eq, Pattern.scan_seq,
          show (Pattern.lit w.spelling).scan cs = some x from taken]
        exact found
      rw [scan_wordPattern] at whole
      exact ⟨w, by_contra fun other => by simp [Ne.symm other] at whole⟩
  · rintro ⟨w, spelled⟩
    rw [scan_reservedPattern spelled.symm, scan_wordPattern, if_pos spelled.symm]
    rfl

/-- What begins like an identifier is read as one up to the end of its word, unless the word is
reserved. -/
theorem scan_identifierPattern {c : Char} (start : Text.isIdentifierStart c = true ∨ c = '_')
    (tail : List Char) : identifierPattern.scan (c :: tail) =
      if leadingWord (c :: tail) ∈ Word.spellings then none
      else some (leadingWord (c :: tail), behindWord (c :: tail)) := by
  have continues := Text.isIdentifierContinue_of_start start
  show (((Pattern.absent reservedPattern).seq (.one .identifierStart <|> .lit "_")).seq
    (Pattern.many (.one .identifierContinue))).scan (c :: tail) = _
  rw [Pattern.scan_seq, Pattern.scan_seq, Pattern.scan]
  simp only [isSome_scan_reservedPattern]
  by_cases reserved : leadingWord (c :: tail) ∈ Word.spellings
  · simp only [if_pos reserved]
  · simp only [if_neg reserved, scan_identifierStart, if_pos start, scan_many_one]
    rw [leadingWord, behindWord, List.takeWhile_cons_of_pos continues,
      List.dropWhile_cons_of_pos continues]
    rfl

/-! ## All words -/

/-- How the tokens for words share out a text. -/
structure WordPartition (cs : List Char) : Prop where
  /-- The leading word is read whole as an identifier, unless it is reserved. -/
  identifier : (lineGrammar.pattern .identifier).scan cs =
    if leadingWord cs ∈ Word.spellings then none else some (leadingWord cs, behindWord cs)
  /-- A reserved word is read exactly where it is the leading word. -/
  word : ∀ w, (lineGrammar.pattern (.word w)).scan cs =
    if leadingWord cs = w.spelling.toList then some (leadingWord cs, behindWord cs) else none
  /-- A single one of these tokens takes the word. -/
  single : ∃! t, (t = .identifier ∨ ∃ w, t = .word w) ∧ ((lineGrammar.pattern t).scan cs).isSome = true

/-- Reserved words and identifiers partition the words: every text that begins like an identifier
begins with exactly one of them, which is the whole leading word. -/
theorem wordPartition_of_start (c : Char) (tail : List Char)
    (start : Text.isIdentifierStart c = true ∨ c = '_') : WordPartition (c :: tail) := by
  have identifier : (lineGrammar.pattern .identifier).scan (c :: tail) = _ :=
    scan_identifierPattern start tail
  have word (w : Word) : (lineGrammar.pattern (.word w)).scan (c :: tail) = _ :=
    scan_wordPattern w (c :: tail)
  refine ⟨identifier, word, ?_⟩
  by_cases reserved : leadingWord (c :: tail) ∈ Word.spellings
  · obtain ⟨w, spelled⟩ := Word.mem_spellings.1 reserved
    refine ⟨.word w, ⟨.inr ⟨w, rfl⟩, by rw [word, if_pos spelled.symm]; rfl⟩, ?_⟩
    rintro _ ⟨rfl | ⟨v, rfl⟩, taken⟩
    · rw [identifier, if_pos reserved] at taken
      cases taken
    · have same : leadingWord (c :: tail) = v.spelling.toList :=
        by_contra fun other => by simp [word, other] at taken
      rw [Word.spelling_inj (same.symm.trans spelled.symm)]
  · refine ⟨.identifier, ⟨.inl rfl, by rw [identifier, if_neg reserved]; rfl⟩, ?_⟩
    rintro _ ⟨rfl | ⟨v, rfl⟩, taken⟩
    · rfl
    · have other : leadingWord (c :: tail) ≠ v.spelling.toList :=
        fun same => reserved (Word.mem_spellings.2 ⟨v, same.symm⟩)
      rw [word, if_neg other] at taken
      cases taken

/-- A name may begin with a reserved word, and one reserved word with another. -/
theorem wordPartition_of_start_formatAndAsync :
    (lineGrammar.pattern .identifier).scan "format(x)".toList =
      some ("format".toList, "(x)".toList) ∧
    (lineGrammar.pattern (.word .forWord)).scan "format(x)".toList = none ∧
    (lineGrammar.pattern .identifier).scan "async def".toList = none ∧
    (lineGrammar.pattern (.word .asWord)).scan "async def".toList = none ∧
    (lineGrammar.pattern (.word .asyncWord)).scan "async def".toList =
      some ("async".toList, " def".toList) := by
  have format := wordPartition_of_start 'f' "ormat(x)".toList (.inl (by decide))
  have async := wordPartition_of_start 'a' "sync def".toList (.inl (by decide))
  exact ⟨format.identifier.trans (by decide +kernel), (format.word .forWord).trans (by decide +kernel),
    async.identifier.trans (by decide +kernel), (async.word .asWord).trans (by decide +kernel),
    (async.word .asyncWord).trans (by decide +kernel)⟩

end BlockEditor
