import BlockEditor.Proofs.LineBreaks

/-!
# Comments

A comment is as good as spaces.  Where spaces of the same byte length stand in its place, the
lexemes around it are the same, the layout pass gathers the same lines or fails at the same place,
and the source parses to the same program.
-/

namespace BlockEditor

open Text Lexeme

/-! ## Lexemes in front of a comment -/

/-- A text that does not hold a character begins a text in front of the character. -/
theorem Text.prefix_of_prefix_append {l front cs : List Char} {c : Char}
    (h : l <+: front ++ c :: cs) (apart : c ∉ l) : l <+: front := by
  rcases List.prefix_or_prefix_of_prefix h (List.prefix_append front _) with within | beyond
  · exact within
  · obtain ⟨more, rfl⟩ := beyond
    rw [List.prefix_append_right_inj] at h
    cases more with
    | nil => simp
    | cons d more =>
      obtain ⟨rfl, -⟩ := List.cons_prefix_cons.mp h
      exact absurd (by simp) apart

namespace Lexeme

/-- What makes a line end in front of a plain character does so in front of anything. -/
theorem startsLineEnd_of_append {front cs ds : List Char} {c : Char}
    (plain : c ≠ '\n' ∧ c ≠ '\r') (h : StartsLineEnd (front ++ c :: cs)) :
    StartsLineEnd (front ++ ds) := by
  refine h.imp (fun begins => ?_) (fun begins => ?_)
  · exact (prefix_of_prefix_append begins (by simp [plain])).trans (List.prefix_append _ _)
  · exact (prefix_of_prefix_append begins (by simp [plain])).trans (List.prefix_append _ _)

/-- A literal that is the first lexeme of a text ends where it may end. -/
theorem parts_of_split {quote : Char} {literal rest : List Char} {ls : List Lexeme}
    (isQuote : IsQuote quote) (begins : ∃ tail, literal = quote :: tail)
    (first : split (literal ++ rest) = ⟨.string, literal⟩ :: ls) :
    IsLiteral quote literal ∧ Parts quote literal rest := by
  obtain ⟨tail, rfl⟩ := begins
  obtain ⟨ms, lexemes⟩ := exists_split_quote isQuote (tail ++ rest)
  rw [List.cons_append, lexemes] at first
  generalize found : string quote (quote :: (tail ++ rest)) = x at first
  obtain ⟨l, behind⟩ := x
  obtain rfl : l = ⟨.string, quote :: tail⟩ := (List.cons.inj first).1
  obtain ⟨formed, whole, parts⟩ := isLiteral_of_string isQuote found
  obtain rfl : rest = behind := by simpa using whole
  exact ⟨formed, parts⟩

/-- The first lexeme in front of a number sign stays the first one where a space stands in place of
the sign. -/
theorem split_front {l : Lexeme} {ls : List Lexeme} {front cs : List Char}
    (first : split (l.text ++ (front ++ '#' :: cs)) = l :: ls)
    (formed : l.Formed (front ++ '#' :: cs)) (ds : List Char) :
    split (l.text ++ (front ++ ' ' :: ds)) = l :: split (front ++ ' ' :: ds) := by
  -- What follows decides about a lexeme only where it is a literal or a comment.
  have ofSole {kind : LexemeKind} {c : Char} (plain : c ∉ ['\n', '\r', '#', '\\', '"', '\''])
      (first : split ([c] ++ (front ++ '#' :: cs)) = ⟨kind, [c]⟩ :: ls) :
      split ([c] ++ (front ++ ' ' :: ds)) = ⟨kind, [c]⟩ :: split (front ++ ' ' :: ds) := by
    obtain ⟨found, -, sole⟩ := exists_split_sole plain
    rw [List.singleton_append, sole] at first ⊢
    rw [(List.cons.inj first).1]
  have ofLiteral {quote : Char} {tail : List Char} (isQuote : IsQuote quote)
      (first : split (quote :: tail ++ (front ++ '#' :: cs)) = ⟨.string, quote :: tail⟩ :: ls) :
      split (quote :: tail ++ (front ++ ' ' :: ds)) =
        ⟨.string, quote :: tail⟩ :: split (front ++ ' ' :: ds) := by
    obtain ⟨formed, parts⟩ := parts_of_split isQuote ⟨_, rfl⟩ first
    refine split_literal formed fun two => ?_
    have apart := parts two
    cases front with
    | nil => rcases isQuote with rfl | rfl <;> simp
    | cons c front => exact apart
  generalize whole : front ++ '#' :: cs = rest at formed
  cases formed with
  | space blank =>
    exact ofSole (notMem_of_apart (by decide) blank) first
  | lineFeed => exact split_lineFeed _
  | carriageReturn => exact split_carriageReturn _
  -- A comment in front ends with its line, so the blanked one does not stand in it.
  | comment oneLine ends =>
    subst whole
    cases front with
    | nil => exact absurd (ends '#' rfl) (by decide)
    | cons c front =>
      obtain rfl := ends c rfl
      show split ('#' :: (_ ++ '\n' :: (front ++ ' ' :: ds))) = _
      rw [split_comment oneLine, List.cons_append, split_lineFeed]
  | continuation lineEnd =>
    rcases lineEnd with rfl | rfl
    · exact split_cons _ _
    · exact split_cons _ _
  | shortString isQuote => exact ofLiteral isQuote first
  | longString isQuote => exact ofLiteral isQuote first
  | unterminated => simp at whole
  | openBracket bracket =>
    exact ofSole (notMem_of_apart (by decide) bracket) first
  | closeBracket bracket =>
    exact ofSole (notMem_of_apart (by decide) bracket) first
  | other plain =>
    have marks : ['\n', '\r', '#', '\\', '"', '\''] ⊆ layoutMarks := by decide
    exact ofSole (fun mark => plain (marks mark)) first
  | backslash inner =>
    subst whole
    exact split_backslash fun ends => inner (startsLineEnd_of_append (by decide) ends)

/-! ## Spaces in place of a comment -/

/-- Spaces as lexemes. -/
def spaces (n : Nat) : List Lexeme := List.replicate n ⟨.space, [' ']⟩

/-- Spaces are split into one lexeme each. -/
theorem split_spaces (n : Nat) (cs : List Char) :
    split (List.replicate n ' ' ++ cs) = spaces n ++ split cs := by
  induction n with
  | zero => rfl
  | succ n ih =>
    have space : split (' ' :: (List.replicate n ' ' ++ cs)) =
        ⟨.space, [' ']⟩ :: split (List.replicate n ' ' ++ cs) := split_cons _ _
    rw [List.replicate_succ, List.cons_append, space, ih]
    rfl

/-- What stands behind the first lexeme of a text is split as it is alone. -/
theorem split_tail {cs : List Char} {l : Lexeme} {ls : List Lexeme} (h : split cs = l :: ls) :
    cs = l.text ++ textOf ls ∧ l.Formed (textOf ls) ∧ split (textOf ls) = ls := by
  have whole := textOf_split cs
  have formed := allFormed_split cs
  rw [h] at whole formed
  refine ⟨whole.symm, (allFormed_cons.mp formed).1, ?_⟩
  cases cs with
  | nil => cases h
  | cons c cs =>
    rw [split_cons] at h
    obtain ⟨-, behind⟩ := List.cons.inj h
    rw [← behind, textOf_split]

/-- A source with spaces of the same byte length in place of one of its lexemes. -/
def blanked (front : List Lexeme) (lexeme : Lexeme) (back : List Lexeme) : List Char :=
  textOf front ++ List.replicate (byteLength lexeme.text) ' ' ++ textOf back

/-- The form of a comment among the lexemes of a source. -/
theorem comment_of_split {cs text : List Char} {back : List Lexeme}
    (h : split cs = ⟨.comment, text⟩ :: back) :
    (∃ body, text = '#' :: body) ∧ (back = [] ∨ ∃ ls, back = ⟨.lineFeed, ['\n']⟩ :: ls) := by
  obtain ⟨-, formed, behind⟩ := split_tail h
  generalize textOf back = rest at formed behind
  cases formed with
  | comment oneLine ends =>
    refine ⟨⟨_, rfl⟩, ?_⟩
    subst behind
    cases rest with
    | nil => exact .inl rfl
    | cons c rest =>
      obtain rfl := ends c rfl
      exact .inr ⟨_, split_lineFeed rest⟩

/-- The lexemes behind some others are those of their own text. -/
theorem split_behind {cs : List Char} {front ls : List Lexeme} (h : split cs = front ++ ls) :
    split (textOf ls) = ls := by
  induction front generalizing cs with
  | nil =>
    rw [List.nil_append] at h
    rw [← h, textOf_split]
  | cons l front ih =>
    rw [List.cons_append] at h
    exact ih (split_tail h).2.2

/-- With spaces in place of a comment, the lexemes around it are the same. -/
theorem split_blanked {cs text : List Char} {front back : List Lexeme}
    (h : split cs = front ++ ⟨.comment, text⟩ :: back) :
    split (blanked front ⟨.comment, text⟩ back) = front ++ (spaces (byteLength text) ++ back) := by
  have behind := split_behind h
  obtain ⟨⟨body, rfl⟩, -⟩ := comment_of_split behind
  -- induction on the lexemes in front of the comment
  induction front generalizing cs with
  | nil =>
    rw [blanked, textOf_nil, List.nil_append, split_spaces, (split_tail behind).2.2]
    rfl
  | cons l front ih =>
    rw [List.cons_append] at h
    obtain ⟨whole, formed, rest⟩ := split_tail h
    have spaces : List.replicate (byteLength ('#' :: body)) ' ' =
        ' ' :: List.replicate (byteLength body) ' ' := by
      rw [byteLength_cons, Nat.add_comm]
      rfl
    have withSign : textOf (front ++ ⟨.comment, '#' :: body⟩ :: back) =
        textOf front ++ '#' :: (body ++ textOf back) := by simp
    have withSpaces : blanked front ⟨.comment, '#' :: body⟩ back =
        textOf front ++ ' ' :: (List.replicate (byteLength body) ' ' ++ textOf back) := by
      simp only [blanked, spaces, List.append_assoc, List.cons_append]
    rw [whole, withSign] at h
    rw [withSign] at formed
    have first := split_front h formed (List.replicate (byteLength body) ' ' ++ textOf back)
    rw [← withSpaces, ih rest] at first
    simpa only [blanked, textOf_cons, List.append_assoc, List.cons_append] using first

end Lexeme

/-! ## The lines of a source without a comment -/

theorem OpenLine.take_space (line : OpenLine) (offset : Nat) :
    line.take offset ⟨.space, [' ']⟩ = .ok (some (line.blank [' '])) := rfl

/-- Spaces in a line. -/
theorem LayoutState.foldlM_spaces {s : LayoutState} {line : OpenLine} (opened : s.line = some line)
    (n : Nat) : (spaces n).foldlM step s = .ok { s with
      offset := s.offset + n
      line := some { line with reversed := List.replicate n ' ' ++ line.reversed } } := by
  induction n generalizing s line with
  | zero =>
    obtain ⟨offset, column, _ | line', finished⟩ := s <;> cases opened
    rfl
  | succ n ih =>
    have first : s.step ⟨.space, [' ']⟩ =
        .ok { s with offset := s.offset + 1, line := some (line.blank [' ']) } := by
      rw [step_some opened, OpenLine.take_space]
      rfl
    rw [spaces, List.replicate_succ, List.foldlM_cons, first]
    refine (ih rfl).trans ?_
    have reversed : List.replicate n ' ' ++ (line.blank [' ']).reversed =
        List.replicate (n + 1) ' ' ++ line.reversed := by
      rw [OpenLine.blank, ← List.append_assoc]
      exact congrArg (· ++ line.reversed) List.replicate_append_replicate
    simp only [reversed, Nat.add_assoc, Nat.add_comm 1 n]
    rfl

/-- Spaces where no line has begun. -/
theorem LayoutState.foldlM_spaces_none {s : LayoutState} (closed : s.line = none) (n : Nat) :
    ∃ column, (spaces n).foldlM step s = .ok ⟨s.offset + n, column, none, s.finished⟩ := by
  induction n generalizing s with
  | zero =>
    obtain ⟨offset, column, line, finished⟩ := s
    cases closed
    exact ⟨column, rfl⟩
  | succ n ih =>
    obtain ⟨offset, column, line, finished⟩ := s
    cases closed
    obtain ⟨column, run⟩ := ih (s := ⟨offset + 1, advanceColumn column ' ', none, finished⟩) rfl
    refine ⟨column, ?_⟩
    rw [spaces, List.replicate_succ, List.foldlM_cons]
    refine run.trans ?_
    simp only [Nat.add_assoc, Nat.add_comm 1 n]

/-- A comment and what stands behind it are taken as spaces and what stands behind them.  Only the
column is not the same, and the end of the line takes it back. -/
theorem LayoutState.run_spaces (s : LayoutState) {text : List Char} {back : List Lexeme}
    (ends : back = [] ∨ ∃ ls, back = ⟨.lineFeed, ['\n']⟩ :: ls) :
    ((spaces (byteLength text) ++ back).foldlM step s >>= finish) =
      ((⟨.comment, text⟩ :: back).foldlM step s >>= finish) := by
  rw [List.foldlM_append, List.foldlM_cons]
  cases at' : s.line with
  | some line =>
    rw [foldlM_spaces at', step_some at']
    rfl
  | none =>
    obtain ⟨column, run⟩ := foldlM_spaces_none at' (byteLength text)
    rw [run, step_gap at' (by simp)]
    rcases ends with rfl | ⟨ls, rfl⟩ <;> rfl

/-- Layout takes the lexemes of a source one by one. -/
theorem logicalLines_eq (source : List Char) : logicalLines source =
    ((split source).foldlM LayoutState.step .initial >>= LayoutState.finish) := rfl

/-- The lines are the same with spaces in place of a comment. -/
theorem logicalLines_blanked {source text : List Char} {front back : List Lexeme}
    (h : split source = front ++ ⟨.comment, text⟩ :: back) :
    logicalLines (blanked front ⟨.comment, text⟩ back) = logicalLines source := by
  obtain ⟨-, ends⟩ := comment_of_split (split_behind h)
  rw [logicalLines_eq, logicalLines_eq, split_blanked h, h, List.foldlM_append, List.foldlM_append,
    bind_assoc, bind_assoc]
  exact congrArg _ (funext fun s => s.run_spaces ends)

/-- The program is the same with spaces in place of a comment, unless nothing but blanks is left. -/
theorem parseText_blanked {source text : List Char} {front back : List Lexeme}
    (h : split source = front ++ ⟨.comment, text⟩ :: back)
    (visible : isBlankText (blanked front ⟨.comment, text⟩ back) = false) :
    parseText (blanked front ⟨.comment, text⟩ back) = parseText source := by
  have sign : isBlankText source = false := by
    obtain ⟨⟨body, rfl⟩, -⟩ := comment_of_split (split_behind h)
    rw [← textOf_split source, h]
    have sign : isBlank '#' = false := by decide
    simp [isBlankText, sign]
  rw [parseText, parseText, visible, sign, logicalLines_blanked h]

/-- A source with spaces of the same byte length in place of a lexeme. -/
def Source.blanked (s : Source) (front : List Lexeme) (lexeme : Lexeme) (back : List Lexeme) :
    Source := ⟨s.name, String.ofList (Lexeme.blanked front lexeme back)⟩

/-- Comments are invisible: with spaces of the same byte length in place of any comment, the layout
pass finds the same lines or the same fault, and the source has the same program or is refused in
the same way, unless nothing but blanks is left. -/
theorem Source.parse_blanked {s : Source} {text : List Char} {front back : List Lexeme}
    (h : split s.content.toList = front ++ ⟨.comment, text⟩ :: back) :
    logicalLines (s.blanked front ⟨.comment, text⟩ back).content.toList =
        logicalLines s.content.toList ∧
      (isBlankText (s.blanked front ⟨.comment, text⟩ back).content.toList = false →
        (s.blanked front ⟨.comment, text⟩ back).parse = s.parse) := by
  have content : (s.blanked front ⟨.comment, text⟩ back).content.toList =
      Lexeme.blanked front ⟨.comment, text⟩ back := String.toList_ofList
  rw [content]
  refine ⟨logicalLines_blanked h, fun visible => ?_⟩
  rw [parse, parse, content, parseText_blanked h visible]
  rfl

/-- A call over two lines, with a comment in its parentheses that holds a quote, a bracket and a
character of two bytes. -/
def Source.noted : Source := ⟨Source.standardInput, "f(  # ')é\n1)\n"⟩

/-- The call is the same with its comment blanked. -/
theorem Source.parse_blanked_noted :
    let front : List Lexeme :=
      [⟨.other, ['f']⟩, ⟨.openBracket, ['(']⟩, ⟨.space, [' ']⟩, ⟨.space, [' ']⟩]
    let comment : Lexeme := ⟨.comment, "# ')é".toList⟩
    let back : List Lexeme :=
      [⟨.lineFeed, ['\n']⟩, ⟨.other, ['1']⟩, ⟨.closeBracket, [')']⟩, ⟨.lineFeed, ['\n']⟩]
    split noted.content.toList = front ++ comment :: back ∧
      (noted.blanked front comment back).content = "f(        \n1)\n" ∧
      logicalLines (noted.blanked front comment back).content.toList =
        logicalLines noted.content.toList ∧
      (noted.blanked front comment back).parse = noted.parse := by
  intro front comment back
  have lexemes : split noted.content.toList = front ++ comment :: back := by decide +kernel
  have visible : isBlankText (noted.blanked front comment back).content.toList = false := by
    decide +kernel
  obtain ⟨lines, program⟩ := parse_blanked lexemes
  exact ⟨lexemes, by decide +kernel, lines, program visible⟩

end BlockEditor
