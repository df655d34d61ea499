import BlockEditor.Proofs.Dissection
import BlockEditor.Proofs.Verdicts

/-!
# Gathering lexemes into lines

The layout pass gathers the lexemes of a source into lines.  A line shows its lexemes as they are or
as spaces of the same width, so it stays as wide as what it was made of; what lies between the lines
are blanks, line ends and comments.
-/

namespace BlockEditor

open Text

/-! ## Parts of lines -/

/-- Whether lexemes of a kind stand only between lines. -/
def LexemeKind.isGap : LexemeKind → Bool
  | .space | .lineFeed | .carriageReturn | .comment => true
  | _ => false

/-- Whether a line shows spaces in place of lexemes of a kind. -/
def LexemeKind.isReplaced : LexemeKind → Bool
  | .lineFeed | .carriageReturn | .comment | .continuation => true
  | _ => false

namespace Lexeme

/-- Number of bytes in a lexeme. -/
def width (lexeme : Lexeme) : Nat := byteLength lexeme.text

/-- What a line shows of a lexeme. -/
def shown (lexeme : Lexeme) : List Char :=
  if lexeme.kind.isReplaced then List.replicate lexeme.width ' ' else lexeme.text

/-- What is shown of a lexeme is as wide as the lexeme. -/
theorem byteLength_shown (lexeme : Lexeme) : byteLength lexeme.shown = lexeme.width := by
  unfold shown
  split
  · exact byteLength_replicate_space _
  · rfl

/-- What a line shows of lexemes. -/
def shownAll (lexemes : List Lexeme) : List Char := lexemes.flatMap shown

@[simp] theorem shownAll_cons (lexeme : Lexeme) (lexemes : List Lexeme) :
    shownAll (lexeme :: lexemes) = lexeme.shown ++ shownAll lexemes := rfl

/-- What is shown takes as many bytes as what stands in the source. -/
theorem byteLength_shownAll (lexemes : List Lexeme) :
    byteLength (shownAll lexemes) = byteLength (textOf lexemes) := by
  induction lexemes with
  | nil => rfl
  | cons lexeme lexemes ih =>
    rw [shownAll_cons, textOf_cons, byteLength_append, byteLength_append, byteLength_shown, ih]
    rfl

end Lexeme

open Lexeme

/-- A text shows lexemes, without the spaces at the end. -/
def Shows (text : List Char) (lexemes : List Lexeme) : Prop :=
  (∃ blanks, shownAll lexemes = text ++ List.replicate blanks ' ') ∧ ∀ c ∈ text.getLast?, c ≠ ' '

/-- Lexemes that stand at an offset are gathered into lines. -/
inductive Gathers : Nat → List Lexeme → List LogicalLine → Prop
  | nil {offset : Nat} : Gathers offset [] []
  | gap {offset : Nat} {lexeme : Lexeme} {lexemes : List Lexeme} {lines : List LogicalLine} :
      lexeme.kind.isGap = true → Gathers (offset + lexeme.width) lexemes lines →
      Gathers offset (lexeme :: lexemes) lines
  | line {offset indent : Nat} {text : List Char} {first : Lexeme} {others lexemes : List Lexeme}
      {lines : List LogicalLine} : first.kind.isGap = false → Shows text (first :: others) →
      Gathers (offset + byteLength (textOf (first :: others))) lexemes lines →
      Gathers offset (first :: others ++ lexemes) (⟨indent, offset, text⟩ :: lines)

/-! ## Failures -/

/-- A failure to parse a source, reported at a place in it. -/
def ParseFault (source : List Char) (fault : Fault) : Prop :=
  fault.cause.category = .parse ∧ fault.span.In source

/-- A failure at a part of a source. -/
theorem parseFault_faultAt {cause : Cause} {part : List Char} {width : Nat}
    (parse : cause.category = .parse) (boundary : IsBoundary part width) (before after : List Char) :
    ParseFault (before ++ part ++ after) (faultAt cause (byteLength before) width) := by
  refine ⟨parse, ?_, boundary.within before after, Nat.le_add_right _ _⟩
  rw [List.append_assoc]
  exact isBoundary_append before _

/-! ## One lexeme -/

/-- A bracket is one byte. -/
theorem isBoundary_bracket {c : Char} (bracket : c ∈ ['(', '[', '\x7b'] ++ [')', ']', '\x7d']) :
    IsBoundary [c] 1 := by
  refine ⟨[c], [], rfl, ?_⟩
  simp only [List.mem_append, List.mem_cons, List.not_mem_nil, or_false] at bracket
  rcases bracket with (rfl | rfl | rfl) | (rfl | rfl | rfl) <;> rfl

/-- Quotes are one byte each. -/
theorem Lexeme.IsQuote.byteLength_replicate {c : Char} (quote : IsQuote c) (n : Nat) :
    byteLength (List.replicate n c) = n := by
  induction n with
  | zero => rfl
  | succ n ih =>
    rw [List.replicate_succ, byteLength_cons, ih, Nat.add_comm]
    rcases quote with rfl | rfl <;> rfl

/-- A line took a lexeme at an offset. -/
def OpenLine.Took (line : OpenLine) (offset : Nat) (lexeme : Lexeme) (line' : OpenLine) : Prop :=
  line'.start = line.start ∧ line'.reversed = lexeme.shown.reverse ++ line.reversed ∧
    ∀ bracket ∈ line'.brackets, bracket ∈ line.brackets ∨
      bracket.2 = offset ∧ IsBoundary lexeme.text 1

/-- What can become of a line and a lexeme: a line feed can end the line, a failure lies at the start
of the lexeme, and otherwise the line took the lexeme. -/
theorem OpenLine.meets_take (line : OpenLine) {lexeme : Lexeme} {rest : List Char}
    (formed : lexeme.Formed rest) (offset : Nat) :
    Meets (fun fault => ∃ cause width, fault = faultAt cause offset width ∧
        cause.category = .parse ∧ IsBoundary lexeme.text width)
      (fun r => match r with
        | none => lexeme.kind = .lineFeed
        | some line' => line.Took offset lexeme line') (line.take offset lexeme) := by
  -- text that is kept or replaced opens no bracket
  have same : ∀ line' : OpenLine, line'.start = line.start → line'.brackets = line.brackets →
      line'.reversed = lexeme.shown.reverse ++ line.reversed → line.Took offset lexeme line' := by
    intro line' start brackets reversed
    refine ⟨start, reversed, fun bracket member => .inl ?_⟩
    rwa [← brackets]
  have replaced : ∀ {text : List Char} {n : Nat}, lexeme.shown = List.replicate n ' ' →
      byteLength text = n → line.Took offset lexeme (line.blank text) := by
    rintro text n e rfl
    exact same _ rfl rfl (by rw [e, List.reverse_replicate]; rfl)
  cases formed with
  | space => exact same _ rfl rfl rfl
  | lineFeed =>
    show Meets _ _ (if line.brackets.isEmpty then _ else _)
    split
    · rfl
    · exact replaced rfl rfl
  | carriageReturn => exact replaced rfl rfl
  | comment => exact replaced rfl rfl
  | continuation => exact replaced rfl rfl
  | shortString => exact same _ rfl rfl rfl
  | longString => exact same _ rfl rfl rfl
  | @unterminated mark quotes body quote _ =>
    refine ⟨.unterminatedString, quotes, rfl, rfl, List.replicate quotes mark, body, rfl, ?_⟩
    exact quote.byteLength_replicate quotes
  | openBracket bracket =>
    show Meets _ _ (Except.map some (OpenLine.openBracket line offset _))
    unfold OpenLine.openBracket
    split
    · exact ⟨_, 1, rfl, rfl, isBoundary_bracket (List.mem_append_left _ bracket)⟩
    · refine ⟨rfl, rfl, fun opened member => ?_⟩
      rcases List.mem_cons.1 member with rfl | member
      · exact .inr ⟨rfl, isBoundary_bracket (List.mem_append_left _ bracket)⟩
      · exact .inl member
  | closeBracket bracket =>
    show Meets _ _ (Except.map some (OpenLine.closeBracket line offset _))
    unfold OpenLine.closeBracket
    split
    · exact ⟨_, 1, rfl, rfl, isBoundary_bracket (List.mem_append_right _ bracket)⟩
    · rename_i brackets e
      split
      · refine ⟨rfl, rfl, fun opened member => .inl ?_⟩
        rw [e]
        exact List.mem_cons_of_mem _ member
      · exact ⟨_, 1, rfl, rfl, isBoundary_bracket (List.mem_append_right _ bracket)⟩
  | other => exact same _ rfl rfl rfl
  | backslash => exact same _ rfl rfl rfl

/-! ## One step -/

section Pass

variable {source before after : List Char} {s : LayoutState} {lexeme : Lexeme}

/-- The layout pass stands in a source behind a text, and the brackets that are open are places in
the source. -/
def LayoutState.Behind (s : LayoutState) (source before : List Char) : Prop :=
  s.offset = byteLength before ∧
    ∀ line ∈ s.line, ∀ bracket ∈ line.brackets, (Span.mk bracket.2 (bracket.2 + 1)).In source

/-- At its start, the layout pass stands behind nothing. -/
theorem LayoutState.behind_initial (source : List Char) : Behind .initial source [] := by
  refine ⟨rfl, ?_⟩
  rintro line ⟨⟩

/-- What a step of the layout pass does with a lexeme. -/
inductive LayoutState.Moves (s : LayoutState) (lexeme : Lexeme) (s' : LayoutState) : Prop
  | skip : s.line = none → lexeme.kind.isGap = true → s'.line = none → s'.finished = s.finished →
      Moves s lexeme s'
  | begin {line' : OpenLine} : s.line = none → lexeme.kind.isGap = false → s'.line = some line' →
      line'.start = s.offset → line'.reversed = lexeme.shown.reverse → s'.finished = s.finished →
      Moves s lexeme s'
  | grow {line line' : OpenLine} : s.line = some line → s'.line = some line' →
      line'.start = line.start → line'.reversed = lexeme.shown.reverse ++ line.reversed →
      s'.finished = s.finished → Moves s lexeme s'
  | close {line : OpenLine} : s.line = some line → lexeme.kind = .lineFeed → s'.line = none →
      s'.finished = line.close :: s.finished → Moves s lexeme s'

/-- A line takes a lexeme that stands behind a text. -/
theorem LayoutState.Behind.meets_take (behind : s.Behind source before)
    (whole : source = before ++ lexeme.text ++ after) (formed : lexeme.Formed after)
    (line : OpenLine)
    (brackets : ∀ bracket ∈ line.brackets, (Span.mk bracket.2 (bracket.2 + 1)).In source) :
    Meets (ParseFault source) (fun r => match r with
      | none => lexeme.kind = .lineFeed
      | some line' => line'.start = line.start ∧
        line'.reversed = lexeme.shown.reverse ++ line.reversed ∧
        ∀ bracket ∈ line'.brackets, (Span.mk bracket.2 (bracket.2 + 1)).In source)
      (line.take s.offset lexeme) := by
  have taken := line.meets_take formed s.offset
  revert taken
  generalize line.take s.offset lexeme = r
  intro taken
  match r with
  | .error fault =>
    obtain ⟨cause, width, rfl, parse, boundary⟩ := taken
    rw [behind.1, whole]
    exact parseFault_faultAt parse boundary before after
  | .ok none => exact taken
  | .ok (some line') =>
    obtain ⟨start, reversed, opened⟩ := taken
    refine ⟨start, reversed, fun bracket member => ?_⟩
    rcases opened bracket member with old | ⟨offset, boundary⟩
    · exact brackets bracket old
    · rw [offset, behind.1, whole]
      refine ⟨?_, boundary.within before after, Nat.le_succ _⟩
      rw [List.append_assoc]
      exact isBoundary_append before _

/-- A step moves behind the lexeme, or fails at a place in the source. -/
theorem LayoutState.Behind.meets_step (behind : s.Behind source before)
    (whole : source = before ++ lexeme.text ++ after) (formed : lexeme.Formed after) :
    Meets (ParseFault source)
      (fun s' => s'.Behind source (before ++ lexeme.text) ∧ s.Moves lexeme s') (s.step lexeme) := by
  obtain ⟨offset, column, line?, finished⟩ := s
  have next : offset + byteLength lexeme.text = byteLength (before ++ lexeme.text) := by
    rw [byteLength_append, ← behind.1]
  cases line? with
  | none =>
    -- between lines a gap is skipped, and anything else begins a line
    have skips : lexeme.kind.isGap = true → ∀ column',
        LayoutState.Behind ⟨offset + byteLength lexeme.text, column', none, finished⟩ source
          (before ++ lexeme.text) ∧ LayoutState.Moves ⟨offset, column, none, finished⟩ lexeme
          ⟨offset + byteLength lexeme.text, column', none, finished⟩ := by
      intro gap column'
      refine ⟨⟨next, ?_⟩, .skip rfl gap rfl rfl⟩
      rintro line ⟨⟩
    have begins : lexeme.kind.isGap = false → Meets (ParseFault source)
        (fun s' => s'.Behind source (before ++ lexeme.text) ∧
          LayoutState.Moves ⟨offset, column, none, finished⟩ lexeme s')
        (OpenLine.take ⟨column, offset, [], []⟩ offset lexeme >>= fun line =>
          .ok ⟨offset + byteLength lexeme.text, column, line, finished⟩) := by
      intro inner
      refine (behind.meets_take whole formed ⟨column, offset, [], []⟩ (by simp)).bind ?_
      rintro (_ | line') taken
      · rw [taken] at inner
        cases inner
      · obtain ⟨start, reversed, brackets⟩ := taken
        refine ⟨⟨next, ?_⟩, .begin rfl inner rfl start (by simpa using reversed) rfl⟩
        rintro line ⟨⟩
        exact brackets
    cases formed with
    | space => exact skips rfl _
    | lineFeed => exact skips rfl _
    | carriageReturn => exact skips rfl _
    | comment => exact skips rfl _
    | _ => exact begins rfl
  | some line =>
    show Meets _ _ (line.take offset lexeme >>= _)
    refine (behind.meets_take whole formed line fun bracket member =>
      behind.2 line rfl bracket member).bind ?_
    rintro (_ | line') taken
    · refine ⟨⟨next, ?_⟩, .close rfl taken rfl rfl⟩
      rintro line ⟨⟩
    · obtain ⟨start, reversed, brackets⟩ := taken
      refine ⟨⟨next, ?_⟩, .grow rfl rfl start reversed rfl⟩
      rintro line ⟨⟩
      exact brackets

/-- Steps over lexemes move behind them, or fail at a place in the source. -/
theorem LayoutState.Behind.meets_foldlM (behind : s.Behind source before) {taken left : List Lexeme}
    (whole : source = before ++ textOf (taken ++ left)) (formed : AllFormed (taken ++ left)) :
    Meets (ParseFault source) (fun s' => s'.Behind source (before ++ textOf taken))
      (taken.foldlM LayoutState.step s) := by
  -- the text in front grows by the lexemes that were taken
  induction taken generalizing s before with
  | nil =>
    rw [textOf_nil, List.append_nil]
    exact behind
  | cons lexeme taken ih =>
    obtain ⟨first, others⟩ := allFormed_cons.1 formed
    rw [List.cons_append, textOf_cons, ← List.append_assoc] at whole
    rw [List.foldlM_cons, textOf_cons, ← List.append_assoc]
    exact (behind.meets_step whole first).bind fun s' next => ih next.1 whole others

/-! ## The whole pass -/

/-- A finished line is the text gathered for it, without the spaces at its end. -/
theorem OpenLine.close_shows (line : OpenLine) :
    (∃ blanks, line.reversed.reverse = line.close.text ++ List.replicate blanks ' ') ∧
      ∀ c ∈ line.close.text.getLast?, c ≠ ' ' := by
  constructor
  · refine ⟨(line.reversed.takeWhile (· = ' ')).length, ?_⟩
    have spaces : line.reversed.takeWhile (· = ' ') =
        List.replicate (line.reversed.takeWhile (· = ' ')).length ' ' := by
      refine List.eq_replicate_iff.2 ⟨rfl, fun c member => ?_⟩
      simpa using List.all_eq_true.1 List.all_takeWhile c member
    conv_lhs => rw [← List.takeWhile_append_dropWhile (p := (· = ' ')) (l := line.reversed)]
    rw [List.reverse_append, spaces, List.reverse_replicate, List.length_replicate]
    rfl
  · intro c last
    have refused := List.head?_dropWhile_not (fun c => decide (c = ' ')) line.reversed
    have first : (line.reversed.dropWhile (· = ' ')).head? = some c := by
      rwa [← List.getLast?_reverse]
    rw [first] at refused
    simpa using refused

/-- What becomes of lexemes behind a state: they are gathered into lines, the first of which goes on
with the line that is open. -/
def LayoutState.Completes (s : LayoutState) (lexemes : List Lexeme) (lines : List LogicalLine) :
    Prop :=
  match s.line with
  | none => Gathers s.offset lexemes lines
  | some line => ∃ indent text others behind rest,
    lexemes = others ++ behind ∧ lines = ⟨indent, line.start, text⟩ :: rest ∧
    (∃ blanks, line.reversed.reverse ++ shownAll others = text ++ List.replicate blanks ' ') ∧
    (∀ c ∈ text.getLast?, c ≠ ' ') ∧ Gathers (s.offset + byteLength (textOf others)) behind rest

/-- What is gathered behind a step is gathered with the lexeme of the step in front. -/
theorem LayoutState.Moves.completes {s' : LayoutState} {lexemes : List Lexeme}
    {lines : List LogicalLine} (moves : s.Moves lexeme s')
    (offset : s'.offset = s.offset + lexeme.width)
    (rest : ∃ others, lines = s'.finished.reverse ++ others ∧ s'.Completes lexemes others) :
    ∃ others, lines = s.finished.reverse ++ others ∧ s.Completes (lexeme :: lexemes) others := by
  obtain ⟨others, rfl, completes⟩ := rest
  -- One case for each way in which a lexeme moves the layout pass on: outside of lines, into one,
  -- along one and out of one.
  cases moves with
  | skip before gap behind finished =>
    refine ⟨others, by rw [finished], ?_⟩
    simp only [LayoutState.Completes, before, behind, offset] at completes ⊢
    exact .gap gap completes
  | begin before inner behind start reversed finished =>
    simp only [LayoutState.Completes, behind] at completes
    obtain ⟨indent, text, taken, left, rest, rfl, rfl, ⟨blanks, shows⟩, last, gathers⟩ := completes
    refine ⟨_, by rw [finished], ?_⟩
    simp only [LayoutState.Completes, before]
    rw [start]
    refine @Gathers.line _ _ _ lexeme taken _ _ inner ⟨⟨blanks, ?_⟩, last⟩ ?_
    · rw [← shows, reversed, List.reverse_reverse]
      rfl
    · rw [textOf_cons, byteLength_append, ← Nat.add_assoc]
      rwa [offset] at gathers
  | grow before behind start reversed finished =>
    simp only [LayoutState.Completes, behind] at completes
    obtain ⟨indent, text, taken, left, rest, rfl, rfl, ⟨blanks, shows⟩, last, gathers⟩ := completes
    refine ⟨_, by rw [finished], ?_⟩
    simp only [LayoutState.Completes, before]
    refine ⟨indent, text, lexeme :: taken, left, rest, rfl, by rw [start], ⟨blanks, ?_⟩, last, ?_⟩
    · rw [← shows, reversed, shownAll_cons, List.reverse_append, List.reverse_reverse,
        List.append_assoc]
    · rw [textOf_cons, byteLength_append, ← Nat.add_assoc]
      rwa [offset] at gathers
  | @close line before feed behind finished =>
    simp only [LayoutState.Completes, behind] at completes
    obtain ⟨blanks, last⟩ := line.close_shows
    refine ⟨line.close :: others, by rw [finished]; simp, ?_⟩
    simp only [LayoutState.Completes, before]
    refine ⟨line.indent, line.close.text, [], lexeme :: lexemes, others, rfl, rfl, ?_, last, ?_⟩
    · rwa [shownAll, List.flatMap_nil, List.append_nil]
    · refine .gap (by rw [feed]; rfl) ?_
      rwa [offset] at completes

/-- The layout pass, from any state on: the lexemes are gathered into lines. -/
theorem LayoutState.Behind.meets_run (behind : s.Behind source before) {lexemes : List Lexeme}
    (whole : source = before ++ textOf lexemes) (formed : AllFormed lexemes) :
    Meets (ParseFault source)
      (fun lines => ∃ others, lines = s.finished.reverse ++ others ∧ s.Completes lexemes others)
      (lexemes.foldlM LayoutState.step s >>= LayoutState.finish) := by
  -- By induction on the lexemes that are left: what stands behind a step is gathered with its
  -- lexeme.
  induction lexemes generalizing s before with
  | nil =>
    show Meets _ _ s.finish
    unfold LayoutState.finish
    split
    · rename_i closed
      refine ⟨[], (List.append_nil _).symm, ?_⟩
      simp only [LayoutState.Completes, closed]
      exact .nil
    · rename_i line opened
      split
      -- A line that ends with the source is complete unless a bracket in it is open.
      · rename_i open' offset others brackets
        refine ⟨rfl, behind.2 line opened (open', offset) ?_⟩
        rw [brackets]
        exact List.mem_cons_self
      · obtain ⟨blanks, last⟩ := line.close_shows
        refine ⟨[line.close], List.reverse_cons, ?_⟩
        simp only [LayoutState.Completes, opened]
        refine ⟨line.indent, line.close.text, [], [], [], rfl, rfl, ?_, last, .nil⟩
        rwa [shownAll, List.flatMap_nil, List.append_nil]
  | cons lexeme lexemes ih =>
    obtain ⟨first, others⟩ := allFormed_cons.1 formed
    rw [textOf_cons, ← List.append_assoc] at whole
    rw [List.foldlM_cons, bind_assoc]
    refine (behind.meets_step whole first).bind fun s' next => ?_
    refine (ih next.1 whole others).mono fun lines rest => next.2.completes ?_ rest
    rw [next.1.1, behind.1, byteLength_append]
    rfl

end Pass

/-- The logical lines of a source gather its lexemes. -/
theorem meets_logicalLines (source : List Char) :
    Meets (ParseFault source) (Gathers 0 (split source)) (logicalLines source) := by
  refine ((LayoutState.behind_initial source).meets_run (textOf_split source).symm
    (allFormed_split source)).mono ?_
  rintro lines ⟨others, rfl, completes⟩
  exact completes

end BlockEditor
