import BlockEditor.Diagnostic

/-!
# Logical lines

The layout pass cuts a source text into logical lines: one statement line each, with its
indentation measured and its continuation lines folded in.  It works in two steps.  The text is
first split into lexemes, which together are the whole text; the lexemes are then gathered into
lines.  Comments, joined line ends and continuations are replaced by spaces of the same byte
length, so an offset into a line plus the start of the line is an offset into the source.
-/

namespace BlockEditor

/-! ## Lexemes -/

/-- The role of a piece of source text in its layout. -/
inductive LexemeKind where
  /-- A space, tab or form feed. -/
  | space
  | lineFeed
  | carriageReturn
  /-- A number sign and everything up to the end of the line. -/
  | comment
  /-- A backslash and the line end behind it. -/
  | continuation
  /-- A string literal without its letters in front. -/
  | string
  /-- A string literal that never ends, with the number of quotes that open it. -/
  | unterminated (quotes : Nat)
  | openBracket
  | closeBracket
  | other
  deriving DecidableEq, Repr

/-- A piece of source text with its role. -/
structure Lexeme where
  kind : LexemeKind
  text : List Char
  deriving DecidableEq, Repr

namespace Lexeme

/-- The body and closing quote of a literal in single quotes, and the rest.  A line feed ends the
attempt unless a backslash stands before it. -/
def shortString? (quote : Char) : List Char → Option (List Char × List Char)
  | [] => none
  | '\\' :: c :: cs => (shortString? quote cs).map fun (body, rest) => ('\\' :: c :: body, rest)
  | c :: cs =>
    if c = '\n' ∨ c = '\\' then none
    else if c = quote then some ([c], cs)
    else (shortString? quote cs).map fun (body, rest) => (c :: body, rest)

/-- The body and closing quotes of a literal in triple quotes, and the rest. -/
def longString? (quote : Char) : List Char → Option (List Char × List Char)
  | [] => none
  | '\\' :: c :: cs => (longString? quote cs).map fun (body, rest) => ('\\' :: c :: body, rest)
  | c :: d :: e :: cs =>
    if c = quote ∧ d = quote ∧ e = quote then some ([c, d, e], cs)
    else (longString? quote (d :: e :: cs)).map fun (body, rest) => (c :: body, rest)
  | _ :: cs => longString? quote cs

/-- The string literal at the start of `cs`, which begins with `quote`, and the rest. -/
def string (quote : Char) (cs : List Char) : Lexeme × List Char :=
  match cs with
  | c :: d :: e :: rest =>
    if d = quote ∧ e = quote then
      match longString? quote rest with
      | some (body, rest) => (⟨.string, c :: d :: e :: body⟩, rest)
      | none => (⟨.unterminated 3, cs⟩, [])
    else short cs
  | _ => short cs
where
  /-- A literal in single quotes. -/
  short (cs : List Char) : Lexeme × List Char :=
    match cs with
    | [] => (⟨.unterminated 1, []⟩, [])
    | c :: rest =>
      match shortString? quote rest with
      | some (body, rest) => (⟨.string, c :: body⟩, rest)
      | none => (⟨.unterminated 1, c :: rest⟩, [])

/-- The lexeme that begins with `c` and continues in `cs`, and the rest. -/
def next (c : Char) (cs : List Char) : Lexeme × List Char :=
  match c with
  | ' ' | '\t' | '\x0c' => (⟨.space, [c]⟩, cs)
  | '\n' => (⟨.lineFeed, [c]⟩, cs)
  | '\r' => (⟨.carriageReturn, [c]⟩, cs)
  | '#' => (⟨.comment, c :: cs.takeWhile (· ≠ '\n')⟩, cs.dropWhile (· ≠ '\n'))
  | '\\' =>
    match cs with
    | '\n' :: rest => (⟨.continuation, ['\\', '\n']⟩, rest)
    | '\r' :: '\n' :: rest => (⟨.continuation, ['\\', '\r', '\n']⟩, rest)
    | _ => (⟨.other, [c]⟩, cs)
  | '"' | '\'' => string c (c :: cs)
  | '(' | '[' | '{' => (⟨.openBracket, [c]⟩, cs)
  | ')' | ']' | '}' => (⟨.closeBracket, [c]⟩, cs)
  | _ => (⟨.other, [c]⟩, cs)

/-- Splits off at most `fuel` lexemes. -/
def splitWithin : Nat → List Char → List Lexeme
  | 0, _ => []
  | _, [] => []
  | fuel + 1, c :: cs =>
    let (lexeme, rest) := next c cs
    lexeme :: splitWithin fuel rest

/-- The lexemes of a text, in order.  An unterminated literal takes all that is left. -/
def split (cs : List Char) : List Lexeme := splitWithin cs.length cs

end Lexeme

/-! ## Lines -/

/-- A logical line: the indentation of its first physical line, the offset of its first character
that is no indentation, and its text. -/
structure LogicalLine where
  indent : Nat
  start : Nat
  text : List Char
  deriving DecidableEq, Repr

/-- The offset behind a line. -/
def LogicalLine.stop (line : LogicalLine) : Nat := line.start + Text.byteLength line.text

/-- The span of a line. -/
def LogicalLine.span (line : LogicalLine) : Span := ⟨line.start, line.stop⟩

/-- Columns from one tab stop to the next. -/
def tabWidth : Nat := 8

/-- The deepest nesting of brackets that a line may reach. -/
def maxNesting : Nat := 200

/-- The bracket that closes `open'`. -/
def closerOf (open' : Char) : Char :=
  match open' with
  | '(' => ')'
  | '[' => ']'
  | _ => '}'

/-- The column behind a character of indentation. -/
def advanceColumn (column : Nat) (c : Char) : Nat :=
  match c with
  | '\t' => (column / tabWidth + 1) * tabWidth
  | '\x0c' => 0
  | _ => column + 1

/-- A line that is being gathered: its text backwards, and the open brackets with their offsets,
innermost first. -/
structure OpenLine where
  indent : Nat
  start : Nat
  reversed : List Char
  brackets : List (Char × Nat)

/-- The finished line, without spaces at its end. -/
def OpenLine.close (line : OpenLine) : LogicalLine :=
  ⟨line.indent, line.start, (line.reversed.dropWhile (· = ' ')).reverse⟩

/-- Adds text that stays as it is. -/
def OpenLine.keep (line : OpenLine) (text : List Char) : OpenLine :=
  { line with reversed := text.reverse ++ line.reversed }

/-- Adds spaces in place of text. -/
def OpenLine.blank (line : OpenLine) (text : List Char) : OpenLine :=
  { line with reversed := List.replicate (Text.byteLength text) ' ' ++ line.reversed }

/-- Where the layout pass stands: at an offset, either in the indentation of a physical line at a
column, or inside a logical line. -/
structure LayoutState where
  offset : Nat
  column : Nat
  line : Option OpenLine
  finished : List LogicalLine

/-- The state at the start of a text. -/
def LayoutState.initial : LayoutState := ⟨0, 0, none, []⟩

/-- A failure at the `width` bytes from an offset. -/
def faultAt (cause : Cause) (offset width : Nat) : Fault := ⟨cause, ⟨offset, offset + width⟩⟩

/-- Takes an opening bracket into a line. -/
def OpenLine.openBracket (line : OpenLine) (offset : Nat) (c : Char) : Except Fault OpenLine :=
  if line.brackets.length = maxNesting then
    .error (faultAt (.nestingTooDeep maxNesting) offset 1)
  else .ok { line.keep [c] with brackets := (c, offset) :: line.brackets }

/-- Takes a closing bracket into a line. -/
def OpenLine.closeBracket (line : OpenLine) (offset : Nat) (c : Char) : Except Fault OpenLine :=
  match line.brackets with
  | [] => .error (faultAt (.unmatchedBracket c) offset 1)
  | (open', _) :: brackets =>
    if closerOf open' = c then .ok { line.keep [c] with brackets := brackets }
    else .error (faultAt (.mismatchedBracket (closerOf open') c) offset 1)

/-- Takes a lexeme into a line; `none` if it ends the line. -/
def OpenLine.take (line : OpenLine) (offset : Nat) (lexeme : Lexeme) :
    Except Fault (Option OpenLine) :=
  match lexeme.kind, lexeme.text with
  | .lineFeed, text => if line.brackets.isEmpty then .ok none else .ok (some (line.blank text))
  | .carriageReturn, text | .comment, text | .continuation, text => .ok (some (line.blank text))
  | .unterminated quotes, _ => .error (faultAt .unterminatedString offset quotes)
  | .openBracket, [c] => (line.openBracket offset c).map some
  | .closeBracket, [c] => (line.closeBracket offset c).map some
  | _, text => .ok (some (line.keep text))

/-- Takes one lexeme. -/
def LayoutState.step (s : LayoutState) (lexeme : Lexeme) : Except Fault LayoutState :=
  let next := s.offset + Text.byteLength lexeme.text
  match s.line, lexeme.kind, lexeme.text with
  | none, .space, [c] => .ok { s with offset := next, column := advanceColumn s.column c }
  | none, .lineFeed, _ | none, .carriageReturn, _ | none, .comment, _ =>
    .ok { s with offset := next, column := 0 }
  | none, _, _ => do
    let line : OpenLine := ⟨s.column, s.offset, [], []⟩
    let line ← line.take s.offset lexeme
    .ok { s with offset := next, line := line }
  | some line, _, _ => do
    match ← line.take s.offset lexeme with
    | some line => .ok { s with offset := next, line := some line }
    | none => .ok ⟨next, 0, none, line.close :: s.finished⟩

/-- Ends the text: a line still open is finished, unless a bracket is still open. -/
def LayoutState.finish (s : LayoutState) : Except Fault (List LogicalLine) :=
  match s.line with
  | none => .ok s.finished.reverse
  | some line =>
    match line.brackets with
    | (open', offset) :: _ => .error (faultAt (.unclosedBracket open') offset 1)
    | [] => .ok (line.close :: s.finished).reverse

/-- The logical lines of a source text, without those that are blank or hold only a comment. -/
def logicalLines (source : List Char) : Except Fault (List LogicalLine) := do
  let s ← (Lexeme.split source).foldlM LayoutState.step .initial
  s.finish

end BlockEditor
