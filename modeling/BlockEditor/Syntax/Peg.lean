import BlockEditor.Syntax.Pattern
import BlockEditor.Syntax.Span

/-!
# Parsing expressions over tokens

Phrases are built from tokens, fixed texts and other phrases by ordered choice, sequence, option
and greedy repetition.  Blanks may stand between the parts of a sequence and the items of a
repetition; those that were skipped stay skipped even if the part behind them matches nothing.
Reading a phrase yields its tree, and along the way a record of what was tried at the rightmost
place where something failed.
-/

namespace BlockEditor

/-- An expression for phrases, with names of tokens in `τ` and of phrases in `φ`. -/
inductive Peg (τ φ : Type) where
  | text (cs : List Char)
  /-- Nothing, where the pattern does not match. -/
  | absent (p : Pattern)
  | token (t : τ)
  | phrase (p : φ)
  | seq (x y : Peg τ φ)
  | alt (x y : Peg τ φ)
  | opt (x : Peg τ φ)
  | many (x : Peg τ φ)

/-- A grammar: the pattern of every token and the expression of every phrase. -/
structure Grammar (τ φ : Type) where
  pattern : τ → Pattern
  body : φ → Peg τ φ
  isSpace : Char → Bool

/-- The tree of a text that was read. -/
inductive ParseTree (τ φ : Type) where
  | token (t : τ) (span : Span) (lexeme : List Char)
  | phrase (p : φ) (span : Span) (children : List (ParseTree τ φ))

/-- The span of a tree. -/
def ParseTree.span {τ φ : Type} : ParseTree τ φ → Span
  | token _ s _ => s
  | phrase _ s _ => s

variable {τ φ : Type}

namespace Peg

instance : Append (Peg τ φ) := ⟨seq⟩

instance : OrElse (Peg τ φ) := ⟨fun x y => alt x (y ())⟩

/-- A fixed text. -/
def lit (s : String) : Peg τ φ := text s.toList

/-- At least one occurrence. -/
def many1 (x : Peg τ φ) : Peg τ φ := x ++ many x

end Peg

/-! ## Positions -/

/-- A place in a text: what is left of it, and the byte offset. -/
structure Cursor where
  rest : List Char
  offset : Nat

/-- The place behind a lexeme. -/
def Cursor.after (c : Cursor) (lexeme rest : List Char) : Cursor :=
  ⟨rest, c.offset + Text.byteLength lexeme⟩

/-- The place behind all blanks. -/
def Cursor.skip (isSpace : Char → Bool) (c : Cursor) : Cursor :=
  c.after (c.rest.takeWhile isSpace) (c.rest.dropWhile isSpace)

/-! ## Attempts -/

/-- The rightmost offset at which a token or phrase failed, and those that count as tried there,
the latest first. -/
structure Attempts (τ φ : Type) where
  offset : Nat
  symbols : List (τ ⊕ φ)

/-- Number of symbols tried at an offset. -/
def Attempts.countAt (a : Attempts τ φ) (offset : Nat) : Nat :=
  if a.offset = offset then a.symbols.length else 0

/-- Records that a symbol failed at `offset`, where `before` attempts stood before it was tried.
It takes the place of the attempts made inside it, except where there was exactly one of them. -/
def Attempts.record (a : Attempts τ φ) (symbol : τ ⊕ φ) (offset before : Nat) : Attempts τ φ :=
  if a.countAt offset = before + 1 then a
  else if a.offset = offset then
    { a with symbols := symbol :: a.symbols.drop (a.symbols.length - before) }
  else if a.offset < offset then ⟨offset, [symbol]⟩
  else a

/-! ## Reading -/

/-- The outcome of reading an expression. -/
inductive Reply (τ φ : Type) where
  | fail (attempts : Attempts τ φ)
  | done (cursor : Cursor) (trees : List (ParseTree τ φ)) (attempts : Attempts τ φ)

/-- Reads as many further items as there are, at most `fuel`, with blanks in front of each. -/
def readMany (isSpace : Char → Bool) (f : Cursor → Attempts τ φ → Reply τ φ) :
    Nat → Cursor → Attempts τ φ → Cursor × List (ParseTree τ φ) × Attempts τ φ
  | 0, c, a => (c, [], a)
  | fuel + 1, c, a =>
    match f (c.skip isSpace) a with
    | .fail a => (c, [], a)
    | .done c trees a =>
      let (c, more, a) := readMany isSpace f fuel c a
      (c, trees ++ more, a)

/-- Reads an expression, given how to read phrases.  Repetitions run at most `limit` times. -/
def Peg.read (g : Grammar τ φ) (limit : Nat) (call : φ → Cursor → Attempts τ φ → Reply τ φ) :
    Peg τ φ → Cursor → Attempts τ φ → Reply τ φ
  | text t, c, a =>
    match Text.dropLead t c.rest with
    | some rest => .done (c.after t rest) [] a
    | none => .fail a
  | absent p, c, a => if (p.scan c.rest).isSome then .fail a else .done c [] a
  | token t, c, a =>
    match (g.pattern t).scan c.rest with
    | some (lexeme, rest) =>
      let c' := c.after lexeme rest
      .done c' [.token t ⟨c.offset, c'.offset⟩ lexeme] a
    | none => .fail (a.record (.inl t) c.offset (a.countAt c.offset))
  | phrase p, c, a => call p c a
  | seq x y, c, a =>
    match x.read g limit call c a with
    | .fail a => .fail a
    | .done c trees a =>
      match y.read g limit call (c.skip g.isSpace) a with
      | .fail a => .fail a
      | .done c more a => .done c (trees ++ more) a
  | alt x y, c, a =>
    match x.read g limit call c a with
    | .fail a => y.read g limit call c a
    | done => done
  | opt x, c, a =>
    match x.read g limit call c a with
    | .fail a => .done c [] a
    | done => done
  | many x, c, a =>
    match x.read g limit call c a with
    | .fail a => .done c [] a
    | .done c trees a =>
      let (c, more, a) := readMany g.isSpace (x.read g limit call) limit c a
      .done c (trees ++ more) a

/-- Reads a phrase with phrases nested at most `fuel` deep. -/
def Grammar.read (g : Grammar τ φ) (limit : Nat) :
    Nat → φ → Cursor → Attempts τ φ → Reply τ φ
  | 0, _, _, a => .fail a
  | fuel + 1, p, c, a =>
    match (g.body p).read g limit (g.read limit fuel) c a with
    | .done c' trees a => .done c' [.phrase p ⟨c.offset, c'.offset⟩ trees] a
    | .fail a' => .fail (a'.record (.inr p) c.offset (a.countAt c.offset))

end BlockEditor
