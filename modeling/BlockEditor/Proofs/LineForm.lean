import BlockEditor.Proofs.Numerals
import BlockEditor.Proofs.Quotation

/-!
# Forms of generated lines

The lines of generated code have few forms, and the grammar of lines reads every one of them,
whatever names, numbers and texts stand in it.
-/

namespace BlockEditor

/-! ## Fillings -/

/-- Texts for the holes of a line: an identifier, digits, a decimal and the text of a literal. -/
structure Filling where
  name : List Char := ['x']
  integer : List Char := ['0']
  decimal : List Char := ['0', '.', '0']
  quoted : String := ""
  isName : IsIdentifier name := by decide +kernel
  isInteger : IsDigits integer := by exact isDigits_zero
  isDecimal : IsDecimal decimal := by exact isDecimal_zero

namespace Filling

/-- The text of a hole. -/
def text (f : Filling) : Hole → List Char
  | .name => f.name
  | .integer => f.integer
  | .decimal => f.decimal
  | .quoted => Text.encodeQuoted '\'' f.quoted.toList

/-- The texts of a filling fit its holes. -/
theorem fitting (f : Filling) : Fitting f.text := by
  intro h
  cases h with
  | name => exact f.isName.fits
  | integer => exact f.isInteger.fits
  | decimal => exact f.isDecimal.fits
  | quoted => exact fits_encodeQuoted f.quoted.toList

end Filling

open Outline (ofText)

/-! ## Forms -/

/-- The forms of expressions in generated code. -/
inductive LiteralForm where
  | none
  | false
  | quoted
  | integer
  | decimal
  | negativeInteger
  | negativeDecimal

namespace LiteralForm

/-- The text of a literal, up to its holes. -/
def outline : LiteralForm → Outline
  | none => ofText "None"
  | false => ofText "False"
  | quoted => [.hole .quoted]
  | integer => [.hole .integer]
  | decimal => [.hole .decimal]
  | negativeInteger => ofText "(-" ++ .hole .integer :: ofText ")"
  | negativeDecimal => ofText "(-" ++ .hole .decimal :: ofText ")"

/-- The tree of a sign and a number in parentheses. -/
def negated (number : Sketch) : Sketch :=
  .phrase .parenExpr [.phrase .expression [.phrase .operation
    [.phrase .unaryOp [.token .opSub (ofText "-")], .phrase .primary [number]]]]

/-- The tree of a literal as an atom. -/
def sketch : LiteralForm → Sketch
  | none => .token .noneLit (ofText "None")
  | false => .token .falseLit (ofText "False")
  | quoted => .phrase .strings [.token .string [.hole .quoted]]
  | integer => .token .integer [.hole .integer]
  | decimal => .token .float [.hole .decimal]
  | negativeInteger => negated (.token .integer [.hole .integer])
  | negativeDecimal => negated (.token .float [.hole .decimal])

/-- The expression of a literal. -/
def Denotes (f : Filling) : LiteralForm → Expr → Prop
  | none, e => ∃ s, e = .constant s .none
  | false, e => ∃ s, e = .constant s (.bool Bool.false)
  | quoted, e => ∃ s, e = .constant s (.str f.quoted)
  | integer, e => ∃ s n, Number.readDigits? 10 f.integer = some n ∧
    e = .constant s (naturalConstant n)
  | decimal, e => ∃ s d, Number.readDecimal? f.decimal = some d ∧ e = .constant s (.float d.toFloat)
  | negativeInteger, e => ∃ s t n, Number.readDigits? 10 f.integer = some n ∧
    e = .unary s .neg (.constant t (naturalConstant n))
  | negativeDecimal, e => ∃ s t d, Number.readDecimal? f.decimal = some d ∧
    e = .unary s .neg (.constant t (.float d.toFloat))

/-- All forms of literals. -/
def all : List LiteralForm :=
  [none, false, quoted, integer, decimal, negativeInteger, negativeDecimal]

theorem mem_all (l : LiteralForm) : l ∈ all := by
  cases l <;> simp [all]

end LiteralForm

/-- The forms of generated lines. -/
inductive LineForm where
  | pass
  | print (l : LiteralForm)
  | assign (l : LiteralForm)
  | branch (l : LiteralForm)
  | loop
  | value (l : LiteralForm)

/-- The tree of an expression with one operand. -/
def Sketch.operand (children : List Sketch) : Sketch :=
  .phrase .expression [.phrase .operation [.phrase .primary children]]

/-- The tree of an identifier. -/
def Sketch.name (lexeme : Outline) : Sketch := .token .identifier lexeme

/-- The tree of a call with one argument. -/
def Sketch.call (func : String) (arg : Sketch) : Sketch :=
  .operand [.name (ofText func), .phrase .call [.phrase .callArgs [.operand [arg]]]]

namespace LineForm

/-- The text of a line, up to its holes. -/
def outline : LineForm → Outline
  | pass => ofText "pass"
  | print l => ofText "print(" ++ l.outline ++ ofText ")"
  | assign l => .hole .name :: ofText " = " ++ l.outline
  | branch l => ofText "if " ++ l.outline ++ ofText ":"
  | loop =>
    ofText "for " ++ .hole .name :: ofText " in range(" ++ .hole .integer :: ofText "):"
  | value l => l.outline

/-- The tree of a simple statement. -/
def simple (statement : Sketch) : Sketch := .phrase .simpleStmts [statement]

/-- What a line holds, as a tree. -/
def content : LineForm → Sketch
  | pass => simple (.phrase .passStmt [.token (.word .passWord) (ofText "pass")])
  | print l =>
    simple (.phrase .assignmentStmt [.phrase .starExpressions [.call "print" l.sketch]])
  | assign l =>
    simple (.phrase .assignmentStmt [.phrase .starExpressions [.operand [.name [.hole .name]]],
      .phrase .starExpressions [.operand [l.sketch]]])
  | branch l =>
    .phrase .compoundHeader [.phrase .ifHead
      [.token (.word .ifWord) (ofText "if"), .operand [l.sketch]]]
  | loop =>
    .phrase .compoundHeader [.phrase .forHead [.token (.word .forWord) (ofText "for"),
      .phrase .targetList [.phrase .primary [.name [.hole .name]]],
      .token (.word .inWord) (ofText "in"),
      .phrase .starExpressions [.call "range" (.token .integer [.hole .integer])]]]
  | value l => simple (.phrase .assignmentStmt [.phrase .starExpressions [.operand [l.sketch]]])

/-- The tree of a line. -/
def sketch (l : LineForm) : Sketch := .phrase .line [l.content, .token .endOfLine []]

/-- All forms of lines. -/
def all : List LineForm :=
  pass :: loop :: LiteralForm.all.flatMap fun l => [print l, assign l, branch l, value l]

theorem mem_all (l : LineForm) : l ∈ all := by
  cases l with
  | pass | loop => simp [all]
  | print l | assign l | branch l | value l =>
    have literal := l.mem_all
    simp [all, literal]

/-- The grammar reads a line of every form.  The forms are tried together, as they share most of
the work. -/
theorem foreseePhrase_outline (l : LineForm) :
    foreseePhrase phraseDepth .line l.outline = .accepted ([l.sketch], []) := by
  have all : ∀ l ∈ all, foreseePhrase phraseDepth .line l.outline = .accepted ([l.sketch], []) := by
    decide +kernel
  exact all l l.mem_all

end LineForm

end BlockEditor
