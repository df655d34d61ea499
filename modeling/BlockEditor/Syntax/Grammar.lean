import BlockEditor.Syntax.Peg
import BlockEditor.Syntax.Token

/-!
# The grammar of a logical line

One logical line is a clause header, a decorator or a list of simple statements.  Precedence and
associativity of operators are not part of the grammar: an operation is a flat run of operators
and operands.
-/

namespace BlockEditor

/-! ## Phrase names -/

/-- The kinds of phrases. -/
inductive PhraseName where
  | line
  | simpleStmts
  | passStmt | breakStmt | continueStmt | returnStmt | raiseStmt | assertStmt | delStmt
  | globalStmt | yieldStmt
  | importStmt | dottedAsName | fromImportStmt | importTargets | importAsNames | importAsName
  | assignmentStmt | typeHint
  | compoundHeader | decorator
  | ifHead | elifHead | elseHead | whileHead | forHead | defHead | classHead | tryHead
  | exceptHead | finallyHead | withHead | withItem
  | params | param | lambdaParams | lambdaParam
  | starExpressions | starred | targetList | starTarget
  | expression | lambdaExpr | namedExpr | yieldExpr
  | operation | compOp | opNotIn | opIsNot | opIn | opIs | sumOp | termOp | unaryOp
  | primary | call | callArgs | keywordArg | starArg | doubleStarArg | attributeTrailer
  | subscript | slice | sliceUpper | sliceStep
  | parenExpr | listDisplay | braceDisplay | dictTail | dictItem
  | compFor | compIf
  | strings
  deriving DecidableEq, Repr

/-- An expression of the line grammar. -/
abbrev LineExpr := Peg Token PhraseName

/-- A tree of the line grammar. -/
abbrev LineTree := ParseTree Token PhraseName

namespace LineGrammar

open Peg PhraseName

/-! ## Shorthands -/

/-- A reserved word. -/
def word (w : Word) : LineExpr := token (.word w)

/-- A phrase by its name. -/
def ref (p : PhraseName) : LineExpr := phrase p

/-- An equals sign that does not begin a comparison. -/
def equals : LineExpr := lit "=" ++ absent (Pattern.lit "=")

/-- Items with commas between them. -/
def commaSeparated (x : LineExpr) : LineExpr := x ++ many (lit "," ++ x)

/-- A comma that may stand at the end. -/
def maybeComma : LineExpr := opt (lit ",")

/-! ## Choices without a name -/

/-- A simple statement. -/
def simpleStmt : LineExpr :=
  ref passStmt <|> ref breakStmt <|> ref continueStmt <|> ref returnStmt <|> ref raiseStmt
    <|> ref assertStmt <|> ref delStmt <|> ref globalStmt <|> ref importStmt
    <|> ref fromImportStmt <|> ref yieldStmt <|> ref assignmentStmt

/-- What an assignment assigns. -/
def assignedValue : LineExpr := ref yieldExpr <|> ref starExpressions

/-- The head of a clause. -/
def clauseHead : LineExpr :=
  ref ifHead <|> ref elifHead <|> ref elseHead <|> ref whileHead <|> ref forHead <|> ref defHead
    <|> ref classHead <|> ref tryHead <|> ref exceptHead <|> ref finallyHead <|> ref withHead

/-- An item that may be starred. -/
def starItem : LineExpr := ref starred <|> ref expression

/-- An assignment target that may be starred. -/
def target : LineExpr := ref starTarget <|> ref primary

/-- An operator in front of an operand. -/
def leadingOp : LineExpr := word .notWord <|> ref unaryOp <|> word .awaitWord

/-- An operator between operands. -/
def linkingOp : LineExpr :=
  word .orWord <|> word .andWord <|> ref compOp <|> ref sumOp <|> token .powOp <|> ref termOp

/-- What may follow an atom. -/
def trailer : LineExpr := ref call <|> ref attributeTrailer <|> ref subscript

/-- An argument of a call. -/
def callArg : LineExpr :=
  ref keywordArg <|> ref doubleStarArg <|> ref starArg <|> ref expression

/-- A number. -/
def number : LineExpr := token .imaginary <|> token .float <|> token .integer

/-- An operand without trailers. -/
def atom : LineExpr :=
  ref parenExpr <|> ref listDisplay <|> ref braceDisplay <|> ref strings <|> number
    <|> token .noneLit <|> token .trueLit <|> token .falseLit <|> token .ellipsis
    <|> token .identifier

/-- The clauses of a comprehension, or the other items of a display, as `more` says. -/
def comprehensionOr (more : LineExpr) : LineExpr := many1 (ref compFor) <|> more

/-! ## Phrases -/

/-- The expression of a phrase. -/
def body : PhraseName → LineExpr
  | line => lit "" ++ (ref compoundHeader <|> ref decorator <|> ref simpleStmts) ++ token .endOfLine
  | simpleStmts => simpleStmt ++ many (lit ";" ++ simpleStmt) ++ opt (lit ";")
  | passStmt => word .passWord
  | breakStmt => word .breakWord
  | continueStmt => word .continueWord
  | returnStmt => word .returnWord ++ opt (ref starExpressions)
  | raiseStmt =>
    word .raiseWord ++ opt (ref expression ++ opt (word .fromWord ++ ref expression))
  | assertStmt => word .assertWord ++ ref expression ++ opt (lit "," ++ ref expression)
  | delStmt => word .delWord ++ ref targetList
  | globalStmt =>
    (word .globalWord <|> word .nonlocalWord) ++ commaSeparated (token .identifier)
  | yieldStmt => ref yieldExpr
  | importStmt => word .importWord ++ commaSeparated (ref dottedAsName)
  | dottedAsName => token .dottedName ++ opt (word .asWord ++ token .identifier)
  | fromImportStmt =>
    word .fromWord ++ token .modulePath ++ word .importWord ++ ref importTargets
  | importTargets => lit "*" <|> lit "(" ++ ref importAsNames ++ lit ")" <|> ref importAsNames
  | importAsNames => commaSeparated (ref importAsName) ++ maybeComma
  | importAsName => token .identifier ++ opt (word .asWord ++ token .identifier)
  | assignmentStmt =>
    ref starExpressions ++
      opt (token .augOp ++ assignedValue
        <|> ref typeHint ++ opt (lit "=" ++ assignedValue)
        <|> many1 (equals ++ assignedValue))
  | typeHint => lit ":" ++ ref expression
  | compoundHeader => clauseHead ++ lit ":" ++ opt (ref simpleStmts)
  | decorator => lit "@" ++ ref expression
  | ifHead => word .ifWord ++ ref expression
  | elifHead => word .elifWord ++ ref expression
  | elseHead => word .elseWord
  | whileHead => word .whileWord ++ ref expression
  | forHead =>
    opt (word .asyncWord) ++ word .forWord ++ ref targetList ++ word .inWord
      ++ ref starExpressions
  | defHead =>
    opt (word .asyncWord) ++ word .defWord ++ token .identifier ++ lit "(" ++ opt (ref params)
      ++ lit ")" ++ opt (lit "->" ++ ref expression)
  | classHead =>
    word .classWord ++ token .identifier ++ opt (lit "(" ++ opt (ref callArgs) ++ lit ")")
  | tryHead => word .tryWord
  | exceptHead =>
    word .exceptWord ++ opt (ref expression ++ opt (word .asWord ++ token .identifier))
  | finallyHead => word .finallyWord
  | withHead => opt (word .asyncWord) ++ word .withWord ++ commaSeparated (ref withItem)
  | withItem => ref expression ++ opt (word .asWord ++ ref primary)
  | params => commaSeparated (ref param) ++ maybeComma
  | param =>
    opt (token .paramStar) ++ token .identifier ++ opt (lit ":" ++ ref expression)
      ++ opt (lit "=" ++ ref expression)
      <|> lit "*" <|> lit "/"
  | lambdaParams => commaSeparated (ref lambdaParam) ++ maybeComma
  | lambdaParam =>
    opt (token .paramStar) ++ token .identifier ++ opt (lit "=" ++ ref expression)
      <|> lit "*" <|> lit "/"
  | starExpressions => commaSeparated starItem ++ opt (token .trailingComma)
  | starred => lit "*" ++ ref operation
  | targetList => commaSeparated target ++ opt (token .trailingComma)
  | starTarget => lit "*" ++ ref primary
  | expression =>
    ref lambdaExpr <|> ref namedExpr
      <|> ref operation
        ++ opt (word .ifWord ++ ref operation ++ word .elseWord ++ ref expression)
  | lambdaExpr => word .lambdaWord ++ opt (ref lambdaParams) ++ lit ":" ++ ref expression
  | namedExpr => token .identifier ++ lit ":=" ++ ref expression
  | yieldExpr =>
    word .yieldWord ++ opt (word .fromWord ++ ref expression <|> ref starExpressions)
  | operation =>
    many leadingOp ++ ref primary ++ many (linkingOp ++ many leadingOp ++ ref primary)
  | compOp =>
    token .opEq <|> token .opNe <|> token .opLe <|> token .opGe <|> token .opLt <|> token .opGt
      <|> ref opNotIn <|> ref opIsNot <|> ref opIn <|> ref opIs
  | opNotIn => word .notWord ++ word .inWord
  | opIsNot => word .isWord ++ word .notWord
  | opIn => word .inWord
  | opIs => word .isWord
  | sumOp => token .opAdd <|> token .opSub
  | termOp => token .opFloorDiv <|> token .opDiv <|> token .opMul <|> token .opMod
  | unaryOp => token .opAdd <|> token .opSub
  | primary => atom ++ many trailer
  | call => lit "(" ++ opt (ref callArgs) ++ lit ")"
  | callArgs => callArg ++ comprehensionOr (many (lit "," ++ callArg) ++ maybeComma)
  | keywordArg => token .identifier ++ equals ++ ref expression
  | starArg => lit "*" ++ ref expression
  | doubleStarArg => lit "**" ++ ref expression
  | attributeTrailer => lit "." ++ token .identifier
  | subscript =>
    lit "["
      ++ (ref expression
          ++ (ref slice <|> many (lit "," ++ ref expression) ++ opt (token .trailingComma))
        <|> ref slice)
      ++ lit "]"
  | slice => lit ":" ++ opt (ref sliceUpper) ++ opt (lit ":" ++ opt (ref sliceStep))
  | sliceUpper => ref expression
  | sliceStep => ref expression
  | parenExpr =>
    lit "("
      ++ opt (ref yieldExpr
        <|> starItem
          ++ comprehensionOr (many (lit "," ++ starItem) ++ opt (token .trailingComma)))
      ++ lit ")"
  | listDisplay =>
    lit "[" ++ opt (starItem ++ comprehensionOr (many (lit "," ++ starItem) ++ maybeComma))
      ++ lit "]"
  | braceDisplay =>
    lit "\x7b"
      ++ opt (ref expression
          ++ (ref dictTail <|> comprehensionOr (many (lit "," ++ starItem) ++ maybeComma))
        <|> ref starred ++ many (lit "," ++ starItem) ++ maybeComma)
      ++ lit "\x7d"
  | dictTail => lit ":" ++ ref expression ++ many (lit "," ++ ref dictItem) ++ maybeComma
  | dictItem => ref expression ++ lit ":" ++ ref expression
  | compFor =>
    word .forWord ++ ref targetList ++ word .inWord ++ ref operation ++ many (ref compIf)
  | compIf => word .ifWord ++ ref operation
  | strings => many1 (token .string)

end LineGrammar

/-- The grammar of a logical line.  Spaces, tabs and form feeds may stand between its parts. -/
def lineGrammar : Grammar Token PhraseName :=
  ⟨Token.pattern, LineGrammar.body, fun c => c = ' ' || c = '\t' || c = '\x0c'⟩

/-! ## Reading a line -/

/-- More than the number of phrases that can be nested without a character between their
starts. -/
def phraseDepth : Nat := 80

/-- Reads the text of a line that starts at an offset.  Every nesting of phrases at one place is
shallow, so the depth of the tree is bounded by the length of the text. -/
def readLine (text : List Char) (offset : Nat) : Reply Token PhraseName :=
  let limit := text.length + 1
  lineGrammar.read limit (phraseDepth * limit) .line ⟨text, offset⟩ ⟨offset, []⟩

end BlockEditor
