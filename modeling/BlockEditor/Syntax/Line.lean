import BlockEditor.Syntax.Expression
import BlockEditor.Syntax.LogicalLine

/-!
# Parsed lines

What one logical line contributes to a program: simple statements, a decorator, or the head of a
clause with the statements that may stand behind its colon.
-/

namespace BlockEditor

/-! ## Contents of lines -/

/-- The head of a clause. -/
inductive ClauseHead where
  | ifHead (test : Expr)
  | elifHead (test : Expr)
  | elseHead
  | whileHead (test : Expr)
  | forHead (isAsync : Bool) (target iter : Expr)
  | defHead (isAsync : Bool) (name : String) (params : List String)
  | classHead (name : String) (bases : List Expr)
  | tryHead
  | exceptHead (kind : Option Expr) (name : Option String)
  | finallyHead
  | withHead (isAsync : Bool) (items : List Expr)

/-- The word that names a clause. -/
def ClauseHead.keyword : ClauseHead → String
  | ifHead _ => "if"
  | elifHead _ => "elif"
  | elseHead => "else"
  | whileHead _ => "while"
  | forHead .. => "for"
  | defHead .. => "def"
  | classHead .. => "class"
  | tryHead => "try"
  | exceptHead .. => "except"
  | finallyHead => "finally"
  | withHead .. => "with"

/-- What a line holds. -/
inductive LineContent where
  | simple (stmts : List Stmt)
  | decorator (e : Expr)
  | header (head : ClauseHead) (inline : Option (List Stmt))

/-- A logical line that was read: its indentation, its span and what it holds. -/
structure ParsedLine where
  indent : Nat
  span : Span
  content : LineContent

/-! ## Simple statements -/

/-- The expression at the start of some trees, if there is any. -/
def firstExprOf : List LineTree → Except Fault (Option Expr)
  | [] => .ok none
  | tree :: _ => (exprOf tree).map some

/-- The expressions of trees, in order. -/
def exprsOf (trees : List LineTree) : Except Fault (List Expr) := trees.mapM exprOf

/-- The text of the first token among the children of a tree. -/
def leadingLexeme? : LineTree → Option String
  | .phrase _ _ (.token _ _ lexeme :: _) => some (String.ofList lexeme)
  | _ => none

/-- The operator of an augmented assignment. -/
def augOpOf (lexeme : List Char) : BinOp :=
  match String.ofList lexeme with
  | "+=" => .add
  | "-=" => .sub
  | "**=" => .pow
  | "*=" => .mul
  | "//=" => .floorDiv
  | "/=" => .div
  | _ => .mod

/-- Checks that an expression can be the target of an augmented assignment. -/
def checkAugTarget : Expr → Except Fault Unit
  | .name .. | .member .. | .subscript .. => .ok ()
  | e => .error (invalidTarget e)

/-- An expression statement or an assignment: what follows the first expression decides. -/
def assignmentOf (span : Span) : List LineTree → Except Fault Stmt
  | [] => unexpected span
  | [value] => (exprOf value).map (.expr span)
  | target :: .token .augOp _ lexeme :: value :: _ => do
    let target ← exprOf target
    let value ← exprOf value
    checkAugTarget target
    .ok (.augAssign span target (augOpOf lexeme) value)
  | target :: .phrase .typeHint _ [typeHint] :: value => do
    let target ← exprOf target
    checkTarget target
    let typeHint ← exprOf typeHint
    let value ← firstExprOf value
    .ok (.annAssign span target typeHint value)
  | first :: rest => do
    let first ← exprOf first
    let rest ← exprsOf rest
    let targets := (first :: rest).dropLast
    checkTargets targets
    .ok (.assign span targets ((first :: rest).getLastD first))

/-- The targets of a `del`; those of a tuple are deleted one by one. -/
def deleteTargets : Expr → List Expr
  | .tuple _ items => items
  | e => [e]

/-- The names that a `from` import brings in. -/
def importedNames : List LineTree → List String
  | .phrase .importAsNames _ names :: _ => names.filterMap leadingLexeme?
  | _ => ["*"]

/-- The simple statement of a tree. -/
def simpleStmtOf : LineTree → Except Fault Stmt
  | .phrase .passStmt s _ => .ok (.pass s)
  | .phrase .breakStmt s _ => .ok (.breakLoop s)
  | .phrase .continueStmt s _ => .ok (.continueLoop s)
  | .phrase .returnStmt s (_ :: value) => (firstExprOf value).map (.returnValue s)
  | .phrase .raiseStmt s (_ :: value) => (firstExprOf value).map (.raise s)
  | .phrase .assertStmt s (_ :: test :: message) => do
    let test ← exprOf test
    let message ← firstExprOf message
    .ok (.assert s test message)
  | .phrase .delStmt s [_, targets] => do
    let targets := deleteTargets (← exprOf targets)
    checkTargets targets
    .ok (.delete s targets)
  | .phrase .globalStmt s children =>
    .ok (.globalNames s ((lexemesOf .identifier children).map String.ofList))
  | .phrase .importStmt s children => .ok (.importNames s (children.filterMap leadingLexeme?))
  | .phrase .fromImportStmt s [_, .token _ _ path, _, .phrase _ _ names] =>
    .ok (.importFrom s (String.ofList path) (importedNames names))
  | .phrase .yieldStmt s [value] => (exprOf value).map (.expr s)
  | .phrase .assignmentStmt s children => assignmentOf s children
  | tree => unexpected tree.span

/-- The simple statements of a tree. -/
def simpleStmtsOf : LineTree → Except Fault (List Stmt)
  | .phrase .simpleStmts _ children => children.mapM simpleStmtOf
  | tree => unexpected tree.span

/-! ## Clause heads -/

/-- Whether the word `async` is among trees. -/
def hasAsync (trees : List LineTree) : Bool := !(lexemesOf (.word .asyncWord) trees).isEmpty

/-- Drops the words at the start of trees. -/
def dropWords : List LineTree → List LineTree
  | .token (.word _) .. :: trees => dropWords trees
  | trees => trees

/-- The parameters behind the name of a function. -/
def paramsOf : List LineTree → List String
  | .phrase .params _ params :: _ => paramNames params
  | _ => []

/-- The bases behind the name of a class. -/
def basesOf : List LineTree → Except Fault (List Expr)
  | .phrase .callArgs s args :: _ => (argumentsOf s args).map Prod.fst
  | _ => .ok []

/-- The expression at the start of a `with` item. -/
def withItemOf : LineTree → Except Fault Expr
  | .phrase .withItem _ (value :: _) => exprOf value
  | tree => unexpected tree.span

/-- The head of a clause. -/
def clauseHeadOf : LineTree → Except Fault ClauseHead
  | .phrase .ifHead _ [_, test] => (exprOf test).map .ifHead
  | .phrase .elifHead _ [_, test] => (exprOf test).map .elifHead
  | .phrase .elseHead .. => .ok .elseHead
  | .phrase .whileHead _ [_, test] => (exprOf test).map .whileHead
  | .phrase .forHead s children =>
    match dropWords children with
    | [target, _, iter] => do
      let target ← exprOf target
      checkTarget target
      let iter ← exprOf iter
      .ok (.forHead (hasAsync children) target iter)
    | _ => unexpected s
  | .phrase .defHead s children =>
    match dropWords children with
    | .token _ _ name :: rest =>
      .ok (.defHead (hasAsync children) (String.ofList name) (paramsOf rest))
    | _ => unexpected s
  | .phrase .classHead _ (_ :: .token _ _ name :: rest) =>
    (basesOf rest).map (.classHead (String.ofList name))
  | .phrase .tryHead .. => .ok .tryHead
  | .phrase .exceptHead _ (_ :: rest) => do
    let kind ← firstExprOf rest
    .ok (.exceptHead kind ((lexemesOf .identifier rest).head?.map String.ofList))
  | .phrase .finallyHead .. => .ok .finallyHead
  | .phrase .withHead _ children => do
    let items ← (dropWords children).mapM withItemOf
    .ok (.withHead (hasAsync children) items)
  | tree => unexpected tree.span

/-! ## Lines -/

/-- What the tree of a line holds. -/
def lineContentOf : LineTree → Except Fault LineContent
  | .phrase .line _ (.phrase .decorator _ [value] :: _) => (exprOf value).map .decorator
  | .phrase .line _ (.phrase .compoundHeader _ [head] :: _) => do
    let head ← clauseHeadOf head
    .ok (.header head none)
  | .phrase .line _ (.phrase .compoundHeader _ [head, stmts] :: _) => do
    let head ← clauseHeadOf head
    let stmts ← simpleStmtsOf stmts
    .ok (.header head (some stmts))
  | .phrase .line _ (stmts :: _) => (simpleStmtsOf stmts).map .simple
  | tree => unexpected tree.span

/-- The fault of a line that does not match the grammar.  It lies where the rightmost attempt
failed, and concerns an expression if one was tried there. -/
def attemptsFault (a : Attempts Token PhraseName) : Fault :=
  let expression := a.symbols.any fun symbol =>
    symbol = .inr .expression || symbol = .inr .starExpressions
  ⟨.malformed (if expression then .expression else .statement), .point a.offset⟩

/-- What a line holds according to the reply of the grammar. -/
def replyContent : Reply Token PhraseName → Except Fault LineContent
  | .done _ [tree] _ => lineContentOf tree
  | .done _ _ a | .fail a => .error (attemptsFault a)

/-- Reads a logical line. -/
def parseLine (line : LogicalLine) : Except Fault ParsedLine :=
  (replyContent (readLine line.text line.start)).map fun content =>
    ⟨line.indent, line.span, content⟩

end BlockEditor
