import BlockEditor.Syntax.Grammar
import BlockEditor.Syntax.Literal
import BlockEditor.Syntax.Operation

/-!
# Expressions of parse trees

Turns the trees of the line grammar into expressions.  Children are taken from left to right, so
the first fault in the text is the one reported.
-/

namespace BlockEditor

/-! ## Assignment targets -/

/-- A failure to assign to an expression. -/
def invalidTarget (e : Expr) : Fault := ⟨.invalidTarget e.form, e.span⟩

mutual

/-- Checks that an expression can be assigned to.  At each level at most one item is starred. -/
def checkTarget : Expr → Except Fault Unit
  | .name .. | .member .. | .subscript .. => .ok ()
  | .tuple span items | .list span items =>
    if 1 < items.countP Expr.isStarred then
      .error ⟨.invalidTarget "multiple starred expressions", span⟩
    else checkTargets items
  | .starred _ value => checkTarget value
  | e => .error (invalidTarget e)

/-- Checks every item of a target. -/
def checkTargets : List Expr → Except Fault Unit
  | [] => .ok ()
  | item :: items => do
    checkTarget item
    checkTargets items

end

/-! ## Small trees -/

/-- The comparison that a tree names. -/
def cmpOpOf : LineTree → Option CmpOp
  | .token .opEq .. => some .eq
  | .token .opNe .. => some .notEq
  | .token .opLe .. => some .ltE
  | .token .opGe .. => some .gtE
  | .token .opLt .. => some .lt
  | .token .opGt .. => some .gt
  | .phrase .opNotIn .. => some .notIn
  | .phrase .opIsNot .. => some .isNot
  | .phrase .opIn .. => some .isIn
  | .phrase .opIs .. => some .is
  | _ => none

/-- The arithmetic operator that a tree names. -/
def binOpOf : LineTree → Option BinOp
  | .token .opAdd .. => some .add
  | .token .opSub .. => some .sub
  | .token .opFloorDiv .. => some .floorDiv
  | .token .opDiv .. => some .div
  | .token .opMul .. => some .mul
  | .token .opMod .. => some .mod
  | .token .powOp .. => some .pow
  | _ => none

/-- The sign that a tree names. -/
def signOf : LineTree → Option UnaryOp
  | .token .opAdd .. => some .pos
  | .token .opSub .. => some .neg
  | _ => none

/-- The operator that a part of an operation is, if it is no operand. -/
def operatorPiece : LineTree → Option Piece
  | .token (.word .notWord) s _ => some (.leading (.unary .not) s)
  | .token (.word .awaitWord) s _ => some (.leading .await s)
  | .phrase .unaryOp s [t] => (signOf t).map fun op => .leading (.unary op) s
  | .token (.word .orWord) .. => some (.linking (.logical .or))
  | .token (.word .andWord) .. => some (.linking (.logical .and))
  | .phrase .compOp _ [t] => (cmpOpOf t).map fun op => .linking (.compare op)
  | .phrase .sumOp _ [t] => (binOpOf t).map fun op => .linking (.binary op)
  | .phrase .termOp _ [t] => (binOpOf t).map fun op => .linking (.binary op)
  | .token .powOp .. => some (.linking (.binary .pow))
  | _ => none

/-- The lexemes of the tokens of one kind among trees. -/
def lexemesOf (t : Token) (trees : List LineTree) : List (List Char) :=
  trees.filterMap fun
    | .token t' _ lexeme => if t' = t then some lexeme else none
    | _ => none

/-- The name of a parameter with its stars, if it has a name. -/
def paramName? : LineTree → Option String
  | .phrase _ _ children =>
    match lexemesOf .identifier children with
    | name :: _ => some (String.ofList ((lexemesOf .paramStar children).flatten ++ name))
    | [] => none
  | _ => none

/-- The names of parameters. -/
def paramNames (trees : List LineTree) : List String := trees.filterMap paramName?

/-- Whether the clauses of a comprehension begin here. -/
def startsComprehension : List LineTree → Bool
  | .phrase .compFor .. :: _ => true
  | _ => false

/-- Checks that no clauses of a comprehension stand behind an argument with the span `span`. -/
def checkNoComprehension (span : Span) (trees : List LineTree) : Except Fault Unit :=
  if startsComprehension trees then .error ⟨.malformed .generatorArgument, span⟩ else .ok ()

/-- One item without a comma behind it stands for itself; all else is a tuple. -/
def itemOrTuple (span : Span) : List Expr × Bool → Expr
  | ([item], false) => item
  | (items, _) => .tuple span items

/-! ## Expressions -/

mutual

/-- The expression of a tree. -/
def exprOf : LineTree → Except Fault Expr
  | .token .identifier s lexeme => .ok (.name s (String.ofList lexeme))
  | .token .noneLit s _ => .ok (.constant s .none)
  | .token .trueLit s _ => .ok (.constant s (.bool true))
  | .token .falseLit s _ => .ok (.constant s (.bool false))
  | .token .ellipsis s _ => .ok (.constant s .ellipsis)
  | .token .integer s lexeme => (integerConstant s lexeme).map (.constant s)
  | .token .float s lexeme => (floatConstant s lexeme).map (.constant s)
  | .token .imaginary s lexeme => (imaginaryConstant s lexeme).map (.constant s)
  | .token _ s _ => unexpected s
  | .phrase .strings s children => .ok (stringExpr s (lexemesOf .string children))
  | .phrase .expression _ [value] => exprOf value
  | .phrase .expression s [value, _, test, _, orelse] => do
    let value ← exprOf value
    let test ← exprOf test
    let orelse ← exprOf orelse
    .ok (.conditional s test value orelse)
  | .phrase .operation s children => do
    let pieces ← piecesOf children
    foldOperation s pieces
  | .phrase .primary _ (atom :: trailers) => do
    let value ← exprOf atom
    trailersOf value trailers
  | .phrase .starExpressions s children => (itemsOf children).map (itemOrTuple s)
  | .phrase .targetList s children => (itemsOf children).map (itemOrTuple s)
  | .phrase .starred s [value] => (exprOf value).map (.starred s)
  | .phrase .starTarget s [value] => (exprOf value).map (.starred s)
  | .phrase .namedExpr s [target, value] => do
    let target ← exprOf target
    let value ← exprOf value
    .ok (.named s target value)
  | .phrase .lambdaExpr s [_, value] => (exprOf value).map (.lambda s [])
  | .phrase .lambdaExpr s [_, .phrase .lambdaParams _ params, value] =>
    (exprOf value).map (.lambda s (paramNames params))
  | .phrase .yieldExpr s [_] => .ok (.yielded s none)
  | .phrase .yieldExpr s [_, value] => (exprOf value).map fun e => .yielded s (some e)
  | .phrase .yieldExpr s [_, _, value] => (exprOf value).map (.yieldedFrom s)
  | .phrase .parenExpr s [] => .ok (.tuple s [])
  | .phrase .parenExpr s (first :: rest) => do
    let first ← exprOf first
    if startsComprehension rest then
      (clausesOf rest).map (.comprehension s .generator first)
    else
      let (items, comma) ← itemsOf rest
      .ok (itemOrTuple s (first :: items, comma))
  | .phrase .listDisplay s [] => .ok (.list s [])
  | .phrase .listDisplay s (first :: rest) => do
    let first ← exprOf first
    if startsComprehension rest then (clausesOf rest).map (.comprehension s .list first)
    else (itemsOf rest).map fun (items, _) => .list s (first :: items)
  | .phrase .braceDisplay s [] => .ok (.dict s [])
  | .phrase .braceDisplay s (first :: .phrase .dictTail _ (value :: entries) :: _) => do
    let first ← exprOf first
    let value ← exprOf value
    let entries ← entriesOf entries
    .ok (.dict s ((first, value) :: entries))
  | .phrase .braceDisplay s (first :: rest) => do
    let first ← exprOf first
    if startsComprehension rest then (clausesOf rest).map (.comprehension s .set first)
    else (itemsOf rest).map fun (items, _) => .set s (first :: items)
  | .phrase _ s _ => unexpected s

/-- The expressions among trees, and whether a trailing comma stands behind them. -/
def itemsOf : List LineTree → Except Fault (List Expr × Bool)
  | [] => .ok ([], false)
  | .token .trailingComma .. :: _ => .ok ([], true)
  | tree :: trees => do
    let item ← exprOf tree
    let (items, comma) ← itemsOf trees
    .ok (item :: items, comma)

/-- The operators and operands of an operation. -/
def piecesOf : List LineTree → Except Fault (List Piece)
  | [] => .ok []
  | tree :: trees => do
    let piece ← match operatorPiece tree with
      | some piece => .ok piece
      | none => (exprOf tree).map .operand
    let pieces ← piecesOf trees
    .ok (piece :: pieces)

/-- Applies calls, attributes and subscripts to a value. -/
def trailersOf (value : Expr) : List LineTree → Except Fault Expr
  | [] => .ok value
  | .phrase .call s [] :: trees => trailersOf (.call (value.span.join s) value [] []) trees
  | .phrase .call s (.phrase .callArgs argsSpan args :: _) :: trees => do
    let (args, keywords) ← argumentsOf argsSpan args
    trailersOf (.call (value.span.join s) value args keywords) trees
  | .phrase .attributeTrailer s (.token _ _ lexeme :: _) :: trees =>
    trailersOf (.member (value.span.join s) value (String.ofList lexeme)) trees
  | .phrase .subscript s index :: trees => do
    let index ← indexOf index
    trailersOf (.subscript (value.span.join s) value index) trees
  | tree :: _ => unexpected tree.span

/-- The arguments of a call: those by position, and those by name. -/
def argumentsOf (span : Span) : List LineTree → Except Fault (List Expr × List (Keyword Expr))
  | [] => .ok ([], [])
  | .phrase .keywordArg s [.token _ _ name, value] :: trees => do
    checkNoComprehension s trees
    let value ← exprOf value
    let (args, keywords) ← argumentsOf span trees
    .ok (args, ⟨some (String.ofList name), value⟩ :: keywords)
  | .phrase .doubleStarArg s [value] :: trees => do
    checkNoComprehension s trees
    let value ← exprOf value
    let (args, keywords) ← argumentsOf span trees
    .ok (args, ⟨none, value⟩ :: keywords)
  | .phrase .starArg s [value] :: trees => do
    checkNoComprehension s trees
    let value ← exprOf value
    let (args, keywords) ← argumentsOf span trees
    .ok (.starred s value :: args, keywords)
  | tree :: trees => do
    let arg ← exprOf tree
    if startsComprehension trees then
      (clausesOf trees).map fun clauses => ([.comprehension span .generator arg clauses], [])
    else
      let (args, keywords) ← argumentsOf span trees
      .ok (arg :: args, keywords)

/-- The index between square brackets: a slice, one expression or a tuple. -/
def indexOf : List LineTree → Except Fault Expr
  | [] => unexpected .none
  | .phrase .slice s parts :: _ => do
    let (upper, step) ← boundsOf parts
    .ok (.slice s none upper step)
  | first :: .phrase .slice s parts :: _ => do
    let first ← exprOf first
    let (upper, step) ← boundsOf parts
    .ok (.slice (first.span.join s) (some first) upper step)
  | first :: rest => do
    let first ← exprOf first
    let (items, comma) ← itemsOf rest
    let last := items.getLast?.getD first
    .ok (itemOrTuple (first.span.join last.span) (first :: items, comma))

/-- The upper bound and the step of a slice. -/
def boundsOf : List LineTree → Except Fault (Option Expr × Option Expr)
  | [] => .ok (none, none)
  | .phrase .sliceUpper _ [value] :: trees => do
    let value ← exprOf value
    let (_, step) ← boundsOf trees
    .ok (some value, step)
  | .phrase .sliceStep _ [value] :: trees => do
    let value ← exprOf value
    let (upper, _) ← boundsOf trees
    .ok (upper, some value)
  | tree :: _ => unexpected tree.span

/-- The entries of a dictionary behind the first one. -/
def entriesOf : List LineTree → Except Fault (List (Expr × Expr))
  | [] => .ok []
  | .phrase .dictItem _ [key, value] :: trees => do
    let key ← exprOf key
    let value ← exprOf value
    let entries ← entriesOf trees
    .ok ((key, value) :: entries)
  | tree :: _ => unexpected tree.span

/-- The clauses of a comprehension. -/
def clausesOf : List LineTree → Except Fault (List (Clause Expr))
  | [] => .ok []
  | .phrase .compFor _ (_ :: target :: _ :: iter :: conditions) :: trees => do
    let target ← exprOf target
    checkTarget target
    let iter ← exprOf iter
    let conditions ← conditionsOf conditions
    let clauses ← clausesOf trees
    .ok (⟨target, iter, conditions⟩ :: clauses)
  | tree :: _ => unexpected tree.span

/-- The conditions of a clause. -/
def conditionsOf : List LineTree → Except Fault (List Expr)
  | [] => .ok []
  | .phrase .compIf _ [_, value] :: trees => do
    let condition ← exprOf value
    let conditions ← conditionsOf trees
    .ok (condition :: conditions)
  | tree :: _ => unexpected tree.span

end

end BlockEditor
