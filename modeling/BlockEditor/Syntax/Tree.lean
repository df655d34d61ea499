import BlockEditor.Syntax.Span

/-!
# Syntax trees

Expressions and statements of the language.  Every node carries the span of the source text that
it was read from, and every form that can be read has a constructor, whether or not programs with
it can be run.
-/

namespace BlockEditor

/-! ## Leaves -/

/-- A literal.  Integers that do not fit into a word are read as floats. -/
inductive Constant where
  | int (n : Int64)
  | float (x : Float)
  | imaginary (x : Float)
  | str (text : String)
  | bytes (content : List UInt8)
  | bool (b : Bool)
  | none
  | ellipsis

/-- Arithmetic operators. -/
inductive BinOp where
  | add | sub | mul | div | floorDiv | mod | pow
  deriving DecidableEq, Repr

/-- The written form of an arithmetic operator. -/
def BinOp.symbol : BinOp → String
  | .add => "+"
  | .sub => "-"
  | .mul => "*"
  | .div => "/"
  | .floorDiv => "//"
  | .mod => "%"
  | .pow => "**"

/-- Operators in front of one operand. -/
inductive UnaryOp where
  | not | neg | pos
  deriving DecidableEq, Repr

/-- Connectives that evaluate only as many operands as needed. -/
inductive BoolOp where
  | and | or
  deriving DecidableEq, Repr

/-- Comparisons. -/
inductive CmpOp where
  | eq | notEq | lt | ltE | gt | gtE | isIn | notIn | is | isNot
  deriving DecidableEq, Repr

/-- What a comprehension builds. -/
inductive ComprehensionKind where
  | list | set | generator
  deriving DecidableEq, Repr

/-- An argument given by name; without a name it is a mapping to unpack. -/
structure Keyword (α : Type) where
  name : Option String
  value : α

/-- One `for` of a comprehension with the conditions behind it. -/
structure Clause (α : Type) where
  target : α
  iter : α
  conditions : List α

/-! ## Expressions -/

/-- An expression. -/
inductive Expr where
  | constant (span : Span) (value : Constant)
  | name (span : Span) (id : String)
  | binary (span : Span) (left : Expr) (op : BinOp) (right : Expr)
  | unary (span : Span) (op : UnaryOp) (operand : Expr)
  | logical (span : Span) (op : BoolOp) (values : List Expr)
  | compare (span : Span) (left : Expr) (links : List (CmpOp × Expr))
  | conditional (span : Span) (test body orelse : Expr)
  | call (span : Span) (func : Expr) (args : List Expr) (keywords : List (Keyword Expr))
  | member (span : Span) (value : Expr) (attr : String)
  | subscript (span : Span) (value index : Expr)
  | slice (span : Span) (lower upper step : Option Expr)
  | starred (span : Span) (value : Expr)
  | tuple (span : Span) (items : List Expr)
  | list (span : Span) (items : List Expr)
  | set (span : Span) (items : List Expr)
  | dict (span : Span) (entries : List (Expr × Expr))
  | comprehension (span : Span) (kind : ComprehensionKind) (element : Expr)
      (clauses : List (Clause Expr))
  | formatted (span : Span) (template : String)
  | lambda (span : Span) (params : List String) (body : Expr)
  | named (span : Span) (target value : Expr)
  | yielded (span : Span) (value : Option Expr)
  | yieldedFrom (span : Span) (value : Expr)
  | awaited (span : Span) (value : Expr)

namespace Expr

/-- The span of an expression. -/
def span : Expr → Span
  | constant s _ | name s _ | binary s .. | unary s .. | logical s .. | compare s .. => s
  | conditional s .. | call s .. | member s .. | subscript s .. | slice s .. => s
  | starred s _ | tuple s _ | list s _ | set s _ | dict s _ | comprehension s .. => s
  | formatted s _ | lambda s .. | named s .. | yielded s _ | yieldedFrom s _ | awaited s _ => s

/-- The name of the form of an expression. -/
def form : Expr → String
  | constant .. => "literal"
  | name .. => "name"
  | binary .. => "binary operation"
  | unary .. => "unary operation"
  | logical .. => "boolean operation"
  | compare .. => "comparison"
  | conditional .. => "conditional expression"
  | call .. => "call"
  | member .. => "attribute"
  | subscript .. => "subscript"
  | slice .. => "slice"
  | starred .. => "starred expression"
  | tuple .. => "tuple"
  | list .. => "list"
  | set .. => "set"
  | dict .. => "dict"
  | comprehension .. => "comprehension"
  | formatted .. => "f-string"
  | lambda .. => "lambda"
  | named .. => "assignment expression"
  | yielded .. => "yield"
  | yieldedFrom .. => "yield from"
  | awaited .. => "await"

/-- The identifier of a bare name. -/
def name? : Expr → Option String
  | name _ id => some id
  | _ => none

/-- Whether an expression is starred. -/
def isStarred : Expr → Bool
  | starred .. => true
  | _ => false

end Expr

/-! ## Statements -/

/-- An `except` clause. -/
structure Handler (α : Type) where
  span : Span
  kind : Option Expr
  name : Option String
  body : List α

/-- A statement.  An `elif` is a branch that is the only statement of the `orelse` part. -/
inductive Stmt where
  | expr (span : Span) (value : Expr)
  | assign (span : Span) (targets : List Expr) (value : Expr)
  | augAssign (span : Span) (target : Expr) (op : BinOp) (value : Expr)
  | annAssign (span : Span) (target typeHint : Expr) (value : Option Expr)
  | branch (span : Span) (test : Expr) (body orelse : List Stmt)
  | whileLoop (span : Span) (test : Expr) (body orelse : List Stmt)
  | forLoop (span : Span) (isAsync : Bool) (target iter : Expr) (body orelse : List Stmt)
  | functionDef (span : Span) (isAsync : Bool) (name : String) (params : List String)
      (body : List Stmt) (decorators : List Expr)
  | classDef (span : Span) (name : String) (bases : List Expr) (body : List Stmt)
      (decorators : List Expr)
  | tryBlock (span : Span) (body : List Stmt) (handlers : List (Handler Stmt))
      (orelse finalbody : List Stmt)
  | withBlock (span : Span) (isAsync : Bool) (items : List Expr) (body : List Stmt)
  | returnValue (span : Span) (value : Option Expr)
  | raise (span : Span) (value : Option Expr)
  | assert (span : Span) (test : Expr) (message : Option Expr)
  | delete (span : Span) (targets : List Expr)
  | globalNames (span : Span) (names : List String)
  | importNames (span : Span) (names : List String)
  | importFrom (span : Span) (path : String) (names : List String)
  | pass (span : Span)
  | breakLoop (span : Span)
  | continueLoop (span : Span)

namespace Stmt

/-- The span of a statement. -/
def span : Stmt → Span
  | expr s _ | assign s .. | augAssign s .. | annAssign s .. | branch s .. | whileLoop s .. => s
  | forLoop s .. | functionDef s .. | classDef s .. | tryBlock s .. | withBlock s .. => s
  | returnValue s _ | raise s _ | assert s .. | delete s _ | globalNames s _ => s
  | importNames s _ | importFrom s .. | pass s | breakLoop s | continueLoop s => s

/-- The name of the form of a statement. -/
def form : Stmt → String
  | expr .. => "expression statement"
  | assign .. => "assignment"
  | augAssign .. => "augmented assignment"
  | annAssign .. => "annotated assignment"
  | branch .. => "if"
  | whileLoop .. => "while"
  | forLoop _ isAsync .. => if isAsync then "async for" else "for"
  | functionDef _ isAsync .. => if isAsync then "async def" else "def"
  | classDef .. => "class"
  | tryBlock .. => "try"
  | withBlock _ isAsync .. => if isAsync then "async with" else "with"
  | returnValue .. => "return"
  | raise .. => "raise"
  | assert .. => "assert"
  | delete .. => "del"
  | globalNames .. => "global"
  | importNames .. => "import"
  | importFrom .. => "from-import"
  | pass _ => "pass"
  | breakLoop _ => "break"
  | continueLoop _ => "continue"

end Stmt

/-- A parsed program: its statements in order. -/
structure Module where
  body : List Stmt

end BlockEditor
