import BlockEditor.Json.Basic
import BlockEditor.Syntax.Tree

/-!
# Syntax trees as data

The notation for syntax trees: a node is its value with its span, and a value is named by its form.
-/

namespace BlockEditor

open Json (ofOption ofStrings)

/-! ## Leaves -/

/-- A span as data. -/
def Span.toJson (s : Span) : Json := .object [("start", .int s.start), ("end", .int s.stop)]

/-- A value with its form's name. -/
def variantJson (name : String) (value : Json) : Json := .object [(name, value)]

/-- A node: a value and its span. -/
def nodeJson (span : Span) (value : Json) : Json :=
  .object [("value", value), ("span", span.toJson)]

/-- A literal as data. -/
def Constant.toJson : Constant → Json
  | int n => variantJson "Int" (.int n.toInt)
  | float x => variantJson "Float" (.float x)
  | imaginary x => variantJson "Imaginary" (.float x)
  | str text => variantJson "Str" (.string text)
  | bytes content => variantJson "Bytes" (.array (content.map fun b => .int b.toNat))
  | bool b => variantJson "Bool" (.bool b)
  | none => .string "None"
  | ellipsis => .string "Ellipsis"

/-- The name of an arithmetic operator. -/
def BinOp.toJson (op : BinOp) : Json :=
  .string <| match op with
    | add => "Add"
    | sub => "Sub"
    | mul => "Mul"
    | div => "Div"
    | floorDiv => "FloorDiv"
    | mod => "Mod"
    | pow => "Pow"

/-- The name of a unary operator. -/
def UnaryOp.toJson (op : UnaryOp) : Json :=
  .string <| match op with
    | not => "Not"
    | neg => "Neg"
    | pos => "Pos"

/-- The name of a connective. -/
def BoolOp.toJson (op : BoolOp) : Json :=
  .string <| match op with
    | and => "And"
    | or => "Or"

/-- The name of a comparison. -/
def CmpOp.toJson (op : CmpOp) : Json :=
  .string <| match op with
    | eq => "Eq"
    | notEq => "NotEq"
    | lt => "Lt"
    | ltE => "LtE"
    | gt => "Gt"
    | gtE => "GtE"
    | isIn => "In"
    | notIn => "NotIn"
    | is => "Is"
    | isNot => "IsNot"

/-- The name of what a comprehension builds. -/
def ComprehensionKind.toJson (kind : ComprehensionKind) : Json :=
  .string <| match kind with
    | list => "List"
    | set => "Set"
    | generator => "Generator"

/-! ## Expressions -/

mutual

/-- An expression as data. -/
def Expr.toJson : Expr → Json
  | .constant s value => nodeJson s (variantJson "Constant" value.toJson)
  | .name s id => nodeJson s (variantJson "Name" (.string id))
  | .binary s left op right =>
    nodeJson s (variantJson "BinOp"
      (.object [("left", left.toJson), ("op", op.toJson), ("right", right.toJson)]))
  | .unary s op operand =>
    nodeJson s (variantJson "UnaryOp"
      (.object [("op", op.toJson), ("operand", operand.toJson)]))
  | .logical s op values =>
    nodeJson s (variantJson "BoolOp"
      (.object [("op", op.toJson), ("values", .array (exprsJson values))]))
  | .compare s left links =>
    nodeJson s (variantJson "Compare"
      (.object [("left", left.toJson), ("ops", .array (links.map fun link => link.1.toJson)),
        ("comparators", .array (linksJson links))]))
  | .conditional s test body orelse =>
    nodeJson s (variantJson "IfExp"
      (.object [("test", test.toJson), ("body", body.toJson), ("orelse", orelse.toJson)]))
  | .call s func args keywords =>
    nodeJson s (variantJson "Call"
      (.object [("func", func.toJson), ("args", .array (exprsJson args)),
        ("keywords", .array (keywordsJson keywords))]))
  | .member s value attr =>
    nodeJson s (variantJson "Attribute"
      (.object [("value", value.toJson), ("attr", .string attr)]))
  | .subscript s value index =>
    nodeJson s (variantJson "Subscript"
      (.object [("value", value.toJson), ("index", index.toJson)]))
  | .slice s lower upper step =>
    nodeJson s (variantJson "Slice"
      (.object [("lower", optionalJson lower), ("upper", optionalJson upper),
        ("step", optionalJson step)]))
  | .starred s value => nodeJson s (variantJson "Starred" value.toJson)
  | .tuple s items => nodeJson s (variantJson "Tuple" (.array (exprsJson items)))
  | .list s items => nodeJson s (variantJson "List" (.array (exprsJson items)))
  | .set s items => nodeJson s (variantJson "Set" (.array (exprsJson items)))
  | .dict s entries => nodeJson s (variantJson "Dict" (.array (entriesJson entries)))
  | .comprehension s kind element clauses =>
    nodeJson s (variantJson "Comprehension"
      (.object [("kind", kind.toJson), ("element", element.toJson),
        ("clauses", .array (clausesJson clauses))]))
  | .formatted s template => nodeJson s (variantJson "FormattedString" (.string template))
  | .lambda s params body =>
    nodeJson s (variantJson "Lambda"
      (.object [("params", ofStrings params), ("body", body.toJson)]))
  | .named s target value =>
    nodeJson s (variantJson "NamedExpr"
      (.object [("target", target.toJson), ("value", value.toJson)]))
  | .yielded s value => nodeJson s (variantJson "Yield" (optionalJson value))
  | .yieldedFrom s value => nodeJson s (variantJson "YieldFrom" value.toJson)
  | .awaited s value => nodeJson s (variantJson "Await" value.toJson)

/-- Expressions as data. -/
def exprsJson : List Expr → List Json
  | [] => []
  | e :: es => e.toJson :: exprsJson es

/-- The operands behind the first one of a comparison. -/
def linksJson : List (CmpOp × Expr) → List Json
  | [] => []
  | (_, e) :: links => e.toJson :: linksJson links

/-- Arguments by name as data. -/
def keywordsJson : List (Keyword Expr) → List Json
  | [] => []
  | ⟨name, value⟩ :: keywords =>
    .object [("arg", ofOption (name.map .string)), ("value", value.toJson)]
      :: keywordsJson keywords

/-- An expression that may be missing. -/
def optionalJson : Option Expr → Json
  | none => .null
  | some e => e.toJson

/-- The entries of a dictionary as pairs. -/
def entriesJson : List (Expr × Expr) → List Json
  | [] => []
  | (key, value) :: entries => .array [key.toJson, value.toJson] :: entriesJson entries

/-- The clauses of a comprehension as data. -/
def clausesJson : List (Clause Expr) → List Json
  | [] => []
  | ⟨target, iter, conditions⟩ :: clauses =>
    .object [("target", target.toJson), ("iter", iter.toJson),
      ("conditions", .array (exprsJson conditions))] :: clausesJson clauses

end

/-! ## Statements -/

mutual

/-- A statement as data. -/
def Stmt.toJson : Stmt → Json
  | .expr s value => nodeJson s (variantJson "Expr" value.toJson)
  | .assign s targets value =>
    nodeJson s (variantJson "Assign"
      (.object [("targets", .array (exprsJson targets)), ("value", value.toJson)]))
  | .augAssign s target op value =>
    nodeJson s (variantJson "AugAssign"
      (.object [("target", target.toJson), ("op", op.toJson), ("value", value.toJson)]))
  | .annAssign s target typeHint value =>
    nodeJson s (variantJson "AnnAssign"
      (.object [("target", target.toJson), ("annotation", typeHint.toJson),
        ("value", optionalJson value)]))
  | .branch s test body orelse =>
    nodeJson s (variantJson "If"
      (.object [("test", test.toJson), ("body", .array (stmtsJson body)),
        ("orelse", .array (stmtsJson orelse))]))
  | .whileLoop s test body orelse =>
    nodeJson s (variantJson "While"
      (.object [("test", test.toJson), ("body", .array (stmtsJson body)),
        ("orelse", .array (stmtsJson orelse))]))
  | .forLoop s isAsync target iter body orelse =>
    nodeJson s (variantJson "For"
      (.object [("target", target.toJson), ("iter", iter.toJson),
        ("body", .array (stmtsJson body)), ("orelse", .array (stmtsJson orelse)),
        ("is_async", .bool isAsync)]))
  | .functionDef s isAsync name params body decorators =>
    nodeJson s (variantJson "FunctionDef"
      (.object [("name", .string name), ("params", ofStrings params),
        ("body", .array (stmtsJson body)), ("decorators", .array (exprsJson decorators)),
        ("is_async", .bool isAsync)]))
  | .classDef s name bases body decorators =>
    nodeJson s (variantJson "ClassDef"
      (.object [("name", .string name), ("bases", .array (exprsJson bases)),
        ("body", .array (stmtsJson body)), ("decorators", .array (exprsJson decorators))]))
  | .tryBlock s body handlers orelse finalbody =>
    nodeJson s (variantJson "Try"
      (.object [("body", .array (stmtsJson body)), ("handlers", .array (handlersJson handlers)),
        ("orelse", .array (stmtsJson orelse)), ("finalbody", .array (stmtsJson finalbody))]))
  | .withBlock s isAsync items body =>
    nodeJson s (variantJson "With"
      (.object [("items", .array (exprsJson items)), ("body", .array (stmtsJson body)),
        ("is_async", .bool isAsync)]))
  | .returnValue s value => nodeJson s (variantJson "Return" (optionalJson value))
  | .raise s value => nodeJson s (variantJson "Raise" (optionalJson value))
  | .assert s test message =>
    nodeJson s (variantJson "Assert"
      (.object [("test", test.toJson), ("msg", optionalJson message)]))
  | .delete s targets => nodeJson s (variantJson "Delete" (.array (exprsJson targets)))
  | .globalNames s names => nodeJson s (variantJson "Global" (ofStrings names))
  | .importNames s names => nodeJson s (variantJson "Import" (ofStrings names))
  | .importFrom s path names =>
    nodeJson s (variantJson "ImportFrom"
      (.object [("module", .string path), ("names", ofStrings names)]))
  | .pass s => nodeJson s (.string "Pass")
  | .breakLoop s => nodeJson s (.string "Break")
  | .continueLoop s => nodeJson s (.string "Continue")

/-- Statements as data. -/
def stmtsJson : List Stmt → List Json
  | [] => []
  | stmt :: stmts => stmt.toJson :: stmtsJson stmts

/-- The handlers of a `try` as data. -/
def handlersJson : List (Handler Stmt) → List Json
  | [] => []
  | ⟨span, kind, name, body⟩ :: handlers =>
    .object [("kind", optionalJson kind), ("name", ofOption (name.map .string)),
      ("body", .array (stmtsJson body)), ("span", span.toJson)] :: handlersJson handlers

end

/-- A program as data. -/
def Module.toJson (m : Module) : Json := .object [("body", .array (stmtsJson m.body))]

end BlockEditor
