import BlockEditor.Block.Code
import BlockEditor.Block.Data
import BlockEditor.Syntax.Parse

/-!
# Translation into blocks

The blocks for a program.  Statements without a block are left out, and each omission is recorded
with its place and its reason.
-/

namespace BlockEditor

/-! ## Omissions -/

/-- Why a statement has no block. -/
inductive DropReason where
  | unsupportedForm
  | notPrintCall
  | printArity (args : Nat)
  | printKeywords
  | complexTarget
  | chainedAssignment
  | notRangeIterable
  | rangeArity (args : Nat)
  | nonLiteralBound
  | complexLoopVariable
  | ignoredElse
  deriving DecidableEq, Repr

namespace DropReason

/-- The name of a reason. -/
def name : DropReason → String
  | unsupportedForm => "unsupported_form"
  | notPrintCall => "not_print_call"
  | printArity _ => "print_arity"
  | printKeywords => "print_keywords"
  | complexTarget => "complex_target"
  | chainedAssignment => "chained_assignment"
  | notRangeIterable => "not_range_iterable"
  | rangeArity _ => "range_arity"
  | nonLiteralBound => "non_literal_bound"
  | complexLoopVariable => "complex_loop_variable"
  | ignoredElse => "ignored_else"

/-- The number of arguments that a reason is about. -/
def args? : DropReason → Option Nat
  | printArity n | rangeArity n => some n
  | _ => none

/-- The wording of a reason. -/
def text : DropReason → String
  | unsupportedForm => "no block for this statement form"
  | notPrintCall => "only calls to print have a block"
  | printArity n => s!"print takes exactly one argument, found {n}"
  | printKeywords => "print with keyword arguments"
  | complexTarget => "assignment target is not a simple name"
  | chainedAssignment => "chained assignment"
  | notRangeIterable => "loop does not iterate over range(...)"
  | rangeArity n => s!"range takes exactly one argument, found {n}"
  | nonLiteralBound => "range bound is not a non-negative integer literal"
  | complexLoopVariable => "loop variable is not a simple name"
  | ignoredElse => "else/elif clause ignored"

/-- The data of a reason. -/
def toJson (r : DropReason) : Json :=
  .object (("reason", .string r.name) ::
    (r.args?.map fun n => ("args", Json.int n)).toList)

end DropReason

/-- A statement or clause without a block. -/
structure Dropped where
  span : Span
  form : String
  reason : DropReason
  deriving DecidableEq, Repr

/-- The data of an omission. -/
def Dropped.toJson (d : Dropped) : Json :=
  .object [("span", .object [("start", .int d.span.start), ("end", .int d.span.stop)]),
    ("form", .string d.form), ("reason", d.reason.toJson)]

/-! ## Expressions -/

namespace Expr

/-- The number that a literal under any signs denotes.  One that is not finite has no block. -/
def number? : Expr → Option Float
  | .constant _ (.int n) => some (Float.ofInt n.toInt)
  | .constant _ (.float x) => if Number.isFinite x then some x else none
  | .unary _ .neg operand => (number? operand).map fun x => -x
  | .unary _ .pos operand => number? operand
  | _ => none

/-- The block of a literal or a name. -/
def block? : Expr → Option Block
  | .constant _ (.str text) => some (Block.ofText text)
  | .name _ id => some (Block.ofText id)
  | e => e.number?.map Block.ofNumber

/-- The bound of a loop over `range` with one literal. -/
def rangeBound : Expr → Except DropReason Int64
  | .call _ func args keywords =>
    if func.name? = some "range" && keywords.isEmpty then
      match args with
      | [.constant _ (.int n)] => if 0 ≤ n then .ok n else .error .nonLiteralBound
      | [_] => .error .nonLiteralBound
      | _ => .error (.rangeArity args.length)
    else .error .notRangeIterable
  | _ => .error .notRangeIterable

end Expr

/-! ## Statements -/

namespace Stmt

/-- The omission of a whole statement. -/
def dropped (s : Stmt) (reason : DropReason) : Dropped := ⟨s.span, s.form, reason⟩

/-- The omission of the `else` part of a statement, if there is one. -/
def droppedElse (s : Stmt) (orelse : List Stmt) : List Dropped :=
  match orelse.head?, orelse.getLast? with
  | some first, some last => [⟨first.span.join last.span, s.form, .ignoredElse⟩]
  | _, _ => []

/-- The block of a call of `print`. -/
def printBlock (args : List Expr) (keywords : List (Keyword Expr)) : Except DropReason Block :=
  if !keywords.isEmpty then .error .printKeywords
  else
    match args with
    | [arg] => .ok ((Block.ofKind BlockKind.print).withValue Slot.text arg.block?)
    | _ => .error (.printArity args.length)

/-- The block of an expression statement. -/
def callBlock : Expr → Except DropReason Block
  | .call _ func args keywords =>
    if func.name? = some "print" then printBlock args keywords else .error .notPrintCall
  | _ => .error .notPrintCall

/-- The block of an assignment. -/
def assignBlock (targets : List Expr) (value : Expr) : Except DropReason Block :=
  match targets with
  | [target] =>
    match target.name? with
    | some name =>
      .ok (((Block.ofKind BlockKind.assign).withField Slot.variableName (.text name)).withValue
        Slot.value value.block?)
    | none => .error .complexTarget
  | _ => .error .chainedAssignment

/-- The block of a loop without its body. -/
def loopBlock (target iter : Expr) : Except DropReason Block :=
  match target.name? with
  | none => .error .complexLoopVariable
  | some name =>
    iter.rangeBound.map fun bound =>
      ((Block.ofKind BlockKind.loop).withField Slot.variableName (.text name)).withField
        Slot.count (.number (Float.ofInt bound.toInt))

/-- A block, or the omission of the statement that it would stand for. -/
def keep (s : Stmt) (r : Except DropReason Block) : Option Block × List Dropped :=
  match r with
  | .ok b => (some b, [])
  | .error reason => (none, [s.dropped reason])

mutual

/-- The block of a statement, if it has one, and the omissions in it in the order of the text. -/
def translate : Stmt → Option Block × List Dropped
  | .expr span e => keep (.expr span e) (callBlock e)
  | .assign span targets value => keep (.assign span targets value) (assignBlock targets value)
  | .branch span test body orelse =>
    let (blocks, omissions) := translateAll body
    (some (((Block.ofKind BlockKind.branch).withValue Slot.condition test.block?).withStatements
        Slot.body blocks),
      omissions ++ droppedElse (.branch span test body orelse) orelse)
  | .forLoop span false target iter body orelse =>
    match loopBlock target iter with
    | .ok b =>
      let (blocks, omissions) := translateAll body
      (some (b.withStatements Slot.body blocks),
        omissions ++ droppedElse (.forLoop span false target iter body orelse) orelse)
    | .error reason => (none, [dropped (.forLoop span false target iter body orelse) reason])
  | s => (none, [s.dropped .unsupportedForm])

/-- The blocks of neighbouring statements, and the omissions in them. -/
def translateAll : List Stmt → List Block × List Dropped
  | [] => ([], [])
  | s :: rest =>
    let (block, here) := translate s
    let (blocks, there) := translateAll rest
    (block.toList ++ blocks, here ++ there)

end

end Stmt

/-! ## Sources -/

/-- What a source text becomes: nothing for a blank one, and else a document with the omissions. -/
inductive Translation where
  | blank
  | blocks (document : Document) (dropped : List Dropped)

namespace Translation

/-- The document of a translation; that of a blank text is empty. -/
def document : Translation → Document
  | blank => .empty
  | blocks document _ => document

/-- The omissions of a translation. -/
def dropped : Translation → List Dropped
  | blank => []
  | blocks _ dropped => dropped

/-- Whether the text was blank. -/
def isBlank : Translation → Bool
  | blank => true
  | blocks .. => false

/-- The data of a translation: its document with the omissions. -/
def toJson (t : Translation) : Json :=
  .object [("document", t.document.toJson), ("dropped", .array (t.dropped.map Dropped.toJson))]

end Translation

/-- The translation of a parsed program. -/
def Module.translate (m : Module) : Translation :=
  let (blocks, dropped) := Stmt.translateAll m.body
  .blocks ⟨blocks⟩ dropped

/-- The translation of a source text. -/
def Source.translate (s : Source) : Except Diagnostic Translation :=
  if Text.isBlankText s.content.toList then .ok .blank
  else s.parse.map Module.translate

end BlockEditor
