import BlockEditor.Machine.Arithmetic
import BlockEditor.Machine.Function
import BlockEditor.Machine.Globals
import BlockEditor.Machine.Traced

/-!
# Evaluation

The value of an expression, given the values of the variables.  Evaluation goes from left to right,
changes no variable, and prints where `print` is called.
-/

namespace BlockEditor

/-! ## Leaves -/

/-- The value of a literal, for the kinds of literal that have one. -/
def Constant.value : Constant → Except Cause Value
  | .int n => .ok (.int n)
  | .float x => .ok (.float x)
  | .str text => .ok (.str text)
  | .bool b => .ok (.bool b)
  | .none => .ok .none
  | .bytes _ => .error (.unsupported "bytes")
  | .ellipsis => .error (.unsupported "Ellipsis")
  | .imaginary _ => .error (.unsupported "complex")

/-- What a name denotes: a variable, or else a built-in function. -/
def Globals.resolve (g : Globals) (name : String) : Except Cause Value :=
  match g.get? name with
  | some v => .ok v
  | none =>
    match Builtin.ofName? name with
    | some function => .ok (.builtin function)
    | none => .error (.undefinedName name)

/-- An optional bound of a slice. -/
def Value.bound : Value → Except Cause (Option Int64)
  | .none => .ok .none
  | v =>
    match v.asInt? with
    | some n => .ok (some n)
    | Option.none => .error (.typeMismatch .sliceBound)

/-! ## Printing -/

/-- What `print` puts between and behind its arguments. -/
structure PrintStyle where
  separator : String
  terminator : String

/-- One blank between the arguments and a line feed behind them. -/
def PrintStyle.default : PrintStyle := ⟨" ", "\n"⟩

/-- Changes a style by a named argument; the value `None` changes nothing. -/
def PrintStyle.adjust (style : PrintStyle) (name : Option String) (v : Value) :
    Except Cause PrintStyle :=
  let choose (keyword : String) (change : String → PrintStyle) : Except Cause PrintStyle :=
    match v with
    | .none => .ok style
    | .str text => .ok (change text)
    | _ => .error (.typeMismatch (.printText keyword v.typeName))
  match name with
  | some "sep" => choose "sep" fun text => { style with separator := text }
  | some "end" => choose "end" fun text => { style with terminator := text }
  | some other => .error (.typeMismatch (.printKeyword other))
  | none => .error (.unsupported "**kwargs")

/-- The text that `print` writes for its arguments. -/
def PrintStyle.line (style : PrintStyle) (args : List Value) : String :=
  String.intercalate style.separator (args.map Value.text) ++ style.terminator

/-! ## Expressions -/

/-- Calls a function other than printing, none of which takes named arguments. -/
def Builtin.callPlain (function : Builtin) (args : List Value) (keywords : List (Keyword Expr)) :
    Except Cause Value :=
  match keywords with
  | [] => function.call args
  | keyword :: _ =>
    .error (.typeMismatch (.unexpectedKeyword function.name (keyword.name.getD "**")))

namespace Expr

mutual

/-- The value of an expression. -/
def eval (g : Globals) : Expr → Traced Value
  | .constant span value => .ofResult span value.value
  | .name span id => .ofResult span (g.resolve id)
  | .binary span left op right => do
    let a ← eval g left
    let b ← eval g right
    .ofResult span (a.operation op b)
  | .unary span op operand => do
    let v ← eval g operand
    .ofResult span (v.unaryOperation op)
  | .logical _ op values => evalLogical g op values
  | .compare span left links => do
    let a ← eval g left
    evalLinks g span a links
  | .conditional _ test body orelse => do
    let condition ← eval g test
    if condition.truthy then eval g body else eval g orelse
  | .call span func args keywords => do
    let callee ← eval g func
    let values ← evalItems g args
    match callee with
    | .builtin .print => do
      let style ← evalKeywords g span .default keywords
      Traced.print (style.line values)
      return .none
    | .builtin function => .ofResult span (function.callPlain values keywords)
    | other => .fail (.typeMismatch (.notCallable other.typeName)) span
  | .subscript span value (.slice _ lower upper step) => do
    let container ← eval g value
    let lower ← evalBound g lower
    let upper ← evalBound g upper
    let step ← evalBound g step
    .ofResult span (container.sliceOf lower upper step)
  | .subscript span value index => do
    let container ← eval g value
    let i ← eval g index
    .ofResult span (container.itemAt i)
  | .tuple _ items => do
    let values ← evalItems g items
    return .tuple values
  | .list _ items => do
    let values ← evalItems g items
    return .list values
  | e => .fail (.unsupported e.form) e.span

/-- The values of items in order; a starred one stands for all items of its value. -/
def evalItems (g : Globals) : List Expr → Traced (List Value)
  | [] => return []
  | .starred _ inner :: rest => do
    let v ← eval g inner
    let front ← .ofResult inner.span v.itemsOf
    let back ← evalItems g rest
    return front ++ back
  | item :: rest => do
    let v ← eval g item
    let back ← evalItems g rest
    return v :: back

/-- The value of operands under a connective: that of the first one that decides, or of the last
one. -/
def evalLogical (g : Globals) (op : BoolOp) : List Expr → Traced Value
  | [] => return .none
  | [last] => eval g last
  | operand :: rest => do
    let v ← eval g operand
    let decided := match op with
      | .and => !v.truthy
      | .or => v.truthy
    if decided then return v else evalLogical g op rest

/-- Whether a chain of comparisons holds; it ends at the first one that does not. -/
def evalLinks (g : Globals) (span : Span) (left : Value) : List (CmpOp × Expr) → Traced Value
  | [] => return .bool true
  | (op, e) :: rest => do
    let right ← eval g e
    let holds ← .ofResult span (left.comparison op right)
    if holds then evalLinks g span right rest else return .bool false

/-- The style that named arguments of `print` set. -/
def evalKeywords (g : Globals) (span : Span) (style : PrintStyle) :
    List (Keyword Expr) → Traced PrintStyle
  | [] => return style
  | ⟨keyword, value⟩ :: rest => do
    let v ← eval g value
    let style ← .ofResult span (style.adjust keyword v)
    evalKeywords g span style rest

/-- An optional bound of a slice. -/
def evalBound (g : Globals) : Option Expr → Traced (Option Int64)
  | none => return none
  | some e => do
    let v ← eval g e
    .ofResult e.span v.bound

end

end Expr

end BlockEditor
