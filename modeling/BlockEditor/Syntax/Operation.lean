import BlockEditor.Diagnostic
import BlockEditor.Syntax.Tree

/-!
# Operations

A flat run of operators and operands is folded into a tree by binding powers.  An operator takes
the operand between two others if it binds it more tightly; a chain of comparisons, or of the same
connective, becomes one node.
-/

namespace BlockEditor

/-! ## Pieces -/

/-- An operator in front of its operand. -/
inductive LeadingOp where
  | unary (op : UnaryOp)
  | await
  deriving DecidableEq, Repr

/-- An operator between two operands. -/
inductive LinkingOp where
  | logical (op : BoolOp)
  | compare (op : CmpOp)
  | binary (op : BinOp)
  deriving DecidableEq, Repr

/-- A part of an operation. -/
inductive Piece where
  | operand (e : Expr)
  | leading (op : LeadingOp) (span : Span)
  | linking (op : LinkingOp)

/-! ## Binding powers -/

/-- How tightly a leading operator binds its operand. -/
def LeadingOp.power : LeadingOp → Nat
  | unary .not => 6
  | unary _ => 14
  | await => 18

/-- How tightly a linking operator binds the operands at its left and right. -/
def LinkingOp.power : LinkingOp → Nat × Nat
  | logical .or => (2, 3)
  | logical .and => (4, 5)
  | compare _ => (8, 9)
  | binary .add | binary .sub => (10, 11)
  | binary .pow => (16, 16)
  | binary _ => (12, 13)

/-! ## Folding -/

/-- A chain that the next operator of the same kind extends. -/
inductive Chain where
  | logical (op : BoolOp)
  | compare
  deriving DecidableEq, Repr

/-- An operand made so far, and the chain it is as long as no bracket closes it. -/
structure Operand where
  node : Expr
  chain : Option Chain

/-- Puts a leading operator before its operand. -/
def LeadingOp.apply (op : LeadingOp) (span : Span) (operand : Expr) : Expr :=
  let whole := span.join operand.span
  match op with
  | unary op => .unary whole op operand
  | await => .awaited whole operand

/-- Joins an operand with the one at its right. -/
def Operand.link (lhs : Operand) (op : LinkingOp) (rhs : Expr) : Operand :=
  let whole := lhs.node.span.join rhs.span
  match op with
  | .logical op =>
    let chain := some (Chain.logical op)
    match lhs.node with
    | .logical _ _ values =>
      if lhs.chain = chain then ⟨.logical whole op (values ++ [rhs]), chain⟩
      else ⟨.logical whole op [lhs.node, rhs], chain⟩
    | left => ⟨.logical whole op [left, rhs], chain⟩
  | .compare op =>
    match lhs.node with
    | .compare _ left links =>
      if lhs.chain = some .compare then ⟨.compare whole left (links ++ [(op, rhs)]), some .compare⟩
      else ⟨.compare whole lhs.node [(op, rhs)], some .compare⟩
    | left => ⟨.compare whole left [(op, rhs)], some .compare⟩
  | .binary op => ⟨.binary whole lhs.node op rhs, none⟩

/-- A failure where the grammar leaves none. -/
def unexpected {α : Type} (span : Span) : Except Fault α := .error ⟨.malformed .expression, span⟩

mutual

/-- The operand at the start of a run, made of operators that bind at least as tightly as
`least`, and the rest of the run. -/
def climb (span : Span) : Nat → Nat → List Piece → Except Fault (Operand × List Piece)
  | fuel + 1, least, .leading op s :: pieces => do
    let (operand, pieces) ← climb span fuel op.power pieces
    climbLinks span fuel least ⟨op.apply s operand.node, none⟩ pieces
  | fuel + 1, least, .operand e :: pieces => climbLinks span fuel least ⟨e, none⟩ pieces
  | _, _, _ => unexpected span

/-- Extends an operand by the linking operators behind it that bind at least as tightly as
`least`. -/
def climbLinks (span : Span) :
    Nat → Nat → Operand → List Piece → Except Fault (Operand × List Piece)
  | fuel + 1, least, lhs, .linking op :: pieces =>
    if op.power.1 < least then .ok (lhs, .linking op :: pieces)
    else do
      let (rhs, pieces) ← climb span fuel op.power.2 pieces
      climbLinks span fuel least (lhs.link op rhs.node) pieces
  | _, _, lhs, pieces => .ok (lhs, pieces)

end

/-- The expression of a run of operators and operands.  Every step takes a piece, so the length of
the run bounds their number. -/
def foldOperation (span : Span) (pieces : List Piece) : Except Fault Expr := do
  let (operand, _) ← climb span (pieces.length + 1) 0 pieces
  .ok operand.node

end BlockEditor
