import BlockEditor.Diagnostic
import BlockEditor.Syntax.Tree

/-!
# Programs

Flat programs of instructions with jumps, and their construction from statements in one pass.  A jump
forward is put down before its target is known, and is completed when the pass comes there.
-/

namespace BlockEditor

/-! ## Instructions -/

/-- An instruction.  Jumps name the position of the instruction to go on with. -/
inductive Instr where
  | exec (e : Expr)
  | assign (targets : List Expr) (value : Expr)
  | augAssign (span : Span) (target : Expr) (op : BinOp) (value : Expr)
  | delete (targets : List Expr)
  | jumpIfFalse (test : Expr) (dest : Nat)
  | jump (dest : Nat)
  | iterInit (e : Expr)
  | iterNext (target : Expr) (dest : Nat)
  | iterPop
  | assert (span : Span) (test : Expr) (message : Option Expr)
  | unsupported (span : Span) (construct : String)

/-- The place in the source that an instruction is for. -/
def Instr.span : Instr → Span
  | exec e | iterInit e => e.span
  | assign _ value => value.span
  | augAssign span .. | assert span .. | unsupported span _ => span
  | delete targets => (targets.head?.map Expr.span).getD .none
  | jumpIfFalse test _ => test.span
  | iterNext target _ => target.span
  | jump _ | iterPop => .none

/-- A program: its instructions in order. -/
structure Program where
  instrs : Array Instr

namespace Program

/-- Number of instructions. -/
def size (p : Program) : Nat := p.instrs.size

/-- The instruction at a position. -/
def get? (p : Program) (pc : Nat) : Option Instr := p.instrs[pc]?

end Program

/-! ## Loops -/

/-- What a loop goes by: a condition, or the items of a value. -/
inductive LoopKind where
  | condition
  | items
  deriving DecidableEq, Repr

/-! ## Drafts -/

/-- An instruction with another position to go on at, if it is one that may jump. -/
def Instr.retarget (dest : Nat) : Instr → Instr
  | jumpIfFalse test _ => jumpIfFalse test dest
  | jump _ => jump dest
  | iterNext target _ => iterNext target dest
  | instr => instr

/-- A loop whose end is not reached yet: where `continue` goes, and the jumps of `break` that wait for
the end. -/
structure OpenLoop where
  kind : LoopKind
  head : Nat
  breaks : List Nat

/-- A program under construction, and the loops around the statement that comes next, the innermost
first. -/
structure Draft where
  instrs : Array Instr
  loops : List OpenLoop

namespace Draft

/-- Nothing, outside of all loops. -/
def empty : Draft := ⟨#[], []⟩

/-- The position of the instruction that comes next. -/
def here (d : Draft) : Nat := d.instrs.size

/-- Puts an instruction behind the others. -/
def emit (instr : Instr) (d : Draft) : Draft := { d with instrs := d.instrs.push instr }

/-- Gives the jump at a position a target.  There must be an instruction. -/
def patch (dest at' : Nat) (d : Draft) : Except Fault Draft :=
  match d.instrs[at']? with
  | some instr => .ok { d with instrs := d.instrs.setIfInBounds at' (instr.retarget dest) }
  | none => .error ⟨.breakdown, .none⟩

/-- Gives the jumps at some positions a target. -/
def patchAll (dest : Nat) : List Nat → Draft → Except Fault Draft
  | [], d => .ok d
  | at' :: rest, d => do
    let d ← d.patch dest at'
    patchAll dest rest d

/-- Goes into the body of a loop with a head. -/
def enter (kind : LoopKind) (head : Nat) (d : Draft) : Draft :=
  { d with loops := ⟨kind, head, []⟩ :: d.loops }

/-- Goes out of the innermost loop, and returns the jumps that wait for its end. -/
def leave (d : Draft) : List Nat × Draft :=
  match d.loops with
  | [] => ([], d)
  | inner :: outer => (inner.breaks, { d with loops := outer })

/-- Lets the jump at a position wait for the end of the innermost loop. -/
def await (at' : Nat) (d : Draft) : Draft :=
  match d.loops with
  | [] => d
  | inner :: outer => { d with loops := { inner with breaks := inner.breaks ++ [at'] } :: outer }

/-- Puts down a part behind an instruction that may skip it. -/
def skippable (guard : Instr) (body : Draft → Except Fault Draft) (d : Draft) :
    Except Fault Draft := do
  let skip := d.here
  let d ← body (d.emit guard)
  d.patch d.here skip

/-- Puts down two parts behind an instruction that may skip the first.  From the end of the first, the
second is skipped. -/
def choice (guard : Instr) (body orelse : Draft → Except Fault Draft) (d : Draft) :
    Except Fault Draft := do
  let skip := d.here
  let d ← body (d.emit guard)
  let skipElse := d.here
  let d := d.emit (.jump 0)
  let d ← d.patch d.here skip
  let d ← orelse d
  d.patch d.here skipElse

/-- Puts down a loop behind the instruction at its head: the body, the jump back, and the `else` part
outside of the loop, behind which `break` goes on. -/
def loop (kind : LoopKind) (head : Nat) (body orelse : Draft → Except Fault Draft) (d : Draft) :
    Except Fault Draft := do
  let d ← body (d.enter kind head)
  let (breaks, d) := d.leave
  let d := d.emit (.jump head)
  let d ← d.patch d.here head
  let d ← orelse d
  d.patchAll d.here breaks

mutual

/-- Puts down the code of a statement.  Without a loop around them, `break` and `continue` have
none. -/
def statement : Stmt → Draft → Except Fault Draft
  | .expr _ value, d => .ok (d.emit (.exec value))
  | .assign _ targets value, d => .ok (d.emit (.assign targets value))
  | .annAssign _ target _ (some value), d => .ok (d.emit (.assign [target] value))
  | .annAssign _ _ _ none, d => .ok d
  | .pass _, d => .ok d
  | .augAssign span target op value, d => .ok (d.emit (.augAssign span target op value))
  | .delete _ targets, d => .ok (d.emit (.delete targets))
  | .assert span test message, d => .ok (d.emit (.assert span test message))
  | .branch _ test body [], d => skippable (.jumpIfFalse test 0) (statements body) d
  | .branch _ test body orelse, d =>
    choice (.jumpIfFalse test 0) (statements body) (statements orelse) d
  | .whileLoop _ test body orelse, d =>
    loop .condition d.here (statements body) (statements orelse) (d.emit (.jumpIfFalse test 0))
  | .forLoop _ false target iter body orelse, d =>
    let d := d.emit (.iterInit iter)
    loop .items d.here (statements body) (statements orelse) (d.emit (.iterNext target 0))
  | .breakLoop span, d =>
    match d.loops with
    | [] => .error ⟨.outsideLoop "break", span⟩
    | inner :: _ =>
      let d := if inner.kind = .items then d.emit .iterPop else d
      .ok ((d.emit (.jump 0)).await d.here)
  | .continueLoop span, d =>
    match d.loops with
    | [] => .error ⟨.outsideLoop "continue", span⟩
    | inner :: _ => .ok (d.emit (.jump inner.head))
  | s, d => .ok (d.emit (.unsupported s.span s.form))

/-- Puts down the code of neighbouring statements. -/
def statements : List Stmt → Draft → Except Fault Draft
  | [], d => .ok d
  | s :: rest, d => do
    let d ← statement s d
    statements rest d

end

end Draft

/-- The program of a module.  A stray `break` or `continue` has none. -/
def Module.compile (m : Module) : Except Fault Program := do
  let d ← Draft.statements m.body .empty
  return ⟨d.instrs⟩

end BlockEditor
