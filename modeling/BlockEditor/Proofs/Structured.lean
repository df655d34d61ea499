import BlockEditor.Machine.Run

/-!
# Structured execution

What statements do to a machine when they are followed through their parts, without a flat program.
A rule for each form of statement says how its parts are run and how control leaves it.
-/

namespace BlockEditor

/-! ## Passing control on -/

/-- How control leaves a piece of a program. -/
inductive Passage where
  /-- To what stands behind the piece. -/
  | next
  /-- Out of the innermost loop around the piece. -/
  | leave
  /-- To the next test or item of the innermost loop around the piece. -/
  | again
  /-- Nowhere, because of a failure. -/
  | failed (fault : Fault)

/-- What a loop asks before each pass: whether a condition holds, or whether there is another item
for its target. -/
inductive Guard where
  | holds (test : Expr)
  | visit (target : Expr)

namespace Guard

/-- The kind of loop that a guard belongs to. -/
def kind : Guard → LoopKind
  | holds _ => .condition
  | visit _ => .items

/-- Asks for another pass.  A loop over items takes its next item and gives it to the target. -/
def check : Guard → Action Bool
  | holds test => do
    let condition ← Action.evaluate test
    return condition.truthy
  | visit target => do
    match ← Action.nextItem with
    | some item => do
      Action.assign target item
      return true
    | none => return false

end Guard

/-- The machine behind a loop that is left early: one over items drops its cursor. -/
def LoopKind.leave : LoopKind → Machine → Machine
  | condition, m => m
  | items, m => { m with cursors := m.cursors.tail }

/-! ## Statements without parts -/

namespace Stmt

/-- Whether a statement decides where control goes. -/
def isControl : Stmt → Bool
  | .branch .. | .whileLoop .. | .forLoop _ false .. | .breakLoop _ | .continueLoop _ => true
  | _ => false

/-- What a statement does that does not decide where control goes. -/
def effect : Stmt → Action Unit
  | .expr _ value => do
    let _ ← Action.evaluate value
  | .assign _ targets value => do
    let v ← Action.evaluate value
    targets.forM fun target => Action.assign target v
  | .annAssign _ target _ (some value) => do
    let v ← Action.evaluate value
    Action.assign target v
  | .annAssign _ _ _ none => pure ()
  | .pass _ => pure ()
  | .augAssign span target op value => do
    let current ← Action.evaluate target
    let operand ← Action.evaluate value
    let v ← Action.ofResult span (current.operation op operand)
    Action.assign target v
  | .delete _ targets => Action.deleteAll targets
  | .assert span test none => do
    let condition ← Action.evaluate test
    if condition.truthy then pure () else Action.fail (.assertionFailed "") span
  | .assert span test (some message) => do
    let condition ← Action.evaluate test
    if condition.truthy then pure ()
    else do
      let v ← Action.evaluate message
      Action.fail (.assertionFailed v.text) span
  | s => Action.fail (.unsupported s.form) s.span

end Stmt

/-- Begins a loop over the items of a value: puts a cursor at the first of them. -/
def Action.beginItems (e : Expr) : Action Unit := do
  let v ← Action.evaluate e
  let cursor ← Action.ofResult e.span (ItemCursor.start v)
  modify fun m => { m with cursors := cursor :: m.cursors }

/-! ## Execution -/

/-- A piece of a program that is run. -/
inductive Activity where
  | one (s : Stmt)
  | all (ss : List Stmt)
  /-- The passes that a loop has still to make, and its `else` part. -/
  | loop (guard : Guard) (body orelse : List Stmt)

namespace Activity

/-- `Runs a m q m'`: run on the machine `m`, the piece `a` leaves the machine `m'`, and control
leaves it by `q`. -/
inductive Runs : Activity → Machine → Passage → Machine → Prop where
  | effect {s : Stmt} {m m' : Machine} (plain : s.isControl = false)
      (done : s.effect.runOn m = (.ok (), m')) : Runs (.one s) m .next m'
  | effectFails {s : Stmt} {m m' : Machine} {fault : Fault} (plain : s.isControl = false)
      (fails : s.effect.runOn m = (.error fault, m')) : Runs (.one s) m (.failed fault) m'
  | breakLoop {span : Span} {m : Machine} : Runs (.one (.breakLoop span)) m .leave m
  | continueLoop {span : Span} {m : Machine} : Runs (.one (.continueLoop span)) m .again m
  /-- Exactly one of the two parts of an `if` is run. -/
  | branch {span : Span} {test : Expr} {body orelse : List Stmt} {m m₁ m' : Machine} {b : Bool}
      {q : Passage} (tested : (Guard.holds test).check.runOn m = (.ok b, m₁))
      (part : Runs (.all (if b then body else orelse)) m₁ q m') :
      Runs (.one (.branch span test body orelse)) m q m'
  | branchFails {span : Span} {test : Expr} {body orelse : List Stmt} {m m' : Machine}
      {fault : Fault} (fails : (Guard.holds test).check.runOn m = (.error fault, m')) :
      Runs (.one (.branch span test body orelse)) m (.failed fault) m'
  | whileLoop {span : Span} {test : Expr} {body orelse : List Stmt} {m m' : Machine} {q : Passage}
      (passes : Runs (.loop (.holds test) body orelse) m q m') :
      Runs (.one (.whileLoop span test body orelse)) m q m'
  /-- The items of a `for` are evaluated once, before its first pass. -/
  | forLoop {span : Span} {target iter : Expr} {body orelse : List Stmt} {m m₁ m' : Machine}
      {q : Passage} (begun : (Action.beginItems iter).runOn m = (.ok (), m₁))
      (passes : Runs (.loop (.visit target) body orelse) m₁ q m') :
      Runs (.one (.forLoop span false target iter body orelse)) m q m'
  | forFails {span : Span} {target iter : Expr} {body orelse : List Stmt} {m m' : Machine}
      {fault : Fault} (fails : (Action.beginItems iter).runOn m = (.error fault, m')) :
      Runs (.one (.forLoop span false target iter body orelse)) m (.failed fault) m'
  | nil {m : Machine} : Runs (.all []) m .next m
  | cons {s : Stmt} {rest : List Stmt} {m m₁ m' : Machine} {q : Passage}
      (first : Runs (.one s) m .next m₁) (others : Runs (.all rest) m₁ q m') :
      Runs (.all (s :: rest)) m q m'
  /-- What does not pass control to the next statement ends the sequence. -/
  | stop {s : Stmt} {rest : List Stmt} {m m' : Machine} {q : Passage} (away : q ≠ .next)
      (first : Runs (.one s) m q m') : Runs (.all (s :: rest)) m q m'
  /-- A pass that ends, by itself or by `continue`, is followed by the next one. -/
  | pass {guard : Guard} {body orelse : List Stmt} {m m₁ m₂ m' : Machine} {q r : Passage}
      (asked : guard.check.runOn m = (.ok true, m₁)) (ended : q = .next ∨ q = .again)
      (inner : Runs (.all body) m₁ q m₂) (others : Runs (.loop guard body orelse) m₂ r m') :
      Runs (.loop guard body orelse) m r m'
  /-- A `break` ends the loop and skips its `else` part. -/
  | left {guard : Guard} {body orelse : List Stmt} {m m₁ m' : Machine}
      (asked : guard.check.runOn m = (.ok true, m₁)) (inner : Runs (.all body) m₁ .leave m') :
      Runs (.loop guard body orelse) m .next (guard.kind.leave m')
  | passFails {guard : Guard} {body orelse : List Stmt} {m m₁ m' : Machine} {fault : Fault}
      (asked : guard.check.runOn m = (.ok true, m₁))
      (inner : Runs (.all body) m₁ (.failed fault) m') :
      Runs (.loop guard body orelse) m (.failed fault) m'
  /-- The `else` part runs where no further pass is made; a `break` or `continue` in it belongs to
  the loop outside. -/
  | orelse {guard : Guard} {body orelse : List Stmt} {m m₁ m' : Machine} {q : Passage}
      (asked : guard.check.runOn m = (.ok false, m₁)) (part : Runs (.all orelse) m₁ q m') :
      Runs (.loop guard body orelse) m q m'
  | guardFails {guard : Guard} {body orelse : List Stmt} {m m' : Machine} {fault : Fault}
      (fails : guard.check.runOn m = (.error fault, m')) :
      Runs (.loop guard body orelse) m (.failed fault) m'

end Activity

/-- How the structured execution of a module ends, and the machine that it leaves. -/
inductive Module.Executes (mod : Module) (m : Machine) : Except Fault Unit → Machine → Prop where
  | completes {m' : Machine} (body : Activity.Runs (.all mod.body) m .next m') :
      Executes mod m (.ok ()) m'
  | fails {m' : Machine} {fault : Fault} (body : Activity.Runs (.all mod.body) m (.failed fault) m') :
      Executes mod m (.error fault) m'

end BlockEditor
