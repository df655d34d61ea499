import BlockEditor.Machine.State

/-!
# Assignment

Giving values to targets: variables, elements of lists, and patterns that take a sequence apart.
Changing an element of a nested list makes a new value for the variable that holds it.
-/

namespace BlockEditor

/-! ## Elements of nested lists -/

/-- An index on the way to an element, with the place that failures are reported at. -/
structure PathStep where
  index : Value
  span : Span

/-- An element of the list in a variable, or of a list in it at any depth; the outermost index
comes first. -/
structure ElementPath where
  name : String
  nameSpan : Span
  steps : List PathStep

namespace Value

/-- The items of a list whose item is to be changed, and the position of that item, which must
exist. -/
def elementAt (v : Value) (step : PathStep) : Except Fault (List Value × Nat) :=
  match v with
  | .list items =>
    match listPosition step.index items.length with
    | .ok at' => if at' < items.length then .ok (items, at') else .error ⟨.breakdown, step.span⟩
    | .error cause => .error ⟨cause, step.span⟩
  | _ => .error ⟨.typeMismatch (.noItemAssignment v.typeName), step.span⟩

/-- A value with a new element at the end of a path. -/
def storeAt (new : Value) : List PathStep → Value → Except Fault Value
  | [], _ => .ok new
  | step :: rest, v => do
    let (items, at') ← v.elementAt step
    let changed ← storeAt new rest (items.getD at' .none)
    return .list (items.set at' changed)

/-- A value without the element at the end of a path. -/
def removeAt : List PathStep → Value → Except Fault Value
  | [], v => .ok v
  | [step], .list items =>
    match listPosition step.index items.length with
    | .ok at' =>
      if at' < items.length then .ok (.list (items.eraseIdx at'))
      else .error ⟨.breakdown, step.span⟩
    | .error cause => .error ⟨cause, step.span⟩
  | [step], v => .error ⟨.typeMismatch (.noItemDeletion v.typeName), step.span⟩
  | step :: rest, v => do
    let (items, at') ← v.elementAt step
    let changed ← removeAt rest (items.getD at' .none)
    return .list (items.set at' changed)

end Value

namespace Action

/-- The path that an element target stands for, without the index that stands last in the text.
Indices are evaluated from the last one to the first. -/
def path : Expr → Action ElementPath
  | .name span id => return ⟨id, span, []⟩
  | .subscript span base index => do
    let i ← evaluate index
    let p ← path base
    return { p with steps := p.steps ++ [⟨i, span⟩] }
  | e => fail (.unsupported e.form) e.span

/-- Replaces the value of the variable of a path. -/
def update (p : ElementPath) (change : List PathStep → Value → Except Fault Value) :
    Action Unit := do
  let m ← getThe Machine
  match m.globals.get? p.name with
  | none => fail (.undefinedName p.name) p.nameSpan
  | some v =>
    match change p.steps v with
    | .ok changed => setGlobal p.name changed
    | .error fault => throw fault

/-! ## Patterns -/

/-- How many unstarred targets stand in front of the first starred one. -/
def starPosition? (targets : List Expr) : Option Nat := targets.findIdx? Expr.isStarred

/-- The values for the targets of a pattern, one for each.  A starred target takes as a list what
the others leave. -/
def distribute (targets : List Expr) (items : List Value) : Except Cause (List Value) :=
  match starPosition? targets with
  | none =>
    if items.length < targets.length then
      .error (.invalidValue (.tooFewItems false targets.length items.length))
    else if targets.length < items.length then
      .error (.invalidValue (.tooManyItems targets.length))
    else .ok items
  | some front => do
    let fixed ← Checked.difference targets.length 1
    if items.length < fixed then .error (.invalidValue (.tooFewItems true fixed items.length))
    else
      let behind ← Checked.difference fixed front
      let back ← Checked.difference items.length behind
      let (others, last) ← Checked.split items back
      let (first, middle) ← Checked.split others front
      return first ++ [.list middle] ++ last

mutual

/-- Gives a value to a target. -/
def assign : Expr → Value → Action Unit
  | .name _ id, v => setGlobal id v
  | .tuple span targets, v => do
    let items ← ofResult span v.itemsOf
    let parts ← ofResult span (distribute targets items)
    assignAll targets parts
  | .list span targets, v => do
    let items ← ofResult span v.itemsOf
    let parts ← ofResult span (distribute targets items)
    assignAll targets parts
  | .subscript span base index, v => do
    let p ← path (.subscript span base index)
    update p (Value.storeAt v)
  | e, _ => fail (.unsupported e.form) e.span

/-- Gives values to targets from left to right. -/
def assignAll : List Expr → List Value → Action Unit
  | .starred _ inner :: targets, v :: vs => do
    assign inner v
    assignAll targets vs
  | target :: targets, v :: vs => do
    assign target v
    assignAll targets vs
  | _, _ => return ()

end

mutual

/-- Deletes a variable, an element of a list, or each target of a pattern. -/
def delete : Expr → Action Unit
  | .name span id => do
    let m ← getThe Machine
    match m.globals.get? id with
    | none => fail (.undefinedName id) span
    | some _ => set { m with globals := m.globals.erase id }
  | .subscript span base index => do
    let p ← path (.subscript span base index)
    update p Value.removeAt
  | .tuple _ targets => deleteAll targets
  | .list _ targets => deleteAll targets
  | e => fail (.unsupported e.form) e.span

/-- Deletes targets from left to right. -/
def deleteAll : List Expr → Action Unit
  | [] => return ()
  | target :: targets => do
    delete target
    deleteAll targets

end

end Action

end BlockEditor
