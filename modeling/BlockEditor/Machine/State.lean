import BlockEditor.Machine.Evaluate

/-!
# Machine states

What a running program can change: its variables, the loops over items that are under way, and what
it has printed.
-/

namespace BlockEditor

/-! ## Loops over items -/

/-- The items that a loop has still to visit. -/
inductive ItemCursor where
  | items (rest : List Value)
  | range (next step : Int64) (remaining : Nat)

namespace ItemCursor

/-- A cursor at the first item of a value. -/
def start (v : Value) : Except Cause ItemCursor :=
  match v with
  | .range r => .ok (.range r.start r.step r.length)
  | _ => v.itemsOf.map .items

/-- The next item, and the cursor behind it. -/
def next? : ItemCursor → Option (Value × ItemCursor)
  | .items [] => none
  | .items (item :: rest) => some (item, .items rest)
  | .range _ _ 0 => none
  | .range next step (remaining + 1) => some (.int next, .range (next + step) step remaining)

/-- Number of items that a cursor has still to visit. -/
def remaining : ItemCursor → Nat
  | .items rest => rest.length
  | .range _ _ remaining => remaining

/-- Visiting an item leaves one item less. -/
theorem remaining_of_next? {c c' : ItemCursor} {item : Value} (h : c.next? = some (item, c')) :
    c.remaining = c'.remaining + 1 := by
  cases c with
  | items rest =>
    cases rest with
    | nil => simp [next?] at h
    | cons first rest =>
      simp only [next?, Option.some.injEq, Prod.mk.injEq] at h
      simp [remaining, ← h.2]
  | range next step count =>
    cases count with
    | zero => simp [next?] at h
    | succ count =>
      simp only [next?, Option.some.injEq, Prod.mk.injEq] at h
      simp [remaining, ← h.2]

end ItemCursor

/-! ## States -/

/-- The state of a machine.  The cursor of the innermost loop comes first. -/
structure Machine where
  globals : Globals
  cursors : List ItemCursor
  output : String

/-- A machine before its first program. -/
def Machine.fresh : Machine := ⟨.empty, [], ""⟩

/-- The machine of an earlier program, with nothing printed yet. -/
def Machine.cleared (m : Machine) : Machine := { m with output := "" }

/-! ## Actions -/

/-- A computation that may change a machine and may fail; a failure leaves what was changed
before. -/
abbrev Action (α : Type) := ExceptT Fault (StateM Machine) α

namespace Action

/-- Runs an action: how it ends, and the machine it leaves. -/
def runOn {α : Type} (a : Action α) (m : Machine) : Except Fault α × Machine := a.run m

@[simp] theorem runOn_pure {α : Type} (a : α) (m : Machine) :
    (pure a : Action α).runOn m = (.ok a, m) := rfl

/-- An action and its continuation, run on a machine. -/
theorem runOn_bind {α β : Type} (a : Action α) (f : α → Action β) (m : Machine) :
    (a >>= f).runOn m =
      match a.runOn m with
      | (.ok x, m') => (f x).runOn m'
      | (.error fault, m') => (.error fault, m') := by
  change (match a m with
    | (r, m') => ExceptT.bindCont f r m') = _
  unfold runOn ExceptT.run
  rcases a m with ⟨r, m'⟩
  cases r <;> rfl

/-- Going on behind an action. -/
theorem runOn_bind_ok {α β : Type} {a : Action α} {f : α → Action β} {m m' : Machine} {x : α}
    (h : a.runOn m = (.ok x, m')) : (a >>= f).runOn m = (f x).runOn m' := by
  rw [runOn_bind, h]

/-- A failure ends what it is a part of. -/
theorem runOn_bind_error {α β : Type} {a : Action α} {f : α → Action β} {m m' : Machine}
    {fault : Fault} (h : a.runOn m = (.error fault, m')) :
    (a >>= f).runOn m = (.error fault, m') := by
  rw [runOn_bind, h]

/-- Fails at a place. -/
def fail {α : Type} (cause : Cause) (span : Span) : Action α := throw ⟨cause, span⟩

/-- The result of an operation that changes nothing, with its failures put at a place. -/
def ofResult {α : Type} (span : Span) (r : Except Cause α) : Action α :=
  match r with
  | .ok a => pure a
  | .error cause => fail cause span

/-- Gives a value to a variable. -/
def setGlobal (name : String) (v : Value) : Action Unit :=
  modify fun m => { m with globals := m.globals.set name v }

/-- Evaluates an expression, which adds to what is printed. -/
def evaluate (e : Expr) : Action Value := do
  let m ← getThe Machine
  let t := e.eval m.globals
  set { m with output := m.output ++ t.printed }
  match t.result with
  | .ok v => pure v
  | .error fault => throw fault

theorem runOn_get (m : Machine) : (getThe Machine : Action Machine).runOn m = (.ok m, m) := rfl

theorem runOn_set (m m' : Machine) : (set m' : Action PUnit).runOn m = (.ok ⟨⟩, m') := rfl

/-- An evaluation ends as the expression does, and what it prints stays printed. -/
theorem runOn_evaluate (e : Expr) (m : Machine) : (evaluate e).runOn m =
    ((e.eval m.globals).result, { m with output := m.output ++ (e.eval m.globals).printed }) := by
  unfold evaluate
  rw [runOn_bind_ok (runOn_get m)]
  dsimp only
  rw [runOn_bind_ok (runOn_set m _)]
  cases (e.eval m.globals).result <;> rfl

end Action

end BlockEditor
