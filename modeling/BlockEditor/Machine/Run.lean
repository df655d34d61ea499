import BlockEditor.Machine.Assign
import BlockEditor.Machine.Program
import BlockEditor.Syntax.Parse

/-!
# Running programs

One instruction at a time on a machine.  A run pauses after every so many instructions and goes on
when it is polled, and it can be cancelled at its pauses.
-/

namespace BlockEditor

/-! ## One instruction -/

namespace Action

/-- Moves the innermost loop over items on, if there is an item left. -/
def nextItem : Action (Option Value) := do
  let m ← getThe Machine
  match m.cursors with
  | [] => return none
  | cursor :: rest =>
    match cursor.next? with
    | some (item, cursor) => do
      set { m with cursors := cursor :: rest }
      return some item
    | none => do
      set { m with cursors := rest }
      return none

/-- Drops the innermost loop over items. -/
def dropCursor : Action Unit := modify fun m => { m with cursors := m.cursors.tail }

/-- Executes the instruction at the position `pc`, and returns the position to go on with. -/
def step (pc : Nat) : Instr → Action Nat
  | .exec e => do
    let _ ← evaluate e
    return pc + 1
  | .assign targets value => do
    let v ← evaluate value
    targets.forM fun target => assign target v
    return pc + 1
  | .augAssign span target op value => do
    let current ← evaluate target
    let operand ← evaluate value
    let v ← ofResult span (current.operation op operand)
    assign target v
    return pc + 1
  | .delete targets => do
    deleteAll targets
    return pc + 1
  | .jumpIfFalse test dest => do
    let condition ← evaluate test
    return if condition.truthy then pc + 1 else dest
  | .jump dest => return dest
  | .iterInit e => do
    let v ← evaluate e
    let cursor ← ofResult e.span (ItemCursor.start v)
    modify fun m => { m with cursors := cursor :: m.cursors }
    return pc + 1
  | .iterNext target dest => do
    match ← nextItem with
    | some item => do
      assign target item
      return pc + 1
    | none => return dest
  | .iterPop => do
    dropCursor
    return pc + 1
  | .assert span test message => do
    let condition ← evaluate test
    if condition.truthy then return pc + 1
    else
      match message with
      | none => fail (.assertionFailed "") span
      | some e => do
        let v ← evaluate e
        fail (.assertionFailed v.text) span
  | .unsupported span construct => fail (.unsupported construct) span

end Action

/-! ## Runs -/

/-- A run between two instructions. -/
structure Configuration where
  pc : Nat
  executed : Nat
  machine : Machine

/-- How a run ended, the number of instructions that it completed, and the machine it left. -/
structure Outcome where
  result : Except Fault Unit
  executed : Nat
  machine : Machine

/-- The start of a program on a machine. -/
def Machine.begin (m : Machine) : Configuration := ⟨0, 0, m⟩

namespace Program

/-- One instruction of a run, or its end. -/
def step (p : Program) (c : Configuration) : Configuration ⊕ Outcome :=
  match p.get? c.pc with
  | none => .inr ⟨.ok (), c.executed, c.machine⟩
  | some instr =>
    match (Action.step c.pc instr).runOn c.machine with
    | (.ok pc, machine) => .inl ⟨pc, c.executed + 1, machine⟩
    | (.error fault, machine) => .inr ⟨.error fault, c.executed, machine⟩

/-- At most `n` instructions of a run. -/
def advance (p : Program) : Nat → Configuration → Configuration ⊕ Outcome
  | 0, c => .inl c
  | n + 1, c =>
    match p.step c with
    | .inl c => advance p n c
    | .inr outcome => .inr outcome

/-- The end of a run that is cancelled now; a run without an instruction left is complete. -/
def interrupt (p : Program) (c : Configuration) : Outcome :=
  match p.get? c.pc with
  | none => ⟨.ok (), c.executed, c.machine⟩
  | some instr => ⟨.error ⟨.cancelled, instr.span⟩, c.executed, c.machine⟩

/-- A run that is cancelled after `n` instructions. -/
def runFor (p : Program) (n : Nat) (m : Machine) : Outcome :=
  match p.advance n m.begin with
  | .inl c => p.interrupt c
  | .inr outcome => outcome

/-- Two slices in a row are one longer slice. -/
theorem advance_add (p : Program) (a b : Nat) (c : Configuration) :
    p.advance (a + b) c =
      match p.advance a c with
      | .inl c => p.advance b c
      | .inr outcome => .inr outcome := by
  induction a generalizing c with
  | zero => simp [advance]
  | succ a ih =>
    rw [Nat.succ_add]
    simp only [advance]
    cases p.step c with
    | inl c => exact ih c
    | inr outcome => rfl

end Program

/-! ## Pauses -/

/-- Number of instructions between two pauses of a run, unless chosen otherwise. -/
def defaultYieldInterval : Nat := 256

/-- Number of instructions after which a run is cancelled that pauses after every `interval`
instructions and is cancelled at the given pause. -/
def cancelPoint (interval pause : Nat) : Nat := pause * max interval 1

/-- The next number is a multiple, or one step further from the last multiple. -/
theorem pause_or_further (n interval : Nat) :
    (n + 1) % max interval 1 = 0 ∧ n % max interval 1 + 1 = max interval 1 ∨
      (n + 1) % max interval 1 = n % max interval 1 + 1 ∧ n % max interval 1 + 1 < max interval 1 := by
  have less := Nat.mod_lt n (show 0 < max interval 1 by omega)
  have next : (n + 1) % max interval 1 = (n % max interval 1 + 1) % max interval 1 := by simp
  by_cases last : n % max interval 1 + 1 = max interval 1
  · exact .inl ⟨by rw [next, last, Nat.mod_self], last⟩
  · exact .inr ⟨by rw [next, Nat.mod_eq_of_lt (by omega)], by omega⟩

/-- Going on from a number that no multiple follows brings the next multiple nearer. -/
theorem pause_nearer {n interval : Nat} (h : (n + 1) % max interval 1 ≠ 0) :
    max interval 1 - (n + 1) % max interval 1 + 1 = max interval 1 - n % max interval 1 := by
  have := pause_or_further n interval
  omega

/-- Whether the token of a run has been cancelled, at each poll of the run. -/
abbrev CancelToken := Nat → Bool

namespace CancelToken

/-- A token that is never cancelled. -/
def never : CancelToken := fun _ => false

/-- A token that is cancelled after some polls. -/
def after (polls : Nat) : CancelToken := fun i => decide (polls ≤ i)

end CancelToken

namespace Program

/-- One poll of a run: it goes on until it ends, or until the number of its instructions is a
multiple of the interval.  Before every instruction it ends if it has been cancelled. -/
def poll (p : Program) (interval : Nat) (cancelled : Bool) (c : Configuration) :
    Configuration ⊕ Outcome :=
  match p.get? c.pc with
  | none => .inr ⟨.ok (), c.executed, c.machine⟩
  | some instr =>
    if cancelled then .inr ⟨.error ⟨.cancelled, instr.span⟩, c.executed, c.machine⟩
    else
      match (Action.step c.pc instr).runOn c.machine with
      | (.error fault, machine) => .inr ⟨.error fault, c.executed, machine⟩
      | (.ok pc, machine) =>
        if (c.executed + 1) % max interval 1 = 0 then .inl ⟨pc, c.executed + 1, machine⟩
        else poll p interval cancelled ⟨pc, c.executed + 1, machine⟩
termination_by max interval 1 - c.executed % max interval 1
decreasing_by
  rename_i between
  have := pause_nearer between
  omega

/-- At most `count` polls of a run, the first of which has the number `first`. -/
def polls (p : Program) (interval : Nat) (token : CancelToken) (first : Nat) :
    Nat → Configuration → Configuration ⊕ Outcome
  | 0, c => .inl c
  | count + 1, c =>
    match p.poll interval (token first) c with
    | .inl c => polls p interval token (first + 1) count c
    | .inr outcome => .inr outcome

end Program

/-! ## Sources -/

/-- The program of a source text. -/
def Source.compile (s : Source) : Except Diagnostic Program := do
  let m ← s.parse
  reportAs .runtime s.name m.compile

end BlockEditor
