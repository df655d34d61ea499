import BlockEditor.Machine.Run
import BlockEditor.Proofs.Elements

/-!
# Compound assignments

An assignment such as `x[i] += 1` evaluates its target for the value that the variable or element has.  To
store the result it walks to the place anew, and evaluates the indices of the target a second time.
-/

namespace BlockEditor

namespace Expr

/-- A target that names a variable or an element in nested lists, with its indices from left to right. -/
inductive IsPlace : Expr → List Expr → Prop
  | bare (span : Span) (id : String) : IsPlace (.name span id) []
  | item {span : Span} {base index : Expr} {indices : List Expr} :
      IsPlace base indices → IsPlace (.subscript span base index) (indices ++ [index])

/-- What is printed if expressions are evaluated one after the other. -/
def printedBy (g : Globals) (es : List Expr) : String := String.join (es.map fun e => (e.eval g).printed)

variable {e index : Expr} {es indices : List Expr} {g : Globals} {v : Value}

/-- Expressions in two parts print what the first part prints and then what the second does. -/
theorem printedBy_append (g : Globals) (es es' : List Expr) :
    printedBy g (es ++ es') = printedBy g es ++ printedBy g es' := by
  rw [printedBy, List.map_append, String.join_append]
  rfl

/-- One expression prints what it prints. -/
theorem printedBy_singleton (g : Globals) (e : Expr) : printedBy g [e] = (e.eval g).printed := by
  simp [printedBy]

/-- Nothing is printed if none of the expressions prints. -/
theorem printedBy_eq_empty_iff : printedBy g es = "" ↔ ∀ e ∈ es, (e.eval g).printed = "" := by
  induction es with
  | nil => simp [printedBy]
  | cons e es ih =>
    rw [← List.singleton_append, printedBy_append, printedBy_singleton, List.forall_mem_append,
      List.forall_mem_singleton, ← ih, String.append_eq_empty_iff]

/-- A slice has no value of its own. -/
theorem unsliced_of_result (evaluated : (e.eval g).result = .ok v) (span : Span)
    (lower upper step : Option Expr) : e ≠ .slice span lower upper step := by
  rintro rfl
  cases evaluated

/-- Evaluating a target prints what its indices print, from left to right. -/
theorem IsPlace.printed_eval (place : IsPlace e indices)
    (unsliced : ∀ index ∈ indices, ∀ span lower upper step, index ≠ .slice span lower upper step)
    (evaluated : (e.eval g).result = .ok v) : (e.eval g).printed = printedBy g indices := by
  induction place generalizing v with
  | bare => rfl
  | @item span base index indices place ih =>
    obtain ⟨others, last⟩ := List.forall_mem_append.1 unsliced
    rw [Expr.eval_subscript (last index (List.mem_singleton.2 rfl))] at evaluated ⊢
    cases container : (base.eval g).result with
    | error fault =>
      rw [Traced.bind_of_error container] at evaluated
      cases evaluated
    | ok v' =>
      rw [Traced.bind_of_ok container] at evaluated ⊢
      cases position : (index.eval g).result with
      | error fault =>
        rw [Traced.bind_of_error position] at evaluated
        cases evaluated
      | ok i =>
        rw [Traced.bind_of_ok position, printedBy_append, printedBy_singleton, ← ih others container]
        exact congrArg ((base.eval g).printed ++ ·) String.append_empty

end Expr

namespace Action

open BlockEditor.Expr (IsPlace printedBy)

variable {α β : Type} {a : Action α} {f : α → Action β} {m m' : Machine} {y : β} {e target value : Expr}
  {indices : List Expr} {p : ElementPath} {v : Value} {pc pc' : Nat} {span : Span} {op : BinOp}

/-- Where actions in a row succeed, each of them does. -/
theorem exists_of_runOn_bind (ran : (a >>= f).runOn m = (.ok y, m')) :
    ∃ x between, a.runOn m = (.ok x, between) ∧ (f x).runOn between = (.ok y, m') := by
  rw [runOn_bind] at ran
  rcases first : a.runOn m with ⟨fault | x, between⟩
  · rw [first] at ran
    cases ran
  · rw [first] at ran
    exact ⟨x, between, rfl, ran⟩

/-- An evaluation that succeeds prints, and does nothing else. -/
theorem of_runOn_evaluate (ran : (evaluate e).runOn m = (.ok v, m')) :
    (e.eval m.globals).result = .ok v ∧
      m' = { m with output := m.output ++ (e.eval m.globals).printed } := by
  rw [runOn_evaluate, Prod.mk.injEq] at ran
  exact ⟨ran.1, ran.2.symm⟩

/-- A result that is put into an action leaves the machine as it is. -/
theorem of_runOn_ofResult {r : Except Cause α} {x : α} (ran : (ofResult span r).runOn m = (.ok x, m')) :
    r = .ok x ∧ m' = m := by
  cases r with
  | error => cases ran
  | ok =>
    cases ran
    exact ⟨rfl, rfl⟩

/-- Walking to a place prints what its indices print, from right to left. -/
theorem of_runOn_path (place : IsPlace e indices) (ran : (path e).runOn m = (.ok p, m')) :
    m' = { m with output := m.output ++ printedBy m.globals indices.reverse } ∧
      ∀ index ∈ indices, ∃ i, (index.eval m.globals).result = .ok i := by
  induction place generalizing m p with
  | bare =>
    cases ran
    exact ⟨by rw [List.reverse_nil, printedBy]; simp, nofun⟩
  | @item span base index indices place ih =>
    -- the last index comes first, in front of those of the base
    rw [path] at ran
    obtain ⟨i, between, first, rest⟩ := exists_of_runOn_bind ran
    obtain ⟨p', after, second, done⟩ := exists_of_runOn_bind rest
    cases done
    obtain ⟨found, rfl⟩ := of_runOn_evaluate first
    obtain ⟨rfl, others⟩ := ih second
    constructor
    · rw [List.reverse_append, List.reverse_singleton, Expr.printedBy_append, Expr.printedBy_singleton,
        ← String.append_assoc]
    · exact List.forall_mem_append.2 ⟨others, List.forall_mem_singleton.2 ⟨i, found⟩⟩

/-- Replacing the value of a variable prints nothing. -/
theorem output_of_runOn_update {change : List PathStep → Value → Except Fault Value}
    (ran : (update p change).runOn m = (.ok (), m')) : m'.output = m.output := by
  cases bound : m.globals.get? p.name with
  | none =>
    rw [runOn_update_of_unbound change bound] at ran
    cases ran
  | some root =>
    rw [runOn_update change bound] at ran
    cases changed : change p.steps root with
    | error =>
      rw [changed] at ran
      cases ran
    | ok =>
      rw [changed] at ran
      cases ran
      rfl

/-- Storing at a place prints what walking to it prints. -/
theorem of_runOn_assign (place : IsPlace target indices)
    (ran : (assign target v).runOn m = (.ok (), m')) :
    m'.output = m.output ++ printedBy m.globals indices.reverse ∧
      ∀ index ∈ indices, ∃ i, (index.eval m.globals).result = .ok i := by
  cases target with
  | name =>
    cases place
    cases ran
    exact ⟨(String.append_empty).symm, nofun⟩
  | subscript span base index =>
    rw [assign] at ran
    obtain ⟨p, between, walked, stored⟩ := exists_of_runOn_bind ran
    obtain ⟨rfl, evaluated⟩ := of_runOn_path place walked
    exact ⟨output_of_runOn_update stored, evaluated⟩
  | _ => cases place

/-- A compound assignment that succeeds evaluates its target and its value, and stores what the operator
makes of them. -/
theorem exists_of_runOn_augAssign
    (ran : (step pc (.augAssign span target op value)).runOn m = (.ok pc', m')) :
    ∃ current operand result, (target.eval m.globals).result = .ok current ∧
      (value.eval m.globals).result = .ok operand ∧ current.operation op operand = .ok result ∧
      (assign target result).runOn { m with output := m.output ++ (target.eval m.globals).printed ++
        (value.eval m.globals).printed } = (.ok (), m') := by
  rw [step] at ran
  obtain ⟨current, _, first, ran⟩ := exists_of_runOn_bind ran
  obtain ⟨read, rfl⟩ := of_runOn_evaluate first
  obtain ⟨operand, _, second, ran⟩ := exists_of_runOn_bind ran
  obtain ⟨given, rfl⟩ := of_runOn_evaluate second
  obtain ⟨result, _, third, ran⟩ := exists_of_runOn_bind ran
  obtain ⟨computed, rfl⟩ := of_runOn_ofResult third
  obtain ⟨_, _, stored, done⟩ := exists_of_runOn_bind ran
  cases done
  exact ⟨current, operand, result, read, given, computed, stored⟩

/-- A compound assignment prints what the indices of its target print from left to right, then what its value
prints, and then what the indices print once more, from right to left.  That is what one evaluation of
the target and the value prints just if no index prints. -/
theorem output_of_augAssign (place : IsPlace target indices)
    (ran : (step pc (.augAssign span target op value)).runOn m = (.ok pc', m')) :
    (target.eval m.globals).printed = printedBy m.globals indices ∧
      m'.output = m.output ++ ((target.eval m.globals).printed ++ (value.eval m.globals).printed) ++
        printedBy m.globals indices.reverse ∧
      (m'.output = m.output ++ ((target.eval m.globals).printed ++ (value.eval m.globals).printed) ↔
        ∀ index ∈ indices, (index.eval m.globals).printed = "") := by
  obtain ⟨current, operand, result, read, -, -, stored⟩ := exists_of_runOn_augAssign ran
  obtain ⟨printed, evaluated⟩ := of_runOn_assign place stored
  have unsliced : ∀ index ∈ indices, ∀ span lower upper step, index ≠ .slice span lower upper step := by
    intro index member
    obtain ⟨i, found⟩ := evaluated index member
    exact Expr.unsliced_of_result found
  rw [← String.append_assoc]
  refine ⟨place.printed_eval unsliced read, printed, ?_⟩
  rw [printed, String.append_eq_left_iff, Expr.printedBy_eq_empty_iff]
  exact forall_congr' fun index => imp_congr_left List.mem_reverse

/-- The index expression `print('a') or 0`. -/
def printingIndex : Expr :=
  .logical .none .or [.call .none (.name .none "print") [.constant .none (.str "a")] [],
    .constant .none (.int 0)]

/-- The target `x[print('a') or 0]`. -/
def printingTarget : Expr := .subscript .none (.name .none "x") printingIndex

/-- The index stands in the target as its only one. -/
theorem isPlace_printingTarget : IsPlace printingTarget [printingIndex] :=
  @IsPlace.item .none (.name .none "x") printingIndex [] (.bare ..)

/-- With the list `[1]` in `x`, the assignment `x[print('a') or 0] += 1` prints the text of its index
twice. -/
theorem output_of_augAssign_printingIndex :
    IsPlace printingTarget [printingIndex] ∧ ∃ m m' : Machine,
      (step 0 (.augAssign .none printingTarget .add (.constant .none (.int 1)))).runOn m = (.ok 1, m') ∧
        m'.output = m.output ++ "a\n" ++ "a\n" := by
  let m : Machine := ⟨⟨[("x", .list [.int 1])]⟩, [], ""⟩
  have ran : ∃ m', (step 0 (.augAssign .none printingTarget .add (.constant .none (.int 1)))).runOn m =
      (.ok 1, m') := ⟨_, rfl⟩
  obtain ⟨m', ran⟩ := ran
  obtain ⟨-, printed, -⟩ := output_of_augAssign isPlace_printingTarget ran
  exact ⟨isPlace_printingTarget, m, m', ran, printed⟩

/-- A compound assignment can print more than one evaluation of its target and its value does. -/
theorem not_output_of_augAssign_once : ¬ ∀ (pc pc' : Nat) (span : Span) (target : Expr)
    (indices : List Expr) (op : BinOp) (value : Expr) (m m' : Machine), IsPlace target indices →
    (step pc (.augAssign span target op value)).runOn m = (.ok pc', m') →
      m'.output = m.output ++ ((target.eval m.globals).printed ++ (value.eval m.globals).printed) := by
  intro once
  have output := once 0 1 .none printingTarget _ .add (.constant .none (.int 1))
    ⟨⟨[("x", .list [.int 1])]⟩, [], ""⟩ _ isPlace_printingTarget rfl
  exact absurd output (by decide)

end Action

end BlockEditor
