import BlockEditor.Proofs.Halting

/-!
# Programs that run alike

Two programs that print the same values, ask equal conditions and count equally far print the same
text and end the same way.  They may give different values to their variables, since neither of
them reads a variable, as long as none of these values is a function: a variable can take the name of
a function that the programs call, and then both of them fail at the call.
-/

namespace BlockEditor

/-! ## Expressions that need no variables -/

/-- A value is no function. -/
def Value.IsData (v : Value) : Prop := ∀ function, v ≠ .builtin function

namespace Expr

/-- Whatever the variables are, an expression has a value, and prints nothing. -/
def HasValue (e : Expr) (v : Value) : Prop := ∀ g, e.eval g = .pure v

variable {e : Expr} {v w : Value} {g : Globals} {id : String}

/-- An operation on a value is the value of the operation. -/
theorem HasValue.unary (h : e.HasValue v) {op : UnaryOp} (value : v.unaryOperation op = .ok w)
    (span : Span) : (unary span op e).HasValue w := by
  intro g
  rw [eval]
  show (eval g e).bind (fun v => .ofResult span (v.unaryOperation op)) = _
  rw [h g, Traced.pure_bind, value]
  rfl

/-- An expression that has a value is an argument of its own. -/
theorem HasValue.evalItems_eq (h : e.HasValue v) (g : Globals) : evalItems g [e] = .pure [v] := by
  have whole : evalItems g [e] = (eval g e).bind fun v =>
      (evalItems g []).bind fun back => .pure (v :: back) := by
    cases e with
    | starred span inner => cases h g
    | _ =>
      rw [evalItems]
      rfl
  rw [whole, h g, Traced.pure_bind, evalItems]
  rfl

/-- A call evaluates the function and the argument, which has a value here. -/
theorem HasValue.eval_call (h : e.HasValue v) (span func : Span) :
    (call span (.name func id) [e] []).eval g =
      (Traced.ofResult func (g.resolve id)).bind fun callee =>
        match callee with
        | .builtin .print => ⟨PrintStyle.default.line [v], .ok .none⟩
        | .builtin function => .ofResult span (function.callPlain [v] [])
        | other => .fail (.typeMismatch (.notCallable other.typeName)) span := by
  have callee : (name func id).eval g = .ofResult func (g.resolve id) := by rw [eval]
  rw [eval]
  show ((name func id).eval g).bind (fun callee => (evalItems g [e]).bind _) = _
  rw [callee, h.evalItems_eq]
  congr 1
  funext callee
  rw [Traced.pure_bind]
  cases callee with
  | builtin function =>
    cases function with
    | print =>
      rw [evalKeywords]
      show (⟨"" ++ (PrintStyle.default.line [v] ++ ""), .ok .none⟩ : Traced Value) = _
      rw [String.empty_append, String.append_empty]
    | _ => rfl
  | _ => rfl

/-- A call of what a variable holds fails, unless that is a function. -/
theorem HasValue.eval_call_data (h : e.HasValue v) (held : g.get? id = some w) (data : w.IsData)
    (span func : Span) : (call span (.name func id) [e] []).eval g =
      .fail (.typeMismatch (.notCallable w.typeName)) span := by
  have callee : g.resolve id = .ok w := by rw [Globals.resolve, held]
  rw [h.eval_call, callee]
  cases w with
  | builtin function => exact absurd rfl (data function)
  | _ => rfl

/-- A call of `print` prints a line with the text of the value. -/
theorem HasValue.eval_print (h : e.HasValue v) (free : g.get? "print" = none) (span func : Span) :
    (call span (.name func "print") [e] []).eval g = ⟨PrintStyle.default.line [v], .ok .none⟩ := by
  have callee : g.resolve "print" = .ok (.builtin .print) := by
    rw [Globals.resolve, free]
    rfl
  rw [h.eval_call, callee]
  show (⟨"" ++ _, _⟩ : Traced Value) = _
  rw [String.empty_append]

/-- A call of `range` gives the words from zero up to the value. -/
theorem HasValue.eval_range {n : Int64} (h : e.HasValue (.int n)) (free : g.get? "range" = none)
    (span func : Span) :
    (call span (.name func "range") [e] []).eval g = .pure (.range ⟨0, n, 1⟩) := by
  have callee : g.resolve "range" = .ok (.builtin .range) := by
    rw [Globals.resolve, free]
    rfl
  rw [h.eval_call, callee]
  rfl

end Expr

/-! ## Twins -/

namespace Stmt

mutual

/-- Two statements print equal values, ask equal conditions and count equally far, and the values
that they give to variables are no functions. -/
inductive Twin : Stmt → Stmt → Prop
  | print {span span' call call' func func' : Span} {arg arg' : Expr} {v : Value} :
    arg.HasValue v → arg'.HasValue v → Twin (.expr span (.call call (.name func "print") [arg] []))
      (.expr span' (.call call' (.name func' "print") [arg'] []))
  | assign {span span' target target' : Span} {id : String} {value value' : Expr} {v v' : Value} :
    value.HasValue v → v.IsData → value'.HasValue v' → v'.IsData →
      Twin (.assign span [.name target id] value) (.assign span' [.name target' id] value')
  | branch {span span' : Span} {test test' : Expr} {v v' : Value} {body body' : List Stmt} :
    test.HasValue v → test'.HasValue v' → v.truthy = v'.truthy → AllTwins body body' →
      Twin (.branch span test body []) (.branch span' test' body' [])
  | loop {span span' target target' call call' func func' : Span} {id : String} {bound bound' : Expr}
      {n : Int64} {body body' : List Stmt} :
    bound.HasValue (.int n) → bound'.HasValue (.int n) → AllTwins body body' →
      Twin (.forLoop span false (.name target id) (.call call (.name func "range") [bound] []) body [])
        (.forLoop span' false (.name target' id) (.call call' (.name func' "range") [bound'] []) body'
          [])

/-- Neighbouring statements are twins one by one.  Nothing has a twin that does nothing. -/
inductive AllTwins : List Stmt → List Stmt → Prop
  | nil : AllTwins [] []
  | pass {span : Span} : AllTwins [] [.pass span]
  | cons {s s' : Stmt} {ss ss' : List Stmt} : Twin s s' → AllTwins ss ss' →
    AllTwins (s :: ss) (s' :: ss')

end

mutual

/-- Twins neither begin nor end a loop around them. -/
theorem Twin.stray? {s s' : Stmt} (h : Twin s s') (inLoop : Bool) :
    s.stray? inLoop = none ∧ s'.stray? inLoop = none := by
  cases h with
  | print | assign => exact ⟨rfl, rfl⟩
  | branch _ _ _ inside =>
    obtain ⟨left, right⟩ := AllTwins.stray? inside inLoop
    simp only [Stmt.stray?, left, right, strayIn?, Option.or_none, and_self]
  | loop _ _ inside =>
    obtain ⟨left, right⟩ := AllTwins.stray? inside true
    simp only [Stmt.stray?, left, right, strayIn?, Option.or_none, and_self]

/-- Neighbouring twins neither begin nor end a loop around them. -/
theorem AllTwins.stray? {ss ss' : List Stmt} (h : AllTwins ss ss') (inLoop : Bool) :
    strayIn? inLoop ss = none ∧ strayIn? inLoop ss' = none := by
  cases h with
  | nil | pass => exact ⟨rfl, rfl⟩
  | cons first others =>
    obtain ⟨left, right⟩ := Twin.stray? first inLoop
    obtain ⟨lefts, rights⟩ := AllTwins.stray? others inLoop
    simp only [strayIn?, left, right, lefts, rights, Option.or_none, and_self]

end

end Stmt

/-! ## Machines -/

namespace Machine

/-- Two machines have printed the same, are in the same loops, and have set the same variables, none of
which is a function. -/
structure Alike (m m' : Machine) : Prop where
  output : m.output = m'.output
  cursors : m.cursors = m'.cursors
  held : ∀ id, Option.Rel (fun v v' => v.IsData ∧ v'.IsData) (m.globals.get? id)
    (m'.globals.get? id)

/-- Fresh machines are alike. -/
theorem alike_fresh : Alike .fresh .fresh := ⟨rfl, rfl, fun _ => .none⟩

namespace Alike

variable {m m' : Machine} (h : m.Alike m')

include h

/-- What is called by a name is a built-in function on both machines, or no function on either. -/
theorem callee (id : String) : (m.globals.get? id = none ∧ m'.globals.get? id = none) ∨
    ∃ w w', m.globals.get? id = some w ∧ m'.globals.get? id = some w' ∧ w.IsData ∧ w'.IsData := by
  have related := h.held id
  cases held : m.globals.get? id with
  | none =>
    rw [held] at related
    cases held' : m'.globals.get? id with
    | none => exact .inl ⟨rfl, rfl⟩
    | some w' =>
      rw [held'] at related
      cases related
  | some w =>
    rw [held] at related
    cases held' : m'.globals.get? id with
    | none =>
      rw [held'] at related
      cases related
    | some w' =>
      rw [held'] at related
      cases related with
      | some data => exact .inr ⟨w, w', rfl, rfl, data⟩

/-- Machines that print the same text stay alike. -/
theorem print (text : String) :
    Alike { m with output := m.output ++ text } { m' with output := m'.output ++ text } :=
  ⟨congrArg (· ++ text) h.output, h.cursors, h.held⟩

/-- Machines whose loops come to the same items stay alike. -/
theorem move (cursors : List ItemCursor) :
    Alike { m with cursors := cursors } { m' with cursors := cursors } :=
  ⟨h.output, rfl, h.held⟩

/-- Machines that set one variable to what is no function stay alike. -/
theorem set (id : String) {v v' : Value} (data : v.IsData) (data' : v'.IsData) :
    Alike { m with globals := m.globals.set id v } { m' with globals := m'.globals.set id v' } := by
  refine ⟨h.output, h.cursors, fun other => ?_⟩
  show Option.Rel _ ((m.globals.set id v).get? other) ((m'.globals.set id v').get? other)
  rw [Globals.get?_set, Globals.get?_set]
  split
  · exact .some ⟨data, data'⟩
  · exact h.held other

end Alike

end Machine

namespace Action

variable {e : Expr} {v : Value} {m : Machine}

/-- An expression that has a value leaves the machine as it is. -/
theorem runOn_evaluate_pure (h : e.eval m.globals = .pure v) : (evaluate e).runOn m = (.ok v, m) := by
  rw [runOn_evaluate, h]
  show (_, { m with output := m.output ++ "" }) = _
  rw [String.append_empty]
  rfl

theorem runOn_evaluate_fail {cause : Cause} {span : Span} (h : e.eval m.globals = .fail cause span) :
    (evaluate e).runOn m = (.error ⟨cause, span⟩, m) := by
  rw [runOn_evaluate, h]
  show (_, { m with output := m.output ++ "" }) = _
  rw [String.append_empty]
  rfl

end Action

/-! ## Runs -/

namespace Activity

/-- Run on two machines, two pieces come to an end alike: both hand control on, with the given
cursors left, or both fail in the same way after the same output. -/
inductive EndAlike (a a' : Activity) (m m' : Machine) (cursors : List ItemCursor) : Prop
  | next {m₁ m₁' : Machine} : Runs a m .next m₁ → Runs a' m' .next m₁' → m₁.Alike m₁' →
    m₁.cursors = cursors → EndAlike a a' m m' cursors
  | failed {fault fault' : Fault} {m₁ m₁' : Machine} : Runs a m (.failed fault) m₁ →
    Runs a' m' (.failed fault') m₁' → fault.cause.kind = fault'.cause.kind →
      m₁.output = m₁'.output → EndAlike a a' m m' cursors

/-- Pieces that end as other pieces do come to an end alike if those do. -/
theorem EndAlike.extend {a a' b b' : Activity} {m m' n n' : Machine} {cursors : List ItemCursor}
    (h : EndAlike a a' m m' cursors) (around : ∀ {q m₁}, Runs a m q m₁ → Runs b n q m₁)
    (around' : ∀ {q m₁}, Runs a' m' q m₁ → Runs b' n' q m₁) : EndAlike b b' n n' cursors := by
  cases h with
  | next run run' after kept => exact .next (around run) (around' run') after kept
  | failed run run' kind output => exact .failed (around run) (around' run') kind output

/-- On machines that are alike, two pieces come to an end alike, and leave the loops around them. -/
def RunAlike (a a' : Activity) : Prop :=
  ∀ m m', m.Alike m' → EndAlike a a' m m' m.cursors

section Statements

variable {span span' call call' func func' target target' : Span} {id : String}
  {e e' : Expr} {v v' : Value} {body body' : List Stmt}

/-- A call of what a variable holds fails, unless that is a function. -/
theorem runOn_call_data {m : Machine} {w : Value} (has : e.HasValue v)
    (held : m.globals.get? id = some w) (data : w.IsData) (call func : Span) :
    (Action.evaluate (.call call (.name func id) [e] [])).runOn m =
      (.error ⟨.typeMismatch (.notCallable w.typeName), call⟩, m) :=
  Action.runOn_evaluate_fail (has.eval_call_data held data call func)

/-- A call of `print` prints the value where the name has no other meaning. -/
theorem runOn_print {m : Machine} (has : e.HasValue v) (free : m.globals.get? "print" = none)
    (span call func : Span) :
    (Stmt.expr span (.call call (.name func "print") [e] [])).effect.runOn m =
      (.ok (), { m with output := m.output ++ PrintStyle.default.line [v] }) := by
  rw [Stmt.effect, Action.runOn_bind, Action.runOn_evaluate, has.eval_print free]
  rfl

/-- Two calls of `print` print the same value. -/
theorem runAlike_print (has : e.HasValue v) (has' : e'.HasValue v) :
    RunAlike (.one (.expr span (.call call (.name func "print") [e] [])))
      (.one (.expr span' (.call call' (.name func' "print") [e'] []))) := by
  intro m m' alike
  rcases alike.callee "print" with ⟨free, free'⟩ | ⟨w, w', held, held', data, data'⟩
  · exact .next (.effect rfl (runOn_print has free span call func))
      (.effect rfl (runOn_print has' free' span' call' func')) (alike.print _) rfl
  · have fails := runOn_call_data has held data call func
    have fails' := runOn_call_data has' held' data' call' func'
    exact .failed (.effectFails rfl (Action.runOn_bind_error fails))
      (.effectFails rfl (Action.runOn_bind_error fails')) rfl alike.output

/-- An assignment to a name changes this one variable. -/
theorem runOn_assign (has : e.HasValue v) (m : Machine) (span target : Span) (id : String) :
    (Stmt.assign span [.name target id] e).effect.runOn m =
      (.ok (), { m with globals := m.globals.set id v }) := by
  rw [Stmt.effect, Action.runOn_bind_ok (Action.runOn_evaluate_pure (has m.globals))]
  show (Action.assign (.name target id) v >>= fun _ => pure ()).runOn m = _
  rw [Action.assign]
  rfl

/-- Two assignments to one name set it to what is no function. -/
theorem runAlike_assign (has : e.HasValue v) (data : v.IsData) (has' : e'.HasValue v')
    (data' : v'.IsData) : RunAlike (.one (.assign span [.name target id] e))
      (.one (.assign span' [.name target' id] e')) := by
  intro m m' alike
  exact .next (.effect rfl (runOn_assign has m span target id))
    (.effect rfl (runOn_assign has' m' span' target' id)) (alike.set id data data') rfl

/-- A condition that has a value is decided by its truth. -/
theorem runOn_holds (has : e.HasValue v) (m : Machine) :
    (Guard.holds e).check.runOn m = (.ok v.truthy, m) :=
  Action.runOn_bind_ok (Action.runOn_evaluate_pure (has m.globals))

/-- Two branches on equal conditions run alike if their parts do. -/
theorem RunAlike.branch (inside : RunAlike (.all body) (.all body')) (has : e.HasValue v)
    (has' : e'.HasValue v') (same : v.truthy = v'.truthy) :
    RunAlike (.one (.branch span e body [])) (.one (.branch span' e' body' [])) := by
  intro m m' alike
  have part : EndAlike (.all (if v.truthy then body else [])) (.all (if v'.truthy then body' else []))
      m m' m.cursors := by
    rw [← same]
    cases v.truthy with
    | true => exact inside m m' alike
    | false => exact .next .nil .nil alike rfl
  exact part.extend (.branch (runOn_holds has m)) (.branch (runOn_holds has' m'))

/-- The head of a loop whose cursor has an item left gives it to the variable of the loop. -/
theorem runOn_visit {m : Machine} {item : Value} {cursor cursor' : ItemCursor}
    {rest : List ItemCursor} (under : m.cursors = cursor :: rest)
    (next : cursor.next? = some (item, cursor')) (target : Span) (id : String) :
    (Guard.visit (.name target id)).check.runOn m = (.ok true,
      { m with cursors := cursor' :: rest, globals := m.globals.set id item }) := by
  have moved := Action.runOn_nextItem under
  rw [next] at moved
  rw [Guard.check, Action.runOn_bind_ok moved]
  simp only [Action.assign]
  rfl

/-- The head of a loop whose cursor has no item left drops the cursor. -/
theorem runOn_visit_none {m : Machine} {cursor : ItemCursor} {rest : List ItemCursor}
    (under : m.cursors = cursor :: rest) (next : cursor.next? = none) :
    (Guard.visit e).check.runOn m = (.ok false, { m with cursors := rest }) := by
  have moved := Action.runOn_nextItem under
  rw [next] at moved
  exact Action.runOn_bind_ok moved

/-- The passes of two loops over the same words run alike if their parts do.  The induction is on the
number of words that are left. -/
theorem RunAlike.visit (inside : RunAlike (.all body) (.all body')) (remaining : Nat)
    {next step : Int64} {rest : List ItemCursor} {m m' : Machine} (alike : m.Alike m')
    (under : m.cursors = .range next step remaining :: rest) :
    EndAlike (.loop (.visit (.name target id)) body []) (.loop (.visit (.name target' id)) body' [])
      m m' rest := by
  have under' := alike.cursors.symm.trans under
  induction remaining generalizing next m m' with
  | zero =>
    exact .next (.orelse (runOn_visit_none under rfl) .nil) (.orelse (runOn_visit_none under' rfl) .nil)
      (alike.move rest) rfl
  | succ remaining ih =>
    have data : (Value.int next).IsData := nofun
    have alike₁ := (alike.move (.range (next + step) step remaining :: rest)).set id data data
    have asked := runOn_visit under rfl target id
    have asked' := runOn_visit under' rfl target' id
    cases inside _ _ alike₁ with
    | next run run' after kept =>
      have others := ih after kept (after.cursors.symm.trans kept)
      exact others.extend (.pass asked (.inl rfl) run) (.pass asked' (.inl rfl) run')
    | failed run run' kind output =>
      exact .failed (.passFails asked run) (.passFails asked' run') kind output

/-- A loop over a call of `range` begins with a cursor over the words. -/
theorem runOn_beginRange {m : Machine} {n : Int64} (has : e.HasValue (.int n))
    (free : m.globals.get? "range" = none) (call func : Span) :
    (Action.beginItems (.call call (.name func "range") [e] [])).runOn m =
      (.ok (), { m with cursors := .range 0 1 (Range.mk 0 n 1).length :: m.cursors }) :=
  Action.runOn_bind_ok (Action.runOn_evaluate_pure (has.eval_range free call func))

/-- Two loops over as many words run alike if their parts do. -/
theorem RunAlike.loop (inside : RunAlike (.all body) (.all body')) {n : Int64}
    (has : e.HasValue (.int n)) (has' : e'.HasValue (.int n)) :
    RunAlike (.one (.forLoop span false (.name target id)
        (.call call (.name func "range") [e] []) body []))
      (.one (.forLoop span' false (.name target' id)
        (.call call' (.name func' "range") [e'] []) body' [])) := by
  intro m m' alike
  -- The name may have been bound to a value before, and data cannot be called.
  rcases alike.callee "range" with ⟨free, free'⟩ | ⟨w, w', held, held', data, data'⟩
  · have begun := runOn_beginRange has free call func
    have begun' := runOn_beginRange has' free' call' func'
    rw [← alike.cursors] at begun'
    have alike₁ := alike.move (.range 0 1 (Range.mk 0 n 1).length :: m.cursors)
    have passes : EndAlike (.loop (.visit (.name target id)) body [])
        (.loop (.visit (.name target' id)) body' []) _ _ m.cursors := inside.visit _ alike₁ rfl
    exact passes.extend (.forLoop begun) (.forLoop begun')
  · have fails := runOn_call_data has held data call func
    have fails' := runOn_call_data has' held' data' call' func'
    exact .failed (.forFails (Action.runOn_bind_error fails))
      (.forFails (Action.runOn_bind_error fails')) rfl alike.output

end Statements

open Stmt (Twin AllTwins)

mutual

/-- Twins run alike. -/
theorem runAlike_one {s s' : Stmt} (h : Twin s s') : RunAlike (.one s) (.one s') := by
  cases h with
  | print has has' => exact runAlike_print has has'
  | assign has data has' data' => exact runAlike_assign has data has' data'
  | branch has has' same inside => exact (runAlike_all inside).branch has has' same
  | loop has has' inside => exact (runAlike_all inside).loop has has'

/-- Neighbouring twins run alike. -/
theorem runAlike_all {ss ss' : List Stmt} (h : AllTwins ss ss') : RunAlike (.all ss) (.all ss') := by
  intro m m' alike
  cases h with
  | nil => exact .next .nil .nil alike rfl
  | pass => exact .next .nil (.cons (.effect rfl rfl) .nil) alike rfl
  | cons first others =>
    cases runAlike_one first m m' alike with
    | next run run' after kept =>
      have others := runAlike_all others _ _ after
      rw [kept] at others
      exact others.extend (.cons run) (.cons run')
    | failed run run' kind output => exact .failed (.stop nofun run) (.stop nofun run') kind output

end

end Activity

/-! ## Programs -/

/-- Programs of twins compile and come to an end, with the same output and in the same way: both are
complete, or both fail with causes of one kind. -/
theorem Module.end_alike {mod mod' : Module} (h : Stmt.AllTwins mod.body mod'.body) :
    ∃ p p' r r' m m', mod.compile = .ok p ∧ mod'.compile = .ok p' ∧ p.Ends .fresh r m ∧
      p'.Ends .fresh r' m' ∧ m.output = m'.output ∧
        r.mapError (fun fault => fault.cause.kind) = r'.mapError fun fault => fault.cause.kind := by
  obtain ⟨notStray, notStray'⟩ := h.stray? false
  have compiled : mod.compile = .ok ⟨(Stmt.codes none 0 mod.body).toArray⟩ := by
    rw [compile_eq_layout, notStray]
  have compiled' : mod'.compile = .ok ⟨(Stmt.codes none 0 mod'.body).toArray⟩ := by
    rw [compile_eq_layout, notStray']
  cases Activity.runAlike_all h _ _ Machine.alike_fresh with
  | next run run' after _ =>
    exact ⟨_, _, _, _, _, _, compiled, compiled', ends_of_runs compiled run,
      ends_of_runs compiled' run', after.output, rfl⟩
  | failed run run' kind output =>
    exact ⟨_, _, _, _, _, _, compiled, compiled', ends_of_runs compiled run,
      ends_of_runs compiled' run', output, congrArg Except.error kind⟩

end BlockEditor
