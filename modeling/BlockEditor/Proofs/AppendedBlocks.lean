import BlockEditor.Proofs.MovedBlocks

/-!
# Blocks of appended lines

A program that is assembled is complete: none of its statements waits for further lines.  So lines
that make up a program of their own can follow it, and the statements of both stand one behind the
other.
-/

namespace BlockEditor

variable {more : List ParsedLine}

/-! ## Lines behind a program -/

/-- Whether a clause continues the statement before it. -/
def continuesStatement (head : ClauseHead) : Bool :=
  continuesIf head || isExcept head || isFinally head

/-- Lines that continue no statement before them: the first one is not indented, and no clause that
continues a statement. -/
def StandAlone : List ParsedLine → Prop
  | [] => True
  | line :: _ => line.indent = 0 ∧
      ∀ head inline, line.content = .header head inline → continuesStatement head = false

/-- Only clauses that continue a statement are accepted. -/
def AcceptsContinuing (accept : ClauseHead → Bool) : Prop :=
  ∀ head, accept head = true → continuesStatement head = true

/-- Only `elif` and `else` clauses continue a branch. -/
theorem acceptsContinuing_continuesIf : AcceptsContinuing continuesIf := by
  rintro (_ | _) <;> simp [continuesStatement, continuesIf]

/-- An `else` clause continues a statement. -/
theorem acceptsContinuing_isElse : AcceptsContinuing isElse := by
  rintro (_ | _) <;> simp [continuesStatement, continuesIf, isElse]

theorem acceptsContinuing_isExcept : AcceptsContinuing isExcept := by
  rintro (_ | _) <;> simp [continuesStatement, isExcept]

theorem acceptsContinuing_isFinally : AcceptsContinuing isFinally := by
  rintro (_ | _) <;> simp [continuesStatement, isFinally]

/-- What is left, with further lines behind it. -/
def Remaining.append (more : List ParsedLine) (r : Remaining) : Remaining :=
  ⟨r.lines ++ more, r.lastStop⟩

theorem Remaining.append_nil (r : Remaining) : r.append [] = r := by
  rw [append, List.append_nil]

/-- A clause is taken from the same lines as without those behind them. -/
theorem Remaining.takeClause?_append (alone : StandAlone more) {accept : ClauseHead → Bool}
    (admits : AcceptsContinuing accept) (level : Nat)
    (r : Remaining) : (r.append more).takeClause? level accept =
      (r.takeClause? level accept).map fun x => (x.1, x.2.append more) := by
  obtain ⟨lines, stop⟩ := r
  match lines with
  | ⟨_, _, .simple _⟩ :: _ | ⟨_, _, .decorator _⟩ :: _ => rfl
  | ⟨indent, span, .header head inline⟩ :: lines =>
    simp only [takeClause?, append, List.cons_append]
    split <;> rfl
  | [] =>
    match more with
    | [] | ⟨_, _, .simple _⟩ :: _ | ⟨_, _, .decorator _⟩ :: _ => rfl
    | ⟨indent, span, .header head inline⟩ :: lines =>
      have refused : accept head = false := by
        have no := alone.2 head inline rfl
        cases e : accept head with
        | false => rfl
        | true => rw [admits head e] at no; cases no
      simp [takeClause?, append, refused]

/-- A clause that is taken is one line fewer. -/
theorem Remaining.length_takeClause? {r : Remaining} {level : Nat} {accept : ClauseHead → Bool}
    {x : TakenClause × Remaining} (taken : r.takeClause? level accept = some x) :
    r.lines.length = x.2.lines.length + 1 := by
  unfold takeClause? at taken
  split at taken
  · rename_i same
    split at taken
    · cases taken
      rw [same, List.length_cons]
    · cases taken
  · cases taken

/-- Decorators are taken from the same lines as without those behind them. -/
theorem takeDecorators_append (more : List ParsedLine) {level : Nat} {start : Span}
    {lines rest : List ParsedLine} {decorators : List Expr}
    (taken : takeDecorators level start lines = .ok (decorators, rest)) :
    (∃ line behind, rest = line :: behind ∧ behind.length < lines.length) ∧
      takeDecorators level start (lines ++ more) = .ok (decorators, rest ++ more) := by
  induction lines generalizing decorators with
  | nil => cases taken
  | cons line lines ih =>
    obtain ⟨indent, span, content⟩ := line
    rw [List.cons_append, takeDecorators]
    rw [takeDecorators] at taken
    dsimp only at taken ⊢
    split at taken
    · rename_i same
      rw [if_pos same]
      cases content with
      | simple stmts => cases taken
      | header head inline =>
        dsimp only at taken ⊢
        split at taken
        · rename_i decoratable
          cases taken
          exact ⟨⟨_, _, rfl, Nat.lt_succ_self _⟩, if_pos decoratable⟩
        · cases taken
      | decorator e =>
        dsimp only at taken ⊢
        cases here : takeDecorators level start lines with
        | error d => rw [here] at taken; cases taken
        | ok x =>
          rw [here] at taken
          cases taken
          obtain ⟨⟨line, behind, same, fewer⟩, whole⟩ := ih here
          rw [whole]
          exact ⟨⟨line, behind, same, Nat.lt_succ_of_lt fewer⟩, rfl⟩
    · cases taken

/-! ## Results that further lines leave alone -/

/-- If the first computation succeeds, leaving at most `n` lines, the second one gives the same and
leaves the further lines behind these. -/
def CarriesOn (more : List ParsedLine) (n : Nat) {α : Type}
    (x y : Except Fault (α × Remaining)) : Prop :=
  ∀ a r, x = .ok (a, r) → r.lines.length ≤ n ∧ y = .ok (a, r.append more)

namespace CarriesOn

variable {α β : Type} {n m : Nat} {x y : Except Fault (α × Remaining)}

theorem ok (a : α) {r : Remaining} (fewer : r.lines.length ≤ n) :
    CarriesOn more n (.ok (a, r)) (.ok (a, r.append more)) := by
  rintro _ _ ⟨⟩
  exact ⟨fewer, rfl⟩

/-- A failure has nothing to carry on. -/
theorem error (e : Fault) : CarriesOn more n (.error e) y := nofun

/-- Leaving fewer lines is more than is asked for. -/
theorem mono (h : CarriesOn more n x y) (le : n ≤ m) : CarriesOn more m x y :=
  fun a r e => (h a r e).imp_left fun fewer => Nat.le_trans fewer le

/-- Steps that carry on one after the other carry on together. -/
theorem bind (first : CarriesOn more n x y)
    {k k' : α × Remaining → Except Fault (β × Remaining)}
    (next : ∀ a r, r.lines.length ≤ n → CarriesOn more m (k (a, r)) (k' (a, r.append more))) :
    CarriesOn more m (x >>= k) (y >>= k') := by
  cases x with
  | error e => exact .error e
  | ok z =>
    obtain ⟨fewer, same⟩ := first z.1 z.2 rfl
    rw [same]
    exact next z.1 z.2 fewer

end CarriesOn

/-! ## Blocks -/

/-- With fuel that is enough for the lines that are left, further lines behind them change no
result, and neither does other fuel.  Only a block of the whole program goes on behind its lines. -/
structure AssemblesOn (more : List ParsedLine) (fuel fuel' : Nat) : Prop where
  block : ∀ level r, (more = [] ∨ 0 < level) → 4 * r.lines.length + 1 ≤ fuel →
    CarriesOn more r.lines.length (block fuel level r) (block fuel' level (r.append more))
  statement : ∀ level line lines stop, 4 * lines.length + 4 ≤ fuel →
    CarriesOn more lines.length (statement fuel level ⟨line :: lines, stop⟩)
      (statement fuel' level ⟨line :: (lines ++ more), stop⟩)
  compound : ∀ level clause r, 4 * r.lines.length + 3 ≤ fuel →
    CarriesOn more r.lines.length (compound fuel level clause r)
      (compound fuel' level clause (r.append more))
  suite : ∀ level clause r, 4 * r.lines.length + 2 ≤ fuel →
    CarriesOn more r.lines.length (suite fuel level clause r)
      (suite fuel' level clause (r.append more))
  optionalSuite : ∀ level accept r, AcceptsContinuing accept → 4 * r.lines.length + 2 ≤ fuel →
    CarriesOn more r.lines.length (optionalSuite fuel level accept r)
      (optionalSuite fuel' level accept (r.append more))
  elseChain : ∀ level r, 4 * r.lines.length + 2 ≤ fuel →
    CarriesOn more r.lines.length (elseChain fuel level r) (elseChain fuel' level (r.append more))
  handlersOf : ∀ level r, 4 * r.lines.length + 2 ≤ fuel →
    CarriesOn more r.lines.length (handlersOf fuel level r)
      (handlersOf fuel' level (r.append more))

namespace AssemblesOn

/-- No fuel is enough for none of them. -/
theorem zero (more : List ParsedLine) (fuel' : Nat) : AssemblesOn more 0 fuel' := by
  constructor <;> intros <;> omega

section Step

variable {fuel fuel' : Nat} (ih : AssemblesOn more fuel fuel') (alone : StandAlone more)

include ih

/-- A statement carries on if what is assembled with less fuel does. -/
theorem statement_succ (level : Nat) (line : ParsedLine) (lines : List ParsedLine) (stop : Nat)
    (enough : 4 * lines.length + 4 ≤ fuel + 1) :
    CarriesOn more lines.length (BlockEditor.statement (fuel + 1) level ⟨line :: lines, stop⟩)
      (BlockEditor.statement (fuel' + 1) level ⟨line :: (lines ++ more), stop⟩) := by
  obtain ⟨indent, span, content⟩ := line
  simp only [BlockEditor.statement]
  cases content with
  | simple stmts => exact .ok (r := ⟨lines, span.stop⟩) stmts (Nat.le_refl _)
  | decorator e =>
    dsimp only
    cases taken : takeDecorators level span lines with
    | error e => exact .error e
    | ok x =>
      obtain ⟨⟨line, behind, same, fewer⟩, whole⟩ := takeDecorators_append more taken
      obtain ⟨decorators, rest⟩ := x
      obtain rfl : rest = line :: behind := same
      rw [whole]
      refine (ih.statement level line behind span.stop (by omega)).bind ?_
      intro stmts r left
      exact .ok _ (Nat.le_trans left (Nat.le_of_lt fewer))
  | header head inline =>
    refine (ih.compound level ⟨head, inline, span⟩ ⟨lines, span.stop⟩ ?_).bind ?_
    · dsimp only
      omega
    · exact fun stmt r fewer => .ok _ fewer

/-- A compound statement carries on. -/
theorem compound_succ (level : Nat) (clause : TakenClause) (r : Remaining)
    (enough : 4 * r.lines.length + 3 ≤ fuel + 1) :
    CarriesOn more r.lines.length (BlockEditor.compound (fuel + 1) level clause r)
      (BlockEditor.compound (fuel' + 1) level clause (r.append more)) := by
  have body := ih.suite level clause r (by omega)
  have other {accept : ClauseHead → Bool} (admits : AcceptsContinuing accept) (r' : Remaining)
      (fewer : r'.lines.length ≤ r.lines.length) :=
    (ih.optionalSuite level accept r' admits (by omega)).mono fewer
  obtain ⟨head, inline, span⟩ := clause
  simp only [BlockEditor.compound]
  cases head with
  | ifHead test =>
    refine body.bind fun stmts rest fewer => ?_
    refine (ih.elseChain level rest (by omega)).bind fun orelse last fewer' => ?_
    exact .ok _ (Nat.le_trans fewer' fewer)
  | whileHead test =>
    refine body.bind fun stmts rest fewer => ?_
    exact (other acceptsContinuing_isElse rest fewer).bind fun orelse last fewer => .ok _ fewer
  | forHead isAsync target iter =>
    refine body.bind fun stmts rest fewer => ?_
    exact (other acceptsContinuing_isElse rest fewer).bind fun orelse last fewer => .ok _ fewer
  | defHead | classHead | withHead => exact body.bind fun stmts rest fewer => .ok _ fewer
  | tryHead =>
    refine body.bind fun stmts rest fewer => ?_
    refine (ih.handlersOf level rest (by omega)).bind fun handlers rest fewer' => ?_
    have fewer := Nat.le_trans fewer' fewer
    -- what follows the `else` part, or its place
    have next (stmts orelse : List Stmt) (rest : Remaining)
        (fewer : rest.lines.length ≤ r.lines.length) : CarriesOn more r.lines.length
          (BlockEditor.optionalSuite fuel level isFinally rest >>= fun last =>
            if handlers.isEmpty && last.1.isEmpty then
              .error ⟨.malformed .tryWithoutClauses, span⟩
            else .ok (Stmt.tryBlock (last.2.spanFrom span) stmts handlers orelse last.1, last.2))
          (BlockEditor.optionalSuite fuel' level isFinally (rest.append more) >>= fun last =>
            if handlers.isEmpty && last.1.isEmpty then
              .error ⟨.malformed .tryWithoutClauses, span⟩
            else
              .ok (Stmt.tryBlock (last.2.spanFrom span) stmts handlers orelse last.1, last.2)) := by
      refine (other acceptsContinuing_isFinally rest fewer).bind fun last rest fewer => ?_
      dsimp only
      split
      · exact .error _
      · exact .ok _ fewer
    dsimp only
    split
    · exact next stmts [] rest fewer
    · refine (other acceptsContinuing_isElse rest fewer).bind fun orelse rest fewer => ?_
      exact next stmts orelse rest fewer
  | elifHead | elseHead | exceptHead | finallyHead => exact .error _

include alone

/-- A block carries on where it is indented, or where no lines are behind it. -/
theorem block_succ (level : Nat) (r : Remaining) (inside : more = [] ∨ 0 < level)
    (enough : 4 * r.lines.length + 1 ≤ fuel + 1) :
    CarriesOn more r.lines.length (BlockEditor.block (fuel + 1) level r)
      (BlockEditor.block (fuel' + 1) level (r.append more)) := by
  obtain ⟨lines, stop⟩ := r
  cases lines with
  | nil =>
    simp only [BlockEditor.block, Remaining.append, List.nil_append]
    cases more with
    | nil => exact .ok [] (Nat.le_refl _)
    | cons next others =>
      -- the next line ends the block, since it is not indented
      have shallow : next.indent < level := by
        rw [alone.1]
        exact inside.resolve_left (List.cons_ne_nil _ _)
      simp only [shallow, if_true]
      exact .ok [] (Nat.le_refl _)
  | cons line lines =>
    simp only [List.length_cons] at enough
    simp only [BlockEditor.block, Remaining.append, List.cons_append]
    split
    · exact .ok [] (Nat.le_refl _)
    · split
      · exact .error _
      · refine (ih.statement level line lines stop (by omega)).bind fun stmts r fewer => ?_
        refine (ih.block level r inside (by omega)).bind fun others rest fewer' => ?_
        exact .ok _ (Nat.le_succ_of_le (Nat.le_trans fewer' fewer))

/-- The body of a clause carries on. -/
theorem suite_succ (level : Nat) (clause : TakenClause) (r : Remaining)
    (enough : 4 * r.lines.length + 2 ≤ fuel + 1) :
    CarriesOn more r.lines.length (BlockEditor.suite (fuel + 1) level clause r)
      (BlockEditor.suite (fuel' + 1) level clause (r.append more)) := by
  obtain ⟨head, inline, span⟩ := clause
  obtain ⟨lines, stop⟩ := r
  simp only [BlockEditor.suite]
  cases inline with
  | some stmts => exact .ok _ (Nat.le_refl _)
  | none =>
    cases lines with
    | nil => exact .error _
    | cons first lines =>
      simp only [Remaining.append, List.cons_append]
      split
      · exact .error _
      · rename_i deeper
        have positive : 0 < first.indent := Nat.zero_lt_of_lt (Nat.lt_of_not_le deeper)
        have body := ih.block first.indent ⟨first :: lines, stop⟩ (.inr positive)
          (Nat.le_of_succ_le_succ enough)
        refine body.bind fun stmts rest fewer => ?_
        obtain ⟨_ | ⟨next, others⟩, stop⟩ := rest
        -- The suite ends with the first text; what is appended is not indented, so it does not go
        -- on with it.
        · cases more with
          | nil => exact .ok _ fewer
          | cons next others =>
            have shallow : ¬ level < next.indent := by
              rw [alone.1]
              exact Nat.not_lt_zero level
            simp only [Remaining.append, List.nil_append, shallow, if_false]
            exact .ok _ fewer
        · simp only [Remaining.append, List.cons_append]
          split
          · exact .error _
          · exact .ok _ fewer

/-- The body of an optional clause carries on, be the clause there or not. -/
theorem optionalSuite_succ (level : Nat) {accept : ClauseHead → Bool} (r : Remaining)
    (admits : AcceptsContinuing accept) (enough : 4 * r.lines.length + 2 ≤ fuel + 1) :
    CarriesOn more r.lines.length (BlockEditor.optionalSuite (fuel + 1) level accept r)
      (BlockEditor.optionalSuite (fuel' + 1) level accept (r.append more)) := by
  simp only [BlockEditor.optionalSuite, Remaining.takeClause?_append alone admits]
  cases taken : r.takeClause? level accept with
  | none => exact .ok [] (Nat.le_refl _)
  | some x =>
    have size := Remaining.length_takeClause? taken
    exact (ih.suite level x.1 x.2 (by omega)).mono (by omega)

/-- A chain of `elif` and `else` clauses carries on. -/
theorem elseChain_succ (level : Nat) (r : Remaining)
    (enough : 4 * r.lines.length + 2 ≤ fuel + 1) :
    CarriesOn more r.lines.length (BlockEditor.elseChain (fuel + 1) level r)
      (BlockEditor.elseChain (fuel' + 1) level (r.append more)) := by
  simp only [BlockEditor.elseChain,
    Remaining.takeClause?_append alone acceptsContinuing_continuesIf]
  cases taken : r.takeClause? level continuesIf with
  | none => exact .ok [] (Nat.le_refl _)
  | some x =>
    have size := Remaining.length_takeClause? taken
    obtain ⟨⟨head, inline, span⟩, rest⟩ := x
    dsimp only at size
    refine (ih.suite level ⟨head, inline, span⟩ rest (by omega)).bind ?_
    intro body rest fewer
    cases head with
    | elifHead test =>
      refine (ih.elseChain level rest (by omega)).bind fun orelse last fewer' => ?_
      exact CarriesOn.mono (.ok _ fewer') (by omega)
    | _ => exact CarriesOn.mono (.ok _ fewer) (by omega)

/-- The handlers of a `try` carry on. -/
theorem handlersOf_succ (level : Nat) (r : Remaining)
    (enough : 4 * r.lines.length + 2 ≤ fuel + 1) :
    CarriesOn more r.lines.length (BlockEditor.handlersOf (fuel + 1) level r)
      (BlockEditor.handlersOf (fuel' + 1) level (r.append more)) := by
  simp only [BlockEditor.handlersOf,
    Remaining.takeClause?_append alone acceptsContinuing_isExcept]
  cases taken : r.takeClause? level isExcept with
  | none => exact .ok [] (Nat.le_refl _)
  | some x =>
    have size := Remaining.length_takeClause? taken
    obtain ⟨⟨head, inline, span⟩, rest⟩ := x
    dsimp only at size
    refine (ih.suite level ⟨head, inline, span⟩ rest (by omega)).bind ?_
    intro body rest fewer
    cases head with
    | exceptHead kind name =>
      refine (ih.handlersOf level rest (by omega)).bind fun handlers last fewer' => ?_
      exact CarriesOn.mono (.ok _ fewer') (by omega)
    | _ => exact CarriesOn.mono (.ok _ fewer) (by omega)

end Step

/-- Everything carries on with any fuel that is enough, by induction on the fuel. -/
theorem all (alone : StandAlone more) {fuel fuel' : Nat} (le : fuel ≤ fuel') :
    AssemblesOn more fuel fuel' := by
  induction fuel generalizing fuel' with
  | zero => exact zero more fuel'
  | succ fuel ih =>
    obtain ⟨fuel', rfl⟩ := Nat.exists_eq_succ_of_ne_zero (Nat.ne_zero_of_lt le)
    have ih := ih (Nat.le_of_succ_le_succ le)
    exact {
      block := ih.block_succ alone
      statement := ih.statement_succ
      compound := ih.compound_succ
      suite := ih.suite_succ alone
      optionalSuite := fun level _ => ih.optionalSuite_succ alone level
      elseChain := ih.elseChain_succ alone
      handlersOf := ih.handlersOf_succ alone }

end AssemblesOn

/-! ## Programs -/

/-- A program goes on with its next line, which must not be indented. -/
theorem block_program (fuel : Nat) (line : ParsedLine) (lines : List ParsedLine) (stop : Nat) :
    block (fuel + 1) 0 ⟨line :: lines, stop⟩ =
      if 0 < line.indent then .error ⟨.unexpectedIndent, line.span⟩
      else statement fuel 0 ⟨line :: lines, stop⟩ >>= fun x =>
        block fuel 0 x.2 >>= fun y => .ok (x.1 ++ y.1, y.2) := by
  simp only [block, Nat.not_lt_zero, if_false]

/-- The statements of a line do not depend on where the line before it ends. -/
theorem statement_lastStop (fuel level : Nat) (line : ParsedLine) (lines : List ParsedLine)
    (stop stop' : Nat) : statement (fuel + 1) level ⟨line :: lines, stop⟩ =
      statement (fuel + 1) level ⟨line :: lines, stop'⟩ := by
  simp only [statement]

/-- The statements of a program do not depend on where the line before it ends. -/
theorem block_lastStop {fuel : Nat} (enough : 2 ≤ fuel) {lines : List ParsedLine} {stop : Nat}
    {stmts : List Stmt} {r : Remaining} (done : block fuel 0 ⟨lines, stop⟩ = .ok (stmts, r))
    (stop' : Nat) : ∃ r', block fuel 0 ⟨lines, stop'⟩ = .ok (stmts, r') := by
  obtain ⟨fuel, rfl⟩ := Nat.exists_eq_add_of_le' enough
  cases lines with
  | nil =>
    simp only [block] at done ⊢
    cases done
    exact ⟨_, rfl⟩
  | cons line lines =>
    rw [block_program, statement_lastStop _ _ _ _ stop stop', ← block_program] at done
    exact ⟨r, done⟩

/-- Lines that are a program stand alone. -/
theorem standAlone_of_block {fuel stop : Nat} (enough : 3 ≤ fuel) {x : List Stmt × Remaining}
    (done : block fuel 0 ⟨more, stop⟩ = .ok x) : StandAlone more := by
  obtain ⟨fuel, rfl⟩ := Nat.exists_eq_add_of_le' enough
  cases more with
  | nil => trivial
  | cons line lines =>
    rw [block_program] at done
    split at done
    · cases done
    · rename_i shallow
      refine ⟨Nat.eq_zero_of_not_pos shallow, fun head inline same => ?_⟩
      cases head with
      | elifHead | elseHead | exceptHead | finallyHead =>
        simp only [statement, same, compound] at done
        cases done
      | _ => rfl

/-- The statements of lines that are a program, and then those of further lines that are one. -/
theorem block_append {fuel fuel' least : Nat} {r last : Remaining} {a b : List Stmt}
    (alone : StandAlone more) (enough : 4 * r.lines.length + 1 ≤ fuel) (le : fuel ≤ fuel')
    (left : r.lines.length + least ≤ fuel') (first : block fuel 0 r = .ok (a, last))
    (second : ∀ n ≥ least, ∀ stop, ∃ last, block n 0 ⟨more, stop⟩ = .ok (b, last)) :
    ∃ last, block fuel' 0 (r.append more) = .ok (a ++ b, last) := by
  -- By induction on the fuel of the first text, since statements take a number of lines that is
  -- not known before.
  induction fuel generalizing fuel' r a with
  | zero => omega
  | succ fuel ih =>
    obtain ⟨lines, stop⟩ := r
    cases lines with
    | nil =>
      simp only [block] at first
      cases first
      exact second fuel' (Nat.le_of_add_left_le left) stop
    | cons line lines =>
      obtain ⟨fuel', rfl⟩ := Nat.exists_eq_succ_of_ne_zero (Nat.ne_zero_of_lt le)
      have le := Nat.le_of_succ_le_succ le
      simp only [List.length_cons] at enough left
      rw [block_program] at first
      simp only [Remaining.append, List.cons_append]
      rw [Nat.succ_eq_add_one, block_program]
      split at first
      · cases first
      · rename_i shallow
        rw [if_neg shallow]
        -- The lines of the second text stand alone, so no statement of the first one goes on with
        -- them.
        have here := (AssemblesOn.all alone le).statement 0 line lines stop (by omega)
        cases taken : statement fuel 0 ⟨line :: lines, stop⟩ with
        | error e => rw [taken] at first; cases first
        | ok x =>
          obtain ⟨stmts, r⟩ := x
          obtain ⟨fewer, same⟩ := here stmts r taken
          rw [taken] at first
          rw [same]
          cases others : block fuel 0 r with
          | error e => simp only [bind, Except.bind, others] at first; cases first
          | ok x =>
            obtain ⟨stmts', r'⟩ := x
            simp only [bind, Except.bind, others] at first
            cases first
            obtain ⟨last, whole⟩ := ih (by omega) le (by omega) others
            refine ⟨last, ?_⟩
            simp only [bind, Except.bind, whole, List.append_assoc]

/-- Assembling a program is assembling the block at its outermost level. -/
theorem assemble_eq_ok_iff {lines : List ParsedLine} {a : List Stmt} : assemble lines = .ok a ↔
    ∃ last, block (assemblySteps * (lines.length + 1)) 0 ⟨lines, 0⟩ = .ok (a, last) := by
  unfold assemble
  constructor
  · intro done
    cases e : block (assemblySteps * (lines.length + 1)) 0 ⟨lines, 0⟩ with
    | error e' => rw [e] at done; cases done
    | ok x =>
      rw [e] at done
      cases done
      exact ⟨x.2, rfl⟩
  · rintro ⟨last, done⟩
    rw [done]
    rfl

/-- The fuel of a program is enough for its lines. -/
theorem lt_assemblySteps (n : Nat) : 4 * n + 1 < assemblySteps * (n + 1) := by
  unfold assemblySteps
  omega

/-- A program that is assembled is also assembled with more fuel, and behind other lines. -/
theorem block_of_assemble {lines : List ParsedLine} {a : List Stmt} (done : assemble lines = .ok a)
    {n : Nat} (le : assemblySteps * (lines.length + 1) ≤ n) (stop : Nat) :
    ∃ last, block n 0 ⟨lines, stop⟩ = .ok (a, last) := by
  have enough := lt_assemblySteps lines.length
  obtain ⟨last, done⟩ := assemble_eq_ok_iff.1 done
  have alone : StandAlone [] := trivial
  obtain ⟨-, done⟩ := (AssemblesOn.all alone le).block 0 ⟨lines, 0⟩ (.inl rfl) enough.le a last done
  rw [Remaining.append_nil] at done
  exact block_lastStop (by omega) done stop

/-- Programs that follow one another are one program. -/
theorem assemble_append {lines more : List ParsedLine} {a b : List Stmt}
    (first : assemble lines = .ok a) (second : assemble more = .ok b) :
    assemble (lines ++ more) = .ok (a ++ b) := by
  have enough := lt_assemblySteps lines.length
  have alone : StandAlone more := by
    obtain ⟨last, done⟩ := assemble_eq_ok_iff.1 second
    exact standAlone_of_block (by unfold assemblySteps; omega) done
  obtain ⟨last, done⟩ := assemble_eq_ok_iff.1 first
  -- the fuel for all lines is what both parts need
  have total : assemblySteps * (lines.length + more.length + 1) =
      8 * lines.length + assemblySteps * (more.length + 1) := by
    unfold assemblySteps
    omega
  refine assemble_eq_ok_iff.2 ?_
  rw [List.length_append, total]
  refine block_append alone enough.le ?_ ?_ done fun n le =>
    block_of_assemble second le
  · unfold assemblySteps
    omega
  · dsimp only
    omega

/-- Lines that are moved are the same program, moved alike. -/
theorem assemble_move {f : Nat → Nat} (mono : Monotone f) {lines : List ParsedLine} {a : List Stmt}
    (done : assemble lines = .ok a) :
    assemble (lines.map (ParsedLine.move f)) = .ok (a.map (Stmt.move f)) := by
  have enough := lt_assemblySteps lines.length
  obtain ⟨last, done⟩ := assemble_eq_ok_iff.1 done
  refine assemble_eq_ok_iff.2 ?_
  rw [List.length_map]
  have moved := (AssemblesMoved.all mono (assemblySteps * (lines.length + 1))).block 0 ⟨lines, 0⟩
  exact block_lastStop (by omega) (moved.of_ok done) 0

end BlockEditor
