import BlockEditor.Proofs.MovedLines
import BlockEditor.Syntax.Assembly

/-!
# Moved blocks

Lines that are moved are assembled into the same statements, moved alike.
-/

namespace BlockEditor

variable {f : Nat → Nat}

/-! ## Reading positions -/

/-- What is left of moved lines. -/
def Remaining.move (f : Nat → Nat) (r : Remaining) : Remaining :=
  ⟨r.lines.map (ParsedLine.move f), f r.lastStop⟩

/-- A clause with its spans moved. -/
def TakenClause.move (f : Nat → Nat) (c : TakenClause) : TakenClause :=
  ⟨c.head.move f, c.inline.map (List.map (Stmt.move f)), c.span.move f⟩

/-- Statements that were taken, and what is left, with their spans moved. -/
def moveTaken (f : Nat → Nat) (x : List Stmt × Remaining) : List Stmt × Remaining :=
  (x.1.map (Stmt.move f), x.2.move f)

/-- The span from a header on is moved with the lines that are left. -/
theorem Remaining.spanFrom_move (mono : Monotone f) (r : Remaining) (header : Span) :
    (r.move f).spanFrom (header.move f) = (r.spanFrom header).move f := by
  simp only [spanFrom, move, Span.move, mono.map_max]

/-- Whether a head is accepted does not depend on its place. -/
def Placeless (f : Nat → Nat) (accept : ClauseHead → Bool) : Prop :=
  ∀ head : ClauseHead, accept (head.move f) = accept head

theorem placeless_continuesIf (f : Nat → Nat) : Placeless f continuesIf := by rintro (_ | _) <;> rfl

theorem placeless_isElse (f : Nat → Nat) : Placeless f isElse := by rintro (_ | _) <;> rfl

theorem placeless_isExcept (f : Nat → Nat) : Placeless f isExcept := by rintro (_ | _) <;> rfl

theorem placeless_isFinally (f : Nat → Nat) : Placeless f isFinally := by rintro (_ | _) <;> rfl

theorem placeless_isDecoratable (f : Nat → Nat) : Placeless f isDecoratable := by
  rintro (_ | _) <;> rfl

/-- The same clauses are taken of moved lines. -/
theorem Remaining.takeClause?_move {accept : ClauseHead → Bool} (placeless : Placeless f accept)
    (level : Nat) (r : Remaining) : (r.move f).takeClause? level accept =
      (r.takeClause? level accept).map fun x => (x.1.move f, x.2.move f) := by
  obtain ⟨lines, stop⟩ := r
  match lines with
  | [] | ⟨_, _, .simple _⟩ :: _ | ⟨_, _, .decorator _⟩ :: _ => rfl
  | ⟨indent, span, .header head inline⟩ :: lines =>
    show (if indent = level ∧ accept (head.move f) then some _ else none) =
      (if indent = level ∧ accept head then some _ else none).map _
    rw [placeless head]
    split <;> rfl

/-! ## Decorators -/

/-- Decorators that were taken, and the lines behind them, with their spans moved. -/
def moveDecorated (f : Nat → Nat) (x : List Expr × List ParsedLine) : List Expr × List ParsedLine :=
  (x.1.map (Expr.move f), x.2.map (ParsedLine.move f))

/-- The same decorators are taken of moved lines. -/
theorem mapped_takeDecorators (f : Nat → Nat) (level : Nat) (start start' : Span)
    (lines : List ParsedLine) : Mapped (moveDecorated f) (takeDecorators level start lines)
      (takeDecorators level start' (lines.map (ParsedLine.move f))) := by
  induction lines with
  | nil => exact .error _ _
  | cons line lines ih =>
    obtain ⟨indent, span, content⟩ := line
    simp only [List.map_cons, takeDecorators, ParsedLine.move]
    split
    · cases content with
      | simple stmts => exact .error _ _
      | decorator e => exact ih.bind fun x => rfl
      | header head inline =>
        simp only [LineContent.move, placeless_isDecoratable f head]
        split
        · exact rfl
        · exact .error _ _
    · exact .error _ _

/-- A statement is decorated alike where it is moved to. -/
theorem Stmt.move_decorate (mono : Monotone f) (start : Span) (decorators : List Expr) (s : Stmt) :
    (s.move f).decorate (start.move f) (decorators.map (Expr.move f)) =
      (s.decorate start decorators).move f := by
  cases s with
  | functionDef | classDef => simp only [move, decorate, Span.move_join mono]
  | _ => rfl

/-! ## Blocks -/

/-- Up to some fuel, moved lines are assembled alike. -/
structure AssemblesMoved (f : Nat → Nat) (fuel : Nat) : Prop where
  block : ∀ level r, Mapped (moveTaken f) (block fuel level r) (block fuel level (r.move f))
  statement : ∀ level r,
    Mapped (moveTaken f) (statement fuel level r) (statement fuel level (r.move f))
  compound : ∀ level clause r, Mapped (fun x => (x.1.move f, x.2.move f))
    (compound fuel level clause r) (compound fuel level (clause.move f) (r.move f))
  suite : ∀ level clause r, Mapped (moveTaken f) (suite fuel level clause r)
    (suite fuel level (clause.move f) (r.move f))
  optionalSuite : ∀ level accept r, Placeless f accept → Mapped (moveTaken f)
    (optionalSuite fuel level accept r) (optionalSuite fuel level accept (r.move f))
  elseChain : ∀ level r,
    Mapped (moveTaken f) (elseChain fuel level r) (elseChain fuel level (r.move f))
  handlersOf : ∀ level r, Mapped (fun x => (Stmt.moveHandlers f x.1, x.2.move f))
    (handlersOf fuel level r) (handlersOf fuel level (r.move f))

namespace AssemblesMoved

theorem zero (f : Nat → Nat) : AssemblesMoved f 0 := by
  constructor <;> intros <;> simp only [BlockEditor.block, BlockEditor.statement,
    BlockEditor.compound, BlockEditor.suite, BlockEditor.optionalSuite, BlockEditor.elseChain,
    BlockEditor.handlersOf] <;> trivial

section Step

variable {fuel : Nat} (mono : Monotone f) (ih : AssemblesMoved f fuel)

include ih

/-- A block of moved lines has the same statements, moved alike. -/
theorem block_succ (level : Nat) (r : Remaining) : Mapped (moveTaken f)
    (BlockEditor.block (fuel + 1) level r) (BlockEditor.block (fuel + 1) level (r.move f)) := by
  obtain ⟨lines, stop⟩ := r
  cases lines with
  | nil =>
    simp only [BlockEditor.block, Remaining.move, List.map_nil]
    rfl
  | cons line lines =>
    simp only [Remaining.move, List.map_cons, BlockEditor.block, ParsedLine.move]
    split
    · exact rfl
    · split
      · exact .error _ _
      · refine (ih.statement level ⟨line :: lines, stop⟩).bind fun x => ?_
        refine (ih.block level x.2).bind fun y => ?_
        simp [Mapped, moveTaken]

include mono

theorem statement_succ (level : Nat) (r : Remaining) : Mapped (moveTaken f)
    (BlockEditor.statement (fuel + 1) level r)
    (BlockEditor.statement (fuel + 1) level (r.move f)) := by
  obtain ⟨lines, stop⟩ := r
  cases lines with
  | nil =>
    simp only [BlockEditor.statement, Remaining.move, List.map_nil]
    rfl
  | cons line lines =>
    obtain ⟨indent, span, content⟩ := line
    simp only [Remaining.move, List.map_cons, BlockEditor.statement, ParsedLine.move]
    cases content with
    | simple stmts => exact rfl
    | decorator e =>
      refine (mapped_takeDecorators f level span _ lines).bind fun x => ?_
      refine (ih.statement level ⟨x.2, span.stop⟩).bind fun y => ?_
      simp only [Mapped, moveTaken, List.map_map, ← List.map_cons, moveDecorated]
      congr 1
      refine List.map_congr_left fun s _ => ?_
      exact s.move_decorate mono span (e :: x.1)
    | header head inline =>
      exact (ih.compound level ⟨head, inline, span⟩ ⟨lines, span.stop⟩).bind fun x => rfl

/-- A compound statement is moved along with its first clause and the lines behind it. -/
theorem compound_succ (level : Nat) (clause : TakenClause) (r : Remaining) :
    Mapped (fun x => (x.1.move f, x.2.move f)) (BlockEditor.compound (fuel + 1) level clause r)
      (BlockEditor.compound (fuel + 1) level (clause.move f) (r.move f)) := by
  have body := ih.suite level clause r
  obtain ⟨head, inline, span⟩ := clause
  simp only [BlockEditor.compound, TakenClause.move]
  cases head with
  | ifHead test =>
    refine body.bind fun x => (ih.elseChain level x.2).bind fun y => ?_
    simp [Mapped, moveTaken, Stmt.move, Remaining.spanFrom_move mono]
  | whileHead test =>
    refine body.bind fun x => ?_
    refine (ih.optionalSuite level isElse x.2 (placeless_isElse f)).bind fun y => ?_
    simp [Mapped, moveTaken, Stmt.move, Remaining.spanFrom_move mono]
  | forHead isAsync target iter =>
    refine body.bind fun x => ?_
    refine (ih.optionalSuite level isElse x.2 (placeless_isElse f)).bind fun y => ?_
    simp [Mapped, moveTaken, Stmt.move, Remaining.spanFrom_move mono]
  | defHead | classHead | withHead =>
    refine body.bind fun x => ?_
    simp [Mapped, moveTaken, Stmt.move, Remaining.spanFrom_move mono]
  | tryHead =>
    refine body.bind fun x => (ih.handlersOf level x.2).bind fun y => ?_
    have none_left : (Stmt.moveHandlers f y.1).isEmpty = y.1.isEmpty := by cases y.1 <;> rfl
    -- what follows the `else` part, or its place
    have next (z : List Stmt × Remaining) :
        Mapped (fun x : Stmt × Remaining => (x.1.move f, x.2.move f))
          (BlockEditor.optionalSuite fuel level isFinally z.2 >>= fun last =>
            if y.1.isEmpty && last.1.isEmpty then .error ⟨.malformed .tryWithoutClauses, span⟩
            else .ok (.tryBlock (last.2.spanFrom span) x.1 y.1 z.1 last.1, last.2))
          (BlockEditor.optionalSuite fuel level isFinally (z.2.move f) >>= fun last =>
            if y.1.isEmpty && last.1.isEmpty then
              .error ⟨.malformed .tryWithoutClauses, span.move f⟩
            else .ok (.tryBlock (last.2.spanFrom (span.move f)) (x.1.map (Stmt.move f))
              (Stmt.moveHandlers f y.1) (z.1.map (Stmt.move f)) last.1, last.2)) := by
      refine (ih.optionalSuite level isFinally z.2 (placeless_isFinally f)).bind fun last => ?_
      have same : (moveTaken f last).1.isEmpty = last.1.isEmpty := List.isEmpty_map
      rw [same]
      split
      · exact .error _ _
      · simp [Mapped, moveTaken, Stmt.move, Remaining.spanFrom_move mono]
    dsimp only
    rw [none_left]
    split
    · exact next ([], y.2)
    · exact (ih.optionalSuite level isElse y.2 (placeless_isElse f)).bind next
  | elifHead | elseHead | exceptHead | finallyHead => exact .error _ _

omit mono

theorem suite_succ (level : Nat) (clause : TakenClause) (r : Remaining) :
    Mapped (moveTaken f) (BlockEditor.suite (fuel + 1) level clause r)
      (BlockEditor.suite (fuel + 1) level (clause.move f) (r.move f)) := by
  obtain ⟨head, inline, span⟩ := clause
  obtain ⟨lines, stop⟩ := r
  simp only [BlockEditor.suite, TakenClause.move]
  cases inline with
  | some stmts => exact rfl
  | none =>
    cases lines with
    | nil => exact .error _ _
    | cons first lines =>
      simp only [Option.map_none, Remaining.move, List.map_cons, ParsedLine.move]
      split
      · exact .error _ _
      · refine (ih.block first.indent ⟨first :: lines, stop⟩).bind fun x => ?_
        obtain ⟨body, ⟨_ | ⟨next, others⟩, stop⟩⟩ := x
        · exact rfl
        · simp only [moveTaken, Remaining.move, List.map_cons, ParsedLine.move]
          split
          · exact .error _ _
          · exact rfl

/-- So is a suite that may be missing, if its clause is accepted at any place. -/
theorem optionalSuite_succ (level : Nat) {accept : ClauseHead → Bool} (r : Remaining)
    (placeless : Placeless f accept) :
    Mapped (moveTaken f) (BlockEditor.optionalSuite (fuel + 1) level accept r)
      (BlockEditor.optionalSuite (fuel + 1) level accept (r.move f)) := by
  simp only [BlockEditor.optionalSuite, Remaining.takeClause?_move placeless]
  cases r.takeClause? level accept with
  | none => exact rfl
  | some taken => exact ih.suite level taken.1 taken.2

include mono

theorem elseChain_succ (level : Nat) (r : Remaining) :
    Mapped (moveTaken f) (BlockEditor.elseChain (fuel + 1) level r)
      (BlockEditor.elseChain (fuel + 1) level (r.move f)) := by
  simp only [BlockEditor.elseChain, Remaining.takeClause?_move (placeless_continuesIf f)]
  cases r.takeClause? level continuesIf with
  | none => exact rfl
  | some taken =>
    obtain ⟨⟨head, inline, span⟩, r⟩ := taken
    refine (ih.suite level ⟨head, inline, span⟩ r).bind fun x => ?_
    cases head with
    | elifHead test =>
      refine (ih.elseChain level x.2).bind fun y => ?_
      simp [Mapped, moveTaken, TakenClause.move, Stmt.move, Remaining.spanFrom_move mono]
    | _ => exact rfl

theorem handlersOf_succ (level : Nat) (r : Remaining) :
    Mapped (fun x => (Stmt.moveHandlers f x.1, x.2.move f))
      (BlockEditor.handlersOf (fuel + 1) level r)
      (BlockEditor.handlersOf (fuel + 1) level (r.move f)) := by
  simp only [BlockEditor.handlersOf, Remaining.takeClause?_move (placeless_isExcept f)]
  cases r.takeClause? level isExcept with
  | none => exact rfl
  | some taken =>
    obtain ⟨⟨head, inline, span⟩, r⟩ := taken
    refine (ih.suite level ⟨head, inline, span⟩ r).bind fun x => ?_
    cases head with
    | exceptHead kind name =>
      refine (ih.handlersOf level x.2).bind fun y => ?_
      simp [Mapped, moveTaken, TakenClause.move, Stmt.moveHandlers, Remaining.spanFrom_move mono]
    | _ => exact rfl

end Step

/-- With any fuel, moved lines are assembled alike, by induction on the fuel. -/
theorem all (mono : Monotone f) (fuel : Nat) : AssemblesMoved f fuel := by
  induction fuel with
  | zero => exact zero f
  | succ fuel ih =>
    exact {
      block := ih.block_succ
      statement := ih.statement_succ mono
      compound := ih.compound_succ mono
      suite := ih.suite_succ
      optionalSuite := fun level _ r placeless => ih.optionalSuite_succ level r placeless
      elseChain := ih.elseChain_succ mono
      handlersOf := ih.handlersOf_succ mono }

end AssemblesMoved

end BlockEditor
