import BlockEditor.Syntax.Line

/-!
# Block assembly

Nests clause heads and the lines indented below them into statements.  A block takes the lines at
its own indentation; a deeper line belongs to a suite, and a shallower one ends the block.
-/

namespace BlockEditor

/-! ## Reading position -/

/-- What is left of the lines, and the end of the last line taken. -/
structure Remaining where
  lines : List ParsedLine
  lastStop : Nat

/-- The lines behind the first one. -/
def Remaining.past (line : ParsedLine) (lines : List ParsedLine) : Remaining :=
  ⟨lines, line.span.stop⟩

/-- The span from the start of a header to the end of the last line taken. -/
def Remaining.spanFrom (r : Remaining) (header : Span) : Span :=
  ⟨header.start, max r.lastStop header.stop⟩

/-- A clause that was taken: its head, the statements behind its colon, and its span. -/
structure TakenClause where
  head : ClauseHead
  inline : Option (List Stmt)
  span : Span

/-- The next line, if it is a clause at `level` whose head `accept` admits. -/
def Remaining.takeClause? (r : Remaining) (level : Nat) (accept : ClauseHead → Bool) :
    Option (TakenClause × Remaining) :=
  match r.lines with
  | ⟨indent, span, .header head inline⟩ :: lines =>
    if indent = level ∧ accept head then some (⟨head, inline, span⟩, ⟨lines, span.stop⟩) else none
  | _ => none

/-- Whether a clause continues an `if`. -/
def continuesIf : ClauseHead → Bool
  | .elifHead _ | .elseHead => true
  | _ => false

/-- Whether a clause is an `else`. -/
def isElse : ClauseHead → Bool
  | .elseHead => true
  | _ => false

/-- Whether a clause is an `except`. -/
def isExcept : ClauseHead → Bool
  | .exceptHead .. => true
  | _ => false

/-- Whether a clause is a `finally`. -/
def isFinally : ClauseHead → Bool
  | .finallyHead => true
  | _ => false

/-- Whether decorators may stand before a clause. -/
def isDecoratable : ClauseHead → Bool
  | .defHead .. | .classHead .. => true
  | _ => false

/-! ## Decorators -/

/-- The decorators at the start of the lines, up to the clause at `level` that they apply to. -/
def takeDecorators (level : Nat) (start : Span) :
    List ParsedLine → Except Fault (List Expr × List ParsedLine)
  | [] => .error ⟨.malformed .decorator, start⟩
  | line :: lines =>
    let misplaced := .error ⟨.malformed .decorator, start⟩
    if line.indent = level then
      match line.content with
      | .decorator e => do
        let (decorators, rest) ← takeDecorators level start lines
        .ok (e :: decorators, rest)
      | .header head _ => if isDecoratable head then .ok ([], line :: lines) else misplaced
      | .simple _ => misplaced
    else misplaced

/-- Gives a definition its decorators, the first of which starts at `start`. -/
def Stmt.decorate (start : Span) (decorators : List Expr) : Stmt → Stmt
  | .functionDef s isAsync name params body _ =>
    .functionDef (start.join s) isAsync name params body decorators
  | .classDef s name bases body _ => .classDef (start.join s) name bases body decorators
  | stmt => stmt

/-! ## Blocks -/

mutual

/-- The statements at exactly `level`, up to the first line that is indented less. -/
def block : Nat → Nat → Remaining → Except Fault (List Stmt × Remaining)
  | 0, _, r => .ok ([], r)
  | fuel + 1, level, r =>
    match r.lines with
    | [] => .ok ([], r)
    | line :: _ =>
      if line.indent < level then .ok ([], r)
      else if level < line.indent then .error ⟨.unexpectedIndent, line.span⟩
      else do
        let (stmts, r) ← statement fuel level r
        let (more, r) ← block fuel level r
        .ok (stmts ++ more, r)

/-- The statements of the next line, with the lines that belong to it. -/
def statement : Nat → Nat → Remaining → Except Fault (List Stmt × Remaining)
  | 0, _, r => .ok ([], r)
  | fuel + 1, level, r =>
    match r.lines with
    | [] => .ok ([], r)
    | line :: lines =>
      let past := Remaining.past line lines
      match line.content with
      | .simple stmts => .ok (stmts, past)
      | .decorator e => do
        let (decorators, rest) ← takeDecorators level line.span lines
        let (stmts, r) ← statement fuel level ⟨rest, line.span.stop⟩
        .ok (stmts.map (Stmt.decorate line.span (e :: decorators)), r)
      | .header head inline => do
        let (stmt, r) ← compound fuel level ⟨head, inline, line.span⟩ past
        .ok ([stmt], r)

/-- The statement that a clause begins. -/
def compound : Nat → Nat → TakenClause → Remaining → Except Fault (Stmt × Remaining)
  | 0, _, clause, _ => .error ⟨.malformed .statement, clause.span⟩
  | fuel + 1, level, clause, r =>
    match clause.head with
    | .ifHead test => do
      let (body, r) ← suite fuel level clause r
      let (orelse, r) ← elseChain fuel level r
      .ok (.branch (r.spanFrom clause.span) test body orelse, r)
    | .whileHead test => do
      let (body, r) ← suite fuel level clause r
      let (orelse, r) ← optionalSuite fuel level isElse r
      .ok (.whileLoop (r.spanFrom clause.span) test body orelse, r)
    | .forHead isAsync target iter => do
      let (body, r) ← suite fuel level clause r
      let (orelse, r) ← optionalSuite fuel level isElse r
      .ok (.forLoop (r.spanFrom clause.span) isAsync target iter body orelse, r)
    | .defHead isAsync name params => do
      let (body, r) ← suite fuel level clause r
      .ok (.functionDef (r.spanFrom clause.span) isAsync name params body [], r)
    | .classHead name bases => do
      let (body, r) ← suite fuel level clause r
      .ok (.classDef (r.spanFrom clause.span) name bases body [], r)
    | .withHead isAsync items => do
      let (body, r) ← suite fuel level clause r
      .ok (.withBlock (r.spanFrom clause.span) isAsync items body, r)
    | .tryHead => do
      let (body, r) ← suite fuel level clause r
      let (handlers, r) ← handlersOf fuel level r
      let (orelse, r) ←
        if handlers.isEmpty then .ok ([], r) else optionalSuite fuel level isElse r
      let (finalbody, r) ← optionalSuite fuel level isFinally r
      if handlers.isEmpty && finalbody.isEmpty then
        .error ⟨.malformed .tryWithoutClauses, clause.span⟩
      else .ok (.tryBlock (r.spanFrom clause.span) body handlers orelse finalbody, r)
    | .elifHead _ | .elseHead => .error ⟨.danglingClause clause.head.keyword "if", clause.span⟩
    | .exceptHead .. | .finallyHead =>
      .error ⟨.danglingClause clause.head.keyword "try", clause.span⟩

/-- The body of a clause: the statements behind its colon, or the block below it. -/
def suite : Nat → Nat → TakenClause → Remaining → Except Fault (List Stmt × Remaining)
  | 0, _, clause, _ => .error ⟨.malformed .statement, clause.span⟩
  | fuel + 1, level, clause, r =>
    match clause.inline with
    | some stmts => .ok (stmts, r)
    | none =>
      let missing := .error ⟨.expectedBlock clause.head.keyword, clause.span⟩
      match r.lines with
      | [] => missing
      | first :: _ =>
        if first.indent ≤ level then missing
        else do
          let (body, r) ← block fuel first.indent r
          match r.lines with
          | next :: _ =>
            if level < next.indent then .error ⟨.inconsistentDedent, next.span⟩ else .ok (body, r)
          | [] => .ok (body, r)

/-- The body of the next clause, if `accept` admits it. -/
def optionalSuite : Nat → Nat → (ClauseHead → Bool) → Remaining →
    Except Fault (List Stmt × Remaining)
  | 0, _, _, r => .ok ([], r)
  | fuel + 1, level, accept, r =>
    match r.takeClause? level accept with
    | none => .ok ([], r)
    | some (clause, r) => suite fuel level clause r

/-- The `elif` and `else` clauses behind an `if`. -/
def elseChain : Nat → Nat → Remaining → Except Fault (List Stmt × Remaining)
  | 0, _, r => .ok ([], r)
  | fuel + 1, level, r =>
    match r.takeClause? level continuesIf with
    | none => .ok ([], r)
    | some (clause, r) => do
      let (body, r) ← suite fuel level clause r
      match clause.head with
      | .elifHead test => do
        let (orelse, r) ← elseChain fuel level r
        .ok ([.branch (r.spanFrom clause.span) test body orelse], r)
      | _ => .ok (body, r)

/-- The `except` clauses behind a `try`. -/
def handlersOf : Nat → Nat → Remaining → Except Fault (List (Handler Stmt) × Remaining)
  | 0, _, r => .ok ([], r)
  | fuel + 1, level, r =>
    match r.takeClause? level isExcept with
    | none => .ok ([], r)
    | some (clause, r) => do
      let (body, r) ← suite fuel level clause r
      match clause.head with
      | .exceptHead kind name => do
        let handler : Handler Stmt := ⟨r.spanFrom clause.span, kind, name, body⟩
        let (handlers, r) ← handlersOf fuel level r
        .ok (handler :: handlers, r)
      | _ => .ok ([], r)

end

/-- Steps that assembling takes per line at most. -/
def assemblySteps : Nat := 8

/-- The program of parsed lines. -/
def assemble (lines : List ParsedLine) : Except Fault (List Stmt) := do
  let (stmts, _) ← block (assemblySteps * (lines.length + 1)) 0 ⟨lines, 0⟩
  .ok stmts

end BlockEditor
