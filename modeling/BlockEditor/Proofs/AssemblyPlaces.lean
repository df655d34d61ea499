import BlockEditor.Proofs.LinePlaces
import BlockEditor.Syntax.Parse

/-!
# Places of statements in a program

Assembling lines into statements goes forward in the source: a statement begins where its first line
does, or its first decorator, and ends where the last line ends that was taken for it.
-/

namespace BlockEditor

open Text

variable {source : List Char}

/-! ## Lines that are left -/

/-- The lines that are left stand one behind the other, behind the last one taken. -/
structure Remaining.Ready (source : List Char) (r : Remaining) : Prop where
  laid : Laid ParsedLine.span r.lastStop (byteLength source) r.lines
  placed : ∀ line ∈ r.lines, line.Placed source
  boundary : IsBoundary source r.lastStop

/-- A clause covers some of a source, and what it holds lies there. -/
structure TakenClause.Placed (source : List Char) (clause : TakenClause) : Prop where
  covers : clause.span.Covers source
  head : AllLie source clause.span clause.head.exprs
  inline : ∀ stmts ∈ clause.inline, AllPlaced source clause.span.start clause.span.stop stmts

/-- Behind the next line, the lines that are left are still in order. -/
theorem Remaining.Ready.past {r : Remaining} {line : ParsedLine} {lines : List ParsedLine}
    (h : r.Ready source) (e : r.lines = line :: lines) :
    r.lastStop ≤ line.span.start ∧ line.Placed source ∧ (Remaining.past line lines).Ready source := by
  obtain ⟨laid, placed, -⟩ := h
  rw [e] at laid placed
  obtain ⟨here, others⟩ := List.forall_mem_cons.1 placed
  cases laid with
  | cons start _ rest => exact ⟨start, here, rest, others, here.covers.2.1⟩

/-- The next clause begins behind the last line taken, and is then the last one taken itself. -/
theorem Remaining.Ready.takeClause? {r r' : Remaining} {level : Nat} {accept : ClauseHead → Bool}
    {clause : TakenClause} (h : r.Ready source)
    (taken : r.takeClause? level accept = some (clause, r')) :
    clause.Placed source ∧ r.lastStop ≤ clause.span.start ∧ r'.lastStop = clause.span.stop ∧
      r'.Ready source := by
  unfold Remaining.takeClause? at taken
  split at taken
  · rename_i same
    split at taken
    · cases taken
      obtain ⟨start, here, ready⟩ := h.past same
      exact ⟨⟨here.covers, here.content.1, here.content.2⟩, start, rfl, ready⟩
    · cases taken
  · cases taken

/-- A statement that a clause begins ends where the last line taken does. -/
def CompoundTaken (source : List Char) (clause : TakenClause) (x : Stmt × Remaining) : Prop :=
  x.1.Placed source ∧ x.1.span = ⟨clause.span.start, x.2.lastStop⟩ ∧
    clause.span.stop ≤ x.2.lastStop ∧ x.2.Ready source

/-- A statement from the start of a clause to the end of the last line taken. -/
theorem TakenClause.Placed.compound {clause : TakenClause} {r : Remaining} {stmt : Stmt}
    (placed : clause.Placed source) (ready : r.Ready source)
    (later : clause.span.stop ≤ r.lastStop) (span : stmt.span = r.spanFrom clause.span)
    (exprs : AllLie source clause.span stmt.exprs)
    (handlers : ∀ h ∈ stmt.handlers,
      h.Placed source ∧ h.span.Within ⟨clause.span.start, r.lastStop⟩)
    (inner : AllPlaced source clause.span.start r.lastStop stmt.inner) :
    CompoundTaken source clause (stmt, r) := by
  have whole : stmt.span = ⟨clause.span.start, r.lastStop⟩ := by
    rw [span, Remaining.spanFrom, Nat.max_eq_left later]
  have within : clause.span.Within stmt.span := by
    rw [whole]
    exact ⟨Nat.le_refl _, later⟩
  refine ⟨.intro ?_ (exprs.mono within) ?_ ?_ inner.placed, whole, later, ready⟩
  · rw [whole]
    exact ⟨placed.covers.1, ready.boundary, Nat.lt_of_lt_of_le placed.covers.2.2 later⟩
  · rw [whole]
    exact handlers
  · rw [whole]
    exact inner.laid

/-! ## Decorators -/

/-- Decorators that were taken stand between an offset and the clause that they apply to, the first
of the lines that are left. -/
def DecoratorsTaken (source : List Char) (low : Nat) (x : List Expr × List ParsedLine) : Prop :=
  Laid ParsedLine.span low (byteLength source) x.2 ∧ (∀ line ∈ x.2, line.Placed source) ∧
    ∃ line lines head inline, x.2 = line :: lines ∧ line.content = .header head inline ∧
      AllLie source ⟨low, line.span.start⟩ x.1

/-- Decorators stand in front of the definition that they apply to, or fail at a place in the
source. -/
theorem meets_takeDecorators {start : Span} {low : Nat} {lines : List ParsedLine}
    (inside : start.In source) (level : Nat)
    (laid : Laid ParsedLine.span low (byteLength source) lines)
    (placed : ∀ line ∈ lines, line.Placed source) :
    Meets (ParseFault source) (DecoratorsTaken source low) (takeDecorators level start lines) := by
  induction lines generalizing low with
  | nil => exact ⟨rfl, inside⟩
  | cons line lines ih =>
    obtain ⟨here, others⟩ := List.forall_mem_cons.1 placed
    unfold takeDecorators
    dsimp only
    split
    · split
      · rename_i e content
        have lies : e.Lies source line.span := by
          have holds := here.content
          rwa [content] at holds
        cases laid with
        | cons before _ rest =>
          refine (ih rest others).bind ?_
          rintro ⟨decorators, left⟩ ⟨laid, placed, next, behind, head, inline, rfl, content, all⟩
          have low' : low ≤ line.span.stop := Nat.le_trans before (Nat.le_of_lt here.covers.2.2)
          have after := (laid.within next List.mem_cons_self).1
          refine ⟨laid.mono low' (Nat.le_refl _), placed, next, behind, head, inline, rfl, content, ?_⟩
          exact AllLie.cons (lies.mono ⟨before, after⟩) (all.mono ⟨low', Nat.le_refl _⟩)
      · rename_i head inline content
        split
        · exact ⟨laid, placed, line, lines, head, inline, rfl, content, .nil⟩
        · exact ⟨rfl, inside⟩
      · exact ⟨rfl, inside⟩
    · exact ⟨rfl, inside⟩

/-- Decorators make a definition begin where the first of them does. -/
theorem Stmt.Placed.decorate {stmt : Stmt} {start : Span} {decorators : List Expr}
    (h : stmt.Placed source) (covers : start.Covers source) (before : start.stop ≤ stmt.span.start)
    (all : AllLie source ⟨start.start, stmt.span.stop⟩ decorators) :
    (stmt.decorate start decorators).Placed source ∧
      start.start ≤ (stmt.decorate start decorators).span.start ∧
      (stmt.decorate start decorators).span.stop = stmt.span.stop := by
  have ends : start.stop ≤ stmt.span.stop := Nat.le_trans before (Nat.le_of_lt h.covers.2.2)
  have begins : start.start ≤ stmt.span.start := Nat.le_trans (Nat.le_of_lt covers.2.2) before
  have whole : start.join stmt.span = ⟨start.start, stmt.span.stop⟩ := by
    rw [Span.join, Nat.min_eq_left begins, Nat.max_eq_right ends]
  have within : stmt.span.Within (start.join stmt.span) := (Span.within_join _ _).2
  have joined := covers.join h.covers
  rw [← whole] at all
  cases stmt with
  | functionDef s isAsync name params body _ =>
    cases h with
    | intro here exprs _ laid placed =>
      refine ⟨.intro joined all (List.forall_mem_nil _) (laid.mono within.1 within.2) placed, ?_, ?_⟩
      · exact Nat.le_min.2 ⟨Nat.le_refl _, begins⟩
      · exact Nat.max_eq_right ends
  | classDef s name bases body _ =>
    cases h with
    | intro here exprs _ laid placed =>
      refine ⟨.intro joined ?_ (List.forall_mem_nil _) (laid.mono within.1 within.2) placed, ?_, ?_⟩
      · refine AllLie.append ?_ all
        exact AllLie.mono (fun e member => exprs e (List.mem_append_left _ member)) within
      · exact Nat.le_min.2 ⟨Nat.le_refl _, begins⟩
      · exact Nat.max_eq_right ends
  | _ => exact ⟨h, begins, rfl⟩

/-! ## Blocks -/

/-- Statements that were taken stand between the lines taken before and the last one taken. -/
def StatementsTaken (source : List Char) (r : Remaining) (x : List Stmt × Remaining) : Prop :=
  AllPlaced source r.lastStop x.2.lastStop x.1 ∧ x.2.Ready source

/-- No statements stand anywhere in order. -/
theorem StatementsTaken.nil {r : Remaining} (ready : r.Ready source) :
    StatementsTaken source r ([], r) := ⟨.nil (Nat.le_refl _), ready⟩

/-- The statements of the body of a clause begin no earlier than the clause. -/
def SuiteTaken (source : List Char) (clause : TakenClause) (x : List Stmt × Remaining) : Prop :=
  AllPlaced source clause.span.start x.2.lastStop x.1 ∧ clause.span.stop ≤ x.2.lastStop ∧
    x.2.Ready source

/-- The statements of the next clause stand behind the last line taken. -/
theorem SuiteTaken.statements {clause : TakenClause} {r : Remaining} {x : List Stmt × Remaining}
    (h : SuiteTaken source clause x) (start : r.lastStop ≤ clause.span.start) :
    StatementsTaken source r x := ⟨h.1.mono start (Nat.le_refl _), h.2.2⟩

/-- Handlers that were taken stand one behind the other, and so do the statements in them. -/
def HandlersTaken (source : List Char) (r : Remaining) (x : List (Handler Stmt) × Remaining) : Prop :=
  Laid Handler.span r.lastStop x.2.lastStop x.1 ∧ (∀ h ∈ x.1, h.Placed source) ∧
    AllPlaced source r.lastStop x.2.lastStop (x.1.flatMap Handler.body) ∧ x.2.Ready source

/-- No handlers stand anywhere in order. -/
theorem HandlersTaken.nil {r r' : Remaining} (le : r.lastStop ≤ r'.lastStop)
    (ready : r'.Ready source) : HandlersTaken source r ([], r') :=
  ⟨.nil le, List.forall_mem_nil _, .nil le, ready⟩

/-- A clause that is the next line makes at most one statement, which spans the line. -/
def SpansClause (r : Remaining) (stmts : List Stmt) : Prop :=
  ∀ line lines head inline, r.lines = line :: lines → line.content = .header head inline →
    stmts = [] ∨ ∃ stmt, stmts = [stmt] ∧ line.span.Within stmt.span

/-- Up to some fuel, everything that is assembled from lines of a source is placed in it. -/
structure AssemblesPlaced (source : List Char) (fuel : Nat) : Prop where
  block : ∀ level r, r.Ready source →
    Meets (ParseFault source) (StatementsTaken source r) (block fuel level r)
  statement : ∀ level r, r.Ready source →
    Meets (ParseFault source) (fun x => StatementsTaken source r x ∧ SpansClause r x.1)
      (statement fuel level r)
  compound : ∀ level (clause : TakenClause) r, clause.Placed source → r.Ready source →
    r.lastStop = clause.span.stop →
    Meets (ParseFault source) (CompoundTaken source clause) (compound fuel level clause r)
  suite : ∀ level (clause : TakenClause) r, clause.Placed source → r.Ready source →
    r.lastStop = clause.span.stop →
    Meets (ParseFault source) (SuiteTaken source clause) (suite fuel level clause r)
  optionalSuite : ∀ level accept r, r.Ready source →
    Meets (ParseFault source) (StatementsTaken source r) (optionalSuite fuel level accept r)
  elseChain : ∀ level r, r.Ready source →
    Meets (ParseFault source) (StatementsTaken source r) (elseChain fuel level r)
  handlersOf : ∀ level r, r.Ready source →
    Meets (ParseFault source) (HandlersTaken source r) (handlersOf fuel level r)

namespace AssemblesPlaced

theorem zero : AssemblesPlaced source 0 := by
  constructor
  · intro level r ready
    rw [BlockEditor.block]
    exact .nil ready
  · intro level r ready
    rw [BlockEditor.statement]
    exact ⟨.nil ready, fun _ _ _ _ _ _ => .inl rfl⟩
  · intro level clause r placed _ _
    rw [BlockEditor.compound]
    exact ⟨rfl, placed.covers.within⟩
  · intro level clause r placed _ _
    rw [BlockEditor.suite]
    exact ⟨rfl, placed.covers.within⟩
  · intro level accept r ready
    rw [BlockEditor.optionalSuite]
    exact .nil ready
  · intro level r ready
    rw [BlockEditor.elseChain]
    exact .nil ready
  · intro level r ready
    rw [BlockEditor.handlersOf]
    exact .nil (Nat.le_refl _) ready

section Step

variable {fuel : Nat} (ih : AssemblesPlaced source fuel)

include ih

/-- The statements of a block stand one behind the other. -/
theorem block_succ (level : Nat) {r : Remaining} (ready : r.Ready source) :
    Meets (ParseFault source) (StatementsTaken source r) (BlockEditor.block (fuel + 1) level r) := by
  unfold BlockEditor.block
  split
  · exact .nil ready
  · rename_i line lines same
    split
    · exact .nil ready
    · split
      · exact ⟨rfl, (ready.past same).2.1.covers.within⟩
      · refine (ih.statement level r ready).bind ?_
        rintro ⟨first, r'⟩ ⟨⟨here, ready⟩, -⟩
        refine (ih.block level r' ready).bind ?_
        rintro ⟨more, r''⟩ ⟨there, ready⟩
        exact ⟨here.append there, ready⟩

/-- The statements of a line, or the one that a clause begins, stand behind the last line taken. -/
theorem statement_succ (level : Nat) {r : Remaining} (ready : r.Ready source) :
    Meets (ParseFault source) (fun x => StatementsTaken source r x ∧ SpansClause r x.1)
      (BlockEditor.statement (fuel + 1) level r) := by
  unfold BlockEditor.statement
  split
  · exact ⟨.nil ready, fun _ _ _ _ _ _ => .inl rfl⟩
  · rename_i line lines same
    obtain ⟨before, here, past⟩ := ready.past same
    have other : ∀ {stmts : List Stmt}, (∀ head inline, line.content ≠ .header head inline) →
        SpansClause r stmts := by
      intro stmts different line' lines' head inline same' content
      rw [same] at same'
      cases same'
      exact absurd content (different head inline)
    dsimp only
    split
    · -- simple statements
      rename_i stmts content
      have holds := here.content
      rw [content] at holds
      refine ⟨⟨AllPlaced.mono holds before (Nat.le_refl _), past⟩, other ?_⟩
      intro head inline
      rw [content]
      rintro ⟨⟩
    · -- a decorator: the definition behind it is moved forward to begin here
      rename_i e content
      have lies := here.content
      rw [content] at lies
      refine (meets_takeDecorators here.covers.within level past.laid past.placed).bind ?_
      rintro ⟨decorators, left⟩ ⟨laid, placed, header, behind, head, inline, rfl, clause, all⟩
      refine (ih.statement level ⟨_, line.span.stop⟩ ⟨laid, placed, past.boundary⟩).bind ?_
      rintro ⟨stmts, r'⟩ ⟨⟨taken, ready'⟩, spans⟩
      have after := (laid.within header List.mem_cons_self).1
      have start : r.lastStop ≤ line.span.stop := Nat.le_trans before (Nat.le_of_lt here.covers.2.2)
      refine ⟨⟨?_, ready'⟩, other ?_⟩
      · rcases spans header behind head inline rfl clause with rfl | ⟨stmt, rfl, within⟩
        · exact .nil (Nat.le_trans start taken.laid.le)
        · have inside := taken.laid.within stmt List.mem_cons_self
          have ends : header.span.start ≤ stmt.span.stop := Nat.le_trans
            (Nat.le_of_lt (placed header List.mem_cons_self).covers.2.2) within.2
          have all' : AllLie source ⟨line.span.start, stmt.span.stop⟩ (e :: decorators) :=
            .cons (lies.mono ⟨Nat.le_refl _, Nat.le_trans after ends⟩)
              (all.mono ⟨Nat.le_of_lt here.covers.2.2, ends⟩)
          obtain ⟨decorated, begins, same⟩ :=
            (taken.placed stmt List.mem_cons_self).decorate here.covers inside.1 all'
          refine ⟨.single (Nat.le_trans before begins) ?_ ?_, List.forall_mem_singleton.2 decorated⟩
          · exact Nat.le_of_lt decorated.covers.2.2
          · exact Nat.le_trans (Nat.le_of_eq same) inside.2
      · intro head inline
        rw [content]
        rintro ⟨⟩
    · -- a clause
      rename_i head inline content
      have holds := here.content
      rw [content] at holds
      refine (ih.compound level ⟨head, inline, line.span⟩ _ ⟨here.covers, holds.1, holds.2⟩ past rfl).bind ?_
      rintro ⟨stmt, r'⟩ ⟨placed, span, later, ready'⟩
      refine ⟨⟨⟨.single ?_ ?_ ?_, List.forall_mem_singleton.2 placed⟩, ready'⟩, ?_⟩
      · rw [span]
        exact before
      · exact Nat.le_of_lt placed.covers.2.2
      · exact Nat.le_of_eq (congrArg Span.stop span)
      · intro line' lines' head' inline' same' _
        rw [same] at same'
        cases same'
        refine .inr ⟨stmt, rfl, ?_⟩
        rw [span]
        exact ⟨Nat.le_refl _, later⟩

/-- A compound statement goes from its first clause to the last line of its parts. -/
theorem compound_succ (level : Nat) {clause : TakenClause} {r : Remaining}
    (placed : clause.Placed source) (ready : r.Ready source) (last : r.lastStop = clause.span.stop) :
    Meets (ParseFault source) (CompoundTaken source clause)
      (BlockEditor.compound (fuel + 1) level clause r) := by
  have body := ih.suite level clause r placed ready last
  have head := placed.head
  have refused : ∀ {cause : Cause}, cause.category = .parse →
      Meets (ParseFault source) (CompoundTaken source clause) (.error ⟨cause, clause.span⟩) :=
    fun parse => ⟨parse, placed.covers.within⟩
  unfold BlockEditor.compound
  split
  · rename_i test e
    rw [e] at head
    refine body.bind ?_
    rintro ⟨body, r⟩ ⟨inside, later, ready⟩
    refine (ih.elseChain level r ready).bind ?_
    rintro ⟨orelse, r'⟩ ⟨taken, ready⟩
    exact placed.compound ready (Nat.le_trans later taken.laid.le) rfl head (List.forall_mem_nil _)
      (inside.append taken)
  · rename_i test e
    rw [e] at head
    refine body.bind ?_
    rintro ⟨body, r⟩ ⟨inside, later, ready⟩
    refine (ih.optionalSuite level isElse r ready).bind ?_
    rintro ⟨orelse, r'⟩ ⟨taken, ready⟩
    exact placed.compound ready (Nat.le_trans later taken.laid.le) rfl head (List.forall_mem_nil _)
      (inside.append taken)
  · rename_i isAsync target iter e
    rw [e] at head
    refine body.bind ?_
    rintro ⟨body, r⟩ ⟨inside, later, ready⟩
    refine (ih.optionalSuite level isElse r ready).bind ?_
    rintro ⟨orelse, r'⟩ ⟨taken, ready⟩
    exact placed.compound ready (Nat.le_trans later taken.laid.le) rfl head (List.forall_mem_nil _)
      (inside.append taken)
  · refine body.bind ?_
    rintro ⟨body, r⟩ ⟨inside, later, ready⟩
    exact placed.compound ready later rfl AllLie.nil (List.forall_mem_nil _) inside
  · rename_i name bases e
    rw [e] at head
    refine body.bind ?_
    rintro ⟨body, r⟩ ⟨inside, later, ready⟩
    exact placed.compound ready later rfl (head.append .nil) (List.forall_mem_nil _) inside
  · rename_i isAsync items e
    rw [e] at head
    refine body.bind ?_
    rintro ⟨body, r⟩ ⟨inside, later, ready⟩
    exact placed.compound ready later rfl head (List.forall_mem_nil _) inside
  · refine body.bind ?_
    rintro ⟨body, r⟩ ⟨inside, later, ready⟩
    refine (ih.handlersOf level r ready).bind ?_
    rintro ⟨handlers, r'⟩ ⟨handled, caught, within, ready'⟩
    have later' := Nat.le_trans later handled.le
    -- what follows the handlers, whether there is an `else` part or not
    have next : ∀ orelse, StatementsTaken source r' orelse →
        Meets (ParseFault source) (CompoundTaken source clause) (do
          let last ← BlockEditor.optionalSuite fuel level isFinally orelse.2
          if handlers.isEmpty && last.1.isEmpty then
            .error ⟨.malformed .tryWithoutClauses, clause.span⟩
          else .ok (.tryBlock (last.2.spanFrom clause.span) body handlers orelse.1 last.1, last.2)) := by
      rintro ⟨orelse, r''⟩ ⟨otherwise, ready''⟩
      refine (ih.optionalSuite level isFinally r'' ready'').bind ?_
      rintro ⟨finalbody, r⟩ ⟨ending, ready⟩
      dsimp only
      split
      · exact refused rfl
      · have behind := Nat.le_trans otherwise.laid.le ending.laid.le
        refine placed.compound ready (Nat.le_trans later' behind) rfl AllLie.nil ?_
          (inside.append (within.append (otherwise.append ending)))
        intro h member
        have between := handled.within h member
        refine ⟨caught h member, Nat.le_trans ?_ between.1, Nat.le_trans between.2 behind⟩
        exact Nat.le_trans (Nat.le_of_lt placed.covers.2.2) later
    dsimp only
    split
    · exact next _ (.nil ready')
    · exact (ih.optionalSuite level isElse r' ready').bind next
  · exact refused rfl
  · exact refused rfl
  · exact refused rfl
  · exact refused rfl

/-- The body of a clause stands in the clause or behind it. -/
theorem suite_succ (level : Nat) {clause : TakenClause} {r : Remaining}
    (placed : clause.Placed source) (ready : r.Ready source) (last : r.lastStop = clause.span.stop) :
    Meets (ParseFault source) (SuiteTaken source clause)
      (BlockEditor.suite (fuel + 1) level clause r) := by
  unfold BlockEditor.suite
  split
  · rename_i stmts inline
    have inside := placed.inline stmts inline
    exact ⟨inside.mono (Nat.le_refl _) (Nat.le_of_eq last.symm), Nat.le_of_eq last.symm, ready⟩
  · dsimp only
    split
    · exact ⟨rfl, placed.covers.within⟩
    · split
      · exact ⟨rfl, placed.covers.within⟩
      · refine (ih.block _ r ready).bind ?_
        rintro ⟨body, r'⟩ ⟨taken, ready⟩
        have later : clause.span.stop ≤ r'.lastStop := last ▸ taken.laid.le
        have lower : clause.span.start ≤ r.lastStop := last ▸ Nat.le_of_lt placed.covers.2.2
        have whole : SuiteTaken source clause (body, r') :=
          ⟨taken.mono lower (Nat.le_refl _), later, ready⟩
        dsimp only
        split
        · rename_i next _ same
          split
          · exact ⟨rfl, (ready.past same).2.1.covers.within⟩
          · exact whole
        · exact whole

/-- The body of an optional clause stands behind the last line taken. -/
theorem optionalSuite_succ (level : Nat) (accept : ClauseHead → Bool) {r : Remaining}
    (ready : r.Ready source) : Meets (ParseFault source) (StatementsTaken source r)
      (BlockEditor.optionalSuite (fuel + 1) level accept r) := by
  unfold BlockEditor.optionalSuite
  split
  · exact .nil ready
  · rename_i clause r' taken
    obtain ⟨placed, start, last, ready⟩ := ready.takeClause? taken
    exact (ih.suite level clause r' placed ready last).mono fun x whole => whole.statements start

/-- The parts of a chain of `elif` and `else` clauses stand one behind the other. -/
theorem elseChain_succ (level : Nat) {r : Remaining} (ready : r.Ready source) :
    Meets (ParseFault source) (StatementsTaken source r)
      (BlockEditor.elseChain (fuel + 1) level r) := by
  unfold BlockEditor.elseChain
  split
  · exact .nil ready
  · rename_i clause r' taken
    obtain ⟨placed, start, last, ready⟩ := ready.takeClause? taken
    refine (ih.suite level clause r' placed ready last).bind ?_
    rintro ⟨body, r''⟩ whole
    dsimp only
    split
    · -- a further test is a branch of its own, with the rest of the chain in it
      rename_i test e
      have head := placed.head
      rw [e] at head
      obtain ⟨inside, later, ready⟩ := whole
      refine (ih.elseChain level r'' ready).bind ?_
      rintro ⟨orelse, r⟩ ⟨behind, ready⟩
      have made : CompoundTaken source clause
          (.branch (r.spanFrom clause.span) test body orelse, r) :=
        placed.compound ready (Nat.le_trans later behind.laid.le) rfl head
          (List.forall_mem_nil _) (inside.append behind)
      obtain ⟨stmt, span, -⟩ := made
      exact ⟨⟨.single start (Nat.le_of_lt stmt.covers.2.2) (Nat.le_of_eq (congrArg Span.stop span)),
        List.forall_mem_singleton.2 stmt⟩, ready⟩
    · exact whole.statements start

/-- The handlers of a `try` stand one behind the other. -/
theorem handlersOf_succ (level : Nat) {r : Remaining} (ready : r.Ready source) :
    Meets (ParseFault source) (HandlersTaken source r)
      (BlockEditor.handlersOf (fuel + 1) level r) := by
  unfold BlockEditor.handlersOf
  split
  · exact .nil (Nat.le_refl _) ready
  · rename_i clause r' taken
    obtain ⟨placed, start, last, ready⟩ := ready.takeClause? taken
    refine (ih.suite level clause r' placed ready last).bind ?_
    rintro ⟨body, r''⟩ ⟨inside, later, ready⟩
    dsimp only
    split
    · rename_i kind name e
      have head := placed.head
      rw [e] at head
      have span : r''.spanFrom clause.span = ⟨clause.span.start, r''.lastStop⟩ := by
        rw [Remaining.spanFrom, Nat.max_eq_left later]
      have handler : Handler.Placed source ⟨r''.spanFrom clause.span, kind, name, body⟩ := by
        rw [span]
        refine ⟨⟨placed.covers.1, ready.boundary, ?_⟩, head.mono ⟨Nat.le_refl _, later⟩, inside.laid⟩
        exact Nat.lt_of_lt_of_le placed.covers.2.2 later
      refine (ih.handlersOf level r'' ready).bind ?_
      rintro ⟨handlers, r⟩ ⟨laid, all, within, ready⟩
      refine ⟨?_, List.forall_mem_cons.2 ⟨handler, all⟩, ?_, ready⟩
      · rw [span]
        exact .cons start (Nat.le_trans (Nat.le_of_lt placed.covers.2.2) later) laid
      · exact (inside.mono start (Nat.le_refl _)).append within
    · exact .nil (Nat.le_trans start (Nat.le_trans (Nat.le_of_lt placed.covers.2.2) later)) ready

end Step

/-- Everything is placed with any fuel, by induction on the fuel. -/
theorem all (source : List Char) (fuel : Nat) : AssemblesPlaced source fuel := by
  induction fuel with
  | zero => exact zero
  | succ fuel ih =>
    exact {
      block := fun level _ ready => ih.block_succ level ready
      statement := fun level _ ready => ih.statement_succ level ready
      compound := fun level _ _ placed ready last => ih.compound_succ level placed ready last
      suite := fun level _ _ placed ready last => ih.suite_succ level placed ready last
      optionalSuite := fun level accept _ ready => ih.optionalSuite_succ level accept ready
      elseChain := fun level _ ready => ih.elseChain_succ level ready
      handlersOf := fun level _ ready => ih.handlersOf_succ level ready }

end AssemblesPlaced

/-! ## Programs -/

/-- The statements of a program are placed in its source. -/
def Module.Placed (source : List Char) (m : Module) : Prop :=
  AllPlaced source 0 (byteLength source) m.body

/-- Lines that stand in order are assembled into placed statements. -/
theorem meets_assemble {lines : List ParsedLine}
    (laid : Laid ParsedLine.span 0 (byteLength source) lines)
    (placed : ∀ line ∈ lines, line.Placed source) :
    Meets (ParseFault source) (AllPlaced source 0 (byteLength source)) (assemble lines) := by
  have ready : Remaining.Ready source ⟨lines, 0⟩ := ⟨laid, placed, isBoundary_zero source⟩
  refine ((AssemblesPlaced.all source _).block 0 ⟨lines, 0⟩ ready).bind ?_
  rintro ⟨stmts, r⟩ ⟨taken, left⟩
  exact taken.mono (Nat.le_refl 0) left.boundary.le

/-- Parsing a source gives a program that is placed in it, or fails at a place in it. -/
theorem placed_parseText (source : List Char) :
    Meets (ParseFault source) (Module.Placed source) (parseText source) := by
  unfold parseText
  split
  · exact AllPlaced.nil (Nat.zero_le _)
  · refine (meets_logicalLines source).bind fun lines gathers => ?_
    have laid : Laid LogicalLine.span 0 (byteLength source) lines := by
      have among := gathers.laid
      rwa [Lexeme.textOf_split, Nat.zero_add] at among
    have read := Meets.mapM fun line member => placed_parseLine (gathers.stands line member)
    refine read.bind fun parsed each => ?_
    have laidParsed : Laid ParsedLine.span 0 (byteLength source) parsed :=
      laid.forall₂ (each.imp fun _ _ h => h.2)
    refine (meets_assemble laidParsed ?_).bind fun body placed => placed
    exact forall_of_forall₂ each fun _ _ h => h.1

end BlockEditor
