import BlockEditor.Proofs.AppendedBlocks
import BlockEditor.Proofs.Indentation
import BlockEditor.Proofs.Names

/-!
# Assembled blocks

Whatever is assembled from lines is laid out in them: no line is lost, and none is taken twice or
out of order.  With the fuel that a program is given, all of its lines are taken.
-/

namespace BlockEditor

/-! ## Lines that are taken -/

/-- What is assembled from the lines that are left is laid out in those that it takes. -/
def Remaining.Takes {α : Type} (r : Remaining) (P : List ParsedLine → α → Prop)
    (x : Except Fault (α × Remaining)) : Prop :=
  Yields (fun y => ∃ taken, r.lines = taken ++ y.2.lines ∧ P taken y.1) x

/-- The lines that are left are filled. -/
def Remaining.Filled (r : Remaining) : Prop := ∀ line ∈ r.lines, line.content.Filled

namespace Remaining

variable {α : Type} {r : Remaining} {P : List ParsedLine → α → Prop}

/-- Lines that are left behind others are filled, and fewer. -/
theorem Filled.behind {r' : Remaining} {taken : List ParsedLine} (filled : r.Filled)
    (whole : r.lines = taken ++ r'.lines) :
    r'.Filled ∧ r.lines.length = taken.length + r'.lines.length := by
  refine ⟨fun line member => filled line ?_, by rw [whole, List.length_append]⟩
  rw [whole]
  exact List.mem_append_right _ member

namespace Takes

/-- What takes no lines is laid out in none. -/
theorem none {a : α} (here : P [] a) : r.Takes P (.ok (a, r)) := .ok ⟨[], rfl, here⟩

theorem error (fault : Fault) : r.Takes P (.error fault) := Yields.error fault

end Takes

end Remaining

/-- The line of a clause. -/
def TakenClause.line (level : Nat) (clause : TakenClause) : ParsedLine :=
  ⟨level, clause.span, .header clause.head clause.inline⟩

/-- A clause that is taken is the next line, at the level. -/
theorem Remaining.takeClause?_eq_some {r r' : Remaining} {level : Nat} {accept : ClauseHead → Bool}
    {clause : TakenClause} (taken : r.takeClause? level accept = some (clause, r')) :
    accept clause.head = true ∧ r.lines = clause.line level :: r'.lines := by
  unfold takeClause? at taken
  split at taken
  · rename_i indent span head inline lines whole
    split at taken
    · rename_i accepted
      cases taken
      rw [← accepted.1]
      exact ⟨accepted.2, whole⟩
    · cases taken
  · cases taken

/-- The lines of a clause begin with its header. -/
theorem ClauseLaid.exists_cons {level : Nat} {head : ClauseHead} {lines : List ParsedLine}
    {body : List Stmt} (h : ClauseLaid level head lines body) :
    ∃ span inline behind, lines = ⟨level, span, .header head inline⟩ :: behind := by
  cases h <;> exact ⟨_, _, _, rfl⟩

/-- A block of some lines has statements. -/
theorem BlockLaid.ne_nil {level : Nat} {lines : List ParsedLine} {stmts : List Stmt}
    (h : BlockLaid level lines stmts) (some : lines ≠ []) : stmts ≠ [] := by
  cases h with
  | nil => exact absurd rfl some
  | simple onLine => exact List.append_ne_nil_of_left_ne_nil onLine.ne_nil _
  | compound => exact List.cons_ne_nil _ _

/-! ## Decorators -/

/-- Decorators are taken line by line, up to a line that they can stand in front of. -/
theorem takeDecorators_laid (level : Nat) (start : Span) (lines : List ParsedLine) :
    Yields (fun x => ∃ front head span inline behind, lines = front ++ x.2 ∧
      DecoratorsLaid level front x.1 ∧ x.2 = ⟨level, span, .header head inline⟩ :: behind ∧
      isDecoratable head = true) (takeDecorators level start lines) := by
  induction lines with
  | nil => exact .error _
  | cons line lines ih =>
    obtain ⟨indent, span, content⟩ := line
    unfold takeDecorators
    dsimp only
    split
    · rename_i same
      obtain rfl : indent = level := same
      split
      · refine ih.bind ?_
        rintro ⟨decorators, rest⟩ ⟨front, head, span', inline, behind, rfl, laid, whole, decoratable⟩
        exact .ok ⟨_ :: front, head, span', inline, behind, rfl, .cons ⟨rfl, rfl⟩ laid, whole,
          decoratable⟩
      · rename_i head inline
        split
        · rename_i decoratable
          exact .ok ⟨[], head, span, inline, lines, rfl, .nil, rfl, decoratable⟩
        · exact .error _
      · exact .error _
    · exact .error _

/-- A definition is laid out with the decorators in front of it. -/
theorem CompoundLaid.decorate {level : Nat} {span : Span} {head : ClauseHead}
    {inline : Option (List Stmt)} {behind front : List ParsedLine} {stmt : Stmt}
    {decorators : List Expr}
    (h : CompoundLaid level (⟨level, span, .header head inline⟩ :: behind) stmt)
    (decoratable : isDecoratable head = true) (laid : DecoratorsLaid level front decorators)
    (start : Span) :
    CompoundLaid level (front ++ ⟨level, span, .header head inline⟩ :: behind)
      (stmt.decorate start decorators) := by
  generalize whole : (⟨level, span, .header head inline⟩ : ParsedLine) :: behind = lines at h ⊢
  -- the first line of a clause shows its head
  have first : ∀ {other : ClauseHead} {clause others : List ParsedLine} {body : List Stmt},
      ClauseLaid level other clause body →
      ⟨level, span, .header head inline⟩ :: behind = clause ++ others → head = other := by
    intro other clause others body laid whole
    obtain ⟨_, _, _, rfl⟩ := laid.exists_cons
    cases whole
    rfl
  -- a line with a clause is no decorator
  have bare : ∀ {others : List ParsedLine} {es : List Expr} {clause : List ParsedLine},
      DecoratorsLaid level others es →
      ⟨level, span, .header head inline⟩ :: behind = others ++ clause → others = [] ∧ es = [] := by
    rintro others es clause (_ | ⟨here, _⟩) whole
    · exact ⟨rfl, rfl⟩
    · cases whole
      cases here.2
  cases h with
  | branch clause => rw [first clause whole] at decoratable; cases decoratable
  | whileLoop clause => rw [first clause whole] at decoratable; cases decoratable
  | forLoop clause => rw [first clause whole] at decoratable; cases decoratable
  | functionDef none clause =>
    obtain ⟨rfl, rfl⟩ := bare none whole
    exact .functionDef laid clause
  | classDef none clause =>
    obtain ⟨rfl, rfl⟩ := bare none whole
    exact .classDef laid clause
  | withBlock clause =>
    rw [← List.append_nil lines] at whole
    rw [first clause whole] at decoratable
    cases decoratable
  | tryBlock clause => rw [first clause whole] at decoratable; cases decoratable

/-! ## Assembly -/

/-- The statements in a clause are simple. -/
def TakenClause.Filled (clause : TakenClause) : Prop := ∀ stmts ∈ clause.inline, OnLine stmts

/-- What a clause holds is simple, and the lines behind it are filled. -/
theorem Remaining.Filled.takeClause? {r r' : Remaining} {level : Nat} {accept : ClauseHead → Bool}
    {clause : TakenClause} (h : r.Filled) (taken : r.takeClause? level accept = some (clause, r')) :
    clause.Filled ∧ r'.Filled := by
  obtain ⟨-, whole⟩ := takeClause?_eq_some taken
  refine ⟨?_, (h.behind (show r.lines = [clause.line level] ++ r'.lines from whole)).1⟩
  exact h (clause.line level) (by rw [whole]; exact List.mem_cons_self)

/-- What a line and those that belong to it are laid out as. -/
def StatementLaid (line : ParsedLine) (taken : List ParsedLine) (stmts : List Stmt) : Prop :=
  match line.content with
  | .simple body => taken = [line] ∧ stmts = body
  | _ => ∃ behind stmt, taken = line :: behind ∧ stmts = [stmt] ∧ CompoundLaid line.indent taken stmt

/-- A statement takes a line at least. -/
theorem StatementLaid.length_pos {line : ParsedLine} {taken : List ParsedLine} {stmts : List Stmt}
    (h : StatementLaid line taken stmts) : 0 < taken.length := by
  unfold StatementLaid at h
  split at h
  · rw [h.1]
    exact Nat.one_pos
  · obtain ⟨behind, stmt, rfl, -⟩ := h
    exact Nat.succ_pos _

/-- The lines of a statement and a block behind them are a block. -/
theorem StatementLaid.block {line : ParsedLine} {taken lines : List ParsedLine}
    {stmts others : List Stmt} (h : StatementLaid line taken stmts) (filled : line.content.Filled)
    (rest : BlockLaid line.indent lines others) :
    BlockLaid line.indent (taken ++ lines) (stmts ++ others) := by
  obtain ⟨indent, span, content⟩ := line
  cases content with
  | simple body =>
    obtain ⟨rfl, rfl⟩ := h
    exact .simple filled rest
  | decorator e | header head inline =>
    obtain ⟨behind, stmt, rfl, rfl, compound⟩ := h
    exact .compound compound rest

/-- Only the header `else` is accepted as one. -/
theorem only_isElse : ∀ head, isElse head = true → head = .elseHead := by
  rintro (_ | _) accepted <;> first | rfl | cases accepted

/-- Only the header `finally` is accepted as one. -/
theorem only_isFinally : ∀ head, isFinally head = true → head = .finallyHead := by
  rintro (_ | _) accepted <;> first | rfl | cases accepted

/-- With fuel that is enough for the lines that are left, everything is laid out as it is assembled,
and a block ends in front of a line further left. -/
structure AssemblesLaid (fuel : Nat) : Prop where
  block : ∀ level (r : Remaining), r.Filled → 4 * r.lines.length + 1 ≤ fuel →
    r.Takes (BlockLaid level) (block fuel level r) ∧
      Yields (fun y => ∀ line ∈ y.2.lines.head?, line.indent < level) (block fuel level r)
  statement : ∀ line lines stop, Remaining.Filled ⟨line :: lines, stop⟩ →
    4 * lines.length + 4 ≤ fuel →
    Remaining.Takes ⟨line :: lines, stop⟩ (StatementLaid line)
      (statement fuel line.indent ⟨line :: lines, stop⟩)
  compound : ∀ level (clause : TakenClause) (r : Remaining), clause.Filled → r.Filled →
    4 * r.lines.length + 3 ≤ fuel →
    r.Takes (fun taken stmt => CompoundLaid level (clause.line level :: taken) stmt)
      (compound fuel level clause r)
  suite : ∀ level (clause : TakenClause) (r : Remaining), clause.Filled → r.Filled →
    4 * r.lines.length + 2 ≤ fuel →
    r.Takes (fun taken body => ClauseLaid level clause.head (clause.line level :: taken) body)
      (suite fuel level clause r)
  optionalSuite : ∀ level (accept : ClauseHead → Bool) head (r : Remaining), (∀ other, accept other = true → other = head) →
    r.Filled → 4 * r.lines.length + 2 ≤ fuel →
    r.Takes (OptionalLaid level head) (optionalSuite fuel level accept r)
  elseChain : ∀ level (r : Remaining), r.Filled → 4 * r.lines.length + 2 ≤ fuel →
    r.Takes (ElseLaid level) (elseChain fuel level r)
  handlersOf : ∀ level (r : Remaining), r.Filled → 4 * r.lines.length + 2 ≤ fuel →
    r.Takes (HandlersLaid level) (handlersOf fuel level r)

namespace AssemblesLaid

/-- No fuel is enough for none of them. -/
theorem zero : AssemblesLaid 0 := by
  constructor <;> intros <;> omega

section Step

variable {fuel : Nat} (ih : AssemblesLaid fuel)

include ih

/-- A statement is laid out if what is assembled with less fuel is. -/
theorem statement_succ (line : ParsedLine) (lines : List ParsedLine) (stop : Nat)
    (filled : Remaining.Filled ⟨line :: lines, stop⟩) (enough : 4 * lines.length + 4 ≤ fuel + 1) :
    Remaining.Takes ⟨line :: lines, stop⟩ (StatementLaid line)
      (BlockEditor.statement (fuel + 1) line.indent ⟨line :: lines, stop⟩) := by
  obtain ⟨indent, span, content⟩ := line
  have past : Remaining.Filled ⟨lines, span.stop⟩ :=
    fun line member => filled line (List.mem_cons_of_mem _ member)
  have here := filled _ List.mem_cons_self
  simp only [BlockEditor.statement]
  cases content with
  | simple stmts => exact Yields.ok ⟨[_], rfl, rfl, rfl⟩
  | decorator e =>
    refine Yields.bind (takeDecorators_laid indent span lines) ?_
    rintro ⟨decorators, rest⟩ ⟨front, head, span', inline, behind, whole, laid, same, decoratable⟩
    dsimp only at whole same
    subst whole same
    have rest : Remaining.Filled ⟨⟨indent, span', .header head inline⟩ :: behind, span.stop⟩ :=
      fun line member => past line (List.mem_append_right _ member)
    simp only [List.length_append, List.length_cons] at enough
    refine Yields.bind (ih.statement _ behind span.stop rest (by omega)) ?_
    rintro ⟨stmts, r⟩ ⟨taken, left, more, stmt, rfl, rfl, compound⟩
    have all : DecoratorsLaid indent (⟨indent, span, .decorator e⟩ :: front) (e :: decorators) :=
      .cons ⟨rfl, rfl⟩ laid
    refine .ok ⟨_, ?_, _, _, rfl, rfl, compound.decorate decoratable all span⟩
    dsimp only at left
    simp [left]
  | header head inline =>
    have enough : 4 * lines.length + 3 ≤ fuel := by omega
    refine Yields.bind (ih.compound indent ⟨head, inline, span⟩ ⟨lines, span.stop⟩ here past enough) ?_
    rintro ⟨stmt, r⟩ ⟨taken, rest, laid⟩
    exact .ok ⟨_ :: taken, congrArg (_ :: ·) rest, taken, stmt, rfl, rfl, laid⟩

/-- A compound statement is laid out behind the line of its first clause. -/
theorem compound_succ (level : Nat) (clause : TakenClause) (r : Remaining) (here : clause.Filled)
    (filled : r.Filled) (enough : 4 * r.lines.length + 3 ≤ fuel + 1) :
    r.Takes (fun taken stmt => CompoundLaid level (clause.line level :: taken) stmt)
      (BlockEditor.compound (fuel + 1) level clause r) := by
  have body := ih.suite level clause r here filled (by omega)
  obtain ⟨head, inline, span⟩ := clause
  have loop : ∀ r' : Remaining, r'.Filled → r'.lines.length ≤ r.lines.length →
      r'.Takes (OptionalLaid level .elseHead) (BlockEditor.optionalSuite fuel level isElse r') :=
    fun r' left fewer => ih.optionalSuite level isElse .elseHead r' only_isElse left (by omega)
  simp only [BlockEditor.compound]
  cases head with
  | ifHead test =>
    refine Yields.bind body ?_
    rintro ⟨body, r'⟩ ⟨lines, whole, clause⟩
    obtain ⟨left, size⟩ := filled.behind whole
    dsimp only at size
    refine Yields.bind (ih.elseChain level r' left (by omega)) ?_
    rintro ⟨orelse, r''⟩ ⟨others, rest, chain⟩
    exact .ok ⟨lines ++ others, by rw [whole, rest, List.append_assoc], .branch clause chain⟩
  | whileHead test =>
    refine Yields.bind body ?_
    rintro ⟨body, r'⟩ ⟨lines, whole, clause⟩
    obtain ⟨left, size⟩ := filled.behind whole
    dsimp only at size
    refine Yields.bind (loop r' left (by omega)) ?_
    rintro ⟨orelse, r''⟩ ⟨others, rest, last⟩
    exact .ok ⟨lines ++ others, by rw [whole, rest, List.append_assoc], .whileLoop clause last⟩
  | forHead isAsync target iter =>
    refine Yields.bind body ?_
    rintro ⟨body, r'⟩ ⟨lines, whole, clause⟩
    obtain ⟨left, size⟩ := filled.behind whole
    dsimp only at size
    refine Yields.bind (loop r' left (by omega)) ?_
    rintro ⟨orelse, r''⟩ ⟨others, rest, last⟩
    exact .ok ⟨lines ++ others, by rw [whole, rest, List.append_assoc], .forLoop clause last⟩
  | defHead isAsync name params =>
    refine Yields.bind body ?_
    rintro ⟨body, r'⟩ ⟨lines, whole, clause⟩
    exact .ok ⟨lines, whole, .functionDef .nil clause⟩
  | classHead name bases =>
    refine Yields.bind body ?_
    rintro ⟨body, r'⟩ ⟨lines, whole, clause⟩
    exact .ok ⟨lines, whole, .classDef .nil clause⟩
  | withHead isAsync items =>
    refine Yields.bind body ?_
    rintro ⟨body, r'⟩ ⟨lines, whole, clause⟩
    exact .ok ⟨lines, whole, .withBlock clause⟩
  | tryHead =>
    refine Yields.bind body ?_
    rintro ⟨body, r'⟩ ⟨lines, whole, clause⟩
    obtain ⟨left, size⟩ := filled.behind whole
    dsimp only at size
    refine Yields.bind (ih.handlersOf level r' left (by omega)) ?_
    rintro ⟨handlers, r''⟩ ⟨excepts, whole', handled⟩
    obtain ⟨left', size'⟩ := left.behind whole'
    dsimp only at whole whole' size'
    -- what stands behind the `else` part, or its place
    have next : ∀ (orelse : List Stmt) (r₃ : Remaining) (elses : List ParsedLine),
        r''.lines = elses ++ r₃.lines → OptionalLaid level .elseHead elses orelse →
        (handlers = [] → orelse = []) →
        r.Takes (fun taken stmt => CompoundLaid level
          (TakenClause.line level ⟨.tryHead, inline, span⟩ :: taken) stmt)
          (BlockEditor.optionalSuite fuel level isFinally r₃ >>= fun last =>
            if handlers.isEmpty && last.1.isEmpty then .error ⟨.malformed .tryWithoutClauses, span⟩
            else .ok (.tryBlock (last.2.spanFrom span) body handlers orelse last.1, last.2)) := by
      intro orelse r₃ elses rest other none
      obtain ⟨left, size⟩ := left'.behind rest
      dsimp only at size
      refine Yields.bind (ih.optionalSuite level isFinally .finallyHead r₃ only_isFinally left
        (by omega)) ?_
      rintro ⟨finalbody, last⟩ ⟨finals, rest', final⟩
      dsimp only at rest' ⊢
      split
      · exact .error _
      · rename_i some
        refine .ok ⟨lines ++ (excepts ++ (elses ++ finals)), ?_, .tryBlock clause handled other final ?_⟩
        · rw [whole, whole', rest, rest']
          simp only [List.append_assoc]
        · rintro rfl
          exact ⟨none rfl, fun empty => some (by simp [empty])⟩
    dsimp only
    split
    · exact next [] r'' [] rfl .absent fun _ => rfl
    · rename_i some
      refine Yields.bind (loop r'' left' (by omega)) ?_
      rintro ⟨orelse, r₃⟩ ⟨elses, rest, other⟩
      exact next orelse r₃ elses rest other fun none => absurd (by simp [none]) some
  | elifHead | elseHead | exceptHead | finallyHead => exact .error _

/-- A block is laid out, and ends in front of a line further left. -/
theorem block_succ (level : Nat) (r : Remaining) (filled : r.Filled)
    (enough : 4 * r.lines.length + 1 ≤ fuel + 1) :
    r.Takes (BlockLaid level) (BlockEditor.block (fuel + 1) level r) ∧
      Yields (fun y => ∀ line ∈ y.2.lines.head?, line.indent < level)
        (BlockEditor.block (fuel + 1) level r) := by
  obtain ⟨lines, stop⟩ := r
  cases lines with
  | nil =>
    simp only [BlockEditor.block]
    exact ⟨.none .nil, .ok nofun⟩
  | cons line lines =>
    simp only [BlockEditor.block]
    split
    · rename_i shallow
      refine ⟨.none .nil, .ok ?_⟩
      rintro _ ⟨⟩
      exact shallow
    · split
      · exact ⟨.error _, .error _⟩
      · rename_i notLess notMore
        obtain rfl : line.indent = level := by omega
        simp only [List.length_cons] at enough
        have here := filled line List.mem_cons_self
        have first := ih.statement line lines stop filled (by omega)
        -- a statement takes its line, so fewer lines are left for the block behind it
        have rest : ∀ taken stmts (r : Remaining), line :: lines = taken ++ r.lines →
            StatementLaid line taken stmts → r.Takes (BlockLaid line.indent)
              (BlockEditor.block fuel line.indent r) ∧
                Yields (fun y => ∀ other ∈ y.2.lines.head?, other.indent < line.indent)
                  (BlockEditor.block fuel line.indent r) := by
          intro taken stmts r whole laid
          obtain ⟨left, size⟩ := filled.behind whole
          have some := laid.length_pos
          simp only [List.length_cons] at size
          exact ih.block line.indent r left (by omega)
        constructor
        · refine Yields.bind first ?_
          rintro ⟨stmts, r⟩ ⟨taken, whole, laid⟩
          refine Yields.bind (rest taken stmts r whole laid).1 ?_
          rintro ⟨others, r'⟩ ⟨more, whole', block⟩
          refine .ok ⟨taken ++ more, ?_, laid.block here block⟩
          exact whole.trans (by rw [whole', List.append_assoc])
        · refine Yields.bind first ?_
          rintro ⟨stmts, r⟩ ⟨taken, whole, laid⟩
          exact (rest taken stmts r whole laid).2.bind fun _ ends => .ok ends

/-- The body of a clause is laid out, be it in the line of the clause or below it. -/
theorem suite_succ (level : Nat) (clause : TakenClause) (r : Remaining) (here : clause.Filled)
    (filled : r.Filled) (enough : 4 * r.lines.length + 2 ≤ fuel + 1) :
    r.Takes (fun taken body => ClauseLaid level clause.head (clause.line level :: taken) body)
      (BlockEditor.suite (fuel + 1) level clause r) := by
  obtain ⟨head, inline, span⟩ := clause
  obtain ⟨lines, stop⟩ := r
  simp only [BlockEditor.suite]
  cases inline with
  | some stmts => exact .none (.inline (here stmts rfl))
  | none =>
    cases lines with
    | nil => exact .error _
    | cons first lines =>
      dsimp only
      split
      · exact .error _
      · rename_i deeper
        obtain ⟨takes, ends⟩ := ih.block first.indent ⟨first :: lines, stop⟩ filled (by omega)
        have body : Yields (fun y => ∃ taken, first :: lines = taken ++ y.2.lines ∧
            ClauseLaid level head (⟨level, span, .header head none⟩ :: taken) y.1)
            (BlockEditor.block fuel first.indent ⟨first :: lines, stop⟩) := by
          intro y given
          obtain ⟨taken, whole, block⟩ := takes y given
          -- the block ends behind its first line
          have some : taken ≠ [] := by
            rintro rfl
            exact Nat.lt_irrefl _ (ends y given first (by rw [← List.nil_append y.2.lines, ← whole]; rfl))
          exact ⟨taken, whole, .indented (Nat.lt_of_not_le deeper) (block.ne_nil some) block⟩
        refine Yields.bind body ?_
        intro y laid
        dsimp only
        split
        · split
          · exact .error _
          · exact .ok laid
        · exact .ok laid

/-- An optional clause is laid out if it is there, and is nothing if it is not. -/
theorem optionalSuite_succ (level : Nat) (accept : ClauseHead → Bool) (head : ClauseHead)
    (r : Remaining) (only : ∀ other, accept other = true → other = head) (filled : r.Filled)
    (enough : 4 * r.lines.length + 2 ≤ fuel + 1) :
    r.Takes (OptionalLaid level head) (BlockEditor.optionalSuite (fuel + 1) level accept r) := by
  simp only [BlockEditor.optionalSuite]
  cases taken : r.takeClause? level accept with
  | none => exact .none .absent
  | some x =>
    obtain ⟨clause, rest⟩ := x
    have size := Remaining.length_takeClause? taken
    obtain ⟨accepted, whole⟩ := Remaining.takeClause?_eq_some taken
    obtain ⟨here, left⟩ := filled.takeClause? taken
    dsimp only at size
    have laid := ih.suite level clause rest here left (by omega)
    rw [only _ accepted] at laid
    intro y given
    obtain ⟨lines, rest, clause⟩ := laid y given
    exact ⟨_ :: lines, by rw [whole, rest]; rfl, .present clause⟩

/-- A chain of `elif` and `else` clauses is laid out. -/
theorem elseChain_succ (level : Nat) (r : Remaining) (filled : r.Filled)
    (enough : 4 * r.lines.length + 2 ≤ fuel + 1) :
    r.Takes (ElseLaid level) (BlockEditor.elseChain (fuel + 1) level r) := by
  simp only [BlockEditor.elseChain]
  cases taken : r.takeClause? level continuesIf with
  | none => exact .none (.last .absent)
  | some x =>
    obtain ⟨⟨head, inline, span⟩, r'⟩ := x
    have size := Remaining.length_takeClause? taken
    obtain ⟨accepted, whole⟩ := Remaining.takeClause?_eq_some taken
    obtain ⟨here, left⟩ := filled.takeClause? taken
    dsimp only at size accepted
    refine Yields.bind (ih.suite level _ r' here left (by omega)) ?_
    rintro ⟨body, r''⟩ ⟨lines, rest, clause⟩
    obtain ⟨left', size'⟩ := left.behind rest
    dsimp only at size' rest
    cases head with
    | elifHead test =>
      refine Yields.bind (ih.elseChain level r'' left' (by omega)) ?_
      rintro ⟨orelse, last⟩ ⟨others, rest', chain⟩
      refine .ok ⟨_ :: lines ++ others, ?_, .elif clause chain⟩
      simp [whole, rest, rest']
    | elseHead => exact .ok ⟨_ :: lines, by rw [whole, rest]; rfl, .last (.present clause)⟩
    | _ => cases accepted

/-- The handlers of a `try` are laid out. -/
theorem handlersOf_succ (level : Nat) (r : Remaining) (filled : r.Filled)
    (enough : 4 * r.lines.length + 2 ≤ fuel + 1) :
    r.Takes (HandlersLaid level) (BlockEditor.handlersOf (fuel + 1) level r) := by
  simp only [BlockEditor.handlersOf]
  cases taken : r.takeClause? level isExcept with
  | none => exact .none .nil
  | some x =>
    obtain ⟨⟨head, inline, span⟩, r'⟩ := x
    have size := Remaining.length_takeClause? taken
    obtain ⟨accepted, whole⟩ := Remaining.takeClause?_eq_some taken
    obtain ⟨here, left⟩ := filled.takeClause? taken
    dsimp only at size accepted
    refine Yields.bind (ih.suite level _ r' here left (by omega)) ?_
    rintro ⟨body, r''⟩ ⟨lines, rest, clause⟩
    obtain ⟨left', size'⟩ := left.behind rest
    dsimp only at size' rest
    cases head with
    | exceptHead kind name =>
      refine Yields.bind (ih.handlersOf level r'' left' (by omega)) ?_
      rintro ⟨handlers, last⟩ ⟨others, rest', handled⟩
      refine .ok ⟨_ :: lines ++ others, ?_, .cons clause handled⟩
      simp [whole, rest, rest']
    | _ => cases accepted

end Step

/-- Everything is laid out with any fuel, by induction on the fuel. -/
theorem all (fuel : Nat) : AssemblesLaid fuel := by
  induction fuel with
  | zero => exact zero
  | succ fuel ih =>
    exact {
      block := ih.block_succ
      statement := ih.statement_succ
      compound := ih.compound_succ
      suite := ih.suite_succ
      optionalSuite := ih.optionalSuite_succ
      elseChain := ih.elseChain_succ
      handlersOf := ih.handlersOf_succ }

end AssemblesLaid

/-- Filled lines that are a program are laid out as it. -/
theorem blockLaid_of_assemble {lines : List ParsedLine} {stmts : List Stmt}
    (filled : ∀ line ∈ lines, line.content.Filled) (done : assemble lines = .ok stmts) :
    BlockLaid 0 lines stmts := by
  obtain ⟨last, done⟩ := assemble_eq_ok_iff.1 done
  have enough := lt_assemblySteps lines.length
  obtain ⟨takes, ends⟩ := (AssemblesLaid.all _).block 0 ⟨lines, 0⟩ filled enough.le
  obtain ⟨taken, whole, laid⟩ := takes _ done
  -- no line is further left than a program
  have none : last.lines = [] := by
    cases rest : last.lines with
    | nil => rfl
    | cons line others => exact absurd (ends _ done line (by rw [rest]; rfl)) (Nat.not_lt_zero _)
  dsimp only at whole
  rw [none, List.append_nil] at whole
  rwa [whole]

/-! ## Lines that are read -/

/-- A tree in which every phrase has a tree where its expression yields one. -/
inductive ParseTree.Branching {τ φ : Type} (g : Grammar τ φ) : ParseTree τ φ → Prop
  | token {t : τ} {span : Span} {lexeme : List Char} : Branching g (.token t span lexeme)
  | phrase {p : φ} {span : Span} {children : List (ParseTree τ φ)} :
      (∀ child ∈ children, Branching g child) → ((g.body p).fruitful = true → children ≠ []) →
      Branching g (.phrase p span children)

/-- An assignment that is read is a simple statement. -/
theorem isSimple_assignmentOf (span : Span) (trees : List LineTree) :
    Yields (fun stmt => stmt.isSimple = true) (assignmentOf span trees) := by
  unfold assignmentOf
  split
  · exact .error _
  · exact (Yields.any _).map fun _ _ => rfl
  · exact (Yields.any _).bind fun _ _ => (Yields.any _).bind fun _ _ =>
      (Yields.any _).bind fun _ _ => .ok rfl
  · exact (Yields.any _).bind fun _ _ => (Yields.any _).bind fun _ _ =>
      (Yields.any _).bind fun _ _ => (Yields.any _).bind fun _ _ => .ok rfl
  · exact (Yields.any _).bind fun _ _ => (Yields.any _).bind fun _ _ =>
      (Yields.any _).bind fun _ _ => .ok rfl

/-- A statement that is read from a line of statements is a simple one. -/
theorem isSimple_simpleStmtOf (tree : LineTree) :
    Yields (fun stmt => stmt.isSimple = true) (simpleStmtOf tree) := by
  unfold simpleStmtOf
  split
  · exact .ok rfl
  · exact .ok rfl
  · exact .ok rfl
  · exact (Yields.any _).map fun _ _ => rfl
  · exact (Yields.any _).map fun _ _ => rfl
  · exact (Yields.any _).bind fun _ _ => (Yields.any _).bind fun _ _ => .ok rfl
  · exact (Yields.any _).bind fun _ _ => (Yields.any _).bind fun _ _ => .ok rfl
  · exact .ok rfl
  · exact .ok rfl
  · exact .ok rfl
  · exact (Yields.any _).map fun _ _ => rfl
  · exact isSimple_assignmentOf _ _
  · exact .error _

/-- Statements that are read from one line are simple, and at least one. -/
theorem onLine_simpleStmtsOf {tree : LineTree} (branching : tree.Branching lineGrammar) :
    Yields OnLine (simpleStmtsOf tree) := by
  unfold simpleStmtsOf
  split
  · cases branching with
    | phrase _ some =>
      obtain ⟨first, others, rfl⟩ := List.exists_cons_of_ne_nil (some rfl)
      rw [List.mapM_cons]
      refine (isSimple_simpleStmtOf first).bind fun stmt here => ?_
      refine (Yields.mapM fun tree _ => isSimple_simpleStmtOf tree).bind fun stmts there => ?_
      exact .ok ⟨List.cons_ne_nil _ _, List.forall_mem_cons.2 ⟨here, there⟩⟩
  · exact .error _

/-- The content of a line that is read is filled. -/
theorem filled_lineContentOf {tree : LineTree} (branching : tree.Branching lineGrammar) :
    Yields LineContent.Filled (lineContentOf tree) := by
  unfold lineContentOf
  split
  · exact (Yields.any _).map fun _ _ => trivial
  · exact (Yields.any _).bind fun _ _ => .ok nofun
  · rename_i head stmts _
    cases branching with
    | phrase all =>
      cases all _ List.mem_cons_self with
      | phrase inner =>
        refine (Yields.any _).bind fun _ _ => ?_
        refine (onLine_simpleStmtsOf (inner stmts (by simp))).bind fun ss onLine => .ok ?_
        rintro _ ⟨⟩
        exact onLine
  · rename_i stmts _ _ _ _
    cases branching with
    | phrase all => exact (onLine_simpleStmtsOf (all stmts (by simp))).map fun _ h => h
  · exact .error _

/-- A line that is read is filled. -/
theorem filled_parseLine (line : LogicalLine) :
    Yields (fun parsed => parsed.content.Filled) (parseLine line) := by
  refine Yields.map ?_ fun _ h => h
  have branching : (readLine line.text line.start).All (ParseTree.Branching lineGrammar) :=
    lineGrammar.read_all (fun _ _ _ _ _ _ => .token) (fun _ _ _ => .phrase) _ _ _ _ _
  unfold replyContent
  split
  · rename_i tree _ same
    rw [same] at branching
    exact filled_lineContentOf (branching tree (by simp))
  · exact .error _
  · exact .error _

/-! ## Programs -/

/-- Statements are faithful to lines: these are laid out as them, and both say the same. -/
structure Transcribes (lines : List ParsedLine) (stmts : List Stmt) : Prop where
  laid : BlockLaid 0 lines stmts
  sayings : lineSayings lines = stmts.flatMap Stmt.sayings

/-- A program is faithful to the lines that it is assembled from. -/
theorem transcribes_assemble {lines : List LogicalLine} {parsed : List ParsedLine}
    {stmts : List Stmt} (read : lines.mapM parseLine = .ok parsed)
    (assembled : assemble parsed = .ok stmts) : Transcribes parsed stmts := by
  have filled := Yields.mapM (fun line _ => filled_parseLine line) parsed read
  have laid := blockLaid_of_assemble filled assembled
  exact ⟨laid, laid.sayings_eq.trans (Stmt.sayingsOf_eq stmts)⟩

/-- A decorated function whose branch goes on in an `elif`, and a `try` with one clause. -/
def nestedSample : String :=
  "@f\ndef g(x):\n  if x: return x\n  elif f:\n    pass\n  else: pass; pass\ntry:\n g(1)\nfinally: pass\n"

/-- The sample is assembled into a definition and a `try`, which say the same as its lines. -/
theorem transcribes_assemble_nestedSample : ∃ lines parsed stmts,
    logicalLines nestedSample.toList = .ok lines ∧ lines.mapM parseLine = .ok parsed ∧
    assemble parsed = .ok stmts ∧ stmts.map Stmt.form = ["def", "try"] ∧
    (lineSayings parsed).length = 14 ∧ Transcribes parsed stmts := by
  have computed : (match logicalLines nestedSample.toList with
      | .error _ => false
      | .ok lines => match lines.mapM parseLine with
        | .error _ => false
        | .ok parsed => match assemble parsed with
          | .error _ => false
          | .ok stmts => decide (stmts.map Stmt.form = ["def", "try"] ∧
              (lineSayings parsed).length = 14)) = true := by
    decide +kernel
  split at computed
  · cases computed
  · rename_i lines gathered
    split at computed
    · cases computed
    · rename_i parsed read
      split at computed
      · cases computed
      · rename_i stmts assembled
        obtain ⟨forms, size⟩ := of_decide_eq_true computed
        exact ⟨lines, parsed, stmts, gathered, read, assembled, forms, size,
          transcribes_assemble read assembled⟩

end BlockEditor
