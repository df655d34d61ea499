import BlockEditor.Proofs.Layout
import BlockEditor.Syntax.Parse

/-!
# Nesting of generated code

Generated code is a tree of lines: a clause has a body of at least one line below it, moved two
columns to the right.  Reading the code gives back one statement for every node of the tree.
-/

namespace BlockEditor

/-! ## Trees of lines -/

/-- Whether a form is the head of a clause. -/
def LineForm.isHead : LineForm → Bool
  | branch _ | loop => true
  | _ => false

/-- A statement of generated code, with its body if it is a clause. -/
inductive CodeTree where
  | simple (filling : Filling) (form : LineForm) (isSimple : form.isHead = false)
  | clause (filling : Filling) (form : LineForm) (isHead : form.isHead = true) (first : CodeTree)
      (others : List CodeTree)

namespace CodeTree

mutual

/-- The lines of a statement at a column. -/
def rows (column : Nat) : CodeTree → List Row
  | simple filling form _ => [⟨column, filling, form⟩]
  | clause filling form _ first others =>
    ⟨column, filling, form⟩ :: (rows (column + 2) first ++ rowsOf (column + 2) others)

/-- The lines of neighbouring statements at a column. -/
def rowsOf (column : Nat) : List CodeTree → List Row
  | [] => []
  | t :: ts => rows column t ++ rowsOf column ts

end

mutual

/-- A statement is what a tree of lines says. -/
inductive Says : CodeTree → Stmt → Prop
  | simple {f : Filling} {form : LineForm} {isSimple : form.isHead = false} {s : Stmt} :
    form.Holds f (.simple [s]) → Says (.simple f form isSimple) s
  | branch {f : Filling} {form : LineForm} {isHead : form.isHead = true} {first : CodeTree}
    {others : List CodeTree} {span : Span} {test : Expr} {body : List Stmt} :
    form.Holds f (.header (.ifHead test) none) → AllSay (first :: others) body →
      Says (.clause f form isHead first others) (.branch span test body [])
  | loop {f : Filling} {form : LineForm} {isHead : form.isHead = true} {first : CodeTree}
    {others : List CodeTree} {span : Span} {target iter : Expr} {body : List Stmt} :
    form.Holds f (.header (.forHead false target iter) none) → AllSay (first :: others) body →
      Says (.clause f form isHead first others) (.forLoop span false target iter body [])

/-- Statements are what trees of lines say, one by one. -/
inductive AllSay : List CodeTree → List Stmt → Prop
  | nil : AllSay [] []
  | cons {t : CodeTree} {s : Stmt} {ts : List CodeTree} {ss : List Stmt} :
    Says t s → AllSay ts ss → AllSay (t :: ts) (s :: ss)

end

end CodeTree

/-! ## Lines that were read -/

/-- A line of code was read as a line of a program. -/
def Row.ReadAs (r : Row) (line : ParsedLine) : Prop :=
  line.indent = r.indent ∧ r.form.Holds r.filling line.content

/-- A line holds the head of a clause exactly if its form does. -/
theorem LineForm.Holds.cases {f : Filling} {form : LineForm} {c : LineContent}
    (h : form.Holds f c) : (form.isHead = false ∧ ∃ s, c = .simple [s]) ∨
      (form.isHead = true ∧ ((∃ test, c = .header (.ifHead test) none) ∨
        ∃ target iter, c = .header (.forHead false target iter) none)) := by
  cases form with
  | pass => obtain ⟨s, rfl⟩ := h; exact .inl ⟨rfl, _, rfl⟩
  | print l => obtain ⟨s, t, u, e, rfl, -⟩ := h; exact .inl ⟨rfl, _, rfl⟩
  | assign l => obtain ⟨s, t, e, rfl, -⟩ := h; exact .inl ⟨rfl, _, rfl⟩
  | branch l => obtain ⟨e, rfl, -⟩ := h; exact .inr ⟨rfl, .inl ⟨_, rfl⟩⟩
  | loop => obtain ⟨s, t, u, e, rfl, -⟩ := h; exact .inr ⟨rfl, .inr ⟨_, _, rfl⟩⟩
  | value l => obtain ⟨s, e, rfl, -⟩ := h; exact .inl ⟨rfl, _, rfl⟩

/-- What can stand behind a statement at a column: nothing, a line further left, or a line of code
at the column. -/
def Follows (column : Nat) (lines : List ParsedLine) : Prop :=
  ∀ line ∈ lines.head?, line.indent ≤ column ∧
    (line.indent = column → ∀ head inline, line.content = .header head inline →
      continuesIf head = false)

/-- No clause of generated code goes on in an `else`. -/
theorem Follows.takeClause? {column : Nat} {lines : List ParsedLine} (h : Follows column lines)
    (stop : Nat) {accept : ClauseHead → Bool} (among : ∀ head, accept head = true → continuesIf head = true) :
    Remaining.takeClause? ⟨lines, stop⟩ column accept = none := by
  unfold Remaining.takeClause?
  split
  · rename_i indent span head inline rest e
    have first := h ⟨indent, span, .header head inline⟩ (by simp only at e; rw [e]; rfl)
    rw [if_neg]
    rintro ⟨same, accepted⟩
    have continues := among head accepted
    rw [first.2 same head inline rfl] at continues
    cases continues
  · rfl

/-- No `elif` and no `else` goes on behind generated code. -/
theorem Follows.elseChain_eq {column stop : Nat} {lines : List ParsedLine} (h : Follows column lines)
    (fuel : Nat) : elseChain fuel column ⟨lines, stop⟩ = .ok ([], ⟨lines, stop⟩) := by
  cases fuel with
  | zero => rw [elseChain]
  | succ fuel => rw [elseChain, h.takeClause? stop fun _ accepted => accepted]

/-- No `else` follows the body of a loop in generated code. -/
theorem Follows.optionalSuite_eq {column stop : Nat} {lines : List ParsedLine}
    (h : Follows column lines) (fuel : Nat) :
    optionalSuite fuel column isElse ⟨lines, stop⟩ = .ok ([], ⟨lines, stop⟩) := by
  have among : ∀ head, isElse head = true → continuesIf head = true := by
    intro head accepted
    cases head <;> first | rfl | cases accepted
  cases fuel with
  | zero => rw [optionalSuite]
  | succ fuel => rw [optionalSuite, h.takeClause? stop among]

/-- What is related to a list of two parts has two parts itself, each related to one. -/
theorem exists_append_of_forall₂ {α β : Type} {R : α → β → Prop} {a b : List α} {l : List β}
    (h : List.Forall₂ R (a ++ b) l) :
    ∃ m n, l = m ++ n ∧ List.Forall₂ R a m ∧ List.Forall₂ R b n := by
  induction a generalizing l with
  | nil => exact ⟨[], l, rfl, .nil, h⟩
  | cons x a ih =>
    cases h with
    | cons first others =>
      obtain ⟨m, n, rfl, before, behind⟩ := ih others
      exact ⟨_ :: m, n, rfl, .cons first before, behind⟩

/-- The body of a clause is the block below it. -/
theorem suite_eq (head : ClauseHead) (span : Span) {column inner fuel stop stop' : Nat}
    {lines rest : List ParsedLine} {stmts : List Stmt}
    (deeper : ∃ next tail, lines = next :: tail ∧ next.indent = inner ∧ column < inner)
    (read : block fuel inner ⟨lines ++ rest, stop⟩ = .ok (stmts, ⟨rest, stop'⟩))
    (after : Follows column rest) :
    suite (fuel + 1) column ⟨head, none, span⟩ ⟨lines ++ rest, stop⟩ =
      .ok (stmts, ⟨rest, stop'⟩) := by
  obtain ⟨next, tail, rfl, rfl, deeper⟩ := deeper
  rw [List.cons_append] at read ⊢
  rw [suite]
  simp only [read, bind, Except.bind]
  rw [if_neg (by omega)]
  cases rest with
  | nil => rfl
  | cons behind rest =>
    have outer := (after behind rfl).1
    simp only
    rw [if_neg (by omega)]

namespace CodeTree

/-- A tree of lines begins with a line at its column. -/
theorem rows_eq_cons (t : CodeTree) (column : Nat) :
    ∃ r rows, t.rows column = r :: rows ∧ r.indent = column := by
  cases t with
  | simple filling form _ => exact ⟨_, [], rfl, rfl⟩
  | clause filling form _ first others => exact ⟨_, _, rfl, rfl⟩

/-- What follows a statement in front of further statements. -/
theorem follows_append {ts : List CodeTree} {column : Nat} {lines rest : List ParsedLine}
    (read : List.Forall₂ Row.ReadAs (rowsOf column ts) lines)
    (after : ∀ line ∈ rest.head?, line.indent < column) : Follows column (lines ++ rest) := by
  intro line head
  cases ts with
  | nil =>
    cases read
    have left := after line head
    exact ⟨by omega, fun same => by omega⟩
  | cons t ts =>
    obtain ⟨r, rows, e, column⟩ := t.rows_eq_cons column
    rw [rowsOf, e] at read
    cases read with
    | cons first others =>
      cases head
      rw [first.1, column]
      refine ⟨Nat.le_refl _, ?_⟩
      intro _ head inline content
      rcases first.2.cases with ⟨-, s, simple⟩ | ⟨-, ⟨test, branch⟩ | ⟨target, iter, loop⟩⟩
      · rw [content] at simple
        cases simple
      · rw [content] at branch
        cases branch
        rfl
      · rw [content] at loop
        cases loop
        rfl

mutual

/-- The lines of a tree are read as a statement that the tree says. -/
theorem statement_says (t : CodeTree) (column : Nat) {lines : List ParsedLine}
    (read : List.Forall₂ Row.ReadAs (t.rows column) lines) {rest : List ParsedLine}
    (after : Follows column rest) (fuel : Nat) (enough : 4 * lines.length ≤ fuel + 1) (stop : Nat) :
    ∃ s stop', statement fuel column ⟨lines ++ rest, stop⟩ = .ok ([s], ⟨rest, stop'⟩) ∧ t.Says s := by
  match t, read with
  | .simple filling form isSimple, read =>
    cases read with
    | @cons _ line _ _ first others =>
      cases others
      obtain ⟨fuel, rfl⟩ : ∃ n, fuel = n + 1 := ⟨fuel - 1, by simp at enough; omega⟩
      rcases first.2.cases with ⟨-, s, content⟩ | ⟨isHead, -⟩
      · refine ⟨s, line.span.stop, ?_, .simple (by rw [← content]; exact first.2)⟩
        show statement (fuel + 1) column ⟨line :: rest, stop⟩ = _
        rw [statement]
        simp only [content]
        rfl
      · rw [isSimple] at isHead
        cases isHead
  | .clause filling form isHead first others, read =>
    cases read with
    | @cons _ line _ body header inner =>
      have inner : List.Forall₂ Row.ReadAs (rowsOf (column + 2) (first :: others)) body := inner
      obtain ⟨r, rows, e, indent⟩ := first.rows_eq_cons (column + 2)
      -- the body begins with a line of its own, further right
      have deeper : ∃ next tail, body = next :: tail ∧ next.indent = column + 2 ∧
          column < column + 2 := by
        rw [rowsOf, e] at inner
        cases inner with
        | cons start _ => exact ⟨_, _, rfl, by rw [start.1, indent], by omega⟩
      obtain ⟨fuel, rfl⟩ : ∃ n, fuel = n + 3 := ⟨fuel - 3, by simp at enough; omega⟩
      have left : ∀ line ∈ rest.head?, line.indent < column + 2 := by
        intro line head
        have := (after line head).1
        omega
      obtain ⟨stmts, stop', read, told⟩ := block_says (first :: others) (column + 2) inner left
        fuel (by simp at enough ⊢; omega) line.span.stop
      have suited := fun head => suite_eq head line.span deeper read after
      rcases header.2.cases with ⟨isSimple, -⟩ | ⟨-, ⟨test, content⟩ | ⟨target, iter, content⟩⟩
      · rw [isHead] at isSimple
        cases isSimple
      · refine ⟨Stmt.branch (Remaining.spanFrom ⟨rest, stop'⟩ line.span) test stmts [], stop', ?_,
          .branch (by rw [← content]; exact header.2) told⟩
        show statement (fuel + 3) column ⟨line :: (body ++ rest), stop⟩ = _
        rw [statement]
        simp only [content]
        rw [compound]
        simp only [Remaining.past, suited, bind, Except.bind, after.elseChain_eq]
      · refine ⟨Stmt.forLoop (Remaining.spanFrom ⟨rest, stop'⟩ line.span) false target iter stmts [], stop', ?_,
          .loop (by rw [← content]; exact header.2) told⟩
        show statement (fuel + 3) column ⟨line :: (body ++ rest), stop⟩ = _
        rw [statement]
        simp only [content]
        rw [compound]
        simp only [Remaining.past, suited, bind, Except.bind, after.optionalSuite_eq]
termination_by sizeOf t
decreasing_by
  cases filling
  simp
  omega

/-- The lines of neighbouring trees are read as statements that the trees say. -/
theorem block_says (ts : List CodeTree) (column : Nat) {lines : List ParsedLine}
    (read : List.Forall₂ Row.ReadAs (rowsOf column ts) lines) {rest : List ParsedLine}
    (after : ∀ line ∈ rest.head?, line.indent < column) (fuel : Nat)
    (enough : 4 * lines.length ≤ fuel) (stop : Nat) :
    ∃ ss stop', block fuel column ⟨lines ++ rest, stop⟩ = .ok (ss, ⟨rest, stop'⟩) ∧
      AllSay ts ss := by
  match ts, read with
  | [], read =>
    cases read
    refine ⟨[], stop, ?_, .nil⟩
    show block fuel column ⟨rest, stop⟩ = _
    cases fuel with
    | zero => rw [block]
    | succ fuel =>
      rw [block]
      cases rest with
      | nil => rfl
      | cons line rest =>
        simp only
        rw [if_pos (after line rfl)]
  | t :: ts, read =>
    rw [rowsOf] at read
    obtain ⟨here, there, rfl, readHere, readThere⟩ := exists_append_of_forall₂ read
    -- The first row of the statement stands at the column of the block, so the block goes on with
    -- it.
    obtain ⟨r, rows, e, indent⟩ := t.rows_eq_cons column
    obtain ⟨line, tail, rfl, same⟩ : ∃ line tail, here = line :: tail ∧ line.indent = column := by
      rw [e] at readHere
      cases readHere with
      | cons start _ => exact ⟨_, _, rfl, by rw [start.1, indent]⟩
    obtain ⟨fuel, rfl⟩ : ∃ n, fuel = n + 1 := ⟨fuel - 1, by simp at enough; omega⟩
    obtain ⟨s, stop₁, first, told⟩ := statement_says t column readHere
      (follows_append readThere after) fuel (by simp at enough ⊢; omega) stop
    obtain ⟨ss, stop₂, others, allSay⟩ := block_says ts column readThere after fuel
      (by simp at enough ⊢; omega) stop₁
    refine ⟨s :: ss, stop₂, ?_, .cons told allSay⟩
    rw [List.append_assoc]
    rw [List.cons_append] at first ⊢
    rw [block]
    simp only [same, Nat.lt_irrefl, if_false, first, others, bind, Except.bind]
    rfl
termination_by sizeOf ts

end

end CodeTree

/-! ## Whole programs -/

/-- Lines that were laid out are read. -/
theorem mapM_parseLine {rows : List Row} {lines : List LogicalLine}
    (laidOut : List.Forall₂ Row.LaidOut rows lines) :
    ∃ parsed, lines.mapM parseLine = .ok parsed ∧ List.Forall₂ Row.ReadAs rows parsed := by
  induction laidOut with
  | nil => exact ⟨[], rfl, .nil⟩
  | @cons r line rows lines here _ ih =>
    obtain ⟨c, first, holds⟩ := LineForm.parseLine_fill r.filling r.form here.2
    obtain ⟨parsed, others, read⟩ := ih
    refine ⟨⟨line.indent, line.span, c⟩ :: parsed, ?_, .cons ⟨here.1, holds⟩ read⟩
    rw [List.mapM_cons, first, others]
    rfl

/-- The text of lines of code. -/
def codeText (rows : List Row) : List Char := rows.flatMap fun r => r.code ++ ['\n']

/-- Lines of code are not blank. -/
theorem not_isBlankText_codeText (r : Row) (rows : List Row) :
    Text.isBlankText (codeText (r :: rows)) = false := by
  obtain ⟨c, cs, e, visible⟩ := exists_cons_fill r.filling r.form.visible_outline
  rw [Bool.eq_false_iff]
  intro blank
  have member : c ∈ codeText (r :: rows) := by
    simp [codeText, Row.code, Row.content, e]
  have shown := List.all_eq_true.1 blank c member
  rw [visible.1] at shown
  cases shown

/-- Generated code is read as the statements that its trees say. -/
theorem parseText_codeText (ts : List CodeTree) :
    ∃ m, parseText (codeText (CodeTree.rowsOf 0 ts)) = .ok m ∧ CodeTree.AllSay ts m.body := by
  cases ts with
  | nil => exact ⟨⟨[]⟩, rfl, .nil⟩
  | cons t ts =>
    obtain ⟨r, rows, e, -⟩ := t.rows_eq_cons 0
    obtain ⟨lines, layout, laidOut⟩ := logicalLines_rows (CodeTree.rowsOf 0 (t :: ts))
    obtain ⟨parsed, parse, read⟩ := mapM_parseLine laidOut
    have last : ∀ line ∈ ([] : List ParsedLine).head?, line.indent < 0 := by simp
    obtain ⟨stmts, stop, assembled, told⟩ := CodeTree.block_says (t :: ts) 0 read last
      (assemblySteps * (parsed.length + 1)) (by rw [assemblySteps]; omega) 0
    refine ⟨⟨stmts⟩, ?_, told⟩
    have shown : Text.isBlankText (codeText (CodeTree.rowsOf 0 (t :: ts))) = false := by
      rw [CodeTree.rowsOf, e, List.cons_append]
      exact not_isBlankText_codeText _ _
    rw [List.append_nil] at assembled
    rw [parseText, shown, show logicalLines (codeText (CodeTree.rowsOf 0 (t :: ts))) = .ok lines from layout]
    simp only [Bool.false_eq_true, if_false, bind, Except.bind, parse, assemble, assembled]

end BlockEditor
