import BlockEditor.Proofs.MovedExpressions
import BlockEditor.Syntax.Line

/-!
# Moved lines

A line that starts at another offset is read as the same content, moved as far.
-/

namespace BlockEditor

open ParseTree (moveAll)

/-! ## Contents of lines -/

/-- The head of a clause with its spans moved. -/
def ClauseHead.move (f : Nat → Nat) : ClauseHead → ClauseHead
  | ifHead test => ifHead (test.move f)
  | elifHead test => elifHead (test.move f)
  | elseHead => elseHead
  | whileHead test => whileHead (test.move f)
  | forHead isAsync target iter => forHead isAsync (target.move f) (iter.move f)
  | defHead isAsync name params => defHead isAsync name params
  | classHead name bases => classHead name (bases.map (Expr.move f))
  | tryHead => tryHead
  | exceptHead kind name => exceptHead (kind.map (Expr.move f)) name
  | finallyHead => finallyHead
  | withHead isAsync items => withHead isAsync (items.map (Expr.move f))

/-- The content of a line with its spans moved. -/
def LineContent.move (f : Nat → Nat) : LineContent → LineContent
  | simple stmts => simple (stmts.map (Stmt.move f))
  | decorator e => decorator (e.move f)
  | header head inline => header (head.move f) (inline.map (List.map (Stmt.move f)))

/-- The line with its spans moved. -/
def ParsedLine.move (f : Nat → Nat) (line : ParsedLine) : ParsedLine :=
  ⟨line.indent, line.span.move f, line.content.move f⟩

variable {f : Nat → Nat}

/-! ## Simple statements -/

/-- The first expression among moved trees is the moved one. -/
theorem mapped_firstExprOf (mono : Monotone f) (trees : List LineTree) :
    Mapped (Option.map (Expr.move f)) (firstExprOf trees) (firstExprOf (moveAll f trees)) := by
  cases trees with
  | nil => exact rfl
  | cons tree trees => exact (mapped_exprOf mono tree).map fun _ => rfl

theorem mapped_exprsOf (mono : Monotone f) (trees : List LineTree) :
    Mapped (List.map (Expr.move f)) (exprsOf trees) (exprsOf (moveAll f trees)) := by
  rw [ParseTree.moveAll_eq]
  exact .mapM fun tree _ => mapped_exprOf mono tree

/-- A moved tree has the same leading lexeme. -/
theorem leadingLexeme?_move (tree : LineTree) :
    leadingLexeme? (tree.move f) = leadingLexeme? tree := by
  match tree with
  | .token .. | .phrase _ _ [] | .phrase _ _ (.token .. :: _) | .phrase _ _ (.phrase .. :: _) => rfl

/-- An operator can assign to a moved target if it could to the target. -/
theorem mapped_checkAugTarget (f : Nat → Nat) (e : Expr) :
    Mapped id (checkAugTarget e) (checkAugTarget (e.move f)) := by
  cases e with
  | name | member | subscript => exact rfl
  | _ => exact .error _ _

/-- Moved targets are accepted if the targets are. -/
theorem mapped_checkTargets_map (f : Nat → Nat) (es : List Expr) :
    Mapped id (checkTargets es) (checkTargets (es.map (Expr.move f))) := by
  rw [← Expr.moveAll_eq]
  exact mapped_checkTargets f es

/-- What follows the first expression is the same where the trees are moved to. -/
theorem mapped_assignmentOf (mono : Monotone f) (s : Span) (trees : List LineTree) :
    Mapped (Stmt.move f) (assignmentOf s trees) (assignmentOf (s.move f) (moveAll f trees)) := by
  have expr := mapped_exprOf mono
  have plain (first : LineTree) (rest : List LineTree) : Mapped (Stmt.move f)
      (exprOf first >>= fun first => exprsOf rest >>= fun rest =>
        checkTargets (first :: rest).dropLast >>= fun _ =>
          .ok (.assign s (first :: rest).dropLast ((first :: rest).getLastD first)))
      (exprOf (first.move f) >>= fun first => exprsOf (moveAll f rest) >>= fun rest =>
        checkTargets (first :: rest).dropLast >>= fun _ =>
          .ok (.assign (s.move f) (first :: rest).dropLast ((first :: rest).getLastD first))) := by
    refine (expr first).bind fun e => (mapped_exprsOf mono rest).bind fun es => ?_
    have targets : (e.move f :: es.map (Expr.move f)).dropLast =
        (e :: es).dropLast.map (Expr.move f) := by
      rw [← List.map_cons, List.map_dropLast]
    have value : (e.move f :: es.map (Expr.move f)).getLastD (e.move f) =
        ((e :: es).getLastD e).move f := by
      rw [← List.map_cons, List.getLastD_eq_getLast?, List.getLastD_eq_getLast?, List.getLast?_map]
      cases (e :: es).getLast? <;> rfl
    rw [targets, value]
    exact (mapped_checkTargets_map f _).bind fun _ => rfl
  match trees with
  | [] => exact .error _ _
  | [value] => exact (expr value).map fun _ => rfl
  | target :: .token t _ lexeme :: rest =>
    cases t with
    | augOp =>
      match rest with
      | value :: _ =>
        refine (expr target).bind fun t => (expr value).bind fun v => ?_
        exact (mapped_checkAugTarget f t).bind fun _ => rfl
      | [] => exact plain target [.token .augOp _ lexeme]
    | _ => exact plain target (.token _ _ lexeme :: rest)
  | target :: .phrase p _ inner :: value =>
    cases p with
    | typeHint =>
      match inner with
      | [typeHint] =>
        refine (expr target).bind fun t => (mapped_checkTarget f t).bind fun _ => ?_
        exact (expr typeHint).bind fun h => (mapped_firstExprOf mono value).bind fun v => rfl
      | [] => exact plain target (.phrase .typeHint _ [] :: value)
      | a :: b :: more => exact plain target (.phrase .typeHint _ (a :: b :: more) :: value)
    | _ => exact plain target (.phrase _ _ inner :: value)

/-- The targets of a deletion are moved with the expression. -/
theorem deleteTargets_move (e : Expr) :
    deleteTargets (e.move f) = (deleteTargets e).map (Expr.move f) := by
  cases e <;> simp [Expr.move, deleteTargets]

/-- The leading lexemes of moved trees are the same. -/
theorem filterMap_leadingLexeme?_moveAll (trees : List LineTree) :
    (moveAll f trees).filterMap leadingLexeme? = trees.filterMap leadingLexeme? := by
  rw [ParseTree.moveAll_eq, List.filterMap_map]
  congr 1
  funext tree
  exact leadingLexeme?_move tree

theorem importedNames_moveAll (trees : List LineTree) :
    importedNames (moveAll f trees) = importedNames trees := by
  match trees with
  | [] | .token .. :: _ => rfl
  | .phrase p _ names :: _ =>
    cases p with
    | importAsNames => exact filterMap_leadingLexeme?_moveAll names
    | _ => rfl

/-- A simple statement of a moved tree is the moved statement. -/
theorem mapped_simpleStmtOf (mono : Monotone f) (tree : LineTree) :
    Mapped (Stmt.move f) (simpleStmtOf tree) (simpleStmtOf (tree.move f)) := by
  have expr := mapped_exprOf mono
  have refused (d e : Span) : Mapped (Stmt.move f) (unexpected d) (unexpected e) := .error _ _
  cases tree with
  | token t s lexeme => exact refused _ _
  | phrase p s children =>
    cases p with
    | passStmt | breakStmt | continueStmt => exact rfl
    | returnStmt | raiseStmt =>
      match children with
      | [] => exact refused _ _
      | _ :: value => exact (mapped_firstExprOf mono value).map fun _ => rfl
    | assertStmt =>
      match children with
      | [] | [_] => exact refused _ _
      | _ :: test :: message =>
        exact (expr test).bind fun t => (mapped_firstExprOf mono message).bind fun m => rfl
    | delStmt =>
      match children with
      | [_, targets] =>
        refine (expr targets).bind fun e => ?_
        rw [deleteTargets_move]
        exact (mapped_checkTargets_map f _).bind fun _ => rfl
      | [] | [_] | _ :: _ :: _ :: _ => exact refused _ _
    | globalStmt =>
      show Stmt.globalNames (s.move f) ((lexemesOf .identifier (moveAll f children)).map _) = _
      rw [lexemesOf_moveAll]
      rfl
    | importStmt =>
      show Stmt.importNames (s.move f) ((moveAll f children).filterMap leadingLexeme?) = _
      rw [filterMap_leadingLexeme?_moveAll]
      rfl
    | fromImportStmt =>
      match children with
      | [_, .token _ _ path, _, .phrase _ _ names] =>
        show Stmt.importFrom (s.move f) (String.ofList path) (importedNames (moveAll f names)) = _
        rw [importedNames_moveAll]
        rfl
      | [] | [_] | [_, .token ..] | [_, .phrase ..] | [_, .token .., _] | [_, .phrase .., _]
      | [_, .token .., _, .token ..] | _ :: .phrase .. :: _ :: _ :: _
      | _ :: .token .. :: _ :: .phrase .. :: _ :: _ | _ :: .token .. :: _ :: .token .. :: _ :: _ =>
        exact refused _ _
    | yieldStmt =>
      match children with
      | [value] => exact (expr value).map fun _ => rfl
      | [] | _ :: _ :: _ => exact refused _ _
    | assignmentStmt => exact mapped_assignmentOf mono s children
    | _ => exact refused _ _

theorem mapped_simpleStmtsOf (mono : Monotone f) (tree : LineTree) :
    Mapped (List.map (Stmt.move f)) (simpleStmtsOf tree) (simpleStmtsOf (tree.move f)) := by
  have refused (d e : Span) :
      Mapped (List.map (Stmt.move f)) (unexpected d) (unexpected e) := .error _ _
  cases tree with
  | token t s lexeme => exact refused _ _
  | phrase p s children =>
    cases p with
    | simpleStmts =>
      show Mapped _ (children.mapM simpleStmtOf) ((moveAll f children).mapM simpleStmtOf)
      rw [ParseTree.moveAll_eq]
      exact .mapM fun tree _ => mapped_simpleStmtOf mono tree
    | _ => exact refused _ _

/-! ## Clause heads -/

/-- Moved trees have the word `async` if the trees had it. -/
theorem hasAsync_moveAll (trees : List LineTree) : hasAsync (moveAll f trees) = hasAsync trees := by
  rw [hasAsync, lexemesOf_moveAll, hasAsync]

/-- The same words are dropped from moved trees. -/
theorem dropWords_moveAll (trees : List LineTree) :
    dropWords (moveAll f trees) = moveAll f (dropWords trees) := by
  induction trees with
  | nil => rfl
  | cons tree trees ih =>
    cases tree with
    | token t s lexeme =>
      cases t with
      | word w => exact ih
      | _ => rfl
    | phrase p s children => rfl

/-- A function has the same parameters where it is moved to. -/
theorem paramsOf_moveAll (trees : List LineTree) : paramsOf (moveAll f trees) = paramsOf trees := by
  match trees with
  | [] | .token .. :: _ => rfl
  | .phrase p _ params :: _ =>
    cases p with
    | params => exact paramNames_moveAll params
    | _ => rfl

/-- The bases of a class are moved with their trees. -/
theorem mapped_basesOf (mono : Monotone f) (trees : List LineTree) :
    Mapped (List.map (Expr.move f)) (basesOf trees) (basesOf (moveAll f trees)) := by
  match trees with
  | [] | .token .. :: _ => exact rfl
  | .phrase p s args :: _ =>
    cases p with
    | callArgs => exact (mapped_argumentsOf s (allMove mono args)).map fun _ => rfl
    | _ => exact rfl

theorem mapped_withItemOf (mono : Monotone f) (tree : LineTree) :
    Mapped (Expr.move f) (withItemOf tree) (withItemOf (tree.move f)) := by
  have refused (d e : Span) : Mapped (Expr.move f) (unexpected d) (unexpected e) := .error _ _
  match tree with
  | .token .. => exact refused _ _
  | .phrase p s children =>
    cases p with
    | withItem =>
      match children with
      | [] => exact refused _ _
      | value :: _ => exact mapped_exprOf mono value
    | _ => exact refused _ _

theorem mapped_clauseHeadOf (mono : Monotone f) (tree : LineTree) :
    Mapped (ClauseHead.move f) (clauseHeadOf tree) (clauseHeadOf (tree.move f)) := by
  have expr := mapped_exprOf mono
  have refused (d e : Span) : Mapped (ClauseHead.move f) (unexpected d) (unexpected e) := .error _ _
  cases tree with
  | token t s lexeme => exact refused _ _
  | phrase p s children =>
    cases p with
    | elseHead | tryHead | finallyHead => exact rfl
    | ifHead | elifHead | whileHead =>
      obtain _ | ⟨word, _ | ⟨test, _ | _⟩⟩ := children
      · exact refused _ _
      · exact refused _ _
      · exact (expr test).map fun _ => rfl
      · exact refused _ _
    | forHead =>
      rw [ParseTree.move, clauseHeadOf, clauseHeadOf, dropWords_moveAll, hasAsync_moveAll]
      obtain _ | ⟨target, _ | ⟨word, _ | ⟨iter, _ | _⟩⟩⟩ := dropWords children
      · exact refused _ _
      · exact refused _ _
      · exact refused _ _
      · refine (expr target).bind fun t => (mapped_checkTarget f t).bind fun _ => ?_
        exact (expr iter).bind fun i => rfl
      · exact refused _ _
    | defHead =>
      rw [ParseTree.move, clauseHeadOf, clauseHeadOf, dropWords_moveAll, hasAsync_moveAll]
      obtain _ | ⟨_ | _, rest⟩ := dropWords children
      · exact refused _ _
      · show ClauseHead.defHead _ _ (paramsOf (moveAll f rest)) = _
        rw [paramsOf_moveAll]
        rfl
      · exact refused _ _
    | classHead =>
      obtain _ | ⟨word, _ | ⟨_ | _, rest⟩⟩ := children
      · exact refused _ _
      · exact refused _ _
      · exact (mapped_basesOf mono rest).map fun _ => rfl
      · exact refused _ _
    | exceptHead =>
      cases children with
      | nil => exact refused _ _
      | cons word rest =>
        refine (mapped_firstExprOf mono rest).bind fun kind => ?_
        rw [lexemesOf_moveAll]
        exact rfl
    | withHead =>
      rw [ParseTree.move, clauseHeadOf, clauseHeadOf, dropWords_moveAll, hasAsync_moveAll,
        ParseTree.moveAll_eq]
      have items : Mapped (List.map (Expr.move f)) ((dropWords children).mapM withItemOf)
          (((dropWords children).map (ParseTree.move f)).mapM withItemOf) :=
        .mapM fun tree _ => mapped_withItemOf mono tree
      exact items.bind fun _ => rfl
    | _ => exact refused _ _

/-! ## Lines -/

theorem mapped_lineContentOf (mono : Monotone f) (tree : LineTree) :
    Mapped (LineContent.move f) (lineContentOf tree) (lineContentOf (tree.move f)) := by
  have refused (d e : Span) : Mapped (LineContent.move f) (unexpected d) (unexpected e) :=
    .error _ _
  cases tree with
  | token t s lexeme => exact refused _ _
  | phrase p s children =>
    cases p with
    | line =>
      have others (stmts : LineTree) : Mapped (LineContent.move f)
          ((simpleStmtsOf stmts).map .simple) ((simpleStmtsOf (stmts.move f)).map .simple) :=
        (mapped_simpleStmtsOf mono stmts).map fun _ => rfl
      match children with
      | [] => exact refused _ _
      | .token t s lexeme :: _ => exact others (.token t s lexeme)
      | .phrase q s inner :: _ =>
        have simple := others (.phrase q s inner)
        cases q with
        | decorator =>
          match inner with
          | [value] => exact (mapped_exprOf mono value).map fun _ => rfl
          | [] => exact others (.phrase .decorator s [])
          | a :: b :: more => exact others (.phrase .decorator s (a :: b :: more))
        | compoundHeader =>
          match inner with
          | [head] => exact (mapped_clauseHeadOf mono head).bind fun _ => rfl
          | [head, stmts] =>
            exact (mapped_clauseHeadOf mono head).bind fun _ =>
              (mapped_simpleStmtsOf mono stmts).bind fun _ => rfl
          | [] => exact others (.phrase .compoundHeader s [])
          | a :: b :: c :: more => exact others (.phrase .compoundHeader s (a :: b :: c :: more))
        | _ => exact simple
    | _ => exact refused _ _

/-! ## Reading at another offset -/

section Reading

variable {τ φ : Type} {n : Nat}

/-- A place that lies `n` bytes further on. -/
def Cursor.shift (n : Nat) (c : Cursor) : Cursor := ⟨c.rest, c.offset + n⟩

/-- Attempts that were made `n` bytes further on. -/
def Attempts.shift (n : Nat) (a : Attempts τ φ) : Attempts τ φ := ⟨a.offset + n, a.symbols⟩

/-- What is read `n` bytes further on. -/
def Reply.shift (n : Nat) : Reply τ φ → Reply τ φ
  | fail a => fail (a.shift n)
  | done c trees a => done (c.shift n) (moveAll (· + n) trees) (a.shift n)

@[simp] theorem Cursor.rest_shift (n : Nat) (c : Cursor) : (c.shift n).rest = c.rest := rfl

/-- Behind a lexeme, a place stays as far on. -/
theorem Cursor.after_shift (c : Cursor) (lexeme rest : List Char) :
    (c.shift n).after lexeme rest = (c.after lexeme rest).shift n := by
  simp only [shift, after, Nat.add_right_comm]

theorem Cursor.skip_shift (isSpace : Char → Bool) (c : Cursor) :
    (c.shift n).skip isSpace = (c.skip isSpace).shift n := after_shift c _ _

/-- As many attempts were made at a place further on. -/
theorem Attempts.countAt_shift (a : Attempts τ φ) (offset : Nat) :
    (a.shift n).countAt (offset + n) = a.countAt offset := by
  simp only [countAt, shift, Nat.add_right_cancel_iff]

/-- An attempt is recorded as far on as it was made. -/
theorem Attempts.record_shift (a : Attempts τ φ) (symbol : τ ⊕ φ) (offset before : Nat) :
    (a.shift n).record symbol (offset + n) before = (a.record symbol offset before).shift n := by
  have same : (a.shift n).offset = offset + n ↔ a.offset = offset := Nat.add_right_cancel_iff
  have less : (a.shift n).offset < offset + n ↔ a.offset < offset := Nat.add_lt_add_iff_right
  rw [record, record, countAt_shift]
  simp only [same, less]
  split
  · rfl
  · split
    · rfl
    · split <;> rfl

/-- A reader that does the same `n` bytes further on. -/
def ShiftsAlong (n : Nat) (read : Cursor → Attempts τ φ → Reply τ φ) : Prop :=
  ∀ c a, read (c.shift n) (a.shift n) = (read c a).shift n

/-- A repetition does the same further on if its reader does. -/
theorem readMany_shift (isSpace : Char → Bool) {read : Cursor → Attempts τ φ → Reply τ φ}
    (along : ShiftsAlong n read) (fuel : Nat) (c : Cursor) (a : Attempts τ φ) :
    readMany isSpace read fuel (c.shift n) (a.shift n) =
      ((readMany isSpace read fuel c a).1.shift n,
        moveAll (· + n) (readMany isSpace read fuel c a).2.1,
        (readMany isSpace read fuel c a).2.2.shift n) := by
  induction fuel generalizing c a with
  | zero => rfl
  | succ fuel ih =>
    rw [readMany, readMany, Cursor.skip_shift, along]
    cases read (c.skip isSpace) a with
    | fail a => rfl
    | done c trees a => simp only [Reply.shift, ih, ParseTree.moveAll_eq, List.map_append]

/-- So does an expression of the grammar if the phrases in it do. -/
theorem Peg.read_shift (g : Grammar τ φ) (limit : Nat)
    {call : φ → Cursor → Attempts τ φ → Reply τ φ} (along : ∀ p, ShiftsAlong n (call p))
    (x : Peg τ φ) : ShiftsAlong n (x.read g limit call) := by
  induction x with
  | text t =>
    intro c a
    simp only [Peg.read, Cursor.rest_shift]
    cases Text.dropLead t c.rest with
    | none => rfl
    | some rest => simp only [Cursor.after_shift, Reply.shift, moveAll]
  | absent p =>
    intro c a
    simp only [Peg.read, Cursor.rest_shift, apply_ite (Reply.shift n)]
    rfl
  | token t =>
    intro c a
    simp only [Peg.read, Cursor.rest_shift]
    cases (g.pattern t).scan c.rest with
    | none =>
      -- A failure is recorded where the token was expected, which lies as much further on.
      show Reply.fail ((a.shift n).record _ (c.offset + n) ((a.shift n).countAt (c.offset + n))) = _
      rw [Attempts.countAt_shift, Attempts.record_shift]
      rfl
    | some found =>
      simp only [Cursor.after_shift, Reply.shift, moveAll]
      rfl
  | phrase p => exact along p
  | seq x y ihx ihy =>
    intro c a
    simp only [Peg.read, ihx c a]
    cases x.read g limit call c a with
    | fail a => rfl
    | done c trees a =>
      simp only [Reply.shift, Cursor.skip_shift, ihy (c.skip g.isSpace) a]
      cases y.read g limit call (c.skip g.isSpace) a with
      | fail a => rfl
      | done c more a => simp only [ParseTree.moveAll_eq, List.map_append]
  | alt x y ihx ihy =>
    intro c a
    simp only [Peg.read, ihx c a]
    cases x.read g limit call c a with
    | fail a => exact ihy c a
    | done c trees a => rfl
  | opt x ih =>
    intro c a
    simp only [Peg.read, ih c a]
    cases x.read g limit call c a with
    | fail a => rfl
    | done c trees a => rfl
  | many x ih =>
    intro c a
    simp only [Peg.read, ih c a]
    cases x.read g limit call c a with
    | fail a => rfl
    | done c trees a =>
      simp only [Reply.shift, readMany_shift g.isSpace ih, ParseTree.moveAll_eq, List.map_append]

/-- So does every phrase, by induction on the depth. -/
theorem Grammar.read_shift (g : Grammar τ φ) (limit fuel : Nat) (p : φ) :
    ShiftsAlong n (g.read limit fuel p) := by
  induction fuel generalizing p with
  | zero => exact fun c a => rfl
  | succ fuel ih =>
    intro c a
    rw [Grammar.read, Grammar.read, Peg.read_shift g limit ih]
    cases (g.body p).read g limit (g.read limit fuel) c a with
    | done c' trees a => rfl
    | fail a' =>
      show Reply.fail
        ((a'.shift n).record _ (c.offset + n) ((a.shift n).countAt (c.offset + n))) = _
      rw [Attempts.countAt_shift, Attempts.record_shift]
      rfl

end Reading

/-- The same text is read in the same way `n` bytes further on. -/
theorem readLine_shift (text : List Char) (offset n : Nat) :
    readLine text (offset + n) = (readLine text offset).shift n :=
  Grammar.read_shift lineGrammar _ _ .line ⟨text, offset⟩ ⟨offset, []⟩

/-- A logical line that starts `n` bytes further on. -/
def LogicalLine.shift (n : Nat) (line : LogicalLine) : LogicalLine :=
  ⟨line.indent, line.start + n, line.text⟩

/-- The span of a line lies as far on as the line. -/
theorem LogicalLine.span_shift (n : Nat) (line : LogicalLine) :
    (line.shift n).span = line.span.move (· + n) := by
  simp only [shift, span, stop, Span.move, Nat.add_right_comm]

/-- A line that starts `n` bytes further on has the same content, as much further on. -/
theorem mapped_parseLine (n : Nat) (line : LogicalLine) :
    Mapped (ParsedLine.move (· + n)) (parseLine line) (parseLine (line.shift n)) := by
  have mono : Monotone (· + n) := fun _ _ le => Nat.add_le_add_right le n
  have content : Mapped (LineContent.move (· + n)) (replyContent (readLine line.text line.start))
      (replyContent (readLine line.text (line.start + n))) := by
    rw [readLine_shift]
    match readLine line.text line.start with
    | .done _ [tree] _ => exact mapped_lineContentOf mono tree
    | .done _ [] _ | .done _ (_ :: _ :: _) _ | .fail _ => exact .error _ _
  refine content.map fun c => ?_
  rw [LogicalLine.span_shift]
  rfl

end BlockEditor
