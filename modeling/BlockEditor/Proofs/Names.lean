import BlockEditor.Proofs.Scanned
import BlockEditor.Syntax.Parse

/-!
# Names in parsed programs

The variables that a parsed program assigns to and counts with are identifiers of the grammar.
-/

namespace BlockEditor

/-! ## Results of readings -/

/-- Whatever a reading gives has a property. -/
def Yields {α : Type} (P : α → Prop) (r : Except Fault α) : Prop := ∀ a, r = .ok a → P a

namespace Yields

variable {α β : Type} {P : β → Prop} {Q : α → Prop}

theorem ok {b : β} (h : P b) : Yields P (.ok b) := by
  rintro _ ⟨⟩
  exact h

theorem error (fault : Fault) : Yields P (.error fault) := by
  rintro _ ⟨⟩

/-- Readings in sequence have a property that each step passes on. -/
theorem bind {r : Except Fault α} {f : α → Except Fault β} (first : Yields Q r)
    (next : ∀ a, Q a → Yields P (f a)) : Yields P (r >>= f) := by
  intro b given
  cases r with
  | error fault => cases given
  | ok a => exact next a (first a rfl) b given

theorem map {r : Except Fault α} {f : α → β} (first : Yields Q r) (next : ∀ a, Q a → P (f a)) :
    Yields P (r.map f) := by
  intro b given
  cases r with
  | error fault => cases given
  | ok a =>
    cases given
    exact next a (first a rfl)

/-- Nothing is known of what a reading gives. -/
theorem any (r : Except Fault α) : Yields (fun _ => True) r := fun _ _ => trivial

/-- The results of a list of readings, one by one. -/
theorem mapM {f : α → Except Fault β} {l : List α} (each : ∀ a ∈ l, Yields P (f a)) :
    Yields (fun bs => ∀ b ∈ bs, P b) (l.mapM f) := by
  induction l with
  | nil => exact ok (by simp)
  | cons a l ih =>
    rw [List.mapM_cons]
    refine (each a (by simp)).bind fun b holds => ?_
    refine (ih fun c member => each c (by simp [member])).bind fun bs all => ok ?_
    intro c member
    rcases List.mem_cons.1 member with rfl | member
    · exact holds
    · exact all c member

end Yields

/-! ## Expressions -/

/-- An expression that is a bare name is an identifier. -/
def Expr.Identified (e : Expr) : Prop := ∀ id ∈ e.name?, IsIdentifier id.toList

/-- An expression that is no bare name. -/
theorem Expr.Identified.of_none {e : Expr} (h : e.name? = none) : e.Identified := by
  intro id named
  rw [h] at named
  cases named

/-- The operands among pieces are identified. -/
def Piece.Identified : Piece → Prop
  | .operand e => e.Identified
  | _ => True

/-- A single item is identified if the items are, and a tuple is no name. -/
theorem identified_itemOrTuple {items : List Expr} {comma : Bool}
    (all : ∀ e ∈ items, e.Identified) (span : Span) :
    (itemOrTuple span (items, comma)).Identified := by
  unfold itemOrTuple
  split
  · rename_i item e
    obtain ⟨rfl, -⟩ := Prod.mk.inj e
    exact all item (by simp)
  · exact .of_none rfl

/-- The items among trees are identified if their expressions are. -/
theorem identified_itemsOf {trees : List LineTree}
    (each : ∀ tree ∈ trees, Yields Expr.Identified (exprOf tree)) :
    Yields (fun x => ∀ e ∈ x.1, e.Identified) (itemsOf trees) := by
  induction trees with
  | nil => exact .ok (by simp)
  | cons tree trees ih =>
    unfold itemsOf
    split
    · exact .ok (by simp)
    · exact .ok (by simp)
    · rename_i tree' trees' _ same
      obtain ⟨rfl, rfl⟩ := List.cons.inj same
      refine (each tree (by simp)).bind fun item first => ?_
      refine (ih fun t member => each t (by simp [member])).bind fun x others => .ok ?_
      intro e member
      rcases List.mem_cons.1 member with rfl | member
      · exact first
      · exact others e member

/-- The piece of an operator holds no name. -/
theorem identified_of_operatorPiece {tree : LineTree} {piece : Piece}
    (h : operatorPiece tree = some piece) : piece.Identified := by
  unfold operatorPiece at h
  split at h
  all_goals first
    | cases h <;> trivial
    | obtain ⟨op, -, rfl⟩ := Option.map_eq_some_iff.1 h
      trivial

/-- The operands among trees are identified if their expressions are. -/
theorem identified_piecesOf {trees : List LineTree}
    (each : ∀ tree ∈ trees, Yields Expr.Identified (exprOf tree)) :
    Yields (fun pieces => ∀ piece ∈ pieces, piece.Identified) (piecesOf trees) := by
  induction trees with
  | nil => exact .ok (by simp)
  | cons tree trees ih =>
    have others := ih fun t member => each t (by simp [member])
    have next : ∀ piece : Piece, piece.Identified →
        Yields (fun pieces => ∀ piece ∈ pieces, piece.Identified)
          (piecesOf trees >>= fun pieces => .ok (piece :: pieces)) := by
      intro piece first
      refine others.bind fun pieces rest => .ok ?_
      intro p member
      rcases List.mem_cons.1 member with rfl | member
      · exact first
      · exact rest p member
    unfold piecesOf
    dsimp only
    cases e : operatorPiece tree with
    | some piece => exact next piece (identified_of_operatorPiece e)
    | none =>
      refine Yields.bind ((each tree (by simp)).map fun _ h => h) next

/-- A value with calls, attributes and subscripts behind it is no bare name. -/
theorem identified_trailersOf {value : Expr} (first : value.Identified) (trees : List LineTree) :
    Yields Expr.Identified (trailersOf value trees) := by
  induction trees generalizing value with
  | nil => exact .ok first
  | cons tree trees ih =>
    unfold trailersOf
    split
    · rename_i same
      cases same
    · rename_i same
      obtain ⟨rfl, rfl⟩ := List.cons.inj same
      exact ih (.of_none rfl)
    · rename_i same
      obtain ⟨rfl, rfl⟩ := List.cons.inj same
      exact (Yields.any _).bind fun _ _ => ih (.of_none rfl)
    · rename_i same
      obtain ⟨rfl, rfl⟩ := List.cons.inj same
      exact ih (.of_none rfl)
    · rename_i same
      obtain ⟨rfl, rfl⟩ := List.cons.inj same
      exact (Yields.any _).bind fun _ _ => ih (.of_none rfl)
    · exact .error _

/-- A linked operation is no bare name. -/
theorem identified_link (lhs : Operand) (op : LinkingOp) (rhs : Expr) :
    (lhs.link op rhs).node.Identified := by
  apply Expr.Identified.of_none
  cases op with
  | logical op =>
    unfold Operand.link
    dsimp only
    split
    · split <;> rfl
    · rfl
  | compare op =>
    unfold Operand.link
    dsimp only
    split
    · split <;> rfl
    · rfl
  | binary op => rfl

/-- Nor is what links make of an operand, unless it is the operand. -/
theorem identified_climbLinks (span : Span) (fuel least : Nat) (lhs : Operand) (pieces : List Piece)
    (first : lhs.node.Identified) :
    Yields (fun x => x.1.node.Identified) (climbLinks span fuel least lhs pieces) := by
  induction fuel generalizing lhs pieces with
  | zero =>
    rw [climbLinks]
    · exact .ok first
    · rintro _ _ _ ⟨⟩
  | succ fuel ih =>
    cases pieces with
    | nil => exact .ok first
    | cons piece pieces =>
      cases piece with
      | linking op =>
        rw [climbLinks]
        split
        · exact .ok first
        · refine (Yields.any _).bind ?_
          rintro ⟨rhs, rest⟩ _
          exact ih _ _ (identified_link _ _ _)
      | _ => exact .ok first

/-- Operators make no bare names. -/
theorem identified_climb (span : Span) (fuel least : Nat) {pieces : List Piece}
    (all : ∀ piece ∈ pieces, piece.Identified) :
    Yields (fun x => x.1.node.Identified) (climb span fuel least pieces) := by
  unfold climb
  split
  · rename_i op _ _
    refine (Yields.any _).bind fun _ _ => identified_climbLinks _ _ _ _ _ (.of_none ?_)
    cases op <;> rfl
  · exact identified_climbLinks _ _ _ _ _ (all (.operand _) (by simp))
  · exact .error _

/-- Pieces of identified operands are folded into an identified expression. -/
theorem identified_foldOperation (span : Span) {pieces : List Piece}
    (all : ∀ piece ∈ pieces, piece.Identified) :
    Yields Expr.Identified (foldOperation span pieces) :=
  (identified_climb span _ _ all).bind fun _ h => .ok h

/-- Whether the expression of a phrase can be that of one of its parts. -/
def PhraseName.passesOn : PhraseName → Bool
  | expression | operation | primary | starExpressions | targetList | parenExpr => true
  | _ => false

/-- A phrase with an expression of its own is no bare name. -/
theorem identified_of_own {p : PhraseName} (own : p.passesOn = false) (span : Span)
    (children : List LineTree) : Yields Expr.Identified (exprOf (.phrase p span children)) := by
  cases p with
  | expression | operation | primary | starExpressions | targetList | parenExpr => cases own
  | strings =>
    refine .ok (.of_none ?_)
    unfold stringExpr
    dsimp only
    split
    · rfl
    · split <;> rfl
  | starred | starTarget =>
    match children with
    | [value] => exact (Yields.any _).map fun _ _ => .of_none rfl
    | [] | _ :: _ :: _ => exact .error _
  | namedExpr =>
    match children with
    | [target, value] =>
      exact (Yields.any _).bind fun _ _ => (Yields.any _).bind fun _ _ => .ok (.of_none rfl)
    | [] | [_] | _ :: _ :: _ :: _ => exact .error _
  | lambdaExpr =>
    match children with
    | [_, value] => exact (Yields.any _).map fun _ _ => .of_none rfl
    | [_, .phrase p _ _, value] =>
      cases p with
      | lambdaParams => exact (Yields.any _).map fun _ _ => .of_none rfl
      | _ => exact .error _
    | [] | [_] | [_, .token .., _] | _ :: _ :: _ :: _ :: _ => exact .error _
  | yieldExpr =>
    match children with
    | [_] => exact .ok (.of_none rfl)
    | [_, value] | [_, _, value] => exact (Yields.any _).map fun _ _ => .of_none rfl
    | [] | _ :: _ :: _ :: _ :: _ => exact .error _
  | listDisplay =>
    match children with
    | [] => exact .ok (.of_none rfl)
    | first :: rest =>
      refine (Yields.any _).bind fun _ _ => ?_
      dsimp only
      split
      · exact (Yields.any _).map fun _ _ => .of_none rfl
      · exact (Yields.any _).map fun _ _ => .of_none rfl
  | braceDisplay =>
    have set : ∀ first rest, Yields Expr.Identified (exprOf first >>= fun first =>
        if startsComprehension rest then (clausesOf rest).map (.comprehension span .set first)
        else (itemsOf rest).map fun x => .set span (first :: x.1)) := by
      intro first rest
      refine (Yields.any _).bind fun _ _ => ?_
      split
      · exact (Yields.any _).map fun _ _ => .of_none rfl
      · exact (Yields.any _).map fun _ _ => .of_none rfl
    match children with
    | [] => exact .ok (.of_none rfl)
    | [first] | first :: .token .. :: _ => exact set _ _
    | first :: .phrase p _ inner :: _ =>
      cases p with
      | dictTail =>
        cases inner with
        | nil => exact set _ _
        | cons value entries =>
          exact (Yields.any _).bind fun _ _ => (Yields.any _).bind fun _ _ =>
            (Yields.any _).bind fun _ _ => .ok (.of_none rfl)
      | _ => exact set _ _
  | _ => exact .error _

/-- The bare names that are read from scanned trees are identifiers. -/
theorem identified_exprOf {tree : LineTree} (scanned : tree.Scanned lineGrammar) :
    Yields Expr.Identified (exprOf tree) := by
  induction scanned with
  | @token t span cs lexeme rest scanned =>
    cases t with
    -- The one token that is a name: its pattern takes identifiers only.
    | identifier =>
      refine .ok ?_
      intro id named
      cases named
      rw [String.toList_ofList]
      exact isIdentifier_of_scan scanned
    | noneLit | trueLit | falseLit | ellipsis => exact .ok (.of_none rfl)
    | integer | float | imaginary => exact (Yields.any _).map fun _ _ => .of_none rfl
    | _ => exact .error _
  | @phrase p span children _ ih =>
    cases p with
    | expression =>
      match children with
      | [value] => exact ih value (by simp)
      | [value, _, test, _, orelse] =>
        exact (Yields.any _).bind fun _ _ => (Yields.any _).bind fun _ _ =>
          (Yields.any _).bind fun _ _ => .ok (.of_none rfl)
      | [] | [_, _] | [_, _, _] | [_, _, _, _] | _ :: _ :: _ :: _ :: _ :: _ :: _ => exact .error _
    | operation => exact (identified_piecesOf ih).bind fun _ all => identified_foldOperation _ all
    | primary =>
      cases children with
      | nil => exact .error _
      | cons atom trailers =>
        exact (ih atom (by simp)).bind fun _ first => identified_trailersOf first trailers
    | starExpressions | targetList =>
      exact (identified_itemsOf ih).map fun _ all => identified_itemOrTuple all _
    -- A single expression in parentheses may be a name; with a comma or a clause behind it, it is
    -- none.
    | parenExpr =>
      cases children with
      | nil => exact .ok (.of_none rfl)
      | cons first rest =>
        refine (ih first (by simp)).bind fun e here => ?_
        have others := identified_itemsOf fun tree (member : tree ∈ rest) => ih tree (by simp [member])
        dsimp only
        split
        · exact (Yields.any _).map fun _ _ => .of_none rfl
        · refine others.bind ?_
          rintro ⟨items, comma⟩ all
          refine .ok (identified_itemOrTuple ?_ _)
          intro item member
          rcases List.mem_cons.1 member with rfl | member
          · exact here
          · exact all item member
    | _ => exact identified_of_own rfl span children

/-! ## Simple statements -/

mutual

/-- The variables that a statement assigns to or counts with are identifiers. -/
def Stmt.Identified : Stmt → Prop
  | .assign _ targets _ => ∀ e ∈ targets, e.Identified
  | .branch _ _ body _ => Stmt.AllIdentified body
  | .forLoop _ _ target _ body _ => target.Identified ∧ Stmt.AllIdentified body
  | _ => True

/-- The variables of neighbouring statements are identifiers. -/
def Stmt.AllIdentified : List Stmt → Prop
  | [] => True
  | s :: rest => s.Identified ∧ Stmt.AllIdentified rest

end

/-- Neighbouring statements are identified if each of them is. -/
theorem Stmt.allIdentified_iff (ss : List Stmt) : AllIdentified ss ↔ ∀ s ∈ ss, s.Identified := by
  induction ss with
  | nil => simp [AllIdentified]
  | cons s ss ih => rw [AllIdentified, ih, List.forall_mem_cons]

/-- The targets of an assignment are identified if the expressions are. -/
theorem identified_assignmentOf (span : Span) {trees : List LineTree}
    (each : ∀ tree ∈ trees, Yields Expr.Identified (exprOf tree)) :
    Yields Stmt.Identified (assignmentOf span trees) := by
  unfold assignmentOf
  split
  · exact .error _
  · exact (Yields.any _).map fun _ _ => trivial
  · exact (Yields.any _).bind fun _ _ => (Yields.any _).bind fun _ _ =>
      (Yields.any _).bind fun _ _ => .ok trivial
  · exact (Yields.any _).bind fun _ _ => (Yields.any _).bind fun _ _ =>
      (Yields.any _).bind fun _ _ => (Yields.any _).bind fun _ _ => .ok trivial
  · rename_i first rest _ _ _
    refine (each first (by simp)).bind fun e here => ?_
    refine (Yields.mapM fun tree member => each tree (by simp [member])).bind fun es others => ?_
    refine (Yields.any _).bind fun _ _ => .ok fun target member => ?_
    rcases List.mem_cons.1 (List.dropLast_subset _ member) with rfl | member
    · exact here
    · exact others target member

/-- The variables in a simple statement are identifiers. -/
theorem identified_simpleStmtOf {tree : LineTree} (scanned : tree.Scanned lineGrammar) :
    Yields Stmt.Identified (simpleStmtOf tree) := by
  unfold simpleStmtOf
  split
  · exact .ok trivial
  · exact .ok trivial
  · exact .ok trivial
  · exact (Yields.any _).map fun _ _ => trivial
  · exact (Yields.any _).map fun _ _ => trivial
  · exact (Yields.any _).bind fun _ _ => (Yields.any _).bind fun _ _ => .ok trivial
  · exact (Yields.any _).bind fun _ _ => (Yields.any _).bind fun _ _ => .ok trivial
  · exact .ok trivial
  · exact .ok trivial
  · exact .ok trivial
  · exact (Yields.any _).map fun _ _ => trivial
  · cases scanned with
    | phrase all => exact identified_assignmentOf _ fun tree member => identified_exprOf (all tree member)
  · exact .error _

theorem identified_simpleStmtsOf {tree : LineTree} (scanned : tree.Scanned lineGrammar) :
    Yields Stmt.AllIdentified (simpleStmtsOf tree) := by
  unfold simpleStmtsOf
  split
  · cases scanned with
    | phrase all =>
      have each := Yields.mapM fun tree member => identified_simpleStmtOf (all tree member)
      exact fun ss given => (Stmt.allIdentified_iff ss).2 (each ss given)
  · exact .error _

/-! ## Lines -/

/-- The variable that a clause counts with is an identifier. -/
def ClauseHead.Identified : ClauseHead → Prop
  | .forHead _ target _ => target.Identified
  | _ => True

/-- The variables in a line are identifiers. -/
def LineContent.Identified : LineContent → Prop
  | .simple stmts => Stmt.AllIdentified stmts
  | .decorator _ => True
  | .header head inline => head.Identified ∧ ∀ stmts ∈ inline, Stmt.AllIdentified stmts

/-- The trees behind the leading words are among the trees. -/
theorem mem_of_mem_dropWords {tree : LineTree} {trees : List LineTree}
    (member : tree ∈ dropWords trees) : tree ∈ trees := by
  fun_induction dropWords trees with
  | case1 _ _ _ trees ih => exact List.mem_cons_of_mem _ (ih member)
  | case2 => exact member

/-- The variable in the head of a clause is an identifier. -/
theorem identified_clauseHeadOf {tree : LineTree} (scanned : tree.Scanned lineGrammar) :
    Yields ClauseHead.Identified (clauseHeadOf tree) := by
  unfold clauseHeadOf
  split
  · exact (Yields.any _).map fun _ _ => trivial
  · exact (Yields.any _).map fun _ _ => trivial
  · exact .ok trivial
  · exact (Yields.any _).map fun _ _ => trivial
  · split
    · rename_i children _ target _ iter words
      cases scanned with
      | phrase all =>
        have member : target ∈ children := mem_of_mem_dropWords (by rw [words]; simp)
        refine (identified_exprOf (all target member)).bind fun e here => ?_
        exact (Yields.any _).bind fun _ _ => (Yields.any _).bind fun _ _ => .ok here
    · exact .error _
  · split
    · exact .ok trivial
    · exact .error _
  · exact (Yields.any _).map fun _ _ => trivial
  · exact .ok trivial
  · exact (Yields.any _).bind fun _ _ => .ok trivial
  · exact .ok trivial
  · exact (Yields.any _).bind fun _ _ => .ok trivial
  · exact .error _

/-- The variables in the content of a line are identifiers. -/
theorem identified_lineContentOf {tree : LineTree} (scanned : tree.Scanned lineGrammar) :
    Yields LineContent.Identified (lineContentOf tree) := by
  unfold lineContentOf
  split
  · exact (Yields.any _).map fun _ _ => trivial
  · rename_i head _
    cases scanned with
    | phrase all =>
      cases all _ (List.mem_cons_self ..) with
      | phrase inner =>
        exact (identified_clauseHeadOf (inner head (by simp))).bind fun _ here => .ok ⟨here, nofun⟩
  · rename_i head stmts _
    cases scanned with
    | phrase all =>
      cases all _ (List.mem_cons_self ..) with
      | phrase inner =>
        refine (identified_clauseHeadOf (inner head (by simp))).bind fun _ here => ?_
        refine (identified_simpleStmtsOf (inner stmts (by simp))).bind fun ss below => .ok ⟨here, ?_⟩
        rintro _ ⟨⟩
        exact below
  · rename_i stmts _ _ _ _
    cases scanned with
    | phrase all => exact (identified_simpleStmtsOf (all stmts (by simp))).map fun _ h => h
  · exact .error _

theorem identified_parseLine (line : LogicalLine) :
    Yields (fun p => p.content.Identified) (parseLine line) := by
  refine Yields.map ?_ fun _ h => h
  have scanned : (readLine line.text line.start).All (ParseTree.Scanned lineGrammar) :=
    lineGrammar.read_scanned _ _ _ _ _
  unfold replyContent
  split
  · rename_i tree _ same
    rw [same] at scanned
    exact identified_lineContentOf (scanned tree (by simp))
  · exact .error _
  · exact .error _

/-! ## Block assembly -/

/-- The variables in the lines that are left are identifiers. -/
def Remaining.Identified (r : Remaining) : Prop := ∀ line ∈ r.lines, line.content.Identified

/-- The variables in a clause are identifiers. -/
def TakenClause.Identified (c : TakenClause) : Prop :=
  c.head.Identified ∧ ∀ stmts ∈ c.inline, Stmt.AllIdentified stmts

/-- The variables in statements that were taken and in the lines that are left are identifiers. -/
def TakenIdentified (x : List Stmt × Remaining) : Prop :=
  Stmt.AllIdentified x.1 ∧ x.2.Identified

theorem TakenIdentified.nil {r : Remaining} (h : r.Identified) : TakenIdentified ([], r) :=
  ⟨trivial, h⟩

/-- A clause that is taken of identified lines is identified, and so are the lines behind it. -/
theorem Remaining.Identified.takeClause? {r r' : Remaining} {level : Nat} {accept : ClauseHead → Bool}
    {clause : TakenClause} (h : r.Identified)
    (taken : r.takeClause? level accept = some (clause, r')) :
    clause.Identified ∧ r'.Identified := by
  unfold Remaining.takeClause? at taken
  split at taken
  · rename_i head inline lines same
    split at taken
    · cases taken
      have here := h _ (by rw [same]; exact List.mem_cons_self ..)
      exact ⟨here, fun line member => h line (by rw [same]; simp [member])⟩
    · cases taken
  · cases taken

/-- The lines behind decorators are among the lines. -/
theorem subset_of_takeDecorators {level : Nat} {start : Span} (lines : List ParsedLine) :
    Yields (fun x => x.2 ⊆ lines) (takeDecorators level start lines) := by
  induction lines with
  | nil => exact .error _
  | cons line lines ih =>
    unfold takeDecorators
    dsimp only
    split
    · split
      · exact ih.bind fun _ others => .ok (List.subset_cons_of_subset _ others)
      · split
        · exact .ok (List.Subset.refl _)
        · exact .error _
      · exact .error _
    · exact .error _

/-- Decorators bind no variable. -/
theorem Stmt.Identified.decorate {s : Stmt} (h : s.Identified) (start : Span) (es : List Expr) :
    (s.decorate start es).Identified := by
  cases s <;> exact h

/-- Up to some fuel, everything that is assembled from identified lines is identified. -/
structure AssemblesIdentified (fuel : Nat) : Prop where
  block : ∀ level r, r.Identified → Yields TakenIdentified (block fuel level r)
  statement : ∀ level r, r.Identified → Yields TakenIdentified (statement fuel level r)
  compound : ∀ level (clause : TakenClause) r, clause.Identified → r.Identified →
    Yields (fun x => x.1.Identified ∧ x.2.Identified) (compound fuel level clause r)
  suite : ∀ level (clause : TakenClause) r, clause.Identified → r.Identified →
    Yields TakenIdentified (suite fuel level clause r)
  optionalSuite : ∀ level accept r, r.Identified →
    Yields TakenIdentified (optionalSuite fuel level accept r)
  elseChain : ∀ level r, r.Identified → Yields TakenIdentified (elseChain fuel level r)
  handlersOf : ∀ level r, r.Identified → Yields (fun x => x.2.Identified) (handlersOf fuel level r)

namespace AssemblesIdentified

theorem zero : AssemblesIdentified 0 := by
  constructor
  · intro level r rest
    rw [BlockEditor.block]
    exact .ok (.nil rest)
  · intro level r rest
    rw [BlockEditor.statement]
    exact .ok (.nil rest)
  · intro level clause r _ _
    rw [BlockEditor.compound]
    exact .error _
  · intro level clause r _ _
    rw [BlockEditor.suite]
    exact .error _
  · intro level accept r rest
    rw [BlockEditor.optionalSuite]
    exact .ok (.nil rest)
  · intro level r rest
    rw [BlockEditor.elseChain]
    exact .ok (.nil rest)
  · intro level r rest
    rw [BlockEditor.handlersOf]
    exact .ok rest

section Step

variable {fuel : Nat} (ih : AssemblesIdentified fuel)

include ih

/-- A block of identified lines is identified. -/
theorem block_succ (level : Nat) {r : Remaining} (rest : r.Identified) :
    Yields TakenIdentified (BlockEditor.block (fuel + 1) level r) := by
  unfold BlockEditor.block
  split
  · exact .ok (.nil rest)
  · split
    · exact .ok (.nil rest)
    · split
      · exact .error _
      · refine (ih.statement level r rest).bind ?_
        rintro ⟨first, r⟩ ⟨here, rest⟩
        refine (ih.block level r rest).bind ?_
        rintro ⟨more, r⟩ ⟨there, rest⟩
        refine .ok ⟨?_, rest⟩
        rw [Stmt.allIdentified_iff] at here there ⊢
        exact fun s member => (List.mem_append.1 member).elim (here s) (there s)

theorem statement_succ (level : Nat) {r : Remaining} (rest : r.Identified) :
    Yields TakenIdentified (BlockEditor.statement (fuel + 1) level r) := by
  unfold BlockEditor.statement
  split
  · exact .ok (.nil rest)
  · rename_i line lines same
    have here := rest line (by rw [same]; simp)
    have past : (Remaining.past line lines).Identified :=
      fun other member => rest other (by rw [same]; exact List.mem_cons_of_mem _ member)
    dsimp only
    split
    · rename_i stmts content
      rw [content] at here
      exact .ok ⟨here, past⟩
    · refine (subset_of_takeDecorators lines).bind ?_
      rintro ⟨decorators, others⟩ among
      refine (ih.statement level _ fun other member => past other (among member)).bind ?_
      rintro ⟨stmts, r⟩ ⟨all, rest⟩
      refine .ok ⟨?_, rest⟩
      rw [Stmt.allIdentified_iff] at all ⊢
      intro s member
      obtain ⟨s, among, rfl⟩ := List.mem_map.1 member
      exact (all s among).decorate _ _
    · rename_i head inline content
      rw [content] at here
      refine (ih.compound level ⟨head, inline, line.span⟩ _ here past).bind ?_
      rintro ⟨stmt, r⟩ ⟨first, rest⟩
      exact .ok ⟨⟨first, trivial⟩, rest⟩

theorem compound_succ (level : Nat) {clause : TakenClause} {r : Remaining}
    (here : clause.Identified) (rest : r.Identified) :
    Yields (fun x => x.1.Identified ∧ x.2.Identified)
      (BlockEditor.compound (fuel + 1) level clause r) := by
  have body := ih.suite level clause r here rest
  unfold BlockEditor.compound
  split
  · refine body.bind ?_
    rintro ⟨body, r⟩ ⟨inside, rest⟩
    refine (ih.elseChain level r rest).bind ?_
    rintro ⟨orelse, r⟩ ⟨-, rest⟩
    exact .ok ⟨inside, rest⟩
  · refine body.bind ?_
    rintro ⟨body, r⟩ ⟨-, rest⟩
    refine (ih.optionalSuite level isElse r rest).bind ?_
    rintro ⟨orelse, r⟩ ⟨-, rest⟩
    exact .ok ⟨trivial, rest⟩
  · rename_i target _ head
    -- The one clause whose head names a variable.
    have counts : target.Identified := by
      have first := here.1
      rw [head] at first
      exact first
    refine body.bind ?_
    rintro ⟨body, r⟩ ⟨inside, rest⟩
    refine (ih.optionalSuite level isElse r rest).bind ?_
    rintro ⟨orelse, r⟩ ⟨-, rest⟩
    exact .ok ⟨⟨counts, inside⟩, rest⟩
  · refine body.bind ?_
    rintro ⟨body, r⟩ ⟨-, rest⟩
    exact .ok ⟨trivial, rest⟩
  · refine body.bind ?_
    rintro ⟨body, r⟩ ⟨-, rest⟩
    exact .ok ⟨trivial, rest⟩
  · refine body.bind ?_
    rintro ⟨body, r⟩ ⟨-, rest⟩
    exact .ok ⟨trivial, rest⟩
  · refine body.bind ?_
    rintro ⟨body, r⟩ ⟨-, rest⟩
    refine (ih.handlersOf level r rest).bind ?_
    rintro ⟨handlers, r⟩ rest
    -- An `else` part may follow handlers only; what comes behind it is the same in both cases.
    have next : ∀ orelse, TakenIdentified orelse →
        Yields (fun x : Stmt × Remaining => x.1.Identified ∧ x.2.Identified) (do
          let last ← BlockEditor.optionalSuite fuel level isFinally orelse.2
          if handlers.isEmpty && last.1.isEmpty then
            .error ⟨.malformed .tryWithoutClauses, clause.span⟩
          else .ok (.tryBlock (last.2.spanFrom clause.span) body handlers orelse.1 last.1, last.2)) := by
      rintro ⟨orelse, r⟩ ⟨-, rest⟩
      refine (ih.optionalSuite level isFinally r rest).bind ?_
      rintro ⟨finalbody, r⟩ ⟨-, rest⟩
      dsimp only
      split
      · exact .error _
      · exact .ok ⟨trivial, rest⟩
    dsimp only
    split
    · exact next _ (.nil rest)
    · exact (ih.optionalSuite level isElse r rest).bind next
  · exact .error _
  · exact .error _
  · exact .error _
  · exact .error _

theorem suite_succ (level : Nat) {clause : TakenClause} {r : Remaining}
    (here : clause.Identified) (rest : r.Identified) :
    Yields TakenIdentified (BlockEditor.suite (fuel + 1) level clause r) := by
  unfold BlockEditor.suite
  split
  · rename_i stmts inline
    exact .ok ⟨here.2 stmts inline, rest⟩
  · dsimp only
    split
    · exact .error _
    · split
      · exact .error _
      · refine (ih.block _ r rest).bind ?_
        rintro ⟨body, r⟩ taken
        dsimp only
        split
        · split
          · exact .error _
          · exact .ok taken
        · exact .ok taken

theorem optionalSuite_succ (level : Nat) (accept : ClauseHead → Bool) {r : Remaining}
    (rest : r.Identified) :
    Yields TakenIdentified (BlockEditor.optionalSuite (fuel + 1) level accept r) := by
  unfold BlockEditor.optionalSuite
  split
  · exact .ok (.nil rest)
  · rename_i clause r taken
    obtain ⟨here, rest⟩ := rest.takeClause? taken
    exact ih.suite level clause r here rest

theorem elseChain_succ (level : Nat) {r : Remaining} (rest : r.Identified) :
    Yields TakenIdentified (BlockEditor.elseChain (fuel + 1) level r) := by
  unfold BlockEditor.elseChain
  split
  · exact .ok (.nil rest)
  · rename_i clause r taken
    obtain ⟨here, rest⟩ := rest.takeClause? taken
    refine (ih.suite level clause r here rest).bind ?_
    rintro ⟨body, r⟩ ⟨inside, rest⟩
    dsimp only
    split
    · refine (ih.elseChain level r rest).bind ?_
      rintro ⟨orelse, r⟩ ⟨-, rest⟩
      exact .ok ⟨⟨inside, trivial⟩, rest⟩
    · exact .ok ⟨inside, rest⟩

/-- Handlers leave identified lines. -/
theorem handlersOf_succ (level : Nat) {r : Remaining} (rest : r.Identified) :
    Yields (fun x => x.2.Identified) (BlockEditor.handlersOf (fuel + 1) level r) := by
  unfold BlockEditor.handlersOf
  split
  · exact .ok rest
  · rename_i clause r taken
    obtain ⟨here, rest⟩ := rest.takeClause? taken
    refine (ih.suite level clause r here rest).bind ?_
    rintro ⟨body, r⟩ ⟨-, rest⟩
    dsimp only
    split
    · refine (ih.handlersOf level r rest).bind ?_
      rintro ⟨handlers, r⟩ rest
      exact .ok rest
    · exact .ok rest

end Step

/-- With any fuel, what is assembled is identified, by induction on the fuel. -/
theorem all (fuel : Nat) : AssemblesIdentified fuel := by
  induction fuel with
  | zero => exact zero
  | succ fuel ih =>
    exact {
      block := fun level _ rest => ih.block_succ level rest
      statement := fun level _ rest => ih.statement_succ level rest
      compound := fun level _ _ here rest => ih.compound_succ level here rest
      suite := fun level _ _ here rest => ih.suite_succ level here rest
      optionalSuite := fun level accept _ rest => ih.optionalSuite_succ level accept rest
      elseChain := fun level _ rest => ih.elseChain_succ level rest
      handlersOf := fun level _ rest => ih.handlersOf_succ level rest }

end AssemblesIdentified

/-- The variables in a parsed program are identifiers. -/
theorem identified_parseText (text : List Char) :
    Yields (fun m => Stmt.AllIdentified m.body) (parseText text) := by
  unfold parseText
  split
  · exact .ok trivial
  · refine (Yields.any _).bind fun lines _ => ?_
    refine (Yields.mapM fun line _ => identified_parseLine line).bind fun parsed all => ?_
    refine Yields.bind (Q := Stmt.AllIdentified) ?_ fun _ h => .ok h
    refine ((AssemblesIdentified.all _).block 0 ⟨parsed, 0⟩ all).bind ?_
    rintro ⟨stmts, r⟩ ⟨here, -⟩
    exact .ok here

end BlockEditor
