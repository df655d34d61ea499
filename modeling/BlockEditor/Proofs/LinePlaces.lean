import BlockEditor.Proofs.ExprPlaces
import BlockEditor.Proofs.Names

/-!
# Places of statements in a line

What is read from a logical line lies in the span of the line, and the statements in it stand one
behind the other.
-/

namespace BlockEditor

/-! ## Placed statements -/

/-- The expressions directly inside a statement, those of handlers aside. -/
def Stmt.exprs : Stmt → List Expr
  | .expr _ value => [value]
  | .assign _ targets value => targets ++ [value]
  | .augAssign _ target _ value => [target, value]
  | .annAssign _ target typeHint value => target :: typeHint :: value.toList
  | .branch _ test .. | .whileLoop _ test .. => [test]
  | .forLoop _ _ target iter .. => [target, iter]
  | .functionDef _ _ _ _ _ decorators => decorators
  | .classDef _ _ bases _ decorators => bases ++ decorators
  | .withBlock _ _ items _ => items
  | .returnValue _ value | .raise _ value => value.toList
  | .assert _ test message => test :: message.toList
  | .delete _ targets => targets
  | .tryBlock .. | .globalNames .. | .importNames .. | .importFrom .. => []
  | .pass _ | .breakLoop _ | .continueLoop _ => []

/-- The `except` clauses of a statement. -/
def Stmt.handlers : Stmt → List (Handler Stmt)
  | .tryBlock _ _ handlers _ _ => handlers
  | _ => []

/-- The statements directly inside a statement: those of its parts, in the order of the source. -/
def Stmt.inner : Stmt → List Stmt
  | .branch _ _ body orelse | .whileLoop _ _ body orelse => body ++ orelse
  | .forLoop _ _ _ _ body orelse => body ++ orelse
  | .functionDef _ _ _ _ body _ | .classDef _ _ _ body _ | .withBlock _ _ _ body => body
  | .tryBlock _ body handlers orelse finalbody =>
    body ++ (handlers.flatMap Handler.body ++ (orelse ++ finalbody))
  | _ => []

/-- An `except` clause covers some of a source, and what is inside it lies there in order. -/
structure Handler.Placed (source : List Char) (h : Handler Stmt) : Prop where
  covers : h.span.Covers source
  kind : AllLie source h.span h.kind.toList
  body : Laid Stmt.span h.span.start h.span.stop h.body

/-- A statement covers some of a source, and what is inside it lies there in order. -/
inductive Stmt.Placed (source : List Char) : Stmt → Prop
  | intro {s : Stmt} : s.span.Covers source → AllLie source s.span s.exprs →
      (∀ h ∈ s.handlers, h.Placed source ∧ h.span.Within s.span) →
      Laid Stmt.span s.span.start s.span.stop s.inner → (∀ t ∈ s.inner, Placed source t) →
      Placed source s

/-- A placed statement covers some of the source. -/
theorem Stmt.Placed.covers {source : List Char} {s : Stmt} (h : s.Placed source) :
    s.span.Covers source := by
  cases h with
  | intro covers _ _ _ _ => exact covers

/-- Placed statements stand one behind the other between two offsets. -/
structure AllPlaced (source : List Char) (low high : Nat) (stmts : List Stmt) : Prop where
  laid : Laid Stmt.span low high stmts
  placed : ∀ s ∈ stmts, s.Placed source

namespace AllPlaced

variable {source : List Char} {low mid high low' high' : Nat} {stmts more : List Stmt}

theorem nil (le : low ≤ high) : AllPlaced source low high [] :=
  ⟨.nil le, List.forall_mem_nil _⟩

/-- Placed statements side by side are placed together. -/
theorem append (front : AllPlaced source low mid stmts) (back : AllPlaced source mid high more) :
    AllPlaced source low high (stmts ++ more) :=
  ⟨front.laid.append back.laid, List.forall_mem_append.2 ⟨front.placed, back.placed⟩⟩

/-- Statements that were put together stand on either side of some offset. -/
theorem split (h : AllPlaced source low high (stmts ++ more)) :
    ∃ mid, AllPlaced source low mid stmts ∧ AllPlaced source mid high more := by
  obtain ⟨mid, front, back⟩ := h.laid.split
  obtain ⟨first, second⟩ := List.forall_mem_append.1 h.placed
  exact ⟨mid, ⟨front, first⟩, back, second⟩

/-- Placed statements stand in any wider region. -/
theorem mono (h : AllPlaced source low high stmts) (lower : low' ≤ low) (higher : high ≤ high') :
    AllPlaced source low' high' stmts := ⟨h.laid.mono lower higher, h.placed⟩

end AllPlaced

variable {source : List Char} {s : Span}

/-- A statement without statements inside. -/
theorem Stmt.Placed.simple {stmt : Stmt} (covers : stmt.span.Covers source)
    (exprs : AllLie source stmt.span stmt.exprs) (handlers : stmt.handlers = [])
    (inner : stmt.inner = []) : stmt.Placed source := by
  refine .intro covers exprs ?_ ?_ ?_
  · simp [handlers]
  · rw [inner]
    exact .nil (Nat.le_of_lt covers.2.2)
  · simp [inner]

/-! ## Simple statements -/

/-- The first expression among trees lies where they do. -/
theorem lies_firstExprOf {region : Span} {trees : List LineTree} (all : AllRead source region trees) :
    Meets (ParseFault source) (fun e => AllLie source region e.toList) (firstExprOf trees) := by
  cases trees with
  | nil => exact AllLie.nil
  | cons tree trees => exact all.head.map fun _ here => AllLie.cons here .nil

theorem lies_exprsOf {region : Span} {trees : List LineTree} (all : AllRead source region trees) :
    Meets (ParseFault source) (AllLie source region) (exprsOf trees) :=
  Meets.mapM_all fun _ member => all.expr member

/-- A target that an operator cannot assign to is refused at its place. -/
theorem meets_checkAugTarget {e : Expr} (h : e.Placed source) :
    Meets (ParseFault source) (fun _ => True) (checkAugTarget e) := by
  unfold checkAugTarget
  split
  · trivial
  · trivial
  · trivial
  · exact ⟨rfl, h.covers.within⟩

/-- A statement that a tree makes is placed and has the span of the tree. -/
def Stmt.TakesPlace (source : List Char) (s : Span) (stmt : Stmt) : Prop :=
  stmt.Placed source ∧ stmt.span = s

/-- An assignment is placed, and refused targets are reported at theirs. -/
theorem placed_assignmentOf {trees : List LineTree} (covers : s.Covers source)
    (all : AllRead source s trees) :
    Meets (ParseFault source) (Stmt.TakesPlace source s) (assignmentOf s trees) := by
  have made : ∀ {stmt : Stmt}, stmt.span = s → AllLie source s stmt.exprs → stmt.handlers = [] →
      stmt.inner = [] → stmt.TakesPlace source s := by
    rintro stmt rfl exprs handlers inner
    exact ⟨.simple covers exprs handlers inner, rfl⟩
  unfold assignmentOf
  split
  · exact meets_unexpected covers.within
  · exact all.head.map fun value here => made rfl (.cons here .nil) rfl rfl
  · refine all.head.bind fun target first => ?_
    refine all.tail.tail.head.bind fun value second => ?_
    refine (meets_checkAugTarget first.1).bind fun _ _ => ?_
    exact made rfl (.cons first (.cons second .nil)) rfl rfl
  · refine all.head.bind fun target first => ?_
    refine first.1.meets_checkTarget.bind fun _ _ => ?_
    refine all.tail.inner.head.bind fun typeHint second => ?_
    refine (lies_firstExprOf all.tail.tail).bind fun value third => ?_
    exact made rfl (.cons first (.cons second third)) rfl rfl
  · refine all.head.bind fun first here => ?_
    refine (lies_exprsOf all.tail).bind fun rest others => ?_
    have lie : AllLie source s (first :: rest) := .cons here others
    refine (meets_checkTargets fun e member => ?_).bind fun _ _ => ?_
    · exact (lie e (List.dropLast_subset _ member)).1.meets_checkTarget
    · refine made rfl (AllLie.append ?_ (.cons ?_ .nil)) rfl rfl
      · exact fun e member => lie e (List.dropLast_subset _ member)
      · rw [List.getLastD_cons]
        cases e : rest.getLast? with
        | none => simpa [List.getLastD_eq_getLast?, e] using here
        | some last =>
          simpa [List.getLastD_eq_getLast?, e] using others last (List.mem_of_getLast? e)

/-- A simple statement stands where its tree does. -/
theorem placed_simpleStmtOf {tree : LineTree} (reads : tree.Reads source) :
    Meets (ParseFault source) (Stmt.TakesPlace source tree.span) (simpleStmtOf tree) := by
  have made : ∀ {stmt : Stmt}, stmt.span.Covers source → AllLie source stmt.span stmt.exprs →
      stmt.handlers = [] → stmt.inner = [] → stmt.TakesPlace source stmt.span :=
    fun covers exprs handlers inner => ⟨.simple covers exprs handlers inner, rfl⟩
  unfold simpleStmtOf
  split
  · exact made reads.stands.phrase_covers .nil rfl rfl
  · exact made reads.stands.phrase_covers .nil rfl rfl
  · exact made reads.stands.phrase_covers .nil rfl rfl
  · exact (lies_firstExprOf reads.inside.tail).map fun value here =>
      made reads.stands.phrase_covers here rfl rfl
  · exact (lies_firstExprOf reads.inside.tail).map fun value here =>
      made reads.stands.phrase_covers here rfl rfl
  · refine reads.inside.tail.head.bind fun test first => ?_
    refine (lies_firstExprOf reads.inside.tail.tail).bind fun message second => ?_
    exact made reads.stands.phrase_covers (.cons first second) rfl rfl
  · rename_i span _ _
    refine reads.inside.tail.head.bind fun e here => ?_
    have targets : AllLie source span (deleteTargets e) := by
      unfold deleteTargets
      split
      · exact here.1.children.mono here.2
      · exact .cons here .nil
    refine (meets_checkTargets fun c member => (targets c member).1.meets_checkTarget).bind fun _ _ => ?_
    exact made reads.stands.phrase_covers targets rfl rfl
  · exact made reads.stands.phrase_covers .nil rfl rfl
  · exact made reads.stands.phrase_covers .nil rfl rfl
  · exact made reads.stands.phrase_covers .nil rfl rfl
  · exact reads.inside.head.map fun value here =>
      made reads.stands.phrase_covers (.cons here .nil) rfl rfl
  · exact placed_assignmentOf reads.stands.phrase_covers reads.inside
  · exact meets_unexpected reads.stands.span_in

/-- The statements of a line stand where their trees do. -/
theorem placed_simpleStmtsOf {tree : LineTree} (reads : tree.Reads source) :
    Meets (ParseFault source) (AllPlaced source tree.span.start tree.span.stop)
      (simpleStmtsOf tree) := by
  unfold simpleStmtsOf
  split
  · rename_i span children
    have each := Meets.mapM fun child member =>
      placed_simpleStmtOf (reads.inside child member).1
    refine each.mono fun stmts made => ⟨?_, ?_⟩
    · exact reads.stands.laid.forall₂ (made.imp fun _ _ h => h.2)
    · exact forall_of_forall₂ made fun _ _ h => h.1
  · exact meets_unexpected reads.stands.span_in

/-! ## Clause heads -/

/-- The expressions in the head of a clause. -/
def ClauseHead.exprs : ClauseHead → List Expr
  | .ifHead test | .elifHead test | .whileHead test => [test]
  | .forHead _ target iter => [target, iter]
  | .classHead _ bases => bases
  | .exceptHead kind _ => kind.toList
  | .withHead _ items => items
  | .elseHead | .defHead .. | .tryHead | .finallyHead => []

/-- The trees behind the leading words lie where all of them do. -/
theorem AllRead.dropWords {region : Span} {trees : List LineTree} (all : AllRead source region trees) :
    AllRead source region (dropWords trees) :=
  fun tree member => all tree (mem_of_mem_dropWords member)

/-- The bases of a class lie where their trees do. -/
theorem lies_basesOf {region : Span} {trees : List LineTree} (all : AllRead source region trees) :
    Meets (ParseFault source) (AllLie source region) (basesOf trees) := by
  unfold basesOf
  split
  · obtain ⟨reads, within⟩ := all _ List.mem_cons_self
    exact (lies_argumentsOf reads.stands.phrase_covers reads.inside).map fun x lie =>
      lie.1.mono within
  · exact AllLie.nil

/-- An item of a `with` statement lies where its tree does. -/
theorem lies_withItemOf {region : Span} {tree : LineTree} (reads : tree.Reads source)
    (within : tree.span.Within region) :
    Meets (ParseFault source) (Expr.Lies source region) (withItemOf tree) := by
  unfold withItemOf
  split
  · exact reads.inside.head.mono fun e here => here.mono within
  · exact meets_unexpected reads.stands.span_in

/-- The expressions in the head of a clause lie in its tree. -/
theorem lies_clauseHeadOf {tree : LineTree} (reads : tree.Reads source) :
    Meets (ParseFault source) (fun head => AllLie source tree.span head.exprs)
      (clauseHeadOf tree) := by
  unfold clauseHeadOf
  split
  · exact reads.inside.tail.head.map fun test here => .cons here .nil
  · exact reads.inside.tail.head.map fun test here => .cons here .nil
  · exact AllLie.nil
  · exact reads.inside.tail.head.map fun test here => .cons here .nil
  · split
    · rename_i words
      have all := reads.inside.dropWords
      rw [words] at all
      refine all.head.bind fun target first => ?_
      refine first.1.meets_checkTarget.bind fun _ _ => ?_
      exact all.tail.tail.head.bind fun iter second => AllLie.cons first (.cons second .nil)
    · exact meets_unexpected reads.stands.span_in
  · split
    · exact AllLie.nil
    · exact meets_unexpected reads.stands.span_in
  · exact (lies_basesOf reads.inside.tail.tail).map fun bases lie => lie
  · exact AllLie.nil
  · exact (lies_firstExprOf reads.inside.tail).bind fun kind lie => lie
  · exact AllLie.nil
  · refine (Meets.mapM_all fun tree member => ?_).bind fun items lie => lie
    obtain ⟨item, within⟩ := reads.inside.dropWords tree member
    exact lies_withItemOf item within
  · exact meets_unexpected reads.stands.span_in

/-! ## Lines -/

/-- What a line holds lies in its span. -/
def LineContent.Placed (source : List Char) (s : Span) : LineContent → Prop
  | .simple stmts => AllPlaced source s.start s.stop stmts
  | .decorator e => e.Lies source s
  | .header head inline =>
    AllLie source s head.exprs ∧ ∀ stmts ∈ inline, AllPlaced source s.start s.stop stmts

/-- A line that was read covers some of a source, and what it holds lies there. -/
structure ParsedLine.Placed (source : List Char) (line : ParsedLine) : Prop where
  covers : line.span.Covers source
  content : line.content.Placed source line.span

/-- What a line holds lies in any wider region. -/
theorem LineContent.Placed.mono {content : LineContent} {region : Span}
    (h : content.Placed source s) (inside : s.Within region) : content.Placed source region := by
  cases content with
  | simple stmts => exact AllPlaced.mono h inside.1 inside.2
  | decorator e => exact Expr.Lies.mono h inside
  | header head inline =>
    exact ⟨h.1.mono inside, fun stmts member => (h.2 stmts member).mono inside.1 inside.2⟩

/-- What is made of the tree of a line is placed in its span. -/
theorem placed_lineContentOf {tree : LineTree} (reads : tree.Reads source) :
    Meets (ParseFault source) (LineContent.Placed source tree.span) (lineContentOf tree) := by
  unfold lineContentOf
  split
  · exact reads.inside.inner.head.map fun value here => here
  · obtain ⟨header, within⟩ := reads.inside _ List.mem_cons_self
    obtain ⟨head, place⟩ := header.inside _ List.mem_cons_self
    refine (lies_clauseHeadOf head).bind fun head lie => ?_
    exact ⟨lie.mono (place.trans within), nofun⟩
  · obtain ⟨header, within⟩ := reads.inside _ List.mem_cons_self
    obtain ⟨head, place⟩ := header.inside _ List.mem_cons_self
    obtain ⟨below, placeBelow⟩ := header.inside.tail _ List.mem_cons_self
    refine (lies_clauseHeadOf head).bind fun head lie => ?_
    refine (placed_simpleStmtsOf below).bind fun stmts placed => ?_
    refine ⟨lie.mono (place.trans within), ?_⟩
    rintro _ ⟨⟩
    have inside := placeBelow.trans within
    exact placed.mono inside.1 inside.2
  · obtain ⟨stmts, within⟩ := reads.inside _ List.mem_cons_self
    exact (placed_simpleStmtsOf stmts).map fun made placed => placed.mono within.1 within.2
  · exact meets_unexpected reads.stands.span_in

/-- A line that does not match the grammar is refused where an attempt failed. -/
theorem parseFault_attemptsFault {a : Attempts Token PhraseName}
    (tried : Text.IsBoundary source a.offset) : ParseFault source (attemptsFault a) :=
  ⟨rfl, Span.point_in tried⟩

/-- A logical line that stands in a source is read as a placed line with the same span. -/
theorem placed_parseLine {line : LogicalLine} (stands : line.Stands source) :
    Meets (ParseFault source) (fun parsed => parsed.Placed source ∧ parsed.span = line.span)
      (parseLine line) := by
  have reply := stands_readLine stands
  unfold parseLine replyContent
  cases e : readLine line.text line.start with
  | fail a =>
    rw [e] at reply
    exact parseFault_attemptsFault reply
  | done c trees a =>
    rw [e] at reply
    obtain ⟨tried, place, moves, laid, all⟩ := reply
    match trees with
    | [] | _ :: _ :: _ => exact parseFault_attemptsFault tried
    | [tree] =>
      -- the line covers some of the source, since the tree in it takes something
      have inside : tree.span.Within line.span :=
        (laid.within tree List.mem_cons_self).trans ⟨Nat.le_refl _, place.le_stop⟩
      have covers : line.span.Covers source :=
        ⟨stands.start, stands.stop, Nat.lt_of_lt_of_le (moves rfl) place.le_stop⟩
      have reads := reads_of_stands (all tree List.mem_cons_self)
      exact (placed_lineContentOf reads).map fun content placed => ⟨⟨covers, placed.mono inside⟩, rfl⟩

end BlockEditor
