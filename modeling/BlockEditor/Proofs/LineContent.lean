import BlockEditor.Proofs.LineForm
import BlockEditor.Syntax.Line

/-!
# Contents of generated lines

What a line of generated code holds: the statement or the head of a clause that its form announces.
-/

namespace BlockEditor

/-! ## Trees that sketches show -/

namespace Sketch

variable {f : Hole → List Char}

/-- A tree shows a token if it is the token with the filled text. -/
theorem shows_token_iff {t : Token} {lexeme : Outline} {tree : LineTree} :
    Shows f (.token t lexeme) tree ↔ ∃ span, tree = .token t span (fill f lexeme) := by
  constructor
  · intro h
    cases h
    exact ⟨_, rfl⟩
  · rintro ⟨span, rfl⟩
    exact .token

/-- A tree shows a phrase if it is the phrase and its parts show the parts. -/
theorem shows_phrase_iff {p : PhraseName} {children : List Sketch} {tree : LineTree} :
    Shows f (.phrase p children) tree ↔
      ∃ span trees, tree = .phrase p span trees ∧ AllShow f children trees := by
  constructor
  · intro h
    cases h
    exact ⟨_, _, rfl, by assumption⟩
  · rintro ⟨span, trees, rfl, h⟩
    exact .phrase h

theorem allShow_nil_iff {trees : List LineTree} : AllShow f [] trees ↔ trees = [] := by
  constructor
  · intro h
    cases h
    rfl
  · rintro rfl
    exact .nil

/-- Trees show sketches one by one. -/
theorem allShow_cons_iff {s : Sketch} {sketches : List Sketch} {trees : List LineTree} :
    AllShow f (s :: sketches) trees ↔
      ∃ tree rest, trees = tree :: rest ∧ Shows f s tree ∧ AllShow f sketches rest := by
  constructor
  · intro h
    cases h
    exact ⟨_, _, rfl, by assumption, by assumption⟩
  · rintro ⟨tree, rest, rfl, first, others⟩
    exact .cons first others

/-- A phrase with a single part. -/
theorem shows_wrapped_iff {p : PhraseName} {s : Sketch} {tree : LineTree} :
    Shows f (.phrase p [s]) tree ↔ ∃ span part, tree = .phrase p span [part] ∧ Shows f s part := by
  rw [shows_phrase_iff]
  constructor
  · rintro ⟨span, trees, rfl, all⟩
    obtain ⟨part, rest, rfl, shown, others⟩ := allShow_cons_iff.1 all
    rw [allShow_nil_iff.1 others]
    exact ⟨span, part, rfl, shown⟩
  · rintro ⟨span, part, rfl, shown⟩
    exact ⟨span, [part], rfl, .cons shown .nil⟩

/-- An operation with a single operand is the operand. -/
theorem exprOf_operation (s t : Span) (atom : LineTree) (trailers : List LineTree) :
    exprOf (.phrase .operation s [.phrase .primary t (atom :: trailers)]) =
      exprOf (.phrase .primary t (atom :: trailers)) := by
  rw [exprOf, piecesOf, piecesOf]
  simp only [operatorPiece]
  cases exprOf (.phrase .primary t (atom :: trailers)) <;> rfl

/-- A value with nothing behind it is the value. -/
theorem exprOf_primary (s : Span) (atom : LineTree) :
    exprOf (.phrase .primary s [atom]) = exprOf atom := by
  rw [exprOf]
  cases exprOf atom <;> rfl

/-- An expression with a single operand is the operand. -/
theorem exprOf_operand {s t u : Span} (atom : LineTree) :
    exprOf (.phrase .expression s [.phrase .operation t [.phrase .primary u [atom]]]) =
      exprOf atom := by
  rw [exprOf, exprOf_operation, exprOf_primary]

/-- A single expression where several may stand is read as the expression. -/
theorem exprOf_single (s t : Span) (children : List LineTree) :
    exprOf (.phrase .starExpressions s [.phrase .expression t children]) =
      exprOf (.phrase .expression t children) := by
  rw [exprOf, itemsOf, itemsOf]
  · cases exprOf (.phrase .expression t children) <;> rfl
  · nofun

end Sketch

theorem fill_ofText (f : Hole → List Char) (s : String) : fill f (.ofText s) = s.toList :=
  fill_map_char f s.toList

theorem fill_hole (f : Hole → List Char) (h : Hole) : fill f [.hole h] = f h :=
  List.append_nil (f h)

/-- The tree of a negated number is read as the number under a sign. -/
theorem exprOf_negated {f : Hole → List Char} {t : Token} {lexeme : Outline} {tree : LineTree}
    {c : Constant} (value : ∀ s, exprOf (.token t s (fill f lexeme)) = .ok (.constant s c))
    (h : Sketch.Shows f (LiteralForm.negated (.token t lexeme)) tree) :
    ∃ s u, exprOf tree = .ok (.unary s .neg (.constant u c)) := by
  obtain ⟨_, _, rfl, expression⟩ := Sketch.shows_wrapped_iff.1 h
  obtain ⟨_, _, rfl, operation⟩ := Sketch.shows_wrapped_iff.1 expression
  obtain ⟨_, _, rfl, parts⟩ := Sketch.shows_phrase_iff.1 operation
  obtain ⟨_, _, rfl, sign, others⟩ := Sketch.allShow_cons_iff.1 parts
  obtain ⟨_, _, rfl, primary, none⟩ := Sketch.allShow_cons_iff.1 others
  obtain rfl := Sketch.allShow_nil_iff.1 none
  obtain ⟨u, _, rfl, minus⟩ := Sketch.shows_wrapped_iff.1 sign
  obtain ⟨_, rfl⟩ := Sketch.shows_token_iff.1 minus
  obtain ⟨_, _, rfl, number⟩ := Sketch.shows_wrapped_iff.1 primary
  obtain ⟨v, rfl⟩ := Sketch.shows_token_iff.1 number
  refine ⟨u.join v, v, ?_⟩
  rw [exprOf, exprOf, exprOf, piecesOf, piecesOf, piecesOf]
  simp only [operatorPiece, signOf, Option.map_some, Sketch.exprOf_primary, value]
  rfl

/-- The tree of a literal is read as its expression. -/
theorem LiteralForm.exprOf_sketch (f : Filling) (l : LiteralForm) {tree : LineTree}
    (h : Sketch.Shows f.text l.sketch tree) : ∃ e, exprOf tree = .ok e ∧ l.Denotes f e := by
  obtain ⟨n, readsInteger⟩ := f.isInteger.readDigits?
  obtain ⟨d, readsDecimal⟩ := f.isDecimal.readDecimal?
  have integer : ∀ s, exprOf (.token .integer s (fill f.text [.hole .integer])) =
      .ok (.constant s (naturalConstant n)) := by
    intro s
    rw [fill_hole, exprOf, Filling.text, f.isInteger.integerConstant_eq readsInteger]
    rfl
  have decimal : ∀ s, exprOf (.token .float s (fill f.text [.hole .decimal])) =
      .ok (.constant s (.float d.toFloat)) := by
    intro s
    rw [fill_hole, exprOf, Filling.text, f.isDecimal.floatConstant_eq readsDecimal]
    rfl
  cases l with
  | none =>
    obtain ⟨s, rfl⟩ := Sketch.shows_token_iff.1 h
    exact ⟨_, rfl, s, rfl⟩
  | false =>
    obtain ⟨s, rfl⟩ := Sketch.shows_token_iff.1 h
    exact ⟨_, rfl, s, rfl⟩
  | quoted =>
    obtain ⟨s, _, rfl, token⟩ := Sketch.shows_wrapped_iff.1 h
    obtain ⟨t, rfl⟩ := Sketch.shows_token_iff.1 token
    refine ⟨.constant s (.str f.quoted), ?_, s, rfl⟩
    rw [fill_hole, exprOf, ← stringExpr_encodeQuoted (.inr rfl) s f.quoted]
    rfl
  | integer =>
    obtain ⟨s, rfl⟩ := Sketch.shows_token_iff.1 h
    exact ⟨_, integer s, s, n, readsInteger, rfl⟩
  | decimal =>
    obtain ⟨s, rfl⟩ := Sketch.shows_token_iff.1 h
    exact ⟨_, decimal s, s, d, readsDecimal, rfl⟩
  | negativeInteger =>
    obtain ⟨s, u, e⟩ := exprOf_negated integer h
    exact ⟨_, e, s, u, n, readsInteger, rfl⟩
  | negativeDecimal =>
    obtain ⟨s, u, e⟩ := exprOf_negated decimal h
    exact ⟨_, e, s, u, d, readsDecimal, rfl⟩

/-! ## Contents -/

/-- What a line of a form holds. -/
def LineForm.Holds (f : Filling) : LineForm → LineContent → Prop
  | pass, c => ∃ s, c = .simple [.pass s]
  | print l, c => ∃ s t u e, c = .simple [.expr s (.call t (.name u "print") [e] [])] ∧ l.Denotes f e
  | assign l, c => ∃ s t e,
    c = .simple [.assign s [.name t (String.ofList f.name)] e] ∧ l.Denotes f e
  | branch l, c => ∃ e, c = .header (.ifHead e) none ∧ l.Denotes f e
  | loop, c => ∃ s t u e,
    c = .header (.forHead false (.name s (String.ofList f.name)) (.call t (.name u "range") [e] []))
      none ∧ LiteralForm.integer.Denotes f e
  | value l, c => ∃ s e, c = .simple [.expr s e] ∧ l.Denotes f e

namespace Sketch

/-- The tree of an operand is read as the operand. -/
theorem exprOf_shown_operand {f : Hole → List Char} {atom : Sketch} {tree : LineTree}
    (h : Shows f (operand [atom]) tree) : ∃ s children t,
      tree = .phrase .expression s children ∧ Shows f atom t ∧ exprOf tree = exprOf t := by
  obtain ⟨s, _, rfl, operation⟩ := shows_wrapped_iff.1 h
  obtain ⟨_, _, rfl, primary⟩ := shows_wrapped_iff.1 operation
  obtain ⟨_, t, rfl, shown⟩ := shows_wrapped_iff.1 primary
  exact ⟨s, _, t, rfl, shown, exprOf_operand t⟩

/-- The tree of a single expression where several may stand is read as the expression. -/
theorem exprOf_starExpressions {f : Hole → List Char} {children : List Sketch} {tree : LineTree}
    (h : Shows f (.phrase .starExpressions [.phrase .expression children]) tree) :
    ∃ t, Shows f (.phrase .expression children) t ∧ exprOf tree = exprOf t := by
  obtain ⟨s, _, rfl, expression⟩ := shows_wrapped_iff.1 h
  obtain ⟨u, trees, rfl, parts⟩ := shows_phrase_iff.1 expression
  exact ⟨.phrase .expression u trees, expression, exprOf_single s u trees⟩

/-- The tree of a call with one argument is read as the call. -/
theorem exprOf_call {f : Hole → List Char} {func : String} {arg : Sketch} {tree : LineTree}
    (h : Shows f (call func arg) tree) : ∃ t, Shows f arg t ∧ ∀ e, exprOf t = .ok e →
      ∃ s u, exprOf tree = .ok (.call s (.name u func) [e] []) := by
  obtain ⟨_, _, rfl, operation⟩ := shows_wrapped_iff.1 h
  obtain ⟨_, _, rfl, primary⟩ := shows_wrapped_iff.1 operation
  obtain ⟨_, _, rfl, parts⟩ := shows_phrase_iff.1 primary
  obtain ⟨_, _, rfl, name, others⟩ := allShow_cons_iff.1 parts
  obtain ⟨_, _, rfl, trailer, none⟩ := allShow_cons_iff.1 others
  obtain rfl := allShow_nil_iff.1 none
  obtain ⟨u, rfl⟩ := shows_token_iff.1 name
  obtain ⟨v, _, rfl, args⟩ := shows_wrapped_iff.1 trailer
  obtain ⟨w, _, rfl, operand⟩ := shows_wrapped_iff.1 args
  obtain ⟨x, children, t, rfl, shown, same⟩ := exprOf_shown_operand operand
  refine ⟨t, shown, ?_⟩
  intro e value
  have single : argumentsOf w [.phrase .expression x children] = .ok ([e], []) := by
    rw [argumentsOf, same, value]
    · rfl
    all_goals nofun
  refine ⟨u.join v, u, ?_⟩
  rw [exprOf, exprOf_operation, exprOf, exprOf, fill_ofText, String.ofList_toList]
  show trailersOf (.name u func) _ = _
  rw [trailersOf, single]
  rfl

end Sketch

/-- A list of one simple statement is the content of its line. -/
theorem lineContentOf_statement {stmt : Stmt} {tree : LineTree} (value : simpleStmtOf tree = .ok stmt)
    (s t : Span) (others : List LineTree) :
    lineContentOf (.phrase .line s (.phrase .simpleStmts t [tree] :: others)) =
      .ok (.simple [stmt]) := by
  have all : simpleStmtsOf (.phrase .simpleStmts t [tree]) = .ok [stmt] := by
    rw [simpleStmtsOf, List.mapM_cons, value]
    rfl
  rw [lineContentOf, all]
  · rfl
  all_goals nofun

/-- An assignment to a name or a target of the same kind. -/
theorem simpleStmtOf_assignment {e v : Expr} {t u : Span} {target value : List LineTree}
    (left : exprOf (.phrase .starExpressions t target) = .ok e)
    (right : exprOf (.phrase .starExpressions u value) = .ok v) (assignable : checkTarget e = .ok ())
    (s : Span) :
    simpleStmtOf (.phrase .assignmentStmt s
      [.phrase .starExpressions t target, .phrase .starExpressions u value]) =
        .ok (.assign s [e] v) := by
  rw [simpleStmtOf, assignmentOf]
  · rw [left, exprsOf, List.mapM_cons, right]
    show (checkTargets [e] >>= fun _ => _) = _
    rw [checkTargets, assignable]
    rfl
  all_goals nofun

/-- A simple statement fills a line. -/
theorem lineContentOf_simple {f : Hole → List Char} {statement last : Sketch} {tree : LineTree}
    (h : Sketch.Shows f (.phrase .line [LineForm.simple statement, last]) tree) :
    ∃ t, Sketch.Shows f statement t ∧ ∀ s, simpleStmtOf t = .ok s →
      lineContentOf tree = .ok (.simple [s]) := by
  obtain ⟨_, _, rfl, parts⟩ := Sketch.shows_phrase_iff.1 h
  obtain ⟨_, _, rfl, simple, others⟩ := Sketch.allShow_cons_iff.1 parts
  obtain ⟨u, t, rfl, shown⟩ := Sketch.shows_wrapped_iff.1 simple
  exact ⟨t, shown, fun s value => lineContentOf_statement value _ u _⟩

/-- The head of a clause fills a line. -/
theorem lineContentOf_header {f : Hole → List Char} {head last : Sketch} {tree : LineTree}
    (h : Sketch.Shows f (.phrase .line [.phrase .compoundHeader [head], last]) tree) :
    ∃ t, Sketch.Shows f head t ∧ ∀ c, clauseHeadOf t = .ok c →
      lineContentOf tree = .ok (.header c none) := by
  obtain ⟨_, _, rfl, parts⟩ := Sketch.shows_phrase_iff.1 h
  obtain ⟨_, _, rfl, header, others⟩ := Sketch.allShow_cons_iff.1 parts
  obtain ⟨u, t, rfl, shown⟩ := Sketch.shows_wrapped_iff.1 header
  refine ⟨t, shown, ?_⟩
  intro c value
  rw [lineContentOf, value]
  rfl

/-- An expression statement of a tree. -/
theorem simpleStmtOf_value {f : Hole → List Char} {children : List Sketch} {tree : LineTree}
    (h : Sketch.Shows f
      (.phrase .assignmentStmt [.phrase .starExpressions [.phrase .expression children]]) tree) :
    ∃ t, Sketch.Shows f (.phrase .expression children) t ∧ ∀ e, exprOf t = .ok e →
      ∃ s, simpleStmtOf tree = .ok (.expr s e) := by
  obtain ⟨s, _, rfl, value⟩ := Sketch.shows_wrapped_iff.1 h
  obtain ⟨t, shown, same⟩ := Sketch.exprOf_starExpressions value
  refine ⟨t, shown, ?_⟩
  intro e reads
  refine ⟨s, ?_⟩
  rw [simpleStmtOf, assignmentOf, same, reads]
  rfl

/-- A phrase that is an identifier is read as its name. -/
theorem exprOf_name {f : Filling} {tree : LineTree}
    (h : Sketch.Shows f.text (.name [.hole .name]) tree) :
    ∃ s, exprOf tree = .ok (.name s (String.ofList f.name)) := by
  obtain ⟨s, rfl⟩ := Sketch.shows_token_iff.1 h
  exact ⟨s, by rw [fill_hole]; rfl⟩

/-- A target that is a name is read as the name. -/
theorem exprOf_target {f : Filling} {tree : LineTree}
    (h : Sketch.Shows f.text (.phrase .targetList [.phrase .primary [.name [.hole .name]]]) tree) :
    ∃ s, exprOf tree = .ok (.name s (String.ofList f.name)) := by
  obtain ⟨_, _, rfl, primary⟩ := Sketch.shows_wrapped_iff.1 h
  obtain ⟨u, atom, rfl, shownName⟩ := Sketch.shows_wrapped_iff.1 primary
  obtain ⟨s, reads⟩ := exprOf_name shownName
  refine ⟨s, ?_⟩
  rw [exprOf, itemsOf, itemsOf, Sketch.exprOf_primary, reads]
  · rfl
  · nofun

/-! ## Forms of lines -/

section Forms

variable {f : Filling} {l : LiteralForm} {tree : LineTree}

/-- The tree of an assignment of a literal to a name. -/
theorem simpleStmtOf_assign (h : Sketch.Shows f.text (.phrase .assignmentStmt
      [.phrase .starExpressions [.operand [.name [.hole .name]]],
        .phrase .starExpressions [.operand [l.sketch]]]) tree) :
    ∃ s u e, simpleStmtOf tree = .ok (.assign s [.name u (String.ofList f.name)] e) ∧
      l.Denotes f e := by
  obtain ⟨s, _, rfl, parts⟩ := Sketch.shows_phrase_iff.1 h
  obtain ⟨target, _, rfl, shownTarget, others⟩ := Sketch.allShow_cons_iff.1 parts
  obtain ⟨value, _, rfl, shownValue, none⟩ := Sketch.allShow_cons_iff.1 others
  obtain rfl := Sketch.allShow_nil_iff.1 none
  obtain ⟨t₁, expression₁, same₁⟩ := Sketch.exprOf_starExpressions shownTarget
  obtain ⟨_, _, name, -, shownName, sameName⟩ := Sketch.exprOf_shown_operand expression₁
  obtain ⟨u, readName⟩ := exprOf_name shownName
  obtain ⟨t₂, expression₂, same₂⟩ := Sketch.exprOf_starExpressions shownValue
  obtain ⟨_, _, literal, -, shownLiteral, sameLiteral⟩ := Sketch.exprOf_shown_operand expression₂
  obtain ⟨e, readLiteral, denotes⟩ := l.exprOf_sketch f shownLiteral
  have readsTarget : exprOf target = .ok (.name u (String.ofList f.name)) := by
    rw [same₁, sameName, readName]
  have readsValue : exprOf value = .ok e := by
    rw [same₂, sameLiteral, readLiteral]
  refine ⟨s, u, e, ?_, denotes⟩
  -- both sides are phrases, so neither an operator nor a type stands between them
  obtain ⟨_, _, rfl, -⟩ := Sketch.shows_phrase_iff.1 shownTarget
  obtain ⟨_, _, rfl, -⟩ := Sketch.shows_phrase_iff.1 shownValue
  exact simpleStmtOf_assignment readsTarget readsValue rfl s

/-- The tree of the head of a branch on a literal. -/
theorem clauseHeadOf_branch (h : Sketch.Shows f.text (.phrase .ifHead
      [.token (.word .ifWord) (Outline.ofText "if"), .operand [l.sketch]]) tree) :
    ∃ e, clauseHeadOf tree = .ok (.ifHead e) ∧ l.Denotes f e := by
  obtain ⟨s, _, rfl, parts⟩ := Sketch.shows_phrase_iff.1 h
  obtain ⟨word, _, rfl, -, others⟩ := Sketch.allShow_cons_iff.1 parts
  obtain ⟨test, _, rfl, shownTest, none⟩ := Sketch.allShow_cons_iff.1 others
  obtain rfl := Sketch.allShow_nil_iff.1 none
  obtain ⟨_, _, literal, -, shownLiteral, same⟩ := Sketch.exprOf_shown_operand shownTest
  obtain ⟨e, readLiteral, denotes⟩ := l.exprOf_sketch f shownLiteral
  refine ⟨e, ?_, denotes⟩
  rw [clauseHeadOf, same, readLiteral]
  rfl

/-- The tree of the head of a loop over a range of digits. -/
theorem clauseHeadOf_loop (h : Sketch.Shows f.text (.phrase .forHead
      [.token (.word .forWord) (Outline.ofText "for"),
        .phrase .targetList [.phrase .primary [.name [.hole .name]]],
        .token (.word .inWord) (Outline.ofText "in"),
        .phrase .starExpressions [.call "range" (.token .integer [.hole .integer])]]) tree) :
    ∃ s t u e, clauseHeadOf tree = .ok (.forHead false (.name s (String.ofList f.name))
      (.call t (.name u "range") [e] [])) ∧ LiteralForm.integer.Denotes f e := by
  obtain ⟨s, _, rfl, parts⟩ := Sketch.shows_phrase_iff.1 h
  obtain ⟨forWord, _, rfl, shownFor, parts₁⟩ := Sketch.allShow_cons_iff.1 parts
  obtain ⟨targets, _, rfl, shownTargets, parts₂⟩ := Sketch.allShow_cons_iff.1 parts₁
  obtain ⟨inWord, _, rfl, shownIn, parts₃⟩ := Sketch.allShow_cons_iff.1 parts₂
  obtain ⟨iter, _, rfl, shownIter, none⟩ := Sketch.allShow_cons_iff.1 parts₃
  obtain rfl := Sketch.allShow_nil_iff.1 none
  obtain ⟨_, rfl⟩ := Sketch.shows_token_iff.1 shownFor
  obtain ⟨_, rfl⟩ := Sketch.shows_token_iff.1 shownIn
  obtain ⟨u, readTarget⟩ := exprOf_target shownTargets
  obtain ⟨callee, shownCall, sameCall⟩ := Sketch.exprOf_starExpressions shownIter
  obtain ⟨arg, shownArg, readCall⟩ := Sketch.exprOf_call shownCall
  obtain ⟨e, readArg, denotes⟩ := LiteralForm.integer.exprOf_sketch f shownArg
  obtain ⟨v, w, readsCall⟩ := readCall e readArg
  -- the words in front of the target are dropped, and the target is no word
  obtain ⟨_, _, rfl, -⟩ := Sketch.shows_phrase_iff.1 shownTargets
  obtain ⟨_, _, rfl, -⟩ := Sketch.shows_phrase_iff.1 shownIter
  refine ⟨u, v, w, e, ?_, denotes⟩
  rw [clauseHeadOf]
  simp only [dropWords, readTarget, sameCall, readsCall]
  rfl

end Forms

namespace LineForm

/-- The tree of a line is read as what its form announces. -/
theorem lineContentOf_sketch (f : Filling) (l : LineForm) {tree : LineTree}
    (h : Sketch.Shows f.text l.sketch tree) :
    ∃ c, lineContentOf tree = .ok c ∧ l.Holds f c := by
  cases l with
  | pass =>
    obtain ⟨t, shown, read⟩ := lineContentOf_simple h
    obtain ⟨s, _, rfl, -⟩ := Sketch.shows_phrase_iff.1 shown
    exact ⟨_, read _ rfl, s, rfl⟩
  | print l =>
    obtain ⟨t, shown, read⟩ := lineContentOf_simple h
    obtain ⟨callee, shownCall, readValue⟩ := simpleStmtOf_value shown
    obtain ⟨arg, shownArg, readCall⟩ := Sketch.exprOf_call shownCall
    obtain ⟨e, readArg, denotes⟩ := l.exprOf_sketch f shownArg
    obtain ⟨u, v, readsCall⟩ := readCall e readArg
    obtain ⟨s, reads⟩ := readValue _ readsCall
    exact ⟨_, read _ reads, s, u, v, e, rfl, denotes⟩
  | assign l =>
    obtain ⟨t, shown, read⟩ := lineContentOf_simple h
    obtain ⟨s, u, e, reads, denotes⟩ := simpleStmtOf_assign shown
    exact ⟨_, read _ reads, s, u, e, rfl, denotes⟩
  | branch l =>
    obtain ⟨t, shown, read⟩ := lineContentOf_header h
    obtain ⟨e, reads, denotes⟩ := clauseHeadOf_branch shown
    exact ⟨_, read _ reads, e, rfl, denotes⟩
  | loop =>
    obtain ⟨t, shown, read⟩ := lineContentOf_header h
    obtain ⟨s, u, v, e, reads, denotes⟩ := clauseHeadOf_loop shown
    exact ⟨_, read _ reads, s, u, v, e, rfl, denotes⟩
  | value l =>
    obtain ⟨t, shown, read⟩ := lineContentOf_simple h
    obtain ⟨value, shownValue, readValue⟩ := simpleStmtOf_value shown
    obtain ⟨_, _, literal, -, shownLiteral, same⟩ := Sketch.exprOf_shown_operand shownValue
    obtain ⟨e, readLiteral, denotes⟩ := l.exprOf_sketch f shownLiteral
    obtain ⟨s, reads⟩ := readValue e (by rw [same, readLiteral])
    exact ⟨_, read _ reads, s, e, rfl, denotes⟩

/-- A line of a form is read, and holds what the form announces. -/
theorem parseLine_fill (f : Filling) (l : LineForm) {line : LogicalLine}
    (text : line.text = fill f.text l.outline) :
    ∃ c, parseLine line = .ok ⟨line.indent, line.span, c⟩ ∧ l.Holds f c := by
  have deep : phraseDepth ≤ phraseDepth * (line.text.length + 1) := Nat.le_mul_of_pos_right _ (by omega)
  have forecast := foreseePhrase_holds f.fitting (line.text.length + 1) deep .line l.outline
  rw [l.foreseePhrase_outline] at forecast
  obtain ⟨offset, trees, a, reads, shown⟩ := forecast line.start ⟨line.start, []⟩
  obtain ⟨tree, _, rfl, shownLine, none⟩ := Sketch.allShow_cons_iff.1 shown
  obtain rfl := Sketch.allShow_nil_iff.1 none
  obtain ⟨c, content, holds⟩ := lineContentOf_sketch f l shownLine
  have reply : replyContent (readLine line.text line.start) = .ok c := by
    rw [← text] at reads
    simp only [readLine, reads, replyContent, content]
  exact ⟨c, by rw [parseLine, reply]; rfl, holds⟩

end LineForm

end BlockEditor
