import BlockEditor.Proofs.Layout
import BlockEditor.Proofs.ReadFormulas
import BlockEditor.Syntax.Moved
import BlockEditor.Syntax.Parse

/-!
# Assignments

The assignment of a text to a name is a single line, which is parsed as an assignment of what the
grammar reads from the text.  What the text must be for this is what the layout pass and the grammar
say about it alone.
-/

namespace BlockEditor

open LineGrammar

/-- The text of an assignment to a name. -/
def Identifier.assign (target : Identifier) (text : List Char) : List Char :=
  target.val ++ (" = ".toList ++ text)

/-- Between the name and the text stand a space, an equals sign and a space. -/
theorem Identifier.length_assign (target : Identifier) (text : List Char) :
    (target.assign text).length = (Formula.name target).text.length + (3 + text.length) := by
  rw [assign, List.length_append, List.length_append]
  rfl

/-! ## One line -/

/-- A text ends with a character that is no blank. -/
def EndsVisibly (cs : List Char) : Prop := ∃ c, cs.getLast? = some c ∧ c ≠ ' '

/-- What stands in front does not matter to how a text ends. -/
theorem EndsVisibly.append {b : List Char} (h : EndsVisibly b) (a : List Char) :
    EndsVisibly (a ++ b) := by
  obtain ⟨c, last, visible⟩ := h
  exact ⟨c, by rw [List.getLast?_append, last]; rfl, visible⟩

/-- The layout pass takes a text in a line as it is. -/
def StaysInLine (text : List Char) : Prop :=
  ∀ s before, InBrackets s 0 before [] [] →
    ∃ s', Takes s text [] s' ∧ InBrackets s' 0 (before ++ text) [] []

/-- An assignment of a text that stays in its line is a single line. -/
theorem Identifier.logicalLines_assign (target : Identifier) {text : List Char}
    (stays : StaysInLine text) (ends : EndsVisibly text) :
    ∃ line, logicalLines (target.assign text) = .ok [line] ∧ line.indent = 0 ∧
      line.text = target.assign text := by
  have start : InBrackets ⟨0, 0, some ⟨0, 0, [], []⟩, []⟩ 0 [] [] [] := ⟨0, 0, 0, [], rfl, rfl⟩
  -- the pass takes the name, the sign between blanks and the text, one after the other
  obtain ⟨s₁, take₁, line₁⟩ : ∃ s, Takes _ target.val (" = ".toList ++ text ++ []) s ∧ _ :=
    start.keepAll target.val target.property.plain
  obtain ⟨s₂, take₂, line₂⟩ : ∃ s, Takes s₁ [' '] ("= ".toList ++ text ++ []) s ∧ _ :=
    line₁.keep (.inr (.inl rfl)) rfl
  obtain ⟨s₃, take₃, line₃⟩ : ∃ s, Takes s₂ ['='] (" ".toList ++ text ++ []) s ∧ _ :=
    line₂.keep (.inl rfl) rfl
  obtain ⟨s₄, take₄, line₄⟩ : ∃ s, Takes s₃ [' '] (text ++ []) s ∧ _ :=
    line₃.keep (.inr (.inl rfl)) rfl
  obtain ⟨s, take, line⟩ := stays s₄ _ line₄
  have taken : Takes _ (target.assign text) [] s :=
    take₁.append (take₂.append (take₃.append (take₄.append take)))
  have whole : InBrackets s 0 (target.assign text) [] [] := by
    simpa [assign] using line
  have begun : Takes .initial (target.assign text) [] s := by
    obtain ⟨c, tail, e, start⟩ := target.property.fits.starts
    rw [assign, e] at taken ⊢
    exact takes_begin start.isVisible taken
  have shown : ∀ c ∈ (target.assign text).getLast?, c ≠ ' ' := by
    obtain ⟨c, last, visible⟩ := (ends.append " = ".toList).append target.val
    intro d same
    obtain rfl : c = d := Option.some.inj (last.symm.trans same)
    exact visible
  obtain ⟨done, finish, indent, text⟩ := InLine.finish whole shown
  exact ⟨done, begun.logicalLines.trans finish, indent, text⟩

/-! ## One statement -/

/-- The grammar reads a text where a value is assigned, up to its end. -/
structure IsAssigned (text : List Char) (P : Expr → Prop) : Prop where
  /-- it begins with no blank -/
  start : skipBlanks text = text
  /-- it begins with nothing that would make a comparison of the equals sign -/
  noSign : ∀ c ∈ text.head?, c ≠ '='
  noYield : ∀ limit fuel, LineExpr.outcome limit fuel (ref .yieldExpr) text = none
  /-- it is read to its end as one expression, within what a line allows -/
  reads : ∀ limit fuel, text.length ≤ limit → 4 * (text.length + 1) ≤ fuel → ∃ children e,
    LineExpr.outcome limit (fuel + 1) (ref .starExpressions) text =
        some ([], [.phrase .starExpressions .none children]) ∧
      exprOf (.phrase .starExpressions .none children) = .ok e ∧ P e

section Reading

variable {text : List Char} {P : Expr → Prop} {limit fuel : Nat}

/-- An equals sign is read in front of a text, with the text as its value. -/
theorem IsAssigned.outcome_value (h : IsAssigned text P) (few : text.length ≤ limit)
    (enough : 4 * (text.length + 1) ≤ fuel) :
    ∃ children e, LineExpr.outcome limit (fuel + 1) (equals ++ assignedValue)
        ('=' :: ' ' :: text) = some ([], [.phrase .starExpressions .none children]) ∧
      exprOf (.phrase .starExpressions .none children) = .ok e ∧ P e := by
  obtain ⟨children, e, taken, value⟩ := h.reads limit fuel few enough
  refine ⟨children, e, ?_, value⟩
  have sign : equals.outcome limit (fuel + 1) ('=' :: ' ' :: text) = some (text, []) := by
    have first : LineExpr.outcome limit (fuel + 1) (Peg.lit "=") ('=' :: ' ' :: text) =
        some (' ' :: text, []) := rfl
    have single : (Pattern.lit "=").scan text = none := by
      show (Text.dropLead ['='] text).map _ = none
      rw [dropLead_eq_none_of_head h.noSign]
      rfl
    have behind : LineExpr.outcome limit (fuel + 1) (.absent (.lit "=")) text =
        some (text, []) := by
      rw [LineExpr.outcome, Peg.outcome, single]
      rfl
    rw [equals, outcome_seq first, show skipBlanks (' ' :: text) = text from h.start, behind]
    rfl
  rw [outcome_seq sign, h.start, assignedValue, outcome_alt, h.noYield, taken]
  rfl

/-- An assignment is read as a statement. -/
theorem IsAssigned.outcome_assignmentStmt (h : IsAssigned text P) (target : Identifier)
    (few : (target.assign text).length ≤ limit)
    (enough : 4 * ((target.assign text).length + 1) ≤ fuel) :
    ∃ tree e, LineExpr.outcome limit (fuel + 2) (ref .assignmentStmt) (target.assign text) =
        some ([], [tree]) ∧
      simpleStmtOf tree = .ok (.assign .none [(Formula.name target).expr] e) ∧ P e := by
  rw [target.length_assign] at few enough
  have closes : Closes (" = ".toList ++ text) := closes_behind (by decide) _
  obtain ⟨left, takenTarget, valueTarget⟩ := (Formula.name target).outcome_starExpressions
    (show _ ≤ limit by omega) (show _ ≤ fuel by omega) closes
  rw [Formula.text] at takenTarget
  obtain ⟨right, e, takenValue, value, holds⟩ :=
    h.outcome_value (show _ ≤ limit by omega) (show _ ≤ fuel by omega)
  refine ⟨.phrase .assignmentStmt .none
    [.phrase .starExpressions .none [.phrase .expression .none left],
      .phrase .starExpressions .none right], e, ?_,
    simpleStmtOf_assignment valueTarget value rfl .none, holds⟩
  have skip : skipBlanks (" = ".toList ++ text) = '=' :: ' ' :: text := rfl
  -- the sign is that of an assignment: no operator stands in it, and no type in front of it
  have noOperator : LineExpr.outcome limit (fuel + 1) (.token .augOp ++ assignedValue)
      ('=' :: ' ' :: text) = none := outcome_seq_none rfl
  have noHint : LineExpr.outcome limit (fuel + 1) (ref .typeHint) ('=' :: ' ' :: text) =
      none := rfl
  have values : LineExpr.outcome limit (fuel + 1) (Peg.many1 (equals ++ assignedValue))
      ('=' :: ' ' :: text) = some ([], [.phrase .starExpressions .none right]) := by
    rw [Peg.many1, outcome_seq takenValue, outcome_many_none (outcome_seq_none rfl)]
    rfl
  rw [outcome_ref, show body .assignmentStmt = ref .starExpressions ++
    Peg.opt (.token .augOp ++ assignedValue
      <|> ref .typeHint ++ Peg.opt (Peg.lit "=" ++ assignedValue)
      <|> Peg.many1 (equals ++ assignedValue)) from rfl, Identifier.assign, outcome_seq takenTarget,
    skipBlanks_skipBlanks, skip, outcome_opt, outcome_alt, outcome_alt, noOperator,
    outcome_seq_none noHint, values]
  rfl

end Reading

/-- A line that begins with a name is a list of statements. -/
theorem Identifier.outcome_line (id : Identifier) {rest : List Char} (stop : AtStop rest)
    {limit fuel : Nat} {tree : LineTree}
    (taken : LineExpr.outcome limit fuel (ref .assignmentStmt) (id.val ++ rest) =
      some ([], [tree])) :
    LineExpr.outcome limit (fuel + 2) (ref .line) (id.val ++ rest) = some ([],
      [.phrase .line .none [.phrase .simpleStmts .none [tree], .token .endOfLine .none []]]) := by
  have statement : simpleStmt.outcome limit fuel (id.val ++ rest) = some ([], [tree]) := by
    rw [simpleStmt, outcome_alt stop rfl, outcome_alt stop rfl, outcome_alt stop rfl,
      outcome_alt stop rfl, outcome_alt stop rfl, outcome_alt stop rfl, outcome_alt stop rfl,
      outcome_alt stop rfl, outcome_alt stop rfl, outcome_alt stop rfl, outcome_alt stop rfl, taken]
  have statements : LineExpr.outcome limit (fuel + 1) (ref .simpleStmts) (id.val ++ rest) =
      some ([], [.phrase .simpleStmts .none [tree]]) := by
    have first : LineExpr.outcome limit fuel (simpleStmt ++ Peg.many (Peg.lit ";" ++ simpleStmt))
        (id.val ++ rest) = some ([], [tree]) := by
      rw [outcome_seq statement, outcome_many_none (outcome_seq_none rfl)]
      rfl
    rw [outcome_ref, show body .simpleStmts = simpleStmt ++ Peg.many (Peg.lit ";" ++ simpleStmt) ++
      Peg.opt (Peg.lit ";") from rfl, outcome_seq first]
    rfl
  have content : LineExpr.outcome limit (fuel + 1) (Peg.lit "" ++
      (ref .compoundHeader <|> ref .decorator <|> ref .simpleStmts)) (id.val ++ rest) =
        some ([], [.phrase .simpleStmts .none [tree]]) := by
    have start : LineExpr.outcome limit (fuel + 1) (Peg.lit "") (id.val ++ rest) =
        some (id.val ++ rest, []) := rfl
    rw [outcome_seq start, id.skipBlanks_eq, outcome_alt stop rfl, outcome_alt stop rfl, statements]
    rfl
  rw [outcome_ref, show body .line = Peg.lit "" ++
    (ref .compoundHeader <|> ref .decorator <|> ref .simpleStmts) ++ .token .endOfLine from rfl,
    outcome_seq content]
  rfl

/-- The line of an assignment holds the assignment. -/
theorem IsAssigned.lineOutcome {text : List Char} {P : Expr → Prop} (h : IsAssigned text P)
    (target : Identifier) :
    ∃ tree e, BlockEditor.lineOutcome (target.assign text) = some ([], [tree]) ∧
      lineContentOf tree = .ok (.simple [.assign .none [(Formula.name target).expr] e]) ∧ P e := by
  have enough : phraseDepth * ((target.assign text).length + 1) =
      80 * (target.assign text).length + 76 + 2 + 2 := rfl
  have stop : AtStop (" = ".toList ++ text) := (ends_behind (by decide) _).stop
  obtain ⟨tree, e, taken, value, holds⟩ := h.outcome_assignmentStmt target
    (show _ ≤ (target.assign text).length + 1 by omega)
    (show _ ≤ 80 * (target.assign text).length + 76 by omega)
  refine ⟨.phrase .line .none [.phrase .simpleStmts .none [tree], .token .endOfLine .none []], e,
    ?_, lineContentOf_statement value .none .none _, holds⟩
  rw [BlockEditor.lineOutcome, enough]
  exact target.outcome_line stop taken

/-! ## Programs -/

/-- A single line without indentation that holds statements is a program of these. -/
theorem parseText_single {text : List Char} {line : LogicalLine} {span : Span} {stmts : List Stmt}
    (shown : Text.isBlankText text = false) (layout : logicalLines text = .ok [line])
    (parsed : parseLine line = .ok ⟨0, span, .simple stmts⟩) :
    parseText text = .ok ⟨stmts⟩ := by
  have assembled : assemble [⟨0, span, .simple stmts⟩] = .ok (stmts ++ []) := by
    have steps : assemblySteps * (1 + 1) = 14 + 1 + 1 := rfl
    simp only [assemble, List.length_singleton, steps, block, statement]
    rfl
  rw [parseText, if_neg (shown ▸ Bool.false_ne_true), layout]
  show List.mapM parseLine [line] >>= _ = _
  rw [List.mapM_cons, parsed]
  show assemble [⟨0, span, .simple stmts⟩] >>= _ = _
  rw [assembled, List.append_nil]
  rfl

/-- An assignment of a text that stays in its line is parsed as an assignment of what is read, apart
from places. -/
theorem IsAssigned.parse {text : List Char} {P : Expr → Prop} (h : IsAssigned text P)
    (stays : StaysInLine text) (ends : EndsVisibly text) (target : Identifier) (source : String) :
    ∃ m e, (Source.mk source (String.ofList (target.assign text))).parse = .ok m ∧
      m.move nowhere = ⟨[.assign .none [.name .none (String.ofList target.val)] e]⟩ ∧ P e := by
  obtain ⟨line, layout, indent, shape⟩ := target.logicalLines_assign stays ends
  obtain ⟨tree, e, outcome, content, holds⟩ := h.lineOutcome target
  obtain ⟨c, parsed, same⟩ := parseLine_of_outcome (shape.symm ▸ outcome) content
  have shown : Text.isBlankText (target.assign text) = false := by
    obtain ⟨c, tail, e, start⟩ := target.property.fits.starts
    rw [Identifier.assign, e, List.cons_append, Text.isBlankText, List.all_cons, start.isVisible.1]
    rfl
  cases c with
  | simple stmts =>
    refine ⟨⟨stmts⟩, e, ?_, congrArg Module.mk (LineContent.simple.inj same), holds⟩
    rw [Source.parse, String.toList_ofList, parseText_single shown layout (indent ▸ parsed)]
    rfl
  | decorator | header => cases same

end BlockEditor
