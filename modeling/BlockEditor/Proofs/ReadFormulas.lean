import BlockEditor.Proofs.ReadRuns

/-!
# Reading formulas

The grammar reads the text of a formula as an expression, whatever closes it.  What stands bare in
the text is read at once, as a run; what stands in parentheses is read as an expression again, with
less fuel.
-/

namespace BlockEditor

open LineGrammar

/-! ## What ends an operation -/

/-- The end of a text ends an operation. -/
theorem ends_nil : Ends [] where
  stop := nofun
  other := nofun
  unlinked limit fuel := by
    match fuel with
    | 0 | 1 | _ + 2 => rfl

/-- Marks behind an operation. -/
theorem ends_behind {mark : String} (among : mark ∈ [")", " if ", " else ", " = "])
    (rest : List Char) : Ends (mark.toList ++ rest) := by
  simp only [List.mem_cons, List.not_mem_nil, or_false] at among
  constructor
  · constructor
    · rcases among with rfl | rfl | rfl | rfl <;> (intro c head; cases head; decide)
    · rcases among with rfl | rfl | rfl | rfl <;> (intro c head; cases head; decide)
  · intro limit fuel
    match fuel with
    | 0 | 1 | _ + 2 => rcases among with rfl | rfl | rfl | rfl <;> rfl

/-- A text ends an expression in front of it, and no further one follows. -/
structure Closes (rest : List Char) : Prop extends Ends rest where
  final : ∀ limit fuel, (word .ifWord).outcome limit fuel (skipBlanks rest) = none
  alone : ∀ c ∈ (skipBlanks rest).head?, c ≠ ','

/-- It ends an expression as well. -/
theorem closes_nil : Closes [] := ⟨ends_nil, fun _ _ => rfl, nofun⟩

/-- Marks behind an expression. -/
theorem closes_behind {mark : String} (among : mark ∈ [")", " = "]) (rest : List Char) :
    Closes (mark.toList ++ rest) := by
  simp only [List.mem_cons, List.not_mem_nil, or_false] at among
  refine ⟨ends_behind (by rcases among with rfl | rfl <;> decide) rest, ?_, ?_⟩
  · intro limit fuel
    rcases among with rfl | rfl <;> rfl
  · rcases among with rfl | rfl <;> (intro c head; cases head; decide)

/-! ## What begins a formula -/

/-- A text begins as a formula does: with a name, a parenthesis or an operator in front of an
operand. -/
inductive Opening : List Char → Prop
  | name (id : Identifier) {rest : List Char} : Apart rest → Opening (id.val ++ rest)
  | bracketed (rest : List Char) : Opening ('(' :: rest)
  | leading (op : UnaryOp) (rest : List Char) : Opening (op.lead.toList ++ rest)

namespace Opening

variable {cs : List Char} (h : Opening cs)

include h

/-- No blank stands in front of a formula. -/
theorem skipBlanks_eq : skipBlanks cs = cs := by
  cases h with
  | name id => exact id.skipBlanks_eq _
  | bracketed => rfl
  | leading op => cases op <;> rfl

/-- An equals sign in front of a formula is not one of two. -/
theorem head?_ne : ∀ c ∈ cs.head?, c ≠ '=' := by
  cases h with
  | name id =>
    obtain ⟨d, tail, e, start⟩ := id.property.fits.starts
    rw [e]
    rintro c head rfl
    obtain rfl : d = '=' := Option.some.inj head
    have other := Hole.holds_eq_false (show Hole.name.avoids (.oneOf ['=']) = true from rfl) start
    revert other
    decide
  | bracketed =>
    intro c head
    cases head
    decide
  | leading op =>
    intro c head
    cases op <;> (cases head; decide)

/-- Phrases that begin with a word or a star of their own. -/
theorem outcome_ref_eq_none {p : PhraseName} (among : p ∈ [.lambdaExpr, .yieldExpr, .starred])
    (limit fuel : Nat) : LineExpr.outcome limit fuel (ref p) cs = none := by
  have refuses : p.refusesName 1 = true := by
    revert p
    decide
  simp only [List.mem_cons, List.not_mem_nil, or_false] at among
  cases h with
  | name id apart => exact Identifier.outcome_ref_eq_none apart.stop refuses
  | bracketed =>
    match fuel with
    | 0 | _ + 1 => rcases among with rfl | rfl | rfl <;> rfl
  | leading op =>
    match fuel with
    | 0 => rfl
    | _ + 1 => rcases among with rfl | rfl | rfl <;> cases op <;> rfl

/-- A name in front of a formula is no target of a named expression, since no colon follows. -/
theorem outcome_namedExpr (limit fuel : Nat) :
    LineExpr.outcome limit fuel (ref .namedExpr) cs = none := by
  cases h with
  | @name id rest apart =>
    refine outcome_ref_none fun fuel => outcome_seq_none ?_
    have taken : LineExpr.outcome limit fuel (.token .identifier) (id.val ++ rest) =
        some (rest, [.token .identifier .none id.val]) := by
      rw [LineExpr.outcome, Peg.outcome, show (lineGrammar.pattern .identifier).scan _ = _ from
        id.property.fits.taken .identifier rfl rest apart.stop]
      rfl
    have colon : LineExpr.outcome limit fuel (Peg.lit ":=") (skipBlanks rest) = none := by
      refine outcome_text_none (d := ':') fun c head => ?_
      rintro rfl
      exact apart.other _ head (by decide)
    rw [outcome_seq taken, colon]
    rfl
  | bracketed => cases fuel <;> rfl
  | leading op =>
    cases fuel with
    | zero => rfl
    | succ => cases op <;> rfl

end Opening

/-- A run begins as a formula does. -/
theorem Run.opening (r : Run) {rest : List Char} (apart : Apart rest) :
    Opening (r.text ++ rest) := by
  obtain ⟨⟨leading, atom⟩, links⟩ := r
  cases leading with
  | cons op ops =>
    rw [text, Prefixed.text, List.flatMap_cons, List.append_assoc, List.append_assoc,
      List.append_assoc]
    exact .leading op _
  | nil =>
    cases atom with
    | name id =>
      rw [text, List.append_assoc]
      exact .name id (apart.links links)
    | bracketed f => exact .bracketed _

/-- A condition, and what holds otherwise. -/
def branch : LineExpr := word .ifWord ++ ref .operation ++ word .elseWord ++ ref .expression

/-- What an expression is, behind what its text does not begin with. -/
theorem Opening.outcome_expression {cs : List Char} (h : Opening cs) (limit fuel : Nat) :
    (body .expression).outcome limit fuel cs =
      LineExpr.outcome limit fuel (ref .operation ++ Peg.opt branch) cs := by
  rw [show body .expression = (ref .lambdaExpr <|> ref .namedExpr <|> _) from rfl, outcome_alt,
    outcome_alt, h.outcome_ref_eq_none (by decide), h.outcome_namedExpr, Option.none_or,
    Option.none_or]
  rfl

/-! ## Sizes -/

/-- The text of an operand holds its operators and its atom. -/
theorem Prefixed.length_leading_le (x : Prefixed) :
    x.leading.length + x.atom.text.length ≤ x.text.length := by
  obtain ⟨leading, atom⟩ := x
  induction leading with
  | nil => simp [text]
  | cons op ops ih =>
    have visible : 1 ≤ op.lead.toList.length := by cases op <;> decide
    rw [text] at ih ⊢
    simp only [List.flatMap_cons, List.length_cons, List.length_append] at ih ⊢
    omega

/-- There are no more links than characters in their text. -/
theorem length_le_length_linksText (links : List (LinkingOp × Prefixed)) :
    links.length ≤ (linksText links).length := by
  induction links with
  | nil => simp
  | cons l links ih =>
    rw [linksText, List.flatMap_cons, ← linksText, LinkingOp.spaced]
    simp only [List.length_cons, List.length_append]
    omega

/-- The operand of a link is no longer than the text of all of them. -/
theorem length_text_le_linksText {links : List (LinkingOp × Prefixed)} {l : LinkingOp × Prefixed}
    (member : l ∈ links) : l.2.text.length ≤ (linksText links).length := by
  obtain ⟨front, behind, rfl⟩ := List.append_of_mem member
  simp only [linksText, List.flatMap_append, List.flatMap_cons, List.length_append]
  omega

namespace Run

/-- A run is as long as its first operand and its links. -/
theorem length_text (r : Run) :
    r.text.length = r.first.text.length + (linksText r.links).length := by
  rw [text, List.length_append]

/-- An atom of a run is no longer than the run. -/
theorem length_atom_le {r : Run} {a : Atom} (member : a ∈ r.atoms) :
    a.text.length ≤ r.text.length := by
  rw [length_text]
  obtain rfl | ⟨l, among, rfl⟩ := (List.mem_cons.1 member).imp_right List.mem_map.1
  · have := r.first.length_leading_le
    omega
  · have := length_text_le_linksText among
    have := l.2.length_leading_le
    omega

/-- No `not` stands behind an `is`. -/
def IsApart (r : Run) : Prop := ∀ l ∈ r.links, l.1 = .compare .is → l.2.leading.head? ≠ some .not

/-- A run is read if its operands are. -/
theorem readsWith {r : Run} {limit fuel : Nat} (few : r.text.length ≤ limit) (isApart : r.IsApart)
    (atoms : ∀ a ∈ r.atoms, a.ReadsWith limit fuel) : r.ReadsWith limit fuel := by
  rw [length_text] at few
  have first := r.first.length_leading_le
  have links := length_le_length_linksText r.links
  refine ⟨by omega, atoms _ List.mem_cons_self, by omega, ?_⟩
  intro l member
  have leading := l.2.length_leading_le
  have within := length_text_le_linksText member
  exact ⟨isApart l member, by omega,
    atoms _ (List.mem_cons_of_mem _ (List.mem_map_of_mem member))⟩

/-- Runs that keep `not` from an `is` make such a run, if no operator `is` between them is followed
by one. -/
theorem IsApart.chain {r : Run} {links : List (LinkingOp × Run)} (first : r.IsApart)
    (each : ∀ l ∈ links, l.2.IsApart ∧
      (l.1 = .compare .is → l.2.first.leading.head? ≠ some .not)) : (r.chain links).IsApart := by
  intro k member
  obtain old | ⟨l, among, inside⟩ := (List.mem_append.1 member).imp_right List.mem_flatMap.1
  · exact first k old
  · obtain rfl | inside := List.mem_cons.1 inside
    · exact (each l among).2
    · exact (each l among).1 k inside

/-- The run of a formula of some level keeps `not` from an `is`, also from one in front of it. -/
structure Separates (level : Nat) (r : Run) : Prop where
  links : r.IsApart
  first : 4 ≤ level → r.first.leading.head? ≠ some .not

end Run

namespace Formula

/-- A formula in its place keeps `not` from an `is` in front of it. -/
theorem separates_runIn {f : Formula} (h : f.run.Separates f.level) (k : Nat) :
    (f.runIn k).Separates k := by
  unfold runIn Run.operand
  split
  · exact ⟨nofun, fun _ => nofun⟩
  · exact ⟨h.links, fun tight => h.first (by omega)⟩

/-- What binds at least as tightly as a comparison does not begin with `not`. -/
theorem separates_run (f : Formula) : f.run.Separates f.level := by
  induction f with
  | name id => exact ⟨nofun, fun _ => nofun⟩
  | unary op x ih =>
    refine ⟨(separates_runIn ih _).links, ?_⟩
    -- The operator `not` binds less tightly than a comparison, so nothing is claimed of it.
    intro tight
    cases op with
    | not => exact absurd (show 4 ≤ UnaryOp.not.level from tight) (by decide)
    | neg | pos => nofun
  | binary x op y ihx ihy =>
    have left := separates_runIn ihx op.leftLevel
    have right := separates_runIn ihy op.rightLevel
    refine ⟨left.links.chain ?_, fun _ => left.first (by cases op <;> decide)⟩
    rw [List.forall_mem_singleton]
    exact ⟨right.links, nofun⟩
  | logical op x y others ihx ihy ihothers =>
    refine ⟨(separates_runIn ihx _).links.chain ?_, ?_⟩
    · rw [runMore_eq, List.forall_mem_cons, List.forall_mem_map]
      exact ⟨⟨(separates_runIn ihy _).links, nofun⟩,
        fun z among => ⟨(separates_runIn (ihothers z among) _).links, nofun⟩⟩
    · intro tight
      have loose : ¬ 4 ≤ op.level := by cases op <;> decide
      exact absurd tight loose
  | compare x op y others ihx ihy ihothers =>
    have each : ∀ {z : Formula}, z.run.Separates z.level → (z.runIn 5).IsApart ∧
        (z.runIn 5).first.leading.head? ≠ some .not := fun h =>
      ⟨(separates_runIn h 5).links, (separates_runIn h 5).first (by decide)⟩
    refine ⟨(each ihx).1.chain ?_, fun _ => (each ihx).2⟩
    rw [runLinks_eq, List.forall_mem_cons, List.forall_mem_map]
    exact ⟨⟨(each ihy).1, fun _ => (each ihy).2⟩, fun l among =>
      ⟨(each (ihothers l among)).1, fun _ => (each (ihothers l among)).2⟩⟩
  | conditional test body orelse => exact ⟨nofun, fun _ => nofun⟩

/-! ## Reading -/

/-- What may stand between parentheses. -/
def inParens : LineExpr :=
  ref .yieldExpr <|> starItem ++
    comprehensionOr (Peg.many (Peg.lit "," ++ starItem) ++ Peg.opt (.token .trailingComma))

/-- A formula is read as its tree, whatever closes it. -/
def Reads (f : Formula) : Prop :=
  ∀ limit fuel rest, f.text.length ≤ limit → 4 * (f.text.length + 1) ≤ fuel → Closes rest →
    ∃ left children, LineExpr.outcome limit fuel (ref .expression) (f.text ++ rest) =
        some (left, [.phrase .expression .none children]) ∧
      skipBlanks left = skipBlanks rest ∧ exprOf (.phrase .expression .none children) = .ok f.expr

/-- The text of a condition with what holds otherwise. -/
def branchText (test orelse : Formula) : List Char :=
  " if ".toList ++ (test.run.text ++ (" else ".toList ++ orelse.text))

/-- A condition is written as what it chooses and the branch behind it. -/
theorem text_conditional (test body orelse : Formula) :
    (conditional test body orelse).text = body.run.text ++ branchText test orelse := by
  simp only [text, text_run, branchText, List.append_assoc]

/-- A branch ends the operation in front of it. -/
theorem ends_branchText (test orelse : Formula) (rest : List Char) :
    Ends (branchText test orelse ++ rest) := by
  rw [branchText, List.append_assoc]
  exact ends_behind (by decide) _

/-- A formula begins as formulas do. -/
theorem opening (f : Formula) {rest : List Char} (apart : Apart rest) :
    Opening (f.text ++ rest) := by
  induction f using induct_run with
  | bare f bare =>
    rw [← text_run_of_level bare]
    exact f.run.opening apart
  | conditional test body orelse =>
    rw [text_conditional, List.append_assoc]
    exact body.run.opening (ends_branchText test orelse rest).toApart

/-- A formula is read between parentheses. -/
theorem Reads.outcome_inParens {f : Formula} (h : f.Reads) {limit fuel : Nat}
    (few : f.text.length ≤ limit) (enough : 4 * (f.text.length + 1) ≤ fuel) (rest : List Char) :
    ∃ children, inParens.outcome limit fuel (f.text ++ ')' :: rest) =
        some (')' :: rest, [.phrase .expression .none children]) ∧
      exprOf (.phrase .expression .none children) = .ok f.expr := by
  have closes : Closes (')' :: rest) := closes_behind (show ")" ∈ [")", " = "] by decide) rest
  have begins := f.opening closes.toApart
  obtain ⟨left, children, taken, behind, value⟩ := h limit fuel (')' :: rest) few enough closes
  refine ⟨children, ?_, value⟩
  have item : starItem.outcome limit fuel (f.text ++ ')' :: rest) =
      some (left, [.phrase .expression .none children]) := by
    rw [starItem, outcome_alt, begins.outcome_ref_eq_none (by decide), taken]
    rfl
  -- neither clauses nor further items stand in front of the parenthesis
  have single : LineExpr.outcome limit fuel (comprehensionOr
      (Peg.many (Peg.lit "," ++ starItem) ++ Peg.opt (.token .trailingComma))) (')' :: rest) =
        some (')' :: rest, []) := by
    match fuel with
    | 0 | _ + 1 => rfl
  rw [inParens, outcome_alt, begins.outcome_ref_eq_none (by decide), outcome_seq item, behind,
    show skipBlanks (')' :: rest) = ')' :: rest from rfl, single]
  rfl

/-- A formula that is read as an expression is read as an operand in parentheses. -/
theorem Reads.readsWith {f : Formula} (h : f.Reads) {limit fuel : Nat}
    (few : f.text.length ≤ limit) (enough : 4 * (f.text.length + 1) ≤ fuel) :
    (Atom.bracketed f).ReadsWith limit (fuel + 1) := by
  intro rest _
  obtain ⟨children, content, value⟩ := h.outcome_inParens few enough rest
  refine ⟨.phrase .parenExpr .none [.phrase .expression .none children], ?_, ?_⟩
  · have start : skipBlanks (f.text ++ ')' :: rest) = f.text ++ ')' :: rest :=
      (f.opening (ends_behind (show ")" ∈ _ by decide) rest).toApart).skipBlanks_eq
    have opened : LineExpr.outcome limit fuel (Peg.lit "(" ++ Peg.opt inParens)
        ('(' :: (f.text ++ ')' :: rest)) =
          some (')' :: rest, [.phrase .expression .none children]) := by
      rw [outcome_seq (show LineExpr.outcome limit fuel (Peg.lit "(") _ = some (_, []) from rfl),
        start, outcome_opt, content]
      rfl
    have text : (Atom.bracketed f).text ++ rest = '(' :: (f.text ++ ')' :: rest) := by
      simp [Atom.text]
    rw [text, atom, outcome_alt, outcome_ref,
      show body .parenExpr = Peg.lit "(" ++ Peg.opt inParens ++ Peg.lit ")" from rfl,
      outcome_seq opened]
    rfl
  · rw [exprOf, value]
    rfl

/-- The run of a formula is read as the formula, if what stands in parentheses is. -/
theorem outcome_operation {f : Formula} (inside : ∀ g, .bracketed g ∈ f.run.atoms → g.Reads)
    {limit fuel : Nat} (few : f.run.text.length ≤ limit)
    (enough : 4 * f.run.text.length ≤ fuel + 4) {rest : List Char} (ends : Ends rest) :
    ∃ left children, LineExpr.outcome limit (fuel + 3) (ref .operation) (f.run.text ++ rest) =
        some (left, [.phrase .operation .none children]) ∧
      skipBlanks left = skipBlanks rest ∧
      exprOf (.phrase .operation .none children) = .ok f.expr := by
  have atoms : ∀ a ∈ f.run.atoms, a.ReadsWith limit (fuel + 1) := by
    intro a member
    cases a with
    | name id => exact fun rest apart => ⟨_, id.outcome_atom apart.stop limit _, rfl⟩
    | bracketed g =>
      have short := Run.length_atom_le member
      simp only [Atom.text, List.length_cons, List.length_append, List.length_nil] at short
      exact (inside g member).readsWith (by omega) (by omega)
  obtain ⟨left, children, taken, behind, pieces⟩ :=
    (Run.readsWith few f.separates_run.links atoms).outcome ends
  refine ⟨left, children, taken, behind, ?_⟩
  rw [exprOf, pieces]
  exact f.foldOperation_run

/-- A condition is read with what holds otherwise. -/
theorem outcome_branch {test orelse : Formula}
    (inside : ∀ g, .bracketed g ∈ test.run.atoms → g.Reads) (ih : orelse.Reads) {limit fuel : Nat}
    (few : test.run.text.length + orelse.text.length ≤ limit)
    (enough : 4 * (test.run.text.length + orelse.text.length) ≤ fuel) {rest : List Char}
    (closes : Closes rest) :
    ∃ left trees, branch.outcome limit (fuel + 4)
        (skipBlanks (branchText test orelse ++ rest)) = some (left, trees) ∧
      skipBlanks left = skipBlanks rest ∧
      ∀ body e, exprOf body = .ok e → exprOf (.phrase .expression .none (body :: trees)) =
        .ok (.conditional .none test.expr e orelse.expr) := by
  have ends : Ends (" else ".toList ++ (orelse.text ++ rest)) := ends_behind (by decide) _
  have beginsTest := test.run.opening ends.toApart
  have beginsOrelse := orelse.opening closes.toApart
  obtain ⟨mid, children, takenTest, behindTest, valueTest⟩ := outcome_operation inside
    (show _ ≤ limit by omega) (show _ ≤ fuel + 1 + 4 by omega) ends
  obtain ⟨left, others, takenOrelse, behind, valueOrelse⟩ :=
    ih limit (fuel + 4) rest (by omega) (by omega) closes
  refine ⟨left, [.token (.word .ifWord) .none "if".toList, .phrase .operation .none children,
    .token (.word .elseWord) .none "else".toList, .phrase .expression .none others], ?_, behind, ?_⟩
  -- Word by word: `if`, the test, `else`, and what holds otherwise, each behind blanks.
  · have ifWord : (word .ifWord).outcome limit (fuel + 4)
        (skipBlanks (branchText test orelse ++ rest)) =
          some (' ' :: (test.run.text ++ (" else ".toList ++ (orelse.text ++ rest))),
            [.token (.word .ifWord) .none "if".toList]) := by
      rw [branchText, List.append_assoc, List.append_assoc, List.append_assoc]
      rfl
    have elseWord : (word .elseWord).outcome limit (fuel + 4) (skipBlanks mid) =
        some (' ' :: (orelse.text ++ rest), [.token (.word .elseWord) .none "else".toList]) :=
      behindTest ▸ rfl
    have first := outcome_seq (y := ref .operation) ifWord
    rw [show skipBlanks (' ' :: _) = _ from beginsTest.skipBlanks_eq, takenTest] at first
    have second := outcome_seq (y := word .elseWord) first
    rw [elseWord] at second
    have third := outcome_seq (y := ref .expression) second
    rw [show skipBlanks (' ' :: _) = _ from beginsOrelse.skipBlanks_eq, takenOrelse] at third
    exact third
  · intro body e value
    rw [exprOf, value, valueTest, valueOrelse]
    rfl

/-- A formula is read as its tree. -/
theorem reads (f : Formula) : f.Reads := by
  induction f using induct_run with
  | bare f bare inside =>
    intro limit fuel rest few enough closes
    -- an expression, its operation, an operand and its parentheses take one step of fuel each
    obtain ⟨fuel, rfl⟩ : ∃ n, fuel = n + 4 := ⟨fuel - 4, by omega⟩
    rw [← text_run_of_level bare] at few enough ⊢
    obtain ⟨left, children, taken, behind, value⟩ :=
      outcome_operation inside few (show _ ≤ fuel + 4 by omega) closes.toEnds
    have noBranch : branch.outcome limit (fuel + 3) (skipBlanks left) = none := by
      rw [behind]
      exact outcome_seq_none (outcome_seq_none (outcome_seq_none (closes.final limit _)))
    refine ⟨skipBlanks left, [.phrase .operation .none children], ?_, ?_, ?_⟩
    · rw [outcome_ref, (f.run.opening closes.toApart).outcome_expression, outcome_seq taken,
        outcome_opt, noBranch]
      rfl
    · rw [skipBlanks_skipBlanks, behind]
    · rw [exprOf, value]
  | conditional test body orelse insideTest insideBody ih =>
    intro limit fuel rest few enough closes
    have sizes : (conditional test body orelse).text.length =
        body.run.text.length + (4 + (test.run.text.length + (6 + orelse.text.length))) := by
      simp only [text_conditional, branchText, List.length_append]
      rfl
    obtain ⟨fuel, rfl⟩ : ∃ n, fuel = n + 5 := ⟨fuel - 5, by omega⟩
    have ends := ends_branchText test orelse rest
    obtain ⟨mid, value, taken, behind, valueBody⟩ := outcome_operation insideBody
      (show _ ≤ limit by omega) (show _ ≤ fuel + 1 + 4 by omega) ends
    obtain ⟨left, trees, branch, last, whole⟩ :=
      outcome_branch insideTest ih (show _ ≤ limit by omega) (show _ ≤ fuel by omega) closes
    refine ⟨left, .phrase .operation .none value :: trees, ?_, last, whole _ _ valueBody⟩
    rw [text_conditional, List.append_assoc, outcome_ref,
      (body.run.opening ends.toApart).outcome_expression, outcome_seq taken, behind, outcome_opt,
      branch]
    rfl

/-- A formula is read where several expressions may stand. -/
theorem outcome_starExpressions (f : Formula) {limit fuel : Nat} (few : f.text.length ≤ limit)
    (enough : 4 * (f.text.length + 1) ≤ fuel) {rest : List Char} (closes : Closes rest) :
    ∃ children, LineExpr.outcome limit (fuel + 1) (ref .starExpressions) (f.text ++ rest) =
        some (skipBlanks rest,
          [.phrase .starExpressions .none [.phrase .expression .none children]]) ∧
      exprOf (.phrase .starExpressions .none [.phrase .expression .none children]) = .ok f.expr := by
  obtain ⟨left, children, taken, behind, value⟩ := f.reads limit fuel rest few enough closes
  refine ⟨children, ?_, ?_⟩
  · have item : starItem.outcome limit fuel (f.text ++ rest) =
        some (left, [.phrase .expression .none children]) := by
      rw [starItem, outcome_alt, (f.opening closes.toApart).outcome_ref_eq_none (by decide), taken]
      rfl
    have noMore : LineExpr.outcome limit fuel (Peg.lit "," ++ starItem) (skipBlanks rest) = none :=
      outcome_seq_none (outcome_text_none closes.alone)
    have noComma : LineExpr.outcome limit fuel (.token .trailingComma) (skipBlanks rest) = none := by
      show ((Text.dropLead [','] _).map _).map _ = none
      rw [dropLead_eq_none_of_head closes.alone]
      rfl
    have items : (commaSeparated starItem).outcome limit fuel (f.text ++ rest) =
        some (skipBlanks rest, [.phrase .expression .none children]) := by
      rw [commaSeparated, outcome_seq item, behind, outcome_many_none noMore]
      rfl
    rw [outcome_ref, show body .starExpressions = commaSeparated starItem ++
      Peg.opt (.token .trailingComma) from rfl, outcome_seq items, skipBlanks_skipBlanks,
      outcome_opt, noComma]
    rfl
  · rw [Sketch.exprOf_single, value]

end Formula

end BlockEditor
