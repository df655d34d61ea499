import BlockEditor.Proofs.Climbing
import BlockEditor.Proofs.LineContent
import BlockEditor.Proofs.Outcomes
import Mathlib.Data.List.DropRight

/-!
# Reading runs

The grammar reads the text of a run as its operators and operands, if it reads what stands in the
parentheses.  A run ends where what stands behind it can neither go on with a name nor be an
operator, so each lemma on a text says what may stand behind it.
-/

namespace BlockEditor

open LineGrammar

/-! ## Steps of reading -/

/-- A text without the blanks at its start. -/
abbrev skipBlanks (cs : List Char) : List Char := cs.dropWhile lineGrammar.isSpace

/-- The outcome of an expression of the line grammar. -/
def LineExpr.outcome (limit fuel : Nat) (x : LineExpr) (cs : List Char) :
    ReadOutcome Token PhraseName :=
  Peg.outcome lineGrammar limit (lineGrammar.outcome limit fuel) x cs

section Steps

variable {limit fuel : Nat} {x y : LineExpr} {cs mid rest : List Char} {trees : List LineTree}

/-- A sequence is refused with its first part. -/
theorem outcome_seq_none (refused : x.outcome limit fuel cs = none) :
    LineExpr.outcome limit fuel (x ++ y) cs = none := by
  show Peg.outcome lineGrammar limit _ (.seq x y) cs = none
  rw [Peg.outcome, show Peg.outcome _ _ _ x cs = none from refused]

/-- Behind its first part and blanks, a sequence goes on with its second one. -/
theorem outcome_seq (first : x.outcome limit fuel cs = some (mid, trees)) :
    LineExpr.outcome limit fuel (x ++ y) cs =
      (y.outcome limit fuel (skipBlanks mid)).map fun (cs, more) => (cs, trees ++ more) := by
  show Peg.outcome lineGrammar limit _ (.seq x y) cs = _
  rw [Peg.outcome, show Peg.outcome _ _ _ x cs = some (mid, trees) from first]
  rfl

theorem outcome_alt (x y : LineExpr) (cs : List Char) :
    LineExpr.outcome limit fuel (x <|> y) cs =
      (x.outcome limit fuel cs).or (y.outcome limit fuel cs) := rfl

theorem outcome_opt (x : LineExpr) (cs : List Char) :
    LineExpr.outcome limit fuel (.opt x) cs = (x.outcome limit fuel cs).or (some (cs, [])) := rfl

/-- A repetition whose first item is refused takes nothing. -/
theorem outcome_many_none (refused : x.outcome limit fuel cs = none) :
    LineExpr.outcome limit fuel (.many x) cs = some (cs, []) := by
  rw [LineExpr.outcome, Peg.outcome, show Peg.outcome _ _ _ x cs = none from refused]

/-- A phrase is what its expression gives with less fuel. -/
theorem outcome_ref (p : PhraseName) (cs : List Char) :
    LineExpr.outcome limit (fuel + 1) (ref p) cs =
      ((body p).outcome limit fuel cs).map fun (cs, trees) => (cs, [.phrase p .none trees]) := rfl

/-- A phrase is refused if its expression is, with any fuel. -/
theorem outcome_ref_none {p : PhraseName}
    (refused : ∀ fuel, (body p).outcome limit fuel cs = none) :
    LineExpr.outcome limit fuel (ref p) cs = none := by
  cases fuel with
  | zero => rfl
  | succ fuel => rw [outcome_ref, refused]; rfl

end Steps

/-- Items are read one behind the other until one is refused.  In front of each item stand no
blanks. -/
inductive Repeats (f : List Char → ReadOutcome Token PhraseName) :
    Nat → List Char → List LineTree → List Char → Prop
  | stop {cs : List Char} : f cs = none → Repeats f 0 cs [] cs
  | item {n : Nat} {cs mid rest : List Char} {trees more : List LineTree} :
    f cs = some (mid, trees) → Repeats f n (skipBlanks mid) more rest →
      Repeats f (n + 1) cs (trees ++ more) rest

/-- Items that are read one behind the other are what a repetition gives, with enough fuel. -/
theorem Repeats.outcomeMany {f : List Char → ReadOutcome Token PhraseName} {n : Nat}
    {cs rest : List Char} {trees : List LineTree} (h : Repeats f n cs trees rest) {fuel : Nat}
    (enough : n ≤ fuel) {mid : List Char} (start : skipBlanks mid = cs) :
    ∃ left, outcomeMany lineGrammar.isSpace f fuel mid = (left, trees) ∧
      skipBlanks left = rest := by
  induction h generalizing fuel mid with
  | stop refused =>
    refine ⟨mid, ?_, start⟩
    cases fuel with
    | zero => rfl
    | succ fuel => rw [BlockEditor.outcomeMany, show f (mid.dropWhile _) = _ from start ▸ refused]
  | @item n _ _ _ _ _ taken _ ih =>
    obtain ⟨fuel, rfl⟩ : ∃ k, fuel = k + 1 := ⟨fuel - 1, by omega⟩
    obtain ⟨left, others, behind⟩ := ih (show n ≤ fuel by omega) rfl
    refine ⟨left, ?_, behind⟩
    rw [BlockEditor.outcomeMany, show f (mid.dropWhile _) = _ from start ▸ taken]
    simp only [others]

/-- A repetition takes all items. -/
theorem Repeats.many {x : LineExpr} {limit fuel n : Nat} {cs rest : List Char}
    {trees : List LineTree} (h : Repeats (x.outcome limit fuel) n cs trees rest)
    (enough : n ≤ limit + 1) (start : skipBlanks cs = cs) :
    ∃ left, LineExpr.outcome limit fuel (.many x) cs = some (left, trees) ∧
      skipBlanks left = rest := by
  cases h with
  | stop refused => exact ⟨cs, outcome_many_none refused, start⟩
  | @item n _ mid _ trees more taken others =>
    obtain ⟨left, further, behind⟩ := others.outcomeMany (show n ≤ limit by omega) rfl
    refine ⟨left, ?_, behind⟩
    rw [LineExpr.outcome] at taken
    unfold LineExpr.outcome at further ⊢
    rw [Peg.outcome, taken]
    simp only
    rw [further]

/-! ## Names -/

/-- Whether a token refuses every text that begins with a name. -/
def Token.refusesName (t : Token) : Bool :=
  Hole.name.takes? t == some false ||
    (t.pattern.avoidsStops && t.pattern.foresee [.hole .name] == .refused)

/-- Whether an expression refuses every text that begins with a name, as its first tokens show. -/
def Peg.refusesName (call : PhraseName → Bool) : LineExpr → Bool
  | text t => t.head?.any fun c => Hole.name.avoids (.oneOf [c])
  | token t => t.refusesName
  | phrase p => call p
  | seq (opt x) y => x.refusesName call && y.refusesName call
  | seq x _ => x.refusesName call
  | alt x y => x.refusesName call && y.refusesName call
  | absent _ | opt _ | many _ => false

/-- Whether a phrase refuses every text that begins with a name, as the first tokens of phrases
nested at most `fuel` deep show. -/
def PhraseName.refusesName : Nat → PhraseName → Bool
  | 0, _ => false
  | fuel + 1, p => (body p).refusesName (refusesName fuel)

namespace Identifier

/-- An identifier, and what stands behind it, do not begin with a blank. -/
theorem skipBlanks_eq (id : Identifier) (rest : List Char) :
    skipBlanks (id.val ++ rest) = id.val ++ rest := by
  obtain ⟨c, tail, e, start⟩ := id.property.fits.starts
  rw [e, List.cons_append, skipBlanks, List.dropWhile_cons, start.not_isSpace]
  rfl

variable {id : Identifier} {rest : List Char} (stop : AtStop rest)

include stop

/-- A token that refuses names takes nothing in front of one. -/
theorem scan_eq_none {t : Token} (refuses : t.refusesName = true) :
    t.pattern.scan (id.val ++ rest) = none := by
  rcases Bool.or_eq_true_iff.1 refuses with known | computed
  · exact id.property.fits.refused t (by simpa using known) rest stop
  · obtain ⟨avoids, foreseen⟩ := Bool.and_eq_true_iff.1 computed
    let filling : Filling := { name := id.val, isName := id.property }
    have holds := t.pattern.foresee_holds filling.fitting [.hole .name]
    rw [eq_of_beq foreseen, fill_hole] at holds
    have alone : t.pattern.scan id.val = none := holds
    rw [Pattern.scan_append_of_atStop avoids stop, alone]
    rfl

/-- So does an expression, if the phrases that count for it do. -/
theorem outcome_eq_none {limit fuel : Nat} {call : PhraseName → Bool} {x : LineExpr}
    (phrases : ∀ p, call p = true → LineExpr.outcome limit fuel (ref p) (id.val ++ rest) = none)
    (refuses : x.refusesName call = true) : x.outcome limit fuel (id.val ++ rest) = none := by
  fun_induction Peg.refusesName call x with
  | case1 t =>
    obtain ⟨c, tail, e, start⟩ := id.property.fits.starts
    cases t with
    | nil => cases refuses
    | cons d t =>
      have other : c ≠ d := by
        simpa [CharClass.holds] using Hole.holds_eq_false (show Hole.name.avoids (.oneOf [d]) = true
          by simpa using refuses) start
      rw [LineExpr.outcome, Peg.outcome, e, List.cons_append, Text.dropLead, if_neg (Ne.symm other)]
      rfl
  | case2 t =>
    have refused : t.pattern.scan (id.val ++ rest) = none := scan_eq_none stop refuses
    rw [LineExpr.outcome, Peg.outcome, show (lineGrammar.pattern t).scan _ = none from refused]
    rfl
  | case3 p => exact phrases p refuses
  | case4 x y ihx ihy =>
    obtain ⟨left, right⟩ := Bool.and_eq_true_iff.1 refuses
    have nothing : LineExpr.outcome limit fuel (.opt x) (id.val ++ rest) =
        some (id.val ++ rest, []) := by
      rw [outcome_opt, ihx left]
      rfl
    have second := outcome_seq (y := y) nothing
    rw [skipBlanks_eq, ihy right] at second
    exact second
  | case5 x y _ ih => exact outcome_seq_none (ih refuses)
  | case6 x y ihx ihy =>
    obtain ⟨left, right⟩ := Bool.and_eq_true_iff.1 refuses
    have first : LineExpr.outcome limit fuel (x <|> y) (id.val ++ rest) = _ :=
      BlockEditor.outcome_alt x y _
    rw [ihx left, ihy right] at first
    exact first
  | case7 | case8 | case9 => cases refuses

/-- So does a phrase, by induction on the depth that is looked into. -/
theorem outcome_ref_eq_none {limit fuel n : Nat} {p : PhraseName}
    (refuses : p.refusesName n = true) :
    LineExpr.outcome limit fuel (ref p) (id.val ++ rest) = none := by
  induction n generalizing fuel p with
  | zero => cases refuses
  | succ n ih => exact outcome_ref_none fun fuel => outcome_eq_none stop (fun p => ih) refuses

/-- A choice that refuses names gives way to the next one. -/
theorem outcome_alt {limit fuel : Nat} {x y : LineExpr}
    (refuses : x.refusesName (PhraseName.refusesName 2) = true) :
    LineExpr.outcome limit fuel (x <|> y) (id.val ++ rest) =
      y.outcome limit fuel (id.val ++ rest) := by
  rw [BlockEditor.outcome_alt, outcome_eq_none stop (fun p => outcome_ref_eq_none stop) refuses,
    Option.none_or]

/-- A name is read as an operand. -/
theorem outcome_atom (limit fuel : Nat) :
    atom.outcome limit fuel (id.val ++ rest) =
      some (rest, [.token .identifier .none id.val]) := by
  have taken := id.property.fits.taken .identifier rfl rest stop
  rw [atom, outcome_alt stop rfl, outcome_alt stop rfl, outcome_alt stop rfl, outcome_alt stop rfl,
    outcome_alt stop rfl, outcome_alt stop rfl, outcome_alt stop rfl, outcome_alt stop rfl,
    outcome_alt stop rfl, LineExpr.outcome, Peg.outcome,
    show (lineGrammar.pattern .identifier).scan _ = _ from taken]
  rfl

end Identifier

/-! ## What stands behind an operand -/

/-- A text neither goes on with a name in front of it nor makes it a call, a member, an element or a
target. -/
structure Apart (rest : List Char) : Prop where
  stop : AtStop rest
  other : ∀ c ∈ (skipBlanks rest).head?, c ∉ ['(', '.', '[', ':']

/-- A text is not found where another character stands first. -/
theorem dropLead_eq_none_of_head {d : Char} {ds cs : List Char} (other : ∀ c ∈ cs.head?, c ≠ d) :
    Text.dropLead (d :: ds) cs = none := by
  cases cs with
  | nil => rfl
  | cons c cs => rw [Text.dropLead, if_neg (Ne.symm (other c rfl))]

theorem outcome_text_none {limit fuel : Nat} {d : Char} {ds cs : List Char}
    (other : ∀ c ∈ cs.head?, c ≠ d) : LineExpr.outcome limit fuel (.text (d :: ds)) cs = none := by
  rw [LineExpr.outcome, Peg.outcome, dropLead_eq_none_of_head other]
  rfl

/-- Nothing is applied to an operand. -/
theorem Apart.outcome_trailer {rest : List Char} (apart : Apart rest) (limit fuel : Nat) :
    trailer.outcome limit fuel (skipBlanks rest) = none := by
  have refused : ∀ d ∈ ['(', '.', '['], ∀ fuel,
      LineExpr.outcome limit fuel (.text [d]) (skipBlanks rest) = none := by
    intro d among fuel
    refine outcome_text_none fun c head => ?_
    rintro rfl
    exact apart.other c head (by simp at among ⊢; tauto)
  rw [trailer, outcome_alt, outcome_alt]
  rw [outcome_ref_none fun fuel => outcome_seq_none (outcome_seq_none (refused '(' (by simp) fuel)),
    outcome_ref_none fun fuel => outcome_seq_none (refused '.' (by simp) fuel),
    outcome_ref_none fun fuel => outcome_seq_none (outcome_seq_none (refused '[' (by simp) fuel))]
  rfl

/-- An operand without trailers is a phrase. -/
theorem outcome_primary {limit fuel : Nat} {cs rest : List Char} {tree : LineTree}
    (taken : atom.outcome limit fuel cs = some (rest, [tree])) (apart : Apart rest) :
    LineExpr.outcome limit (fuel + 1) (ref .primary) cs =
      some (skipBlanks rest, [.phrase .primary .none [tree]]) := by
  rw [outcome_ref, show body .primary = atom ++ Peg.many trailer from rfl, outcome_seq taken,
    outcome_many_none (apart.outcome_trailer limit fuel)]
  rfl

/-- An operator stands apart from the operand in front of it. -/
theorem apart_spaced (op : LinkingOp) (rest : List Char) : Apart (op.spaced ++ rest) := by
  constructor
  · intro c head
    cases head
    decide
  · rcases op with op | op | op <;> cases op <;> (intro c head; cases head; decide)

/-- Links behind an operand stand apart from it. -/
theorem Apart.links {rest : List Char} (apart : Apart rest) (links : List (LinkingOp × Prefixed)) :
    Apart (linksText links ++ rest) := by
  cases links with
  | nil => exact apart
  | cons l links =>
    rw [linksText, List.flatMap_cons, List.append_assoc, List.append_assoc]
    exact apart_spaced l.1 _

/-! ## Operators -/

/-- An operator between operands is read, and `is` without a `not` behind it. -/
theorem outcome_linkingOp (op : LinkingOp) (limit fuel : Nat) {rest : List Char}
    (apart : op = .compare .is → (wordPattern .notWord).scan (skipBlanks rest) = none) :
    ∃ tree, linkingOp.outcome limit (fuel + 2) (op.symbol.toList ++ ' ' :: rest) =
      some (' ' :: rest, [tree]) ∧ operatorPiece tree = some (.linking op) := by
  rcases op with op | op | op
  · cases op <;> exact ⟨_, rfl, rfl⟩
  · cases op with
    | is =>
      have taken : LineExpr.outcome limit fuel (word .isWord) ('i' :: 's' :: ' ' :: rest) =
          some (' ' :: rest, [.token (.word .isWord) .none ['i', 's']]) := rfl
      -- the longer operator comes first, and fails at the operand
      have longer : LineExpr.outcome limit (fuel + 1) (ref .opIsNot) ('i' :: 's' :: ' ' :: rest) =
          none := by
        rw [outcome_ref, show body .opIsNot = word .isWord ++ word .notWord from rfl,
          outcome_seq taken]
        show ((((wordPattern .notWord).scan (skipBlanks rest)).map _).map _).map _ = none
        rw [apart rfl]
        rfl
      have shorter : LineExpr.outcome limit (fuel + 2) (ref .compOp) ('i' :: 's' :: ' ' :: rest) =
          some (' ' :: rest, [.phrase .compOp .none
            [.phrase .opIs .none [.token (.word .isWord) .none ['i', 's']]]]) := by
        rw [outcome_ref, show (body .compOp).outcome limit (fuel + 1) ('i' :: 's' :: ' ' :: rest) =
          LineExpr.outcome limit (fuel + 1) (ref .opIsNot <|> ref .opIn <|> ref .opIs) _ from rfl,
          outcome_alt, longer]
        rfl
      refine ⟨_, Eq.trans ?_ shorter, rfl⟩
      show (LineExpr.outcome limit (fuel + 2) (ref .compOp) ('i' :: 's' :: ' ' :: rest)).or _ = _
      rw [shorter]
      rfl
    | _ => exact ⟨_, rfl, rfl⟩
  · cases op <;> exact ⟨_, rfl, rfl⟩

/-- An operator in front of an operand is read. -/
theorem outcome_leadingOp (op : UnaryOp) (limit fuel : Nat) {rest : List Char}
    (start : skipBlanks rest = rest) :
    ∃ mid tree, leadingOp.outcome limit (fuel + 1) (op.lead.toList ++ rest) =
      some (mid, [tree]) ∧ skipBlanks mid = rest ∧
        operatorPiece tree = some (.leading (.unary op) .none) := by
  cases op with
  | not => exact ⟨' ' :: rest, _, rfl, start, rfl⟩
  | neg | pos => exact ⟨rest, _, rfl, start, rfl⟩

/-! ## Operands -/

/-- An operator in front of trees is the first piece of them. -/
theorem piecesOf_operator {tree : LineTree} {piece : Piece} {trees : List LineTree}
    {pieces : List Piece} (first : operatorPiece tree = some piece)
    (others : piecesOf trees = .ok pieces) : piecesOf (tree :: trees) = .ok (piece :: pieces) := by
  rw [piecesOf, first, others]
  rfl

/-- A single operand is the only piece. -/
theorem piecesOf_primary {s : Span} {children : List LineTree} {e : Expr}
    (value : exprOf (.phrase .primary s children) = .ok e) :
    piecesOf [.phrase .primary s children] = .ok [.operand e] := by
  rw [piecesOf, piecesOf]
  simp only [operatorPiece, value]
  rfl

/-- The pieces of trees side by side stand side by side. -/
theorem piecesOf_append {a b : List LineTree} {p q : List Piece} (first : piecesOf a = .ok p)
    (second : piecesOf b = .ok q) : piecesOf (a ++ b) = .ok (p ++ q) := by
  induction a generalizing p with
  | nil =>
    cases first
    exact second
  | cons tree a ih =>
    rw [piecesOf] at first
    rw [List.cons_append, piecesOf]
    have next : ∀ piece : Piece, (piecesOf a >>= fun pieces => .ok (piece :: pieces)) = .ok p →
        (piecesOf (a ++ b) >>= fun pieces => .ok (piece :: pieces)) = .ok (p ++ q) := by
      intro piece first
      cases others : piecesOf a with
      | error e =>
        rw [others] at first
        cases first
      | ok pieces =>
        rw [others] at first
        cases first
        rw [ih others]
        rfl
    cases operator : operatorPiece tree with
    | some piece =>
      rw [operator] at first
      exact next piece first
    | none =>
      rw [operator] at first
      cases value : exprOf tree with
      | error e =>
        rw [value] at first
        cases first
      | ok e =>
        rw [value] at first
        exact next (.operand e) first

namespace Atom

variable (x : Atom) {rest : List Char}

/-- No blank stands in front of an atom. -/
theorem skipBlanks_eq (rest : List Char) : skipBlanks (x.text ++ rest) = x.text ++ rest := by
  cases x with
  | name id => exact id.skipBlanks_eq rest
  | bracketed f => rfl

/-- No operator does. -/
theorem outcome_leadingOp (stop : AtStop rest) (limit fuel : Nat) :
    leadingOp.outcome limit fuel (x.text ++ rest) = none := by
  cases x with
  | name id =>
    exact Identifier.outcome_eq_none stop (fun p => Identifier.outcome_ref_eq_none stop)
      (show leadingOp.refusesName (PhraseName.refusesName 2) = true from rfl)
  | bracketed f =>
    match fuel with
    | 0 | _ + 1 => rfl

/-- The word `not` does not either. -/
theorem scan_notWord (stop : AtStop rest) :
    (wordPattern .notWord).scan (x.text ++ rest) = none := by
  cases x with
  | name id => exact id.scan_eq_none (t := .word .notWord) stop rfl
  | bracketed f => rfl

/-- An operand is read as its expression. -/
def ReadsWith (limit fuel : Nat) : Prop :=
  ∀ rest, Apart rest → ∃ tree, atom.outcome limit fuel (x.text ++ rest) = some (rest, [tree]) ∧
    exprOf tree = .ok x.expr

end Atom

namespace Prefixed

variable (x : Prefixed) {rest : List Char}

/-- No blank stands in front of an operand. -/
theorem skipBlanks_eq (rest : List Char) : skipBlanks (x.text ++ rest) = x.text ++ rest := by
  obtain ⟨leading, atom⟩ := x
  cases leading with
  | nil => exact atom.skipBlanks_eq rest
  | cons op ops => cases op <;> rfl

/-- The operators in front of an operand are read one by one. -/
theorem repeats_leading (stop : AtStop rest) (limit fuel : Nat) :
    ∃ trees, Repeats (leadingOp.outcome limit (fuel + 1)) x.leading.length (x.text ++ rest) trees
        (x.atom.text ++ rest) ∧
      piecesOf trees = .ok (x.leading.map fun op => .leading (.unary op) .none) := by
  obtain ⟨leading, atom⟩ := x
  induction leading with
  | nil => exact ⟨[], .stop (atom.outcome_leadingOp stop limit _), rfl⟩
  | cons op ops ih =>
    obtain ⟨trees, others, pieces⟩ := ih
    obtain ⟨mid, tree, first, start, piece⟩ := BlockEditor.outcome_leadingOp op limit fuel
      (Prefixed.skipBlanks_eq ⟨ops, atom⟩ rest)
    refine ⟨[tree] ++ trees, .item ?_ (start.symm ▸ others), piecesOf_operator piece pieces⟩
    simpa [text] using first

/-- An operand is read with the operators in front of it. -/
theorem outcome_operand {limit fuel : Nat} (reads : x.atom.ReadsWith limit fuel)
    (few : x.leading.length ≤ limit + 1) (apart : Apart rest) :
    ∃ mid leading operand,
      LineExpr.outcome limit (fuel + 1) (.many leadingOp) (x.text ++ rest) = some (mid, leading) ∧
      LineExpr.outcome limit (fuel + 1) (ref .primary) (skipBlanks mid) =
        some (skipBlanks rest, operand) ∧
      piecesOf (leading ++ operand) = .ok x.pieces := by
  obtain ⟨leading, repeats, pieces⟩ := x.repeats_leading apart.stop limit fuel
  obtain ⟨mid, taken, behind⟩ := repeats.many few (x.skipBlanks_eq rest)
  obtain ⟨tree, atom, value⟩ := reads rest apart
  refine ⟨mid, leading, _, taken, behind ▸ outcome_primary atom apart, ?_⟩
  refine piecesOf_append pieces (piecesOf_primary ?_)
  rw [Sketch.exprOf_primary, value]

end Prefixed

/-! ## Runs -/

/-- A text ends a run in front of it. -/
structure Ends (rest : List Char) : Prop extends Apart rest where
  unlinked : ∀ limit fuel, linkingOp.outcome limit fuel (skipBlanks rest) = none

/-- An operator with the operand behind it. -/
def linkExpr : LineExpr := linkingOp ++ Peg.many leadingOp ++ ref .primary

theorem skipBlanks_skipBlanks (cs : List Char) : skipBlanks (skipBlanks cs) = skipBlanks cs :=
  List.dropWhile_idempotent _ _

/-- An operand that does not begin with `not`. -/
theorem Prefixed.scan_notWord {x : Prefixed} (other : x.leading.head? ≠ some .not)
    {rest : List Char} (stop : AtStop rest) :
    (wordPattern .notWord).scan (x.text ++ rest) = none := by
  obtain ⟨leading, atom⟩ := x
  cases leading with
  | nil => exact atom.scan_notWord stop
  | cons op ops =>
    cases op with
    | not => exact absurd rfl other
    | neg | pos => rfl

/-- A link of a run: no `not` stands behind `is`, and the operand is read. -/
structure LinkReads (limit fuel : Nat) (l : LinkingOp × Prefixed) : Prop where
  apart : l.1 = .compare .is → l.2.leading.head? ≠ some .not
  few : l.2.leading.length ≤ limit + 1
  atom : l.2.atom.ReadsWith limit fuel

/-- An operator is read with the operand behind it. -/
theorem LinkReads.outcome {limit fuel : Nat} {l : LinkingOp × Prefixed}
    (h : LinkReads limit (fuel + 1) l) {rest : List Char} (apart : Apart rest) :
    ∃ trees, linkExpr.outcome limit (fuel + 2) (skipBlanks (l.1.spaced ++ l.2.text ++ rest)) =
        some (skipBlanks rest, trees) ∧ piecesOf trees = .ok (.linking l.1 :: l.2.pieces) := by
  obtain ⟨op, x⟩ := l
  have start : skipBlanks (op.spaced ++ x.text ++ rest) =
      op.symbol.toList ++ ' ' :: (x.text ++ rest) := by
    rcases op with op | op | op <;> cases op <;> rfl
  have behind : skipBlanks (' ' :: (x.text ++ rest)) = x.text ++ rest := x.skipBlanks_eq rest
  obtain ⟨operator, taken, piece⟩ := outcome_linkingOp op limit fuel
    (show op = .compare .is → (wordPattern .notWord).scan (skipBlanks (x.text ++ rest)) = none by
      intro e
      rw [x.skipBlanks_eq]
      exact Prefixed.scan_notWord (h.apart e) apart.stop)
  obtain ⟨mid, leading, operand, first, second, pieces⟩ := x.outcome_operand h.atom h.few apart
  refine ⟨[operator] ++ leading ++ operand, ?_, ?_⟩
  · have both : LineExpr.outcome limit (fuel + 2) (linkingOp ++ Peg.many leadingOp)
        (op.symbol.toList ++ ' ' :: (x.text ++ rest)) = some (mid, [operator] ++ leading) := by
      rw [outcome_seq taken, behind, first]
      rfl
    rw [start, linkExpr, outcome_seq both, second]
    rfl
  · exact piecesOf_operator piece pieces

/-- The links of a run are read one by one. -/
theorem repeats_links {limit fuel : Nat} {links : List (LinkingOp × Prefixed)}
    (each : ∀ l ∈ links, LinkReads limit (fuel + 1) l) {rest : List Char} (ends : Ends rest) :
    ∃ trees, Repeats (linkExpr.outcome limit (fuel + 2)) links.length
        (skipBlanks (linksText links ++ rest)) trees (skipBlanks rest) ∧
      piecesOf trees = .ok (linksPieces links) := by
  induction links with
  | nil =>
    refine ⟨[], .stop ?_, rfl⟩
    exact outcome_seq_none (outcome_seq_none (ends.unlinked limit _))
  | cons l links ih =>
    obtain ⟨trees, others, pieces⟩ := ih fun k member => each k (List.mem_cons_of_mem l member)
    obtain ⟨first, taken, piece⟩ :=
      (each l List.mem_cons_self).outcome (ends.toApart.links links)
    refine ⟨first ++ trees, .item ?_ ((skipBlanks_skipBlanks _).symm ▸ others),
      piecesOf_append piece pieces⟩
    rw [linksText, List.flatMap_cons, List.append_assoc]
    exact taken

/-- A run is read if its operands are. -/
structure Run.ReadsWith (r : Run) (limit fuel : Nat) : Prop where
  few : r.first.leading.length ≤ limit + 1
  first : r.first.atom.ReadsWith limit fuel
  fewLinks : r.links.length ≤ limit + 1
  links : ∀ l ∈ r.links, LinkReads limit fuel l

/-- A run is read as an operation. -/
theorem Run.ReadsWith.outcome {r : Run} {limit fuel : Nat} (h : r.ReadsWith limit (fuel + 1))
    {rest : List Char} (ends : Ends rest) :
    ∃ left children, LineExpr.outcome limit (fuel + 3) (ref .operation) (r.text ++ rest) =
        some (left, [.phrase .operation .none children]) ∧ skipBlanks left = skipBlanks rest ∧
      piecesOf children = .ok r.pieces := by
  obtain ⟨mid, leading, operand, first, second, pieces⟩ :=
    r.first.outcome_operand h.first h.few (ends.toApart.links r.links)
  obtain ⟨trees, repeats, others⟩ := repeats_links h.links ends
  obtain ⟨left, taken, behind⟩ := repeats.many h.fewLinks (skipBlanks_skipBlanks _)
  refine ⟨left, leading ++ operand ++ trees, ?_, behind, piecesOf_append pieces others⟩
  have both : LineExpr.outcome limit (fuel + 2) (Peg.many leadingOp ++ ref .primary)
      (r.text ++ rest) = some (skipBlanks (linksText r.links ++ rest), leading ++ operand) := by
    rw [text, List.append_assoc, outcome_seq first, second]
    rfl
  rw [outcome_ref, show body .operation = Peg.many leadingOp ++ ref .primary ++ Peg.many linkExpr
    from rfl, outcome_seq both, skipBlanks_skipBlanks, taken]
  rfl

end BlockEditor
