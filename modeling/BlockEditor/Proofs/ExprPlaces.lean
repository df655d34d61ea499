import BlockEditor.Proofs.TreePlaces
import BlockEditor.Syntax.Expression

/-!
# Places of expressions

An expression that is read from a tree covers some of the text of the tree, and so do its parts
within it.  A tree that is no expression is refused at a place in the source.
-/

namespace BlockEditor

/-! ## Placed expressions -/

/-- The expressions directly inside an expression. -/
def Expr.children : Expr → List Expr
  | .constant .. | .name .. | .formatted .. => []
  | .binary _ left _ right => [left, right]
  | .unary _ _ operand => [operand]
  | .logical _ _ values => values
  | .compare _ left links => left :: links.map Prod.snd
  | .conditional _ test body orelse => [test, body, orelse]
  | .call _ func args keywords => func :: (args ++ keywords.map Keyword.value)
  | .member _ value _ | .starred _ value | .yieldedFrom _ value | .awaited _ value => [value]
  | .subscript _ value index => [value, index]
  | .slice _ lower upper step => lower.toList ++ upper.toList ++ step.toList
  | .tuple _ items | .list _ items | .set _ items => items
  | .dict _ entries => entries.flatMap fun entry => [entry.1, entry.2]
  | .comprehension _ _ element clauses =>
    element :: clauses.flatMap fun clause => clause.target :: clause.iter :: clause.conditions
  | .lambda _ _ body => [body]
  | .named _ target value => [target, value]
  | .yielded _ value => value.toList

/-- An expression covers some of a source, and its parts do so within it. -/
inductive Expr.Placed (source : List Char) : Expr → Prop
  | intro {e : Expr} : e.span.Covers source → (∀ c ∈ e.children, c.span.Within e.span) →
      (∀ c ∈ e.children, Placed source c) → Placed source e

/-- A placed expression lies in a region of the source. -/
def Expr.Lies (source : List Char) (region : Span) (e : Expr) : Prop :=
  e.Placed source ∧ e.span.Within region

variable {source : List Char} {region whole s : Span}

/-- A placed expression covers some of the source. -/
theorem Expr.Placed.covers {e : Expr} (h : e.Placed source) : e.span.Covers source := by
  cases h with
  | intro covers _ _ => exact covers

namespace Expr.Lies

/-- What lies in a part of a region lies in the region. -/
theorem mono {e : Expr} (h : e.Lies source s) (inside : s.Within region) : e.Lies source region :=
  ⟨h.1, h.2.trans inside⟩

/-- An expression whose parts lie in its span. -/
theorem intro {e : Expr} (covers : e.span.Covers source) (inside : e.span.Within region)
    (children : ∀ c ∈ e.children, c.Lies source e.span) : e.Lies source region :=
  ⟨.intro covers (fun c member => (children c member).2) fun c member => (children c member).1,
    inside⟩

end Expr.Lies

/-- Expressions lie in a region of the source. -/
def AllLie (source : List Char) (region : Span) (es : List Expr) : Prop :=
  ∀ e ∈ es, e.Lies source region

namespace AllLie

variable {e : Expr} {es more : List Expr}

theorem nil : AllLie source region [] := by
  intro e member
  cases member

theorem cons (first : e.Lies source region) (rest : AllLie source region es) :
    AllLie source region (e :: es) := List.forall_mem_cons.2 ⟨first, rest⟩

/-- Expressions in two parts lie in a region if both parts do. -/
theorem append (front : AllLie source region es) (back : AllLie source region more) :
    AllLie source region (es ++ more) := List.forall_mem_append.2 ⟨front, back⟩

/-- Expressions that lie in a part of a region lie in the region. -/
theorem mono (h : AllLie source s es) (inside : s.Within region) : AllLie source region es :=
  fun e member => (h e member).mono inside

end AllLie

/-- The parts of a placed expression lie in its span. -/
theorem Expr.Placed.children {e : Expr} (h : e.Placed source) :
    AllLie source e.span e.children := by
  cases h with
  | intro _ spans placed => exact fun c member => ⟨placed c member, spans c member⟩

/-! ## Operations -/

/-- The operands and operators of an operation lie in a region. -/
def Piece.Lies (source : List Char) (region : Span) : Piece → Prop
  | .operand e => e.Lies source region
  | .leading _ s => s.Covers source ∧ s.Within region
  | .linking _ => True

/-- An operator in front of an operand covers both. -/
theorem LeadingOp.lies_apply {e : Expr} (op : LeadingOp) (sign : s.Covers source ∧ s.Within region)
    (operand : e.Lies source region) : (op.apply s e).Lies source region := by
  have covers := sign.1.join operand.1.covers
  have inside := Span.join_within sign.2 operand.2
  have part : AllLie source (s.join e.span) [e] :=
    .cons ⟨operand.1, (Span.within_join s e.span).2⟩ .nil
  cases op with
  | unary op => exact .intro covers inside part
  | await => exact .intro covers inside part

/-- A link joins the places of its operands; a chain keeps the operands that it had. -/
theorem Operand.lies_link {lhs : Operand} {rhs : Expr} (op : LinkingOp)
    (left : lhs.node.Lies source region) (right : rhs.Lies source region) :
    (lhs.link op rhs).node.Lies source region := by
  have covers := left.1.covers.join right.1.covers
  have inside := Span.join_within left.2 right.2
  have within := Span.within_join lhs.node.span rhs.span
  have last : AllLie source (lhs.node.span.join rhs.span) [rhs] := .cons ⟨right.1, within.2⟩ .nil
  have fresh : AllLie source (lhs.node.span.join rhs.span) [lhs.node, rhs] :=
    .cons ⟨left.1, within.1⟩ last
  have extended : AllLie source (lhs.node.span.join rhs.span) (lhs.node.children ++ [rhs]) :=
    left.1.children.mono within.1 |>.append last
  -- an open chain is extended; otherwise the two operands make a new node
  obtain ⟨node, chain⟩ := lhs
  cases op with
  | logical op =>
    unfold Operand.link
    dsimp only
    split
    · split
      · exact .intro covers inside extended
      · exact .intro covers inside fresh
    · exact .intro covers inside fresh
  | compare op =>
    unfold Operand.link
    dsimp only
    split
    · rename_i first links
      split
      · refine .intro covers inside ?_
        have same : Expr.children (.compare region first (links ++ [(op, rhs)])) =
            first :: links.map Prod.snd ++ [rhs] := by
          simp [Expr.children]
        exact same ▸ extended
      · exact .intro covers inside fresh
    · exact .intro covers inside fresh
  | binary op => exact .intro covers inside fresh

/-- An operand that was made, and the pieces that are left, lie in a region. -/
def ClimbedLies (source : List Char) (region : Span) (x : Operand × List Piece) : Prop :=
  x.1.node.Lies source region ∧ ∀ piece ∈ x.2, piece.Lies source region

/-- Climbing makes operands in the region, up to some fuel. -/
structure ClimbsPlaced (source : List Char) (region : Span) (fuel : Nat) : Prop where
  climb : ∀ least pieces, (∀ piece ∈ pieces, piece.Lies source region) →
    Meets (ParseFault source) (ClimbedLies source region) (climb region fuel least pieces)
  climbLinks : ∀ least lhs pieces, ClimbedLies source region (lhs, pieces) →
    Meets (ParseFault source) (ClimbedLies source region) (climbLinks region fuel least lhs pieces)

/-- What is unexpected is reported at its place. -/
theorem meets_unexpected {α : Type} {P : α → Prop} (inside : s.In source) :
    Meets (ParseFault source) P (unexpected s) := ⟨rfl, inside⟩

/-- Climbing makes operands in the region with any fuel, by induction on the fuel. -/
theorem climbsPlaced (covers : region.Covers source) (fuel : Nat) :
    ClimbsPlaced source region fuel := by
  induction fuel with
  | zero =>
    constructor
    · intro least pieces _
      exact meets_unexpected covers.within
    · intro least lhs pieces taken
      exact taken
  | succ fuel ih =>
    constructor
    · intro least pieces all
      match pieces with
      | [] | .linking _ :: _ => exact meets_unexpected covers.within
      | .leading op s :: rest =>
        obtain ⟨sign, rest⟩ := List.forall_mem_cons.1 all
        rw [BlockEditor.climb]
        refine (ih.climb _ _ rest).bind ?_
        rintro ⟨operand, left⟩ ⟨lies, left⟩
        exact ih.climbLinks _ _ _ ⟨op.lies_apply sign lies, left⟩
      | .operand e :: rest =>
        obtain ⟨lies, rest⟩ := List.forall_mem_cons.1 all
        exact ih.climbLinks _ _ _ ⟨lies, rest⟩
    · intro least lhs pieces taken
      match pieces with
      | [] | .operand _ :: _ | .leading .. :: _ => exact taken
      | .linking op :: rest =>
        rw [BlockEditor.climbLinks]
        split
        · exact taken
        · refine (ih.climb _ _ (List.forall_mem_cons.1 taken.2).2).bind ?_
          rintro ⟨rhs, left⟩ ⟨lies, left⟩
          exact ih.climbLinks _ _ _ ⟨Operand.lies_link op taken.1 lies, left⟩

/-- What pieces in a region are folded into lies in the region. -/
theorem lies_foldOperation (covers : region.Covers source) {pieces : List Piece}
    (all : ∀ piece ∈ pieces, piece.Lies source region) :
    Meets (ParseFault source) (Expr.Lies source region) (foldOperation region pieces) :=
  ((climbsPlaced covers _).climb 0 pieces all).bind fun _ climbed => climbed.1

/-! ## Targets -/

/-- Targets are checked one by one, and one that is refused is so at its place. -/
theorem meets_checkTargets {es : List Expr}
    (each : ∀ e ∈ es, Meets (ParseFault source) (fun _ => True) (checkTarget e)) :
    Meets (ParseFault source) (fun _ => True) (checkTargets es) := by
  induction es with
  | nil => trivial
  | cons e es ih =>
    obtain ⟨first, rest⟩ := List.forall_mem_cons.1 each
    exact first.bind fun _ _ => ih rest

/-- An expression that is no target is refused at its place. -/
theorem Expr.Placed.meets_checkTarget {e : Expr} (h : e.Placed source) :
    Meets (ParseFault source) (fun _ => True) (checkTarget e) := by
  induction h with
  | @intro e covers _ _ ih =>
    unfold checkTarget
    split
    · trivial
    · trivial
    · trivial
    · split
      · exact ⟨rfl, covers.within⟩
      · exact meets_checkTargets ih
    · split
      · exact ⟨rfl, covers.within⟩
      · exact meets_checkTargets ih
    · exact ih _ (List.mem_singleton_self _)
    · exact ⟨rfl, covers.within⟩

/-! ## Trees that are read -/

/-- A tree stands in the source, and an expression that is read from it or from a tree inside lies in
that tree. -/
inductive ParseTree.Reads (source : List Char) : LineTree → Prop
  | token {t : Token} {s : Span} {lexeme : List Char} :
      ParseTree.Stands source (.token t s lexeme) →
      Meets (ParseFault source) (Expr.Lies source s) (exprOf (.token t s lexeme)) →
      Reads source (.token t s lexeme)
  | phrase {p : PhraseName} {s : Span} {children : List LineTree} :
      ParseTree.Stands source (.phrase p s children) →
      Meets (ParseFault source) (Expr.Lies source s) (exprOf (.phrase p s children)) →
      (∀ child ∈ children, Reads source child) → Reads source (.phrase p s children)

/-- Trees in a region of the source are read. -/
def AllRead (source : List Char) (region : Span) (trees : List LineTree) : Prop :=
  ∀ tree ∈ trees, tree.Reads source ∧ tree.span.Within region

section Trees

variable {t : Token} {p : PhraseName} {lexeme : List Char} {tree : LineTree}
  {children trees : List LineTree}

/-- A token other than the end of the line covers some of the source. -/
theorem ParseTree.Stands.token_covers (h : ParseTree.Stands source (.token t s lexeme))
    (inner : t ≠ .endOfLine) : s.Covers source := by
  cases h with
  | token inside some => exact ⟨inside.1, inside.2.1, some inner⟩

theorem ParseTree.Stands.phrase_covers (h : ParseTree.Stands source (.phrase p s children)) :
    s.Covers source := by
  cases h with
  | phrase covers _ _ => exact covers

/-- The trees inside a phrase are laid out in its span. -/
theorem ParseTree.Stands.laid (h : ParseTree.Stands source (.phrase p s children)) :
    Laid ParseTree.span s.start s.stop children := by
  cases h with
  | phrase _ laid _ => exact laid

/-- The place of a tree is in the source. -/
theorem ParseTree.Stands.span_in (h : tree.Stands source) : tree.span.In source := by
  cases h with
  | token inside _ => exact inside
  | phrase covers _ _ => exact covers.within

/-- A tree that is read stands in the source. -/
theorem ParseTree.Reads.stands (h : tree.Reads source) : tree.Stands source := by
  cases h with
  | token stands _ => exact stands
  | phrase stands _ _ => exact stands

/-- An expression that is read from a tree lies in the tree. -/
theorem ParseTree.Reads.expr (h : tree.Reads source) :
    Meets (ParseFault source) (Expr.Lies source tree.span) (exprOf tree) := by
  cases h with
  | token _ expr => exact expr
  | phrase _ expr _ => exact expr

/-- The trees inside a phrase. -/
theorem ParseTree.Reads.inside (h : ParseTree.Reads source (.phrase p s children)) :
    AllRead source s children := by
  cases h with
  | phrase stands _ reads => exact fun tree member => ⟨reads tree member, stands.laid.within tree member⟩

namespace AllRead

/-- Trees in a part of a region are in the region. -/
theorem mono (h : AllRead source s trees) (inside : s.Within region) : AllRead source region trees :=
  fun tree member => ⟨(h tree member).1, (h tree member).2.trans inside⟩

/-- The trees behind the first one are read as well. -/
theorem tail (h : AllRead source region (tree :: trees)) : AllRead source region trees :=
  (List.forall_mem_cons.1 h).2

/-- The trees inside the first tree, if it is a phrase. -/
theorem inner (h : AllRead source region (.phrase p s children :: trees)) :
    AllRead source region children :=
  have first := h _ List.mem_cons_self
  first.1.inside.mono first.2

/-- The expression of a tree. -/
theorem expr (h : AllRead source region trees) (member : tree ∈ trees) :
    Meets (ParseFault source) (Expr.Lies source region) (exprOf tree) :=
  (h tree member).1.expr.mono fun _ lies => lies.mono (h tree member).2

/-- The expression of the first tree lies in the region. -/
theorem head (h : AllRead source region (tree :: trees)) :
    Meets (ParseFault source) (Expr.Lies source region) (exprOf tree) := h.expr List.mem_cons_self

end AllRead

/-! ## Lists of trees -/

/-- The items among trees are laid out as the trees are. -/
theorem lies_itemsOf {low high : Nat} (all : AllRead source region trees)
    (laid : Laid ParseTree.span low high trees) :
    Meets (ParseFault source)
      (fun x => AllLie source region x.1 ∧ Laid Expr.span low high x.1) (itemsOf trees) := by
  induction trees generalizing low with
  | nil => exact ⟨.nil, .nil laid.le⟩
  | cons tree trees ih =>
    unfold itemsOf
    split
    · exact ⟨.nil, .nil laid.le⟩
    · exact ⟨.nil, .nil laid.le⟩
    · rename_i tree' trees' _ same
      obtain ⟨rfl, rfl⟩ := List.cons.inj same
      cases laid with
      | cons start inside rest =>
        have first := all tree List.mem_cons_self
        refine first.1.expr.bind fun item here => ?_
        refine (ih all.tail rest).bind ?_
        rintro ⟨items, comma⟩ ⟨others, behind⟩
        refine ⟨.cons (here.mono first.2) others, .cons (Nat.le_trans start here.2.1) ?_ ?_⟩
        · exact Nat.le_of_lt here.1.covers.2.2
        · exact behind.mono here.2.2 (Nat.le_refl _)

/-- A single item, or the tuple of several, lies in the region of the items. -/
theorem lies_itemOrTuple {items : List Expr} (covers : s.Covers source) (inside : s.Within region)
    (all : AllLie source s items) (comma : Bool) :
    (itemOrTuple s (items, comma)).Lies source region := by
  unfold itemOrTuple
  split
  · rename_i item e
    obtain ⟨rfl, -⟩ := Prod.mk.inj e
    exact (all item List.mem_cons_self).mono inside
  · rename_i e
    obtain ⟨rfl, -⟩ := Prod.mk.inj e
    exact .intro covers inside all

/-- An operator lies where its token stands. -/
theorem lies_operatorPiece (h : tree.Stands source) (inside : tree.span.Within region)
    {piece : Piece} (e : operatorPiece tree = some piece) : piece.Lies source region := by
  unfold operatorPiece at e
  split at e
  · cases e
    exact ⟨h.token_covers (by decide), inside⟩
  · cases e
    exact ⟨h.token_covers (by decide), inside⟩
  · obtain ⟨op, -, rfl⟩ := Option.map_eq_some_iff.1 e
    exact ⟨h.phrase_covers, inside⟩
  all_goals first
    | cases e <;> trivial
    | obtain ⟨op, -, rfl⟩ := Option.map_eq_some_iff.1 e
      trivial

/-- The operands and operators among trees lie in their region. -/
theorem lies_piecesOf (all : AllRead source region trees) :
    Meets (ParseFault source) (fun pieces => ∀ piece ∈ pieces, piece.Lies source region)
      (piecesOf trees) := by
  induction trees with
  | nil => exact List.forall_mem_nil _
  | cons tree trees ih =>
    have next : ∀ piece : Piece, piece.Lies source region →
        Meets (ParseFault source) (fun pieces => ∀ piece ∈ pieces, piece.Lies source region)
          (piecesOf trees >>= fun pieces => .ok (piece :: pieces)) := fun piece first =>
      (ih all.tail).bind fun pieces others => List.forall_mem_cons.2 ⟨first, others⟩
    have first := all tree List.mem_cons_self
    unfold piecesOf
    dsimp only
    cases e : operatorPiece tree with
    | some piece => exact next piece (lies_operatorPiece first.1.stands first.2 e)
    | none =>
      have operand := all.head.map (f := Piece.operand) (R := Piece.Lies source region) fun _ h => h
      exact operand.bind next

/-- The bounds of a slice lie in the region of the trees. -/
theorem lies_boundsOf (all : AllRead source region trees) :
    Meets (ParseFault source) (fun x => AllLie source region x.1.toList ∧
      AllLie source region x.2.toList) (boundsOf trees) := by
  induction trees with
  | nil => exact ⟨.nil, .nil⟩
  | cons tree trees ih =>
    unfold boundsOf
    split
    · exact ⟨.nil, .nil⟩
    · rename_i same
      obtain ⟨rfl, rfl⟩ := List.cons.inj same
      refine all.inner.head.bind fun value here => ?_
      refine (ih all.tail).bind ?_
      rintro ⟨upper, step⟩ ⟨-, behind⟩
      exact ⟨.cons here .nil, behind⟩
    · rename_i same
      obtain ⟨rfl, rfl⟩ := List.cons.inj same
      refine all.inner.head.bind fun value here => ?_
      refine (ih all.tail).bind ?_
      rintro ⟨upper, step⟩ ⟨before, -⟩
      exact ⟨before, .cons here .nil⟩
    · rename_i same
      obtain ⟨rfl, rfl⟩ := List.cons.inj same
      exact meets_unexpected (all tree List.mem_cons_self).1.stands.span_in

theorem lies_entriesOf (all : AllRead source region trees) :
    Meets (ParseFault source)
      (fun entries => AllLie source region (entries.flatMap fun entry => [entry.1, entry.2]))
      (entriesOf trees) := by
  induction trees with
  | nil => exact AllLie.nil
  | cons tree trees ih =>
    unfold entriesOf
    split
    · exact AllLie.nil
    · rename_i same
      obtain ⟨rfl, rfl⟩ := List.cons.inj same
      refine all.inner.head.bind fun key first => ?_
      refine all.inner.tail.head.bind fun value second => ?_
      exact (ih all.tail).bind fun entries others => AllLie.cons first (AllLie.cons second others)
    · rename_i same
      obtain ⟨rfl, rfl⟩ := List.cons.inj same
      exact meets_unexpected (all tree List.mem_cons_self).1.stands.span_in

theorem lies_conditionsOf (all : AllRead source region trees) :
    Meets (ParseFault source) (AllLie source region) (conditionsOf trees) := by
  induction trees with
  | nil => exact AllLie.nil
  | cons tree trees ih =>
    unfold conditionsOf
    split
    · exact AllLie.nil
    · rename_i same
      obtain ⟨rfl, rfl⟩ := List.cons.inj same
      refine all.inner.tail.head.bind fun condition first => ?_
      exact (ih all.tail).bind fun conditions others => AllLie.cons first others
    · rename_i same
      obtain ⟨rfl, rfl⟩ := List.cons.inj same
      exact meets_unexpected (all tree List.mem_cons_self).1.stands.span_in

theorem lies_clausesOf (all : AllRead source region trees) :
    Meets (ParseFault source)
      (fun clauses => AllLie source region
        (clauses.flatMap fun clause => clause.target :: clause.iter :: clause.conditions))
      (clausesOf trees) := by
  induction trees with
  | nil => exact AllLie.nil
  | cons tree trees ih =>
    unfold clausesOf
    split
    · exact AllLie.nil
    · rename_i same
      obtain ⟨rfl, rfl⟩ := List.cons.inj same
      have inner := all.inner.tail
      refine inner.head.bind fun target first => ?_
      refine first.1.meets_checkTarget.bind fun _ _ => ?_
      refine inner.tail.tail.head.bind fun iter second => ?_
      refine (lies_conditionsOf inner.tail.tail.tail).bind fun conditions third => ?_
      refine (ih all.tail).bind fun clauses others => ?_
      exact AllLie.cons first (AllLie.cons second (third.append others))
    · rename_i same
      obtain ⟨rfl, rfl⟩ := List.cons.inj same
      exact meets_unexpected (all tree List.mem_cons_self).1.stands.span_in

/-- A comprehension that stands where none may is reported at its place. -/
theorem meets_checkNoComprehension (inside : s.In source) (trees : List LineTree) :
    Meets (ParseFault source) (fun _ => True) (checkNoComprehension s trees) := by
  unfold checkNoComprehension
  split
  · exact ⟨rfl, inside⟩
  · trivial

/-- The arguments of a call lie in the span of the arguments, which a comprehension takes. -/
theorem lies_argumentsOf (covers : region.Covers source) (all : AllRead source region trees) :
    Meets (ParseFault source) (fun x => AllLie source region x.1 ∧
      AllLie source region (x.2.map Keyword.value)) (argumentsOf region trees) := by
  induction trees with
  | nil => exact ⟨.nil, .nil⟩
  | cons tree trees ih =>
    have inside := (all tree List.mem_cons_self).1.stands.span_in
    unfold argumentsOf
    split
    · exact ⟨.nil, .nil⟩
    · rename_i same
      obtain ⟨rfl, rfl⟩ := List.cons.inj same
      refine (meets_checkNoComprehension inside _).bind fun _ _ => ?_
      refine all.inner.tail.head.bind fun value here => ?_
      refine (ih all.tail).bind ?_
      rintro ⟨args, keywords⟩ ⟨positional, named⟩
      exact ⟨positional, .cons here named⟩
    · rename_i same
      obtain ⟨rfl, rfl⟩ := List.cons.inj same
      refine (meets_checkNoComprehension inside _).bind fun _ _ => ?_
      refine all.inner.head.bind fun value here => ?_
      refine (ih all.tail).bind ?_
      rintro ⟨args, keywords⟩ ⟨positional, named⟩
      exact ⟨positional, .cons here named⟩
    · rename_i same
      obtain ⟨rfl, rfl⟩ := List.cons.inj same
      obtain ⟨reads, within⟩ := all _ List.mem_cons_self
      refine (meets_checkNoComprehension inside _).bind fun _ _ => ?_
      refine reads.inside.head.bind fun value here => ?_
      refine (ih all.tail).bind ?_
      rintro ⟨args, keywords⟩ ⟨positional, named⟩
      have starred : (Expr.starred _ value).Lies source region :=
        .intro reads.stands.phrase_covers within (AllLie.cons here .nil)
      exact ⟨.cons starred positional, named⟩
    · rename_i same
      obtain ⟨rfl, rfl⟩ := List.cons.inj same
      refine all.head.bind fun arg here => ?_
      dsimp only
      split
      · refine (lies_clausesOf all.tail).map fun clauses inner => ⟨.cons ?_ .nil, .nil⟩
        exact .intro covers region.within_refl (AllLie.cons here inner)
      · refine (ih all.tail).bind ?_
        rintro ⟨args, keywords⟩ ⟨positional, named⟩
        exact ⟨.cons here positional, named⟩

/-- The index between brackets that cover some of the source. -/
theorem lies_indexOf {low high : Nat} (all : AllRead source region trees)
    (laid : Laid ParseTree.span low high trees) :
    Meets (ParseFault source) (Expr.Lies source region) (indexOf trees) := by
  unfold indexOf
  split
  · exact meets_unexpected (Span.none_in source)
  · obtain ⟨reads, within⟩ := all _ List.mem_cons_self
    refine (lies_boundsOf reads.inside).bind ?_
    rintro ⟨upper, step⟩ ⟨first, second⟩
    exact .intro reads.stands.phrase_covers within ((AllLie.nil.append first).append second)
  · rename_i s parts _ _
    obtain ⟨reads, within⟩ := all.tail _ List.mem_cons_self
    refine all.head.bind fun first here => ?_
    refine (lies_boundsOf reads.inside).bind ?_
    rintro ⟨upper, step⟩ ⟨behind, last⟩
    have sides := Span.within_join first.span s
    refine .intro (here.1.covers.join reads.stands.phrase_covers) (Span.join_within here.2 within) ?_
    exact ((AllLie.cons ⟨here.1, sides.1⟩ .nil).append (behind.mono sides.2)).append
      (last.mono sides.2)
  · cases laid with
    | cons start inner rest =>
      refine (all _ List.mem_cons_self).1.expr.bind fun first here => ?_
      refine (lies_itemsOf all.tail rest).bind ?_
      rintro ⟨items, comma⟩ ⟨others, behind⟩
      have row : Laid Expr.span low high (first :: items) :=
        .cons (Nat.le_trans start here.2.1) (Nat.le_of_lt here.1.covers.2.2)
          (behind.mono here.2.2 (Nat.le_refl _))
      have lie : AllLie source region (first :: items) :=
        .cons (here.mono (all _ List.mem_cons_self).2) others
      have last : items.getLast?.getD first ∈ first :: items := by
        cases e : items.getLast? with
        | none => exact List.mem_cons_self
        | some item => exact List.mem_cons_of_mem _ (List.mem_of_getLast? e)
      -- the tuple reaches from the first item to the last, and the others stand between them
      refine lies_itemOrTuple (here.1.covers.join (lie _ last).1.covers)
        (Span.join_within (lie first List.mem_cons_self).2 (lie _ last).2) ?_ comma
      refine fun e member => ⟨(lie e member).1, (row.within_ends e member).trans ?_⟩
      exact ⟨Nat.min_le_left _ _, Nat.le_max_right _ _⟩

/-- A value with what follows it lies in the region of both. -/
theorem lies_trailersOf {value : Expr} (first : value.Lies source region)
    (all : AllRead source region trees) :
    Meets (ParseFault source) (Expr.Lies source region) (trailersOf value trees) := by
  induction trees generalizing value with
  | nil => exact first
  | cons tree trees ih =>
    obtain ⟨reads, within⟩ := all tree List.mem_cons_self
    have sides := Span.within_join value.span tree.span
    have held : value.Lies source (value.span.join tree.span) := ⟨first.1, sides.1⟩
    have inside := Span.join_within first.2 within
    unfold trailersOf
    split
    · rename_i same
      cases same
    · rename_i same
      obtain ⟨rfl, rfl⟩ := List.cons.inj same
      have covers := first.1.covers.join reads.stands.phrase_covers
      exact ih (.intro covers inside (AllLie.cons held .nil)) all.tail
    · rename_i same
      obtain ⟨rfl, rfl⟩ := List.cons.inj same
      have covers := first.1.covers.join reads.stands.phrase_covers
      obtain ⟨args, place⟩ := reads.inside _ List.mem_cons_self
      refine (lies_argumentsOf args.stands.phrase_covers args.inside).bind ?_
      rintro ⟨positional, keywords⟩ ⟨lie, named⟩
      have within := place.trans sides.2
      refine ih (.intro covers inside ?_) all.tail
      exact AllLie.cons held ((lie.mono within).append (named.mono within))
    · rename_i same
      obtain ⟨rfl, rfl⟩ := List.cons.inj same
      have covers := first.1.covers.join reads.stands.phrase_covers
      exact ih (.intro covers inside (AllLie.cons held .nil)) all.tail
    · rename_i same
      obtain ⟨rfl, rfl⟩ := List.cons.inj same
      have covers := first.1.covers.join reads.stands.phrase_covers
      refine (lies_indexOf reads.inside reads.stands.laid).bind fun index here => ?_
      refine ih (.intro covers inside ?_) all.tail
      exact AllLie.cons held (AllLie.cons (here.mono sides.2) .nil)
    · rename_i same
      obtain ⟨rfl, rfl⟩ := List.cons.inj same
      exact meets_unexpected reads.stands.span_in

/-! ## Expressions of trees -/

/-- An integer literal that has no value is refused at its place. -/
theorem meets_integerConstant (inside : s.In source) (lexeme : List Char) :
    Meets (ParseFault source) (fun _ => True) (integerConstant s lexeme) := by
  unfold integerConstant
  dsimp only
  split
  · exact ⟨rfl, inside⟩
  · split
    · trivial
    · split
      · trivial
      · exact ⟨rfl, inside⟩

theorem meets_floatConstant (inside : s.In source) (lexeme : List Char) :
    Meets (ParseFault source) (fun _ => True) (floatConstant s lexeme) := by
  unfold floatConstant
  split
  · trivial
  · exact ⟨rfl, inside⟩

theorem meets_imaginaryConstant (inside : s.In source) (lexeme : List Char) :
    Meets (ParseFault source) (fun _ => True) (imaginaryConstant s lexeme) := by
  unfold imaginaryConstant
  split
  · trivial
  · exact ⟨rfl, inside⟩

/-- A leaf lies where its token or phrase does. -/
theorem Expr.Lies.leaf {e : Expr} (covers : e.span.Covers source) (none : e.children = []) :
    e.Lies source e.span := by
  refine .intro covers e.span.within_refl ?_
  rw [none]
  exact AllLie.nil

/-- The expression of a token lies where the token stands. -/
theorem lies_exprOf_token (stands : ParseTree.Stands source (.token t s lexeme)) :
    Meets (ParseFault source) (Expr.Lies source s) (exprOf (.token t s lexeme)) := by
  have leaf : t ≠ .endOfLine → ∀ value, (Expr.constant s value).Lies source s :=
    fun inner value => .leaf (stands.token_covers inner) rfl
  cases t with
  | identifier => exact Expr.Lies.leaf (stands.token_covers (by decide)) rfl
  | noneLit | trueLit | falseLit | ellipsis => exact leaf (by decide) _
  | integer => exact (meets_integerConstant stands.span_in lexeme).map fun _ _ => leaf (by decide) _
  | float => exact (meets_floatConstant stands.span_in lexeme).map fun _ _ => leaf (by decide) _
  | imaginary =>
    exact (meets_imaginaryConstant stands.span_in lexeme).map fun _ _ => leaf (by decide) _
  | _ => exact meets_unexpected stands.span_in

/-- A display lies in its span: the first expression, with the clauses of a comprehension behind it or
with whatever else is made of it. -/
theorem lies_display {kind : ComprehensionKind} {others : Expr → Except Fault Expr}
    (covers : s.Covers source) (all : AllRead source s (tree :: trees))
    (made : ∀ first, first.Lies source s →
      Meets (ParseFault source) (Expr.Lies source s) (others first)) :
    Meets (ParseFault source) (Expr.Lies source s) (exprOf tree >>= fun first =>
      if startsComprehension trees then (clausesOf trees).map (.comprehension s kind first)
      else others first) := by
  refine all.head.bind fun first here => ?_
  split
  · refine (lies_clausesOf all.tail).map fun clauses inner => ?_
    exact .intro covers s.within_refl (AllLie.cons here inner)
  · exact made first here

/-- The items behind the first tree. -/
theorem lies_itemsOf_tail {low high : Nat} (all : AllRead source region (tree :: trees))
    (laid : Laid ParseTree.span low high (tree :: trees)) :
    Meets (ParseFault source) (fun x => AllLie source region x.1) (itemsOf trees) := by
  cases laid with
  | cons _ _ rest => exact (lies_itemsOf all.tail rest).mono fun _ lie => lie.1

/-- The expression of a phrase lies in it, if those of the trees inside do. -/
theorem lies_exprOf_phrase (stands : ParseTree.Stands source (.phrase p s children))
    (all : AllRead source s children) :
    Meets (ParseFault source) (Expr.Lies source s) (exprOf (.phrase p s children)) := by
  have covers := stands.phrase_covers
  have laid := stands.laid
  have refused : Meets (ParseFault source) (Expr.Lies source s) (unexpected s) :=
    meets_unexpected covers.within
  -- an expression of its own lies in the phrase if its parts do
  have own : ∀ {e : Expr}, e.span = s → AllLie source s e.children → e.Lies source s := by
    rintro e rfl parts
    exact .intro covers e.span.within_refl parts
  have wraps : ∀ {value : LineTree} {make : Expr → Expr}, value ∈ children →
      (∀ e, (make e).span = s) → (∀ e, (make e).children = [e]) →
      Meets (ParseFault source) (Expr.Lies source s) ((exprOf value).map make) := by
    intro value make member span parts
    refine (all.expr member).map fun e here => own (span e) ?_
    rw [parts]
    exact .cons here .nil
  cases p with
  | strings =>
    have leaf : ∀ e : Expr, e.span = s → e.children = [] → e.Lies source s := by
      intro e span none
      exact own span (none ▸ .nil)
    show (stringExpr s _).Lies source s
    unfold stringExpr
    dsimp only
    split
    · exact leaf _ rfl rfl
    · split
      · exact leaf _ rfl rfl
      · exact leaf _ rfl rfl
  | expression =>
    match children with
    | [value] => exact all.head
    | [value, _, test, _, orelse] =>
      refine (all.expr (by simp)).bind fun value first => ?_
      refine (all.expr (by simp)).bind fun test second => ?_
      refine (all.expr (by simp)).bind fun orelse third => ?_
      exact own rfl (.cons second (.cons first (.cons third .nil)))
    | [] | [_, _] | [_, _, _] | [_, _, _, _] | _ :: _ :: _ :: _ :: _ :: _ :: _ => exact refused
  | operation =>
    exact (lies_piecesOf all).bind fun pieces lie => lies_foldOperation covers lie
  | primary =>
    match children with
    | [] => exact refused
    | atom :: trailers =>
      exact all.head.bind fun value here => lies_trailersOf here all.tail
  | starExpressions | targetList =>
    refine (lies_itemsOf all laid).map ?_
    rintro ⟨items, comma⟩ ⟨lie, -⟩
    exact lies_itemOrTuple covers s.within_refl lie comma
  | starred | starTarget =>
    match children with
    | [value] => exact wraps List.mem_cons_self (fun _ => rfl) fun _ => rfl
    | [] | _ :: _ :: _ => exact refused
  | namedExpr =>
    match children with
    | [target, value] =>
      refine all.head.bind fun target first => ?_
      refine all.tail.head.bind fun value second => ?_
      exact own rfl (.cons first (.cons second .nil))
    | [] | [_] | _ :: _ :: _ :: _ => exact refused
  | lambdaExpr =>
    match children with
    | [_, value] => exact wraps (by simp) (fun _ => rfl) fun _ => rfl
    | [_, .phrase p _ _, value] =>
      cases p with
      | lambdaParams => exact wraps (by simp) (fun _ => rfl) fun _ => rfl
      | _ => exact refused
    | [] | [_] | [_, .token .., _] | _ :: _ :: _ :: _ :: _ => exact refused
  | yieldExpr =>
    match children with
    | [_] => exact own rfl .nil
    | [_, value] | [_, _, value] => exact wraps (by simp) (fun _ => rfl) fun _ => rfl
    | [] | _ :: _ :: _ :: _ :: _ => exact refused
  | parenExpr =>
    match children with
    | [] => exact own rfl .nil
    | first :: rest =>
      rw [exprOf]
      refine lies_display covers all fun first here => ?_
      refine (lies_itemsOf_tail all laid).bind fun x lie => ?_
      exact lies_itemOrTuple covers s.within_refl (AllLie.cons here lie) x.2
  | listDisplay =>
    match children with
    | [] => exact own rfl .nil
    | first :: rest =>
      rw [exprOf]
      refine lies_display covers all fun first here => ?_
      exact (lies_itemsOf_tail all laid).map fun x lie => own rfl (.cons here lie)
  | braceDisplay =>
    have set : ∀ {first rest}, AllRead source s (first :: rest) →
        Laid ParseTree.span s.start s.stop (first :: rest) →
        Meets (ParseFault source) (Expr.Lies source s) (exprOf first >>= fun first =>
          if startsComprehension rest then (clausesOf rest).map (.comprehension s .set first)
          else (itemsOf rest).map fun x => .set s (first :: x.1)) := by
      intro first rest all laid
      refine lies_display covers all fun first here => ?_
      exact (lies_itemsOf_tail all laid).map fun x lie => own rfl (.cons here lie)
    match children with
    | [] => exact own rfl .nil
    | [_] | _ :: .token .. :: _ => exact set all laid
    | first :: .phrase p _ inner :: rest =>
      cases p with
      | dictTail =>
        match inner with
        | [] => exact set all laid
        | value :: entries =>
          have behind := all.tail.inner
          refine all.head.bind fun first here => ?_
          refine behind.head.bind fun value there => ?_
          refine (lies_entriesOf behind.tail).bind fun entries others => ?_
          exact own rfl (.cons here (.cons there others))
      | _ => exact set all laid
  | _ => exact refused

/-- Trees that stand in a source are read. -/
theorem reads_of_stands (stands : tree.Stands source) : tree.Reads source := by
  induction stands with
  | token inside some => exact .token (.token inside some) (lies_exprOf_token (.token inside some))
  | phrase covers laid placed ih =>
    have all : AllRead source _ _ := fun tree member => ⟨ih tree member, laid.within tree member⟩
    exact .phrase (.phrase covers laid placed) (lies_exprOf_phrase (.phrase covers laid placed) all) ih

end Trees

end BlockEditor
