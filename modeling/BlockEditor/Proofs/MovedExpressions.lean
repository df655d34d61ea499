import BlockEditor.Syntax.Expression
import BlockEditor.Syntax.Moved
import Mathlib.Order.MinMax

/-!
# Expressions of moved trees

A tree that is moved is read as the same expression, moved alike, or as none if it was none.  A move
has to keep the order of offsets, since the span of a node is joined from those of its parts.
-/

namespace BlockEditor

/-! ## Computations that fail together -/

/-- Both computations fail, or the second one gives the image of what the first one gives. -/
def Mapped {α β : Type} (g : α → β) : Except Fault α → Except Fault β → Prop
  | .ok a, .ok b => b = g a
  | .error _, .error _ => True
  | .ok _, .error _ | .error _, .ok _ => False

namespace Mapped

variable {α β γ δ : Type} {g : α → β} {h : γ → δ} {x : Except Fault α} {y : Except Fault β}

theorem error (d e : Fault) : Mapped g (.error d) (.error e) := trivial

/-- If the first computation gives something, the second one gives its image. -/
theorem of_ok {a : α} (h : Mapped g x y) (done : x = .ok a) : y = .ok (g a) := by
  subst done
  cases y with
  | ok b => exact congrArg _ h
  | error e => exact h.elim

/-- Computations in sequence are mapped if each step is. -/
theorem bind (first : Mapped g x y) {k : α → Except Fault γ} {k' : β → Except Fault δ}
    (next : ∀ a, Mapped h (k a) (k' (g a))) : Mapped h (x >>= k) (y >>= k') := by
  cases x with
  | ok a =>
    cases y with
    | ok b =>
      obtain rfl : b = g a := first
      exact next a
    | error e => exact first.elim
  | error d =>
    cases y with
    | ok b => exact first.elim
    | error e => trivial

/-- What is made of mapped results is mapped. -/
theorem map (first : Mapped g x y) {k : α → γ} {k' : β → δ} (next : ∀ a, k' (g a) = h (k a)) :
    Mapped h (x.map k) (y.map k') := by
  change Mapped h (x >>= fun a => .ok (k a)) (y >>= fun b => .ok (k' b))
  exact first.bind next

/-- Computations over the items of a list are mapped if each of them is. -/
theorem mapM {items : List γ} {p : γ → δ} {k : γ → Except Fault α} {k' : δ → Except Fault β}
    (each : ∀ c ∈ items, Mapped g (k c) (k' (p c))) :
    Mapped (List.map g) (items.mapM k) ((items.map p).mapM k') := by
  induction items with
  | nil => exact rfl
  | cons c items ih =>
    rw [List.map_cons, List.mapM_cons, List.mapM_cons]
    refine (each c List.mem_cons_self).bind fun a => ?_
    refine (ih fun d member => each d (List.mem_cons_of_mem c member)).bind fun as => ?_
    exact rfl

end Mapped

/-! ## Spans -/

variable {f : Nat → Nat}

/-- The join of moved spans is the moved join. -/
theorem Span.move_join (mono : Monotone f) (a b : Span) :
    (a.join b).move f = (a.move f).join (b.move f) := by
  simp only [move, join, mono.map_min, mono.map_max]

/-! ## Targets -/

mutual

/-- A target that is moved stays one. -/
theorem mapped_checkTarget (f : Nat → Nat) (e : Expr) :
    Mapped id (checkTarget e) (checkTarget (e.move f)) := by
  cases e with
  | name | member | subscript => exact rfl
  | tuple span items | list span items =>
    have same : (Expr.moveAll f items).countP Expr.isStarred = items.countP Expr.isStarred := by
      simp [List.countP_map, Function.comp_def]
    rw [Expr.move, checkTarget, checkTarget, same]
    split
    · exact .error _ _
    · exact mapped_checkTargets f items
  | starred span value => exact mapped_checkTarget f value
  | _ => exact .error _ _

/-- Targets that are moved stay targets. -/
theorem mapped_checkTargets (f : Nat → Nat) (es : List Expr) :
    Mapped id (checkTargets es) (checkTargets (Expr.moveAll f es)) := by
  cases es with
  | nil => exact rfl
  | cons e es => exact (mapped_checkTarget f e).bind fun _ => mapped_checkTargets f es

end

/-! ## Operations -/

/-- A piece with its spans moved. -/
def Piece.move (f : Nat → Nat) : Piece → Piece
  | operand e => operand (e.move f)
  | leading op s => leading op (s.move f)
  | linking op => linking op

/-- An operand with its spans moved. -/
def Operand.move (f : Nat → Nat) (x : Operand) : Operand := ⟨x.node.move f, x.chain⟩

/-- An operator in front of an operand is moved with it. -/
theorem LeadingOp.move_apply (mono : Monotone f) (op : LeadingOp) (s : Span) (e : Expr) :
    op.apply (s.move f) (e.move f) = (op.apply s e).move f := by
  cases op <;> simp [apply, Expr.move, Span.move_join mono]

/-- Links are made in the same way of moved operands. -/
theorem Operand.move_link (mono : Monotone f) (lhs : Operand) (op : LinkingOp) (rhs : Expr) :
    (lhs.move f).link op (rhs.move f) = (lhs.link op rhs).move f := by
  obtain ⟨node, chain⟩ := lhs
  have whole : (node.move f).span.join (rhs.move f).span = (node.span.join rhs.span).move f := by
    rw [Span.move_join mono, Expr.span_move, Expr.span_move]
  cases op with
  | binary op => simp only [link, move, whole, Expr.move]
  | logical op =>
    simp only [link, move, whole]
    cases node with
    | logical s op' values =>
      simp only [Expr.move]
      split <;> simp [Expr.move]
    | _ => simp [Expr.move]
  | compare op =>
    simp only [link, move, whole]
    cases node with
    | compare s left links =>
      simp only [Expr.move]
      split <;> simp [Expr.move]
    | _ => simp [Expr.move]

/-- What climbing leaves, with its spans moved. -/
def moveClimbed (f : Nat → Nat) (x : Operand × List Piece) : Operand × List Piece :=
  (x.1.move f, x.2.map (Piece.move f))

/-- Climbing along moved pieces, up to some fuel. -/
structure ClimbsMoved (f : Nat → Nat) (span : Span) (fuel : Nat) : Prop where
  climb : ∀ least pieces, Mapped (moveClimbed f) (climb span fuel least pieces)
    (climb (span.move f) fuel least (pieces.map (Piece.move f)))
  climbLinks : ∀ least lhs pieces, Mapped (moveClimbed f) (climbLinks span fuel least lhs pieces)
    (climbLinks (span.move f) fuel least (lhs.move f) (pieces.map (Piece.move f)))

/-- Climbing makes moved operands of moved pieces, by induction on the fuel. -/
theorem climbsMoved (mono : Monotone f) (span : Span) (fuel : Nat) : ClimbsMoved f span fuel := by
  induction fuel with
  | zero => exact ⟨fun _ _ => .error _ _, fun _ _ _ => rfl⟩
  | succ fuel ih =>
    constructor
    · intro least pieces
      match pieces with
      | [] | .linking _ :: _ => exact .error _ _
      | .leading op s :: rest =>
        simp only [List.map_cons, Piece.move, climb]
        refine (ih.climb op.power rest).bind fun x => ?_
        have applied := ih.climbLinks least ⟨op.apply s x.1.node, none⟩ x.2
        rw [Operand.move, ← LeadingOp.move_apply mono] at applied
        exact applied
      | .operand e :: rest => exact ih.climbLinks least ⟨e, none⟩ rest
    · intro least lhs pieces
      match pieces with
      | [] | .operand _ :: _ | .leading .. :: _ => exact rfl
      | .linking op :: rest =>
        simp only [List.map_cons, Piece.move, climbLinks]
        split
        · exact rfl
        · refine (ih.climb op.power.2 rest).bind fun x => ?_
          have linked := ih.climbLinks least (lhs.link op x.1.node) x.2
          rw [← Operand.move_link mono] at linked
          exact linked

/-- Pieces are folded alike where they are moved to. -/
theorem mapped_foldOperation (mono : Monotone f) (span : Span) (pieces : List Piece) :
    Mapped (Expr.move f) (foldOperation span pieces)
      (foldOperation (span.move f) (pieces.map (Piece.move f))) := by
  rw [foldOperation, foldOperation, List.length_map]
  exact ((climbsMoved mono span _).climb 0 pieces).bind fun _ => rfl

/-! ## Trees -/

namespace ParseTree

variable {τ φ : Type}

mutual

/-- The tree with its spans moved. -/
def move (f : Nat → Nat) : ParseTree τ φ → ParseTree τ φ
  | token t s lexeme => token t (s.move f) lexeme
  | phrase p s children => phrase p (s.move f) (moveAll f children)

/-- Moves trees in a row. -/
def moveAll (f : Nat → Nat) : List (ParseTree τ φ) → List (ParseTree τ φ)
  | [] => []
  | tree :: trees => tree.move f :: moveAll f trees

end

/-- Trees in a row are moved one by one. -/
theorem moveAll_eq (trees : List (ParseTree τ φ)) : moveAll f trees = trees.map (move f) := by
  induction trees with
  | nil => rfl
  | cons tree trees ih => rw [moveAll, ih, List.map_cons]

end ParseTree

open ParseTree (moveAll)

/-- Moved trees have the same lexemes. -/
@[simp] theorem lexemesOf_moveAll (t : Token) (trees : List LineTree) :
    lexemesOf t (moveAll f trees) = lexemesOf t trees := by
  rw [ParseTree.moveAll_eq, lexemesOf, lexemesOf, List.filterMap_map]
  congr 1
  funext tree
  cases tree <;> rfl

/-- They begin a comprehension if the trees did. -/
@[simp] theorem startsComprehension_moveAll (trees : List LineTree) :
    startsComprehension (moveAll f trees) = startsComprehension trees := by
  match trees with
  | [] | .token .. :: _ => rfl
  | .phrase p _ _ :: _ => cases p <;> rfl

/-- They name the same parameters. -/
@[simp] theorem paramNames_moveAll (trees : List LineTree) :
    paramNames (moveAll f trees) = paramNames trees := by
  rw [ParseTree.moveAll_eq, paramNames, paramNames, List.filterMap_map]
  congr 1
  funext tree
  cases tree with
  | token => rfl
  | phrase p s children => simp [ParseTree.move, paramName?]

/-- A moved tree stands for the same comparison. -/
theorem cmpOpOf_move (tree : LineTree) : cmpOpOf (tree.move f) = cmpOpOf tree := by
  cases tree with
  | token t _ _ => cases t <;> rfl
  | phrase p _ _ => cases p <;> rfl

theorem binOpOf_move (tree : LineTree) : binOpOf (tree.move f) = binOpOf tree := by
  cases tree with
  | token t _ _ => cases t <;> rfl
  | phrase p _ _ => rfl

theorem signOf_move (tree : LineTree) : signOf (tree.move f) = signOf tree := by
  cases tree with
  | token t _ _ => cases t <;> rfl
  | phrase p _ _ => rfl

/-- The same operators stand among moved trees. -/
theorem operatorPiece_move (tree : LineTree) :
    operatorPiece (tree.move f) = (operatorPiece tree).map (Piece.move f) := by
  cases tree with
  | token t s lexeme =>
    cases t with
    | word w => cases w <;> rfl
    | _ => rfl
  | phrase p s children =>
    cases p with
    | unaryOp =>
      match children with
      | [tree] =>
        simp only [ParseTree.move, moveAll, operatorPiece, signOf_move, Option.map_map]
        rfl
      | [] | _ :: _ :: _ => rfl
    | compOp =>
      match children with
      | [tree] =>
        simp only [ParseTree.move, moveAll, operatorPiece, cmpOpOf_move, Option.map_map]
        rfl
      | [] | _ :: _ :: _ => rfl
    | sumOp | termOp =>
      match children with
      | [tree] =>
        simp only [ParseTree.move, moveAll, operatorPiece, binOpOf_move, Option.map_map]
        rfl
      | [] | _ :: _ :: _ => rfl
    | _ => rfl

/-- A single item, or the tuple of several, is moved with the items. -/
theorem itemOrTuple_move (s : Span) (items : List Expr) (comma : Bool) :
    itemOrTuple (s.move f) (items.map (Expr.move f), comma) =
      (itemOrTuple s (items, comma)).move f := by
  match items, comma with
  | [item], false => rfl
  | [item], true => simp [itemOrTuple, Expr.move]
  | [], false | [], true => simp [itemOrTuple, Expr.move]
  | _ :: _ :: _, false | _ :: _ :: _, true => simp [itemOrTuple, Expr.move]

/-- The tree, and every tree inside, is read alike where it is moved to. -/
inductive ParseTree.Moves (f : Nat → Nat) : LineTree → Prop
  | token {t : Token} {s : Span} {lexeme : List Char} :
      Mapped (Expr.move f) (exprOf (.token t s lexeme)) (exprOf (.token t (s.move f) lexeme)) →
      Moves f (.token t s lexeme)
  | phrase {p : PhraseName} {s : Span} {children : List LineTree} :
      Mapped (Expr.move f) (exprOf (.phrase p s children))
        (exprOf (.phrase p (s.move f) (moveAll f children))) →
      (∀ child ∈ children, Moves f child) → Moves f (.phrase p s children)

/-- Trees that are read alike where they are moved to. -/
def AllMove (f : Nat → Nat) (trees : List LineTree) : Prop := ∀ tree ∈ trees, tree.Moves f

section Trees

variable {t : Token} {p : PhraseName} {s : Span} {lexeme : List Char} {tree : LineTree}
  {children trees : List LineTree}

/-- A tree that is read alike has the expression of the tree, moved alike. -/
theorem ParseTree.Moves.expr (h : tree.Moves f) :
    Mapped (Expr.move f) (exprOf tree) (exprOf (tree.move f)) := by
  cases h with
  | token expr => exact expr
  | phrase expr _ => exact expr

namespace AllMove

/-- The trees behind the first one are read alike. -/
theorem tail (all : AllMove f (tree :: trees)) : AllMove f trees := (List.forall_mem_cons.1 all).2

/-- The first tree has its expression, moved alike. -/
theorem head (all : AllMove f (tree :: trees)) :
    Mapped (Expr.move f) (exprOf tree) (exprOf (tree.move f)) := (all tree List.mem_cons_self).expr

/-- The trees inside the first tree, if it is a phrase. -/
theorem inner (all : AllMove f (.phrase p s children :: trees)) : AllMove f children := by
  cases all _ List.mem_cons_self with
  | phrase _ inside => exact inside

end AllMove

/-- Items with their spans moved. -/
def moveItems (f : Nat → Nat) (x : List Expr × Bool) : List Expr × Bool :=
  (x.1.map (Expr.move f), x.2)

/-- The items among moved trees are the moved items. -/
theorem mapped_itemsOf (all : AllMove f trees) :
    Mapped (moveItems f) (itemsOf trees) (itemsOf (moveAll f trees)) := by
  induction trees with
  | nil => exact rfl
  | cons tree trees ih =>
    have item : Mapped (moveItems f)
        (exprOf tree >>= fun e => itemsOf trees >>= fun x => .ok (e :: x.1, x.2))
        (exprOf (tree.move f) >>= fun e => itemsOf (moveAll f trees) >>= fun x =>
          .ok (e :: x.1, x.2)) :=
      all.head.bind fun e => (ih all.tail).bind fun x => rfl
    cases tree with
    | token t s lexeme =>
      cases t with
      | trailingComma => exact rfl
      | _ => exact item
    | phrase p s children => exact item

theorem mapped_piecesOf (all : AllMove f trees) :
    Mapped (List.map (Piece.move f)) (piecesOf trees) (piecesOf (moveAll f trees)) := by
  induction trees with
  | nil => exact rfl
  | cons tree trees ih =>
    have next : ∀ piece : Piece, Mapped (List.map (Piece.move f))
        (piecesOf trees >>= fun pieces => .ok (piece :: pieces))
        (piecesOf (moveAll f trees) >>= fun pieces => .ok (piece.move f :: pieces)) :=
      fun piece => (ih all.tail).bind fun pieces => rfl
    have same := operatorPiece_move (f := f) tree
    rw [moveAll, piecesOf, piecesOf]
    cases e : operatorPiece tree with
    | some piece =>
      rw [e] at same
      rw [same]
      exact next piece
    | none =>
      rw [e] at same
      rw [same]
      have operand : Mapped (Piece.move f) ((exprOf tree).map .operand)
          ((exprOf (tree.move f)).map .operand) := all.head.map fun _ => rfl
      exact operand.bind next

/-- The bounds of a slice with their spans moved. -/
def moveBounds (f : Nat → Nat) (x : Option Expr × Option Expr) : Option Expr × Option Expr :=
  (x.1.map (Expr.move f), x.2.map (Expr.move f))

theorem mapped_boundsOf (all : AllMove f trees) :
    Mapped (moveBounds f) (boundsOf trees) (boundsOf (moveAll f trees)) := by
  induction trees with
  | nil => exact rfl
  | cons tree trees ih =>
    have refused (d e : Span) : Mapped (moveBounds f) (unexpected d) (unexpected e) := .error _ _
    cases tree with
    | token t s lexeme => exact refused _ _
    | phrase p s children =>
      cases p with
      | sliceUpper | sliceStep =>
        match children with
        | [value] => exact all.inner.head.bind fun e => (ih all.tail).bind fun x => rfl
        | [] | _ :: _ :: _ => exact refused _ _
      | _ => exact refused _ _

/-- The entries of a dictionary with their spans moved. -/
def moveEntries (f : Nat → Nat) (entries : List (Expr × Expr)) : List (Expr × Expr) :=
  entries.map fun entry => (entry.1.move f, entry.2.move f)

theorem mapped_entriesOf (all : AllMove f trees) :
    Mapped (moveEntries f) (entriesOf trees) (entriesOf (moveAll f trees)) := by
  induction trees with
  | nil => exact rfl
  | cons tree trees ih =>
    have refused (d e : Span) : Mapped (moveEntries f) (unexpected d) (unexpected e) := .error _ _
    cases tree with
    | token t s lexeme => exact refused _ _
    | phrase p s children =>
      cases p with
      | dictItem =>
        match children with
        | [key, value] =>
          exact all.inner.head.bind fun k => all.inner.tail.head.bind fun v =>
            (ih all.tail).bind fun entries => rfl
        | [] | [_] | _ :: _ :: _ :: _ => exact refused _ _
      | _ => exact refused _ _

theorem mapped_conditionsOf (all : AllMove f trees) :
    Mapped (List.map (Expr.move f)) (conditionsOf trees) (conditionsOf (moveAll f trees)) := by
  induction trees with
  | nil => exact rfl
  | cons tree trees ih =>
    have refused (d e : Span) :
        Mapped (List.map (Expr.move f)) (unexpected d) (unexpected e) := .error _ _
    cases tree with
    | token t s lexeme => exact refused _ _
    | phrase p s children =>
      cases p with
      | compIf =>
        match children with
        | [_, value] => exact all.inner.tail.head.bind fun e => (ih all.tail).bind fun es => rfl
        | [] | [_] | _ :: _ :: _ :: _ => exact refused _ _
      | _ => exact refused _ _

/-- The clauses of a comprehension with their spans moved. -/
def moveClauses (f : Nat → Nat) (clauses : List (Clause Expr)) : List (Clause Expr) :=
  clauses.map fun c => ⟨c.target.move f, c.iter.move f, c.conditions.map (Expr.move f)⟩

theorem mapped_clausesOf (all : AllMove f trees) :
    Mapped (moveClauses f) (clausesOf trees) (clausesOf (moveAll f trees)) := by
  induction trees with
  | nil => exact rfl
  | cons tree trees ih =>
    have refused (d e : Span) : Mapped (moveClauses f) (unexpected d) (unexpected e) := .error _ _
    cases tree with
    | token t s lexeme => exact refused _ _
    | phrase p s children =>
      cases p with
      | compFor =>
        match children with
        | _ :: target :: _ :: iter :: conditions =>
          have behind : AllMove f (iter :: conditions) := all.inner.tail.tail.tail
          refine all.inner.tail.head.bind fun t => ?_
          refine (mapped_checkTarget f t).bind fun _ => ?_
          refine behind.head.bind fun i => ?_
          refine (mapped_conditionsOf behind.tail).bind fun cs => ?_
          exact (ih all.tail).bind fun clauses => rfl
        | [] | [_] | [_, _] | [_, _, _] => exact refused _ _
      | _ => exact refused _ _

/-- A comprehension is allowed among moved trees if it was among the trees. -/
theorem mapped_checkNoComprehension (s : Span) (trees : List LineTree) :
    Mapped id (checkNoComprehension s trees)
      (checkNoComprehension (s.move f) (moveAll f trees)) := by
  rw [checkNoComprehension, checkNoComprehension, startsComprehension_moveAll]
  split
  · exact .error _ _
  · exact rfl

/-- Arguments with their spans moved. -/
def moveArguments (f : Nat → Nat) (x : List Expr × List (Keyword Expr)) :
    List Expr × List (Keyword Expr) :=
  (x.1.map (Expr.move f), x.2.map fun k => ⟨k.name, k.value.move f⟩)

/-- The arguments among moved trees are the moved arguments. -/
theorem mapped_argumentsOf (span : Span) (all : AllMove f trees) :
    Mapped (moveArguments f) (argumentsOf span trees)
      (argumentsOf (span.move f) (moveAll f trees)) := by
  induction trees with
  | nil => exact rfl
  | cons tree trees ih =>
    -- Whatever has not the form of a keyword or of a star is read as a positional argument.
    have plain : Mapped (moveArguments f)
        (exprOf tree >>= fun arg =>
          if startsComprehension trees then
            (clausesOf trees).map fun clauses => ([.comprehension span .generator arg clauses], [])
          else argumentsOf span trees >>= fun x => .ok (arg :: x.1, x.2))
        (exprOf (tree.move f) >>= fun arg =>
          if startsComprehension (moveAll f trees) then
            (clausesOf (moveAll f trees)).map fun clauses =>
              ([.comprehension (span.move f) .generator arg clauses], [])
          else argumentsOf (span.move f) (moveAll f trees) >>= fun x => .ok (arg :: x.1, x.2)) := by
      refine all.head.bind fun arg => ?_
      rw [startsComprehension_moveAll]
      split
      · refine (mapped_clausesOf all.tail).map fun clauses => ?_
        simp [moveArguments, moveClauses, Expr.move]
      · exact (ih all.tail).bind fun x => rfl
    cases tree with
    | token t s lexeme => exact plain
    | phrase p s children =>
      cases p with
      | keywordArg =>
        match children with
        | [.token _ _ name, value] =>
          refine (mapped_checkNoComprehension s trees).bind fun _ => ?_
          exact all.inner.tail.head.bind fun e => (ih all.tail).bind fun x => rfl
        | [] | [.token ..] | .phrase .. :: _ | .token .. :: _ :: _ :: _ => exact plain
      | doubleStarArg =>
        match children with
        | [value] =>
          refine (mapped_checkNoComprehension s trees).bind fun _ => ?_
          exact all.inner.head.bind fun e => (ih all.tail).bind fun x => rfl
        | [] | _ :: _ :: _ => exact plain
      | starArg =>
        match children with
        | [value] =>
          refine (mapped_checkNoComprehension s trees).bind fun _ => ?_
          refine all.inner.head.bind fun e => (ih all.tail).bind fun x => ?_
          simp [Mapped, moveArguments, Expr.move]
        | [] | _ :: _ :: _ => exact plain
      | _ => exact plain

/-- A tree that is moved to a phrase is such a phrase. -/
theorem ParseTree.exists_of_move (e : tree.move f = .phrase p s children) :
    ∃ s' children', tree = .phrase p s' children' := by
  cases tree with
  | token => cases e
  | phrase => cases e; exact ⟨_, _, rfl⟩

theorem mapped_indexOf (mono : Monotone f) (all : AllMove f trees) :
    Mapped (Expr.move f) (indexOf trees) (indexOf (moveAll f trees)) := by
  cases trees with
  | nil => exact .error _ _
  | cons tree trees =>
    -- a slice stands first, or behind a first expression, or not at all
    by_cases slice : ∃ s parts, tree = .phrase .slice s parts
    · obtain ⟨s, parts, rfl⟩ := slice
      refine (mapped_boundsOf all.inner).bind fun x => ?_
      simp [Mapped, moveBounds, Expr.move]
    · have none s parts (e : tree = .phrase .slice s parts) : False := slice ⟨s, parts, e⟩
      have none' s parts (e : tree.move f = .phrase .slice s parts) : False :=
        slice (ParseTree.exists_of_move e)
      by_cases behind : ∃ s parts others, trees = .phrase .slice s parts :: others
      · obtain ⟨s, parts, others, rfl⟩ := behind
        rw [moveAll, moveAll, ParseTree.move, indexOf, indexOf]
        · refine all.head.bind fun first => (mapped_boundsOf all.tail.inner).bind fun x => ?_
          simp [Mapped, moveBounds, Expr.move, Span.move_join mono]
        · exact none'
        · exact none
      · have none_behind s parts others (e : trees = .phrase .slice s parts :: others) : False :=
          behind ⟨s, parts, others, e⟩
        have none_behind' s parts others (e : moveAll f trees = .phrase .slice s parts :: others) :
            False := by
          cases trees with
          | nil => cases e
          | cons next trees =>
            obtain ⟨s', parts', rfl⟩ := ParseTree.exists_of_move (List.cons.inj e).1
            exact none_behind _ _ _ rfl
        rw [moveAll, indexOf, indexOf]
        · refine all.head.bind fun first => (mapped_itemsOf all.tail).bind fun x => ?_
          have last : (x.1.map (Expr.move f)).getLast?.getD (first.move f) =
              (x.1.getLast?.getD first).move f := by
            rw [List.getLast?_map]
            cases x.1.getLast? <;> rfl
          show _ = _
          rw [last, Expr.span_move, Expr.span_move, ← Span.move_join mono, ← itemOrTuple_move]
          rfl
        · exact none'
        · exact none_behind'
        · exact none
        · exact none_behind

theorem mapped_trailersOf (mono : Monotone f) (value : Expr) (all : AllMove f trees) :
    Mapped (Expr.move f) (trailersOf value trees)
      (trailersOf (value.move f) (moveAll f trees)) := by
  induction trees generalizing value with
  | nil => exact rfl
  | cons tree trees ih =>
    have refused (d e : Span) : Mapped (Expr.move f) (unexpected d) (unexpected e) := .error _ _
    have onward (e : Expr) {e' : Expr} (same : e' = e.move f) :
        Mapped (Expr.move f) (trailersOf e trees) (trailersOf e' (moveAll f trees)) :=
      same ▸ ih e all.tail
    cases tree with
    | token t s lexeme => exact refused _ _
    | phrase p s children =>
      cases p with
      | call =>
        match children with
        | [] => exact onward _ (by simp [Expr.move, Span.move_join mono])
        | .phrase q argsSpan args :: _ =>
          cases q with
          | callArgs =>
            have inside : AllMove f args := all.inner.inner
            refine (mapped_argumentsOf argsSpan inside).bind fun x => ?_
            exact onward _ (by simp [Expr.move, Span.move_join mono])
          | _ => exact refused _ _
        | .token .. :: _ => exact refused _ _
      | attributeTrailer =>
        match children with
        | .token _ _ lexeme :: _ => exact onward _ (by simp [Expr.move, Span.move_join mono])
        | [] | .phrase .. :: _ => exact refused _ _
      | subscript =>
        refine (mapped_indexOf mono all.inner).bind fun index => ?_
        exact onward _ (by simp [Expr.move, Span.move_join mono])
      | _ => exact refused _ _

/-! ## Expressions of trees -/

/-- The constant of an integer does not depend on its place. -/
theorem mapped_integerConstant (s s' : Span) (lexeme : List Char) :
    Mapped id (integerConstant s lexeme) (integerConstant s' lexeme) := by
  unfold integerConstant
  dsimp only
  split
  · exact .error _ _
  · split
    · exact rfl
    · split
      · exact rfl
      · exact .error _ _

theorem mapped_floatConstant (s s' : Span) (lexeme : List Char) :
    Mapped id (floatConstant s lexeme) (floatConstant s' lexeme) := by
  unfold floatConstant
  split
  · exact rfl
  · exact .error _ _

theorem mapped_imaginaryConstant (s s' : Span) (lexeme : List Char) :
    Mapped id (imaginaryConstant s lexeme) (imaginaryConstant s' lexeme) := by
  unfold imaginaryConstant
  split
  · exact rfl
  · exact .error _ _

/-- The expression of a token is moved with it. -/
theorem mapped_exprOf_token (t : Token) (s : Span) (lexeme : List Char) :
    Mapped (Expr.move f) (exprOf (.token t s lexeme)) (exprOf (.token t (s.move f) lexeme)) := by
  cases t with
  | identifier | noneLit | trueLit | falseLit | ellipsis => exact rfl
  | integer => exact (mapped_integerConstant s _ lexeme).map fun _ => rfl
  | float => exact (mapped_floatConstant s _ lexeme).map fun _ => rfl
  | imaginary => exact (mapped_imaginaryConstant s _ lexeme).map fun _ => rfl
  | _ => exact .error _ _

theorem move_stringExpr (s : Span) (lexemes : List (List Char)) :
    stringExpr (s.move f) lexemes = (stringExpr s lexemes).move f := by
  unfold stringExpr
  dsimp only
  split
  · rfl
  · split <;> rfl

/-- A display is moved: a comprehension, or whatever else is made of its first expression. -/
theorem mapped_display {kind : ComprehensionKind} {others others' : Expr → Except Fault Expr}
    (all : AllMove f (tree :: trees))
    (made : ∀ first, Mapped (Expr.move f) (others first) (others' (first.move f))) :
    Mapped (Expr.move f)
      (exprOf tree >>= fun first =>
        if startsComprehension trees then (clausesOf trees).map (.comprehension s kind first)
        else others first)
      (exprOf (tree.move f) >>= fun first =>
        if startsComprehension (moveAll f trees) then
          (clausesOf (moveAll f trees)).map (.comprehension (s.move f) kind first)
        else others' first) := by
  refine all.head.bind fun first => ?_
  rw [startsComprehension_moveAll]
  split
  · refine (mapped_clausesOf all.tail).map fun clauses => ?_
    simp [moveClauses, Expr.move]
  · exact made first

/-- The expression of a phrase is moved along, if those of the trees inside are. -/
theorem mapped_exprOf_phrase (mono : Monotone f) (p : PhraseName) (s : Span)
    (all : AllMove f children) : Mapped (Expr.move f) (exprOf (.phrase p s children))
      (exprOf (.phrase p (s.move f) (moveAll f children))) := by
  -- Trees that do not fit their phrase are refused at different places, which `Mapped` allows.
  have refused (d e : Span) : Mapped (Expr.move f) (unexpected d) (unexpected e) := .error _ _
  cases p with
  | strings =>
    show stringExpr (s.move f) (lexemesOf .string (moveAll f children)) = _
    rw [lexemesOf_moveAll]
    exact move_stringExpr s _
  | expression =>
    match children with
    | [value] => exact all.head
    | [value, _, test, _, orelse] =>
      refine all.head.bind fun value => all.tail.tail.head.bind fun test => ?_
      exact all.tail.tail.tail.tail.head.bind fun orelse => rfl
    | [] | [_, _] | [_, _, _] | [_, _, _, _] | _ :: _ :: _ :: _ :: _ :: _ :: _ => exact refused _ _
  | operation =>
    exact (mapped_piecesOf all).bind fun pieces => mapped_foldOperation mono s pieces
  | primary =>
    match children with
    | [] => exact refused _ _
    | atom :: trailers =>
      exact all.head.bind fun value => mapped_trailersOf mono value all.tail
  | starExpressions | targetList =>
    exact (mapped_itemsOf all).map fun x => itemOrTuple_move s x.1 x.2
  | starred | starTarget =>
    match children with
    | [value] => exact all.head.map fun _ => rfl
    | [] | _ :: _ :: _ => exact refused _ _
  | namedExpr =>
    match children with
    | [target, value] => exact all.head.bind fun t => all.tail.head.bind fun v => rfl
    | [] | [_] | _ :: _ :: _ :: _ => exact refused _ _
  | lambdaExpr =>
    match children with
    | [_, value] => exact all.tail.head.map fun _ => rfl
    | [_, .phrase p _ params, value] =>
      cases p with
      | lambdaParams =>
        refine all.tail.tail.head.map fun e => ?_
        show Expr.lambda (s.move f) (paramNames (moveAll f params)) (e.move f) = _
        rw [paramNames_moveAll]
        rfl
      | _ => exact refused _ _
    | [] | [_] | [_, .token .., _] | _ :: _ :: _ :: _ :: _ => exact refused _ _
  | yieldExpr =>
    match children with
    | [_] => exact rfl
    | [_, value] => exact all.tail.head.map fun _ => rfl
    | [_, _, value] => exact all.tail.tail.head.map fun _ => rfl
    | [] | _ :: _ :: _ :: _ :: _ => exact refused _ _
  | parenExpr =>
    match children with
    | [] => exact rfl
    | first :: rest =>
      refine mapped_display all fun first => (mapped_itemsOf all.tail).bind fun x => ?_
      exact itemOrTuple_move s (first :: x.1) x.2
  | listDisplay =>
    match children with
    | [] => exact rfl
    | first :: rest =>
      refine mapped_display all fun first => (mapped_itemsOf all.tail).map fun x => ?_
      simp [moveItems, Expr.move]
  | braceDisplay =>
    -- A set is what braces hold that is no dictionary, whatever stands behind the first item.
    have set {first rest} (all : AllMove f (first :: rest)) : Mapped (Expr.move f)
        (exprOf first >>= fun first =>
          if startsComprehension rest then (clausesOf rest).map (.comprehension s .set first)
          else (itemsOf rest).map fun x => .set s (first :: x.1))
        (exprOf (first.move f) >>= fun first =>
          if startsComprehension (moveAll f rest) then
            (clausesOf (moveAll f rest)).map (.comprehension (s.move f) .set first)
          else (itemsOf (moveAll f rest)).map fun x => .set (s.move f) (first :: x.1)) := by
      refine mapped_display all fun first => (mapped_itemsOf all.tail).map fun x => ?_
      simp [moveItems, Expr.move]
    match children with
    | [] => exact rfl
    | [_] | _ :: .token .. :: _ => exact set all
    | first :: .phrase p _ inner :: rest =>
      cases p with
      | dictTail =>
        match inner with
        | [] => exact set all
        | value :: entries =>
          have behind : AllMove f (value :: entries) := all.tail.inner
          refine all.head.bind fun k => behind.head.bind fun v => ?_
          refine (mapped_entriesOf behind.tail).bind fun entries => ?_
          simp [Mapped, moveEntries, Expr.move]
      | _ => exact set all
  | _ => exact refused _ _

end Trees

mutual

/-- Every tree is read alike where it is moved to. -/
theorem ParseTree.moves (mono : Monotone f) (tree : LineTree) : tree.Moves f := by
  cases tree with
  | token t s lexeme => exact .token (mapped_exprOf_token t s lexeme)
  | phrase p s children =>
    have all := allMove mono children
    exact .phrase (mapped_exprOf_phrase mono p s all) all

/-- All trees are read alike where they are moved to. -/
theorem allMove (mono : Monotone f) (trees : List LineTree) : AllMove f trees := by
  cases trees with
  | nil => exact List.forall_mem_nil _
  | cons tree trees =>
    exact List.forall_mem_cons.2 ⟨ParseTree.moves mono tree, allMove mono trees⟩

end

/-- The expression of a tree that is moved is the expression of the tree, moved alike. -/
theorem mapped_exprOf (mono : Monotone f) (tree : LineTree) :
    Mapped (Expr.move f) (exprOf tree) (exprOf (tree.move f)) := (tree.moves mono).expr

end BlockEditor
