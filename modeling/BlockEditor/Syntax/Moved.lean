import BlockEditor.Syntax.Tree

/-!
# Moved syntax trees

A syntax tree with every span in it moved.  A move is given by what it does to offsets.
-/

namespace BlockEditor

/-- The span between the places that the ends of a span are moved to. -/
def Span.move (f : Nat → Nat) (s : Span) : Span := ⟨f s.start, f s.stop⟩

/-! ## Expressions -/

namespace Expr

mutual

/-- The expression with its spans moved. -/
def move (f : Nat → Nat) : Expr → Expr
  | constant s value => constant (s.move f) value
  | name s id => name (s.move f) id
  | binary s left op right => binary (s.move f) (left.move f) op (right.move f)
  | unary s op operand => unary (s.move f) op (operand.move f)
  | logical s op values => logical (s.move f) op (moveAll f values)
  | compare s left links => compare (s.move f) (left.move f) (moveLinks f links)
  | conditional s test body orelse =>
    conditional (s.move f) (test.move f) (body.move f) (orelse.move f)
  | call s func args keywords =>
    call (s.move f) (func.move f) (moveAll f args) (moveKeywords f keywords)
  | member s value attr => member (s.move f) (value.move f) attr
  | subscript s value index => subscript (s.move f) (value.move f) (index.move f)
  | slice s lower upper step =>
    slice (s.move f) (moveBound f lower) (moveBound f upper) (moveBound f step)
  | starred s value => starred (s.move f) (value.move f)
  | tuple s items => tuple (s.move f) (moveAll f items)
  | list s items => list (s.move f) (moveAll f items)
  | set s items => set (s.move f) (moveAll f items)
  | dict s entries => dict (s.move f) (moveEntries f entries)
  | comprehension s kind element clauses =>
    comprehension (s.move f) kind (element.move f) (moveClauses f clauses)
  | formatted s template => formatted (s.move f) template
  | lambda s params body => lambda (s.move f) params (body.move f)
  | named s target value => named (s.move f) (target.move f) (value.move f)
  | yielded s value => yielded (s.move f) (moveBound f value)
  | yieldedFrom s value => yieldedFrom (s.move f) (value.move f)
  | awaited s value => awaited (s.move f) (value.move f)

/-- Moves expressions in a row. -/
def moveAll (f : Nat → Nat) : List Expr → List Expr
  | [] => []
  | e :: es => e.move f :: moveAll f es

/-- Moves the links of a comparison. -/
def moveLinks (f : Nat → Nat) : List (CmpOp × Expr) → List (CmpOp × Expr)
  | [] => []
  | (op, e) :: links => (op, e.move f) :: moveLinks f links

/-- Moves an expression that may be left out. -/
def moveBound (f : Nat → Nat) : Option Expr → Option Expr
  | none => none
  | some e => some (e.move f)

/-- Moves arguments that are given by name. -/
def moveKeywords (f : Nat → Nat) : List (Keyword Expr) → List (Keyword Expr)
  | [] => []
  | ⟨id, value⟩ :: keywords => ⟨id, value.move f⟩ :: moveKeywords f keywords

/-- Moves the entries of a dictionary. -/
def moveEntries (f : Nat → Nat) : List (Expr × Expr) → List (Expr × Expr)
  | [] => []
  | (key, value) :: entries => (key.move f, value.move f) :: moveEntries f entries

/-- Moves the clauses of a comprehension. -/
def moveClauses (f : Nat → Nat) : List (Clause Expr) → List (Clause Expr)
  | [] => []
  | ⟨target, iter, conditions⟩ :: clauses =>
    ⟨target.move f, iter.move f, moveAll f conditions⟩ :: moveClauses f clauses

end

variable {f : Nat → Nat}

/-- The span of an expression moves along with it. -/
@[simp] theorem span_move (e : Expr) : (e.move f).span = e.span.move f := by
  cases e <;> simp only [move, span]

@[simp] theorem isStarred_move (e : Expr) : (e.move f).isStarred = e.isStarred := by
  cases e <;> simp only [move, isStarred]

@[simp] theorem moveAll_eq (es : List Expr) : moveAll f es = es.map (move f) := by
  induction es with
  | nil => rfl
  | cons e es ih => rw [moveAll, ih, List.map_cons]

@[simp] theorem moveBound_eq (e : Option Expr) : moveBound f e = e.map (move f) := by
  cases e <;> rfl

@[simp] theorem moveLinks_eq (links : List (CmpOp × Expr)) :
    moveLinks f links = links.map fun link => (link.1, link.2.move f) := by
  induction links with
  | nil => rfl
  | cons link links ih => rw [moveLinks, ih, List.map_cons]

@[simp] theorem moveKeywords_eq (keywords : List (Keyword Expr)) :
    moveKeywords f keywords = keywords.map fun k => ⟨k.name, k.value.move f⟩ := by
  induction keywords with
  | nil => rfl
  | cons k keywords ih => rw [moveKeywords, ih, List.map_cons]

@[simp] theorem moveEntries_eq (entries : List (Expr × Expr)) :
    moveEntries f entries = entries.map fun entry => (entry.1.move f, entry.2.move f) := by
  induction entries with
  | nil => rfl
  | cons entry entries ih => rw [moveEntries, ih, List.map_cons]

@[simp] theorem moveClauses_eq (clauses : List (Clause Expr)) :
    moveClauses f clauses = clauses.map fun c =>
      ⟨c.target.move f, c.iter.move f, c.conditions.map (move f)⟩ := by
  induction clauses with
  | nil => rfl
  | cons c clauses ih => rw [moveClauses, ih, moveAll_eq, List.map_cons]

end Expr

/-! ## Statements -/

namespace Stmt

mutual

/-- The statement with its spans moved. -/
def move (f : Nat → Nat) : Stmt → Stmt
  | expr s value => expr (s.move f) (value.move f)
  | assign s targets value => assign (s.move f) (targets.map (Expr.move f)) (value.move f)
  | augAssign s target op value => augAssign (s.move f) (target.move f) op (value.move f)
  | annAssign s target typeHint value =>
    annAssign (s.move f) (target.move f) (typeHint.move f) (value.map (Expr.move f))
  | branch s test body orelse =>
    branch (s.move f) (test.move f) (moveAll f body) (moveAll f orelse)
  | whileLoop s test body orelse =>
    whileLoop (s.move f) (test.move f) (moveAll f body) (moveAll f orelse)
  | forLoop s isAsync target iter body orelse =>
    forLoop (s.move f) isAsync (target.move f) (iter.move f) (moveAll f body) (moveAll f orelse)
  | functionDef s isAsync name params body decorators =>
    functionDef (s.move f) isAsync name params (moveAll f body) (decorators.map (Expr.move f))
  | classDef s name bases body decorators =>
    classDef (s.move f) name (bases.map (Expr.move f)) (moveAll f body)
      (decorators.map (Expr.move f))
  | tryBlock s body handlers orelse finalbody =>
    tryBlock (s.move f) (moveAll f body) (moveHandlers f handlers) (moveAll f orelse)
      (moveAll f finalbody)
  | withBlock s isAsync items body =>
    withBlock (s.move f) isAsync (items.map (Expr.move f)) (moveAll f body)
  | returnValue s value => returnValue (s.move f) (value.map (Expr.move f))
  | raise s value => raise (s.move f) (value.map (Expr.move f))
  | assert s test message => assert (s.move f) (test.move f) (message.map (Expr.move f))
  | delete s targets => delete (s.move f) (targets.map (Expr.move f))
  | globalNames s names => globalNames (s.move f) names
  | importNames s names => importNames (s.move f) names
  | importFrom s path names => importFrom (s.move f) path names
  | pass s => pass (s.move f)
  | breakLoop s => breakLoop (s.move f)
  | continueLoop s => continueLoop (s.move f)

/-- Moves statements in a row. -/
def moveAll (f : Nat → Nat) : List Stmt → List Stmt
  | [] => []
  | s :: ss => s.move f :: moveAll f ss

/-- Moves the handlers of a `try`. -/
def moveHandlers (f : Nat → Nat) : List (Handler Stmt) → List (Handler Stmt)
  | [] => []
  | ⟨s, kind, name, body⟩ :: handlers =>
    ⟨s.move f, kind.map (Expr.move f), name, moveAll f body⟩ :: moveHandlers f handlers

end

@[simp] theorem moveAll_eq {f : Nat → Nat} (ss : List Stmt) : moveAll f ss = ss.map (move f) := by
  induction ss with
  | nil => rfl
  | cons s ss ih => rw [moveAll, ih, List.map_cons]

end Stmt

/-! ## Modules -/

/-- The module with its spans moved. -/
def Module.move (f : Nat → Nat) (m : Module) : Module := ⟨m.body.map (Stmt.move f)⟩

end BlockEditor
