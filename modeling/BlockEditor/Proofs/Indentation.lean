import BlockEditor.Syntax.Line
import Mathlib.Data.List.Forall2

/-!
# Indentation

What it means that lines are laid out as statements is a grammar of its own: a block is made of
lines at one level, and what belongs to a clause is either written behind its colon or is a block
further right.  Lines that are laid out as statements say what these say, in the same order.
-/

namespace BlockEditor

/-! ## Simple statements -/

/-- Whether a statement has no parts that are statements themselves. -/
def Stmt.isSimple : Stmt → Bool
  | .branch .. | .whileLoop .. | .forLoop .. | .functionDef .. | .classDef .. => false
  | .tryBlock .. | .withBlock .. => false
  | _ => true

/-- What can stand on one line: simple statements, and at least one. -/
structure OnLine (stmts : List Stmt) : Prop where
  ne_nil : stmts ≠ []
  simple : ∀ stmt ∈ stmts, stmt.isSimple = true

/-- The statements in a line are simple, and there is one where some can be. -/
def LineContent.Filled : LineContent → Prop
  | .simple stmts => OnLine stmts
  | .decorator _ => True
  | .header _ inline => ∀ stmts ∈ inline, OnLine stmts

/-! ## Layout -/

/-- Decorators stand one below the other at a level. -/
def DecoratorsLaid (level : Nat) (lines : List ParsedLine) (decorators : List Expr) : Prop :=
  List.Forall₂ (fun line e => line.indent = level ∧ line.content = .decorator e) lines decorators

mutual

/-- Lines are laid out as a block of statements, each of which begins at one level. -/
inductive BlockLaid : Nat → List ParsedLine → List Stmt → Prop
  | nil {level : Nat} : BlockLaid level [] []
  | simple {level : Nat} {span : Span} {stmts others : List Stmt} {lines : List ParsedLine} :
      OnLine stmts → BlockLaid level lines others →
      BlockLaid level (⟨level, span, .simple stmts⟩ :: lines) (stmts ++ others)
  | compound {level : Nat} {stmt : Stmt} {others : List Stmt} {first lines : List ParsedLine} :
      CompoundLaid level first stmt → BlockLaid level lines others →
      BlockLaid level (first ++ lines) (stmt :: others)

/-- Lines are laid out as one statement that is made of clauses, all of them at one level. -/
inductive CompoundLaid : Nat → List ParsedLine → Stmt → Prop
  | branch {level : Nat} {span : Span} {test : Expr} {body orelse : List Stmt}
      {lines others : List ParsedLine} : ClauseLaid level (.ifHead test) lines body →
      ElseLaid level others orelse →
      CompoundLaid level (lines ++ others) (.branch span test body orelse)
  | whileLoop {level : Nat} {span : Span} {test : Expr} {body orelse : List Stmt}
      {lines others : List ParsedLine} : ClauseLaid level (.whileHead test) lines body →
      OptionalLaid level .elseHead others orelse →
      CompoundLaid level (lines ++ others) (.whileLoop span test body orelse)
  | forLoop {level : Nat} {span : Span} {isAsync : Bool} {target iter : Expr}
      {body orelse : List Stmt} {lines others : List ParsedLine} :
      ClauseLaid level (.forHead isAsync target iter) lines body →
      OptionalLaid level .elseHead others orelse →
      CompoundLaid level (lines ++ others) (.forLoop span isAsync target iter body orelse)
  | functionDef {level : Nat} {span : Span} {isAsync : Bool} {name : String} {params : List String}
      {body : List Stmt} {decorators : List Expr} {front lines : List ParsedLine} :
      DecoratorsLaid level front decorators →
      ClauseLaid level (.defHead isAsync name params) lines body →
      CompoundLaid level (front ++ lines) (.functionDef span isAsync name params body decorators)
  | classDef {level : Nat} {span : Span} {name : String} {bases : List Expr} {body : List Stmt}
      {decorators : List Expr} {front lines : List ParsedLine} :
      DecoratorsLaid level front decorators → ClauseLaid level (.classHead name bases) lines body →
      CompoundLaid level (front ++ lines) (.classDef span name bases body decorators)
  | withBlock {level : Nat} {span : Span} {isAsync : Bool} {items : List Expr} {body : List Stmt}
      {lines : List ParsedLine} : ClauseLaid level (.withHead isAsync items) lines body →
      CompoundLaid level lines (.withBlock span isAsync items body)
  | tryBlock {level : Nat} {span : Span} {body orelse finalbody : List Stmt}
      {handlers : List (Handler Stmt)} {lines excepts elses finals : List ParsedLine} :
      ClauseLaid level .tryHead lines body → HandlersLaid level excepts handlers →
      OptionalLaid level .elseHead elses orelse → OptionalLaid level .finallyHead finals finalbody →
      (handlers = [] → orelse = [] ∧ finalbody ≠ []) →
      CompoundLaid level (lines ++ (excepts ++ (elses ++ finals)))
        (.tryBlock span body handlers orelse finalbody)

/-- Lines are laid out as a clause at a level: its head with statements behind the colon, or with a
block further right. -/
inductive ClauseLaid : Nat → ClauseHead → List ParsedLine → List Stmt → Prop
  | inline {level : Nat} {head : ClauseHead} {span : Span} {body : List Stmt} : OnLine body →
      ClauseLaid level head [⟨level, span, .header head (some body)⟩] body
  | indented {level inner : Nat} {head : ClauseHead} {span : Span} {body : List Stmt}
      {lines : List ParsedLine} : level < inner → body ≠ [] → BlockLaid inner lines body →
      ClauseLaid level head (⟨level, span, .header head none⟩ :: lines) body

/-- Lines are laid out as a clause that need not be there. -/
inductive OptionalLaid : Nat → ClauseHead → List ParsedLine → List Stmt → Prop
  | absent {level : Nat} {head : ClauseHead} : OptionalLaid level head [] []
  | present {level : Nat} {head : ClauseHead} {lines : List ParsedLine} {body : List Stmt} :
      ClauseLaid level head lines body → OptionalLaid level head lines body

/-- Lines are laid out as what follows the first clause of an `if`. -/
inductive ElseLaid : Nat → List ParsedLine → List Stmt → Prop
  | last {level : Nat} {lines : List ParsedLine} {body : List Stmt} :
      OptionalLaid level .elseHead lines body → ElseLaid level lines body
  | elif {level : Nat} {span : Span} {test : Expr} {body orelse : List Stmt}
      {lines others : List ParsedLine} : ClauseLaid level (.elifHead test) lines body →
      ElseLaid level others orelse →
      ElseLaid level (lines ++ others) [.branch span test body orelse]

/-- Lines are laid out as the `except` clauses of a `try`. -/
inductive HandlersLaid : Nat → List ParsedLine → List (Handler Stmt) → Prop
  | nil {level : Nat} : HandlersLaid level [] []
  | cons {level : Nat} {span : Span} {kind : Option Expr} {name : Option String} {body : List Stmt}
      {handlers : List (Handler Stmt)} {lines others : List ParsedLine} :
      ClauseLaid level (.exceptHead kind name) lines body → HandlersLaid level others handlers →
      HandlersLaid level (lines ++ others) (⟨span, kind, name, body⟩ :: handlers)

end

/-! ## What is said -/

/-- What a line or a statement says: a simple statement, the head of a clause or a decorator. -/
inductive Saying where
  | simple (stmt : Stmt)
  | head (head : ClauseHead)
  | decorator (e : Expr)

/-- What the head of a clause says.  In a tree there is no `elif`, but an `else` with an `if` in it. -/
def ClauseHead.sayings : ClauseHead → List Saying
  | .elifHead test => [.head .elseHead, .head (.ifHead test)]
  | head => [.head head]

/-- What a line says, in order. -/
def LineContent.sayings : LineContent → List Saying
  | .simple stmts => stmts.map .simple
  | .decorator e => [.decorator e]
  | .header head inline => head.sayings ++ (inline.getD []).map .simple

namespace Stmt

/-- What a clause says that need not be there. -/
def optionalSayings (head : ClauseHead) (body : List Stmt) (inside : List Saying) : List Saying :=
  if body.isEmpty then [] else head.sayings ++ inside

mutual

/-- What a statement says, in order. -/
def sayings : Stmt → List Saying
  | .branch _ test body orelse =>
    .head (.ifHead test) :: (sayingsOf body ++ optionalSayings .elseHead orelse (sayingsOf orelse))
  | .whileLoop _ test body orelse =>
    .head (.whileHead test) ::
      (sayingsOf body ++ optionalSayings .elseHead orelse (sayingsOf orelse))
  | .forLoop _ isAsync target iter body orelse =>
    .head (.forHead isAsync target iter) ::
      (sayingsOf body ++ optionalSayings .elseHead orelse (sayingsOf orelse))
  | .functionDef _ isAsync name params body decorators =>
    decorators.map .decorator ++ .head (.defHead isAsync name params) :: sayingsOf body
  | .classDef _ name bases body decorators =>
    decorators.map .decorator ++ .head (.classHead name bases) :: sayingsOf body
  | .tryBlock _ body handlers orelse finalbody =>
    .head .tryHead :: (sayingsOf body ++ (handlerSayings handlers ++
      (optionalSayings .elseHead orelse (sayingsOf orelse) ++
        optionalSayings .finallyHead finalbody (sayingsOf finalbody))))
  | .withBlock _ isAsync items body => .head (.withHead isAsync items) :: sayingsOf body
  | stmt => [.simple stmt]

/-- What neighbouring statements say, in order. -/
def sayingsOf : List Stmt → List Saying
  | [] => []
  | stmt :: stmts => sayings stmt ++ sayingsOf stmts

/-- What the `except` clauses of a `try` say, in order. -/
def handlerSayings : List (Handler Stmt) → List Saying
  | [] => []
  | ⟨_, kind, name, body⟩ :: handlers =>
    .head (.exceptHead kind name) :: (sayingsOf body ++ handlerSayings handlers)

end

/-- Neighbouring statements say one after the other what each of them says. -/
theorem sayingsOf_eq (stmts : List Stmt) : sayingsOf stmts = stmts.flatMap sayings := by
  induction stmts with
  | nil => rfl
  | cons stmt stmts ih => rw [sayingsOf, ih, List.flatMap_cons]

/-- A simple statement says itself. -/
theorem sayings_of_isSimple {stmt : Stmt} (simple : stmt.isSimple = true) :
    stmt.sayings = [.simple stmt] := by
  cases stmt <;> first | rfl | cases simple

end Stmt

theorem OnLine.sayingsOf_eq {stmts : List Stmt} (h : OnLine stmts) :
    Stmt.sayingsOf stmts = stmts.map .simple := by
  rw [Stmt.sayingsOf_eq, List.map_eq_flatMap]
  exact List.flatMap_congr fun stmt member => Stmt.sayings_of_isSimple (h.simple stmt member)

/-- What lines say, in order. -/
def lineSayings (lines : List ParsedLine) : List Saying := lines.flatMap (·.content.sayings)

@[simp] theorem lineSayings_nil : lineSayings [] = [] := rfl

@[simp] theorem lineSayings_cons (line : ParsedLine) (lines : List ParsedLine) :
    lineSayings (line :: lines) = line.content.sayings ++ lineSayings lines := rfl

@[simp] theorem lineSayings_append (a b : List ParsedLine) :
    lineSayings (a ++ b) = lineSayings a ++ lineSayings b := List.flatMap_append

/-- Decorators say themselves, line by line. -/
theorem DecoratorsLaid.sayings_eq {level : Nat} {lines : List ParsedLine} {decorators : List Expr}
    (h : DecoratorsLaid level lines decorators) :
    lineSayings lines = decorators.map .decorator := by
  induction h with
  | nil => rfl
  | cons first _ ih => rw [lineSayings_cons, first.2, ih]; rfl

/-- The body of a clause is not empty. -/
theorem ClauseLaid.ne_nil {level : Nat} {head : ClauseHead} {lines : List ParsedLine}
    {body : List Stmt} (h : ClauseLaid level head lines body) : body ≠ [] := by
  cases h with
  | inline onLine => exact onLine.ne_nil
  | indented _ some => exact some

mutual

/-- The lines of a block say what its statements say. -/
theorem BlockLaid.sayings_eq {level : Nat} {lines : List ParsedLine} {stmts : List Stmt} :
    BlockLaid level lines stmts → lineSayings lines = Stmt.sayingsOf stmts
  | .nil => rfl
  | .simple onLine rest => by
    rw [lineSayings_cons, rest.sayings_eq, Stmt.sayingsOf_eq (_ ++ _), List.flatMap_append,
      ← Stmt.sayingsOf_eq, ← Stmt.sayingsOf_eq, onLine.sayingsOf_eq]
    rfl
  | .compound first rest => by rw [lineSayings_append, first.sayings_eq, rest.sayings_eq, Stmt.sayingsOf]

/-- The lines of a compound statement say what it says. -/
theorem CompoundLaid.sayings_eq {level : Nat} {lines : List ParsedLine} {stmt : Stmt} :
    CompoundLaid level lines stmt → lineSayings lines = stmt.sayings
  | .branch clause others => by
    rw [lineSayings_append, clause.sayings_eq, others.sayings_eq, Stmt.sayings]; rfl
  | .whileLoop clause others => by
    rw [lineSayings_append, clause.sayings_eq, others.sayings_eq, Stmt.sayings]; rfl
  | .forLoop clause others => by
    rw [lineSayings_append, clause.sayings_eq, others.sayings_eq, Stmt.sayings]; rfl
  | .functionDef decorators clause => by
    rw [lineSayings_append, decorators.sayings_eq, clause.sayings_eq, Stmt.sayings]; rfl
  | .classDef decorators clause => by
    rw [lineSayings_append, decorators.sayings_eq, clause.sayings_eq, Stmt.sayings]; rfl
  | .withBlock clause => by rw [clause.sayings_eq, Stmt.sayings]; rfl
  | .tryBlock clause handlers orelse finalbody _ => by
    rw [lineSayings_append, lineSayings_append, lineSayings_append, clause.sayings_eq, handlers.sayings_eq,
      orelse.sayings_eq, finalbody.sayings_eq, Stmt.sayings]
    rfl

/-- The lines of a clause say its head and then its body. -/
theorem ClauseLaid.sayings_eq {level : Nat} {head : ClauseHead} {lines : List ParsedLine}
    {body : List Stmt} : ClauseLaid level head lines body →
      lineSayings lines = head.sayings ++ Stmt.sayingsOf body
  | .inline onLine => by
    rw [lineSayings_cons, lineSayings_nil, List.append_nil, onLine.sayingsOf_eq]; rfl
  | .indented _ _ block => by
    rw [lineSayings_cons, block.sayings_eq, LineContent.sayings]
    simp

/-- The lines of an optional clause say what the clause says, or nothing. -/
theorem OptionalLaid.sayings_eq {level : Nat} {head : ClauseHead} {lines : List ParsedLine}
    {body : List Stmt} : OptionalLaid level head lines body →
      lineSayings lines = Stmt.optionalSayings head body (Stmt.sayingsOf body)
  | .absent => rfl
  | .present clause => by
    have some : body.isEmpty = false := by simpa using clause.ne_nil
    rw [clause.sayings_eq, Stmt.optionalSayings, some]
    rfl

/-- The lines behind the first clause of an `if` say its `else` part. -/
theorem ElseLaid.sayings_eq {level : Nat} {lines : List ParsedLine} {orelse : List Stmt} :
    ElseLaid level lines orelse →
      lineSayings lines = Stmt.optionalSayings .elseHead orelse (Stmt.sayingsOf orelse)
  | .last clause => clause.sayings_eq
  | .elif clause others => by
    rw [lineSayings_append, clause.sayings_eq, others.sayings_eq]
    simp [Stmt.optionalSayings, Stmt.sayingsOf, Stmt.sayings, ClauseHead.sayings]

/-- The lines of handlers say what the handlers say. -/
theorem HandlersLaid.sayings_eq {level : Nat} {lines : List ParsedLine} {handlers : List (Handler Stmt)} :
    HandlersLaid level lines handlers → lineSayings lines = Stmt.handlerSayings handlers
  | .nil => rfl
  | .cons clause others => by
    rw [lineSayings_append, clause.sayings_eq, others.sayings_eq, Stmt.handlerSayings]
    simp [ClauseHead.sayings]

end

end BlockEditor
