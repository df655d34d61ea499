import BlockEditor.Proofs.Lexemes
import BlockEditor.Syntax.Operation
import Mathlib.Data.List.Basic

/-!
# Formulas

Expressions made of identifiers and operators, and how they are written: an operand stands in
parentheses only if its own operator binds less tightly than its place asks for.  What is written is
also a flat run of operators and operands, which is how the grammar sees it.
-/

namespace BlockEditor

/-! ## Trees -/

/-- The text of an identifier. -/
abbrev Identifier : Type := {cs : List Char // IsIdentifier cs}

/-- An expression made of identifiers and operators.  A connective has at least two operands, and a
comparison at least one link. -/
inductive Formula where
  | name (id : Identifier)
  | unary (op : UnaryOp) (operand : Formula)
  | binary (left : Formula) (op : BinOp) (right : Formula)
  | logical (op : BoolOp) (first second : Formula) (others : List Formula)
  | compare (left : Formula) (op : CmpOp) (right : Formula) (others : List (CmpOp × Formula))
  | conditional (test body orelse : Formula)

namespace Formula

/-- Induction with a hypothesis for every operand. -/
@[elab_as_elim, induction_eliminator]
theorem induct {P : Formula → Prop} (name : ∀ id, P (name id))
    (unary : ∀ op operand, P operand → P (unary op operand))
    (binary : ∀ left op right, P left → P right → P (binary left op right))
    (logical : ∀ op first second others, P first → P second → (∀ x ∈ others, P x) →
      P (logical op first second others))
    (compare : ∀ left op right others, P left → P right → (∀ l ∈ others, P l.2) →
      P (compare left op right others))
    (conditional : ∀ test body orelse, P test → P body → P orelse →
      P (conditional test body orelse)) (f : Formula) : P f := by
  refine Formula.rec (motive_1 := P) (motive_2 := fun xs => ∀ x ∈ xs, P x)
    (motive_3 := fun ls => ∀ l ∈ ls, P l.2) (motive_4 := fun l => P l.2) name unary binary logical
    compare conditional ?_ ?_ ?_ ?_ ?_ f
  -- operands of a connective, then links of a comparison
  · exact fun _ member => absurd member List.not_mem_nil
  · exact fun _ _ first others => List.forall_mem_cons.2 ⟨first, others⟩
  · exact fun _ member => absurd member List.not_mem_nil
  · exact fun _ _ first others => List.forall_mem_cons.2 ⟨first, others⟩
  · exact fun _ _ operand => operand

mutual

/-- The syntax tree of a formula, without places. -/
def expr : Formula → Expr
  | name id => .name .none (String.ofList id.val)
  | unary op operand => .unary .none op operand.expr
  | binary left op right => .binary .none left.expr op right.expr
  | logical op first second others =>
    .logical .none op (first.expr :: second.expr :: exprs others)
  | compare left op right others => .compare .none left.expr ((op, right.expr) :: exprLinks others)
  | conditional test body orelse => .conditional .none test.expr body.expr orelse.expr

/-- The syntax trees of formulas in a row. -/
def exprs : List Formula → List Expr
  | [] => []
  | x :: xs => x.expr :: exprs xs

/-- The links of a comparison. -/
def exprLinks : List (CmpOp × Formula) → List (CmpOp × Expr)
  | [] => []
  | (op, x) :: links => (op, x.expr) :: exprLinks links

end

@[simp] theorem exprs_eq (xs : List Formula) : exprs xs = xs.map expr := by
  induction xs with
  | nil => rfl
  | cons x xs ih => rw [exprs, ih, List.map_cons]

@[simp] theorem exprLinks_eq (links : List (CmpOp × Formula)) :
    exprLinks links = links.map fun l => (l.1, l.2.expr) := by
  induction links with
  | nil => rfl
  | cons l links ih => rw [exprLinks, ih, List.map_cons]

end Formula

/-!
## Precedence

From loose to tight, the levels are those of a conditional expression (0), `or` (1), `and` (2),
`not` (3), comparisons (4), `+` and `-` between operands (5), `*`, `/`, `//` and `%` (6), signs (7),
`**` (8), and of what has no operator outside (9).
-/

/-- How tightly an operator in front of an operand binds. -/
def UnaryOp.level : UnaryOp → Nat
  | not => 3
  | neg | pos => 7

/-- How tightly a connective binds. -/
def BoolOp.level : BoolOp → Nat
  | or => 1
  | and => 2

/-- How tightly an arithmetic operator binds. -/
def BinOp.level : BinOp → Nat
  | add | sub => 5
  | mul | div | floorDiv | mod => 6
  | pow => 8

/-- The lowest level that stands bare at the left of an arithmetic operator. -/
def BinOp.leftLevel : BinOp → Nat
  | pow => 9
  | op => op.level

/-- The lowest level that stands bare at the right of an arithmetic operator: a sign does behind
a power. -/
def BinOp.rightLevel : BinOp → Nat
  | pow => 7
  | op => op.level + 1

/-- The level of the outermost operator. -/
def Formula.level : Formula → Nat
  | name _ => 9
  | unary op _ => op.level
  | binary _ op _ => op.level
  | logical op .. => op.level
  | compare .. => 4
  | conditional .. => 0

/-! ## Text -/

/-- The written form of an operator in front of its operand, with the blank that it needs. -/
def UnaryOp.lead : UnaryOp → String
  | not => "not "
  | neg => "-"
  | pos => "+"

/-- The written form of an operator between operands. -/
def LinkingOp.symbol : LinkingOp → String
  | logical .or => "or"
  | logical .and => "and"
  | compare .eq => "=="
  | compare .notEq => "!="
  | compare .lt => "<"
  | compare .ltE => "<="
  | compare .gt => ">"
  | compare .gtE => ">="
  | compare .isIn => "in"
  | compare .notIn => "not in"
  | compare .is => "is"
  | compare .isNot => "is not"
  | binary op => op.symbol

/-- An operator between blanks. -/
def LinkingOp.spaced (op : LinkingOp) : List Char := ' ' :: op.symbol.toList ++ [' ']

/-- The text of an operand of some level, where `least` is the lowest level that stands bare. -/
def operandText (least level : Nat) (text : List Char) : List Char :=
  if level < least then '(' :: text ++ [')'] else text

namespace Formula

mutual

/-- The text of a formula. -/
def text : Formula → List Char
  | name id => id.val
  | unary op x => op.lead.toList ++ operandText op.level x.level x.text
  | binary x op y =>
    operandText op.leftLevel x.level x.text ++ LinkingOp.spaced (.binary op) ++
      operandText op.rightLevel y.level y.text
  | logical op x y others =>
    operandText (op.level + 1) x.level x.text ++ LinkingOp.spaced (.logical op) ++
      operandText (op.level + 1) y.level y.text ++ textMore op others
  | compare x op y others =>
    operandText 5 x.level x.text ++ LinkingOp.spaced (.compare op) ++
      operandText 5 y.level y.text ++ textLinks others
  | conditional test body orelse =>
    operandText 1 body.level body.text ++ " if ".toList ++ operandText 1 test.level test.text ++
      " else ".toList ++ orelse.text

/-- The text of further operands of a connective. -/
def textMore (op : BoolOp) : List Formula → List Char
  | [] => []
  | x :: xs =>
    LinkingOp.spaced (.logical op) ++ operandText (op.level + 1) x.level x.text ++ textMore op xs

/-- The text of further links of a comparison. -/
def textLinks : List (CmpOp × Formula) → List Char
  | [] => []
  | (op, x) :: links =>
    LinkingOp.spaced (.compare op) ++ operandText 5 x.level x.text ++ textLinks links

end

/-- The text of further operands of a connective, operand by operand. -/
theorem textMore_eq (op : BoolOp) (xs : List Formula) :
    textMore op xs = xs.flatMap fun x =>
      LinkingOp.spaced (.logical op) ++ operandText (op.level + 1) x.level x.text := by
  induction xs with
  | nil => rfl
  | cons x xs ih => rw [textMore, ih, List.flatMap_cons]

/-- The text of further links of a comparison, link by link. -/
theorem textLinks_eq (links : List (CmpOp × Formula)) :
    textLinks links = links.flatMap fun l =>
      LinkingOp.spaced (.compare l.1) ++ operandText 5 l.2.level l.2.text := by
  induction links with
  | nil => rfl
  | cons l links ih => rw [textLinks, ih, List.flatMap_cons]

end Formula

/-- An operand that binds tightly enough stands bare. -/
theorem operandText_bare {least level : Nat} (tight : least ≤ level) (text : List Char) :
    operandText least level text = text := if_neg (Nat.not_lt.2 tight)

/-! ## Runs -/

/-- An operand of a run: a name, or a formula in parentheses. -/
inductive Atom where
  | name (id : Identifier)
  | bracketed (f : Formula)

/-- An operand with the operators in front of it. -/
structure Prefixed where
  leading : List UnaryOp
  atom : Atom

/-- Operands with operators between them. -/
structure Run where
  first : Prefixed
  links : List (LinkingOp × Prefixed)

/-- The text of an operand of a run. -/
def Atom.text : Atom → List Char
  | name id => id.val
  | bracketed f => '(' :: f.text ++ [')']

/-- The text of an operand with the operators in front of it. -/
def Prefixed.text (x : Prefixed) : List Char :=
  x.leading.flatMap (fun op => op.lead.toList) ++ x.atom.text

/-- The text of further operands, each behind its operator. -/
def linksText (links : List (LinkingOp × Prefixed)) : List Char :=
  links.flatMap fun l => l.1.spaced ++ l.2.text

namespace Run

/-- The text of a run. -/
def text (r : Run) : List Char := r.first.text ++ linksText r.links

/-- The run of a single operand. -/
def single (atom : Atom) : Run := ⟨⟨[], atom⟩, []⟩

/-- A run with an operator in front of it. -/
def lead (op : UnaryOp) (r : Run) : Run := ⟨⟨op :: r.first.leading, r.first.atom⟩, r.links⟩

/-- A run with others behind operators. -/
def chain (r : Run) (links : List (LinkingOp × Run)) : Run :=
  ⟨r.first, r.links ++ links.flatMap fun l => (l.1, l.2.first) :: l.2.links⟩

/-- The run of an operand where `least` is the lowest level that stands bare. -/
def operand (least : Nat) (f : Formula) (bare : Run) : Run :=
  if f.level < least then single (.bracketed f) else bare

/-- A run of one operand is written as the operand. -/
theorem text_single (atom : Atom) : (single atom).text = atom.text := by
  simp [text, single, Prefixed.text, linksText]

/-- A run with an operator in front is written with the operator in front. -/
theorem text_lead (op : UnaryOp) (r : Run) : (r.lead op).text = op.lead.toList ++ r.text := by
  simp [text, lead, Prefixed.text]

/-- A chain is written run by run, each behind its operator. -/
theorem text_chain (r : Run) (links : List (LinkingOp × Run)) :
    (r.chain links).text = r.text ++ links.flatMap fun l => l.1.spaced ++ l.2.text := by
  simp [text, chain, linksText, List.flatMap_assoc]

end Run

namespace Formula

mutual

/-- The run that a formula is written as.  A conditional expression is an operand of a run only in
parentheses. -/
def run : Formula → Run
  | name id => .single (.name id)
  | unary op x => (Run.operand op.level x x.run).lead op
  | binary x op y =>
    (Run.operand op.leftLevel x x.run).chain [(.binary op, Run.operand op.rightLevel y y.run)]
  | logical op x y others =>
    (Run.operand (op.level + 1) x x.run).chain
      ((.logical op, Run.operand (op.level + 1) y y.run) :: runMore op others)
  | compare x op y others =>
    (Run.operand 5 x x.run).chain ((.compare op, Run.operand 5 y y.run) :: runLinks others)
  | f@(conditional ..) => .single (.bracketed f)

/-- The runs of further operands of a connective. -/
def runMore (op : BoolOp) : List Formula → List (LinkingOp × Run)
  | [] => []
  | x :: xs => (.logical op, Run.operand (op.level + 1) x x.run) :: runMore op xs

/-- The runs of further links of a comparison. -/
def runLinks : List (CmpOp × Formula) → List (LinkingOp × Run)
  | [] => []
  | (op, x) :: links => (.compare op, Run.operand 5 x x.run) :: runLinks links

end

/-- The run of an operand where `least` is the lowest level that stands bare. -/
def runIn (least : Nat) (f : Formula) : Run := Run.operand least f f.run

@[simp] theorem runMore_eq (op : BoolOp) (xs : List Formula) :
    runMore op xs = xs.map fun x => (.logical op, x.runIn (op.level + 1)) := by
  induction xs with
  | nil => rfl
  | cons x xs ih => rw [runMore, ih, List.map_cons, runIn]

@[simp] theorem runLinks_eq (links : List (CmpOp × Formula)) :
    runLinks links = links.map fun l => (.compare l.1, l.2.runIn 5) := by
  induction links with
  | nil => rfl
  | cons l links ih => rw [runLinks, ih, List.map_cons, runIn]

/-- An operand is written as its run. -/
theorem text_runIn {least : Nat} (positive : 1 ≤ least) {f : Formula}
    (same : f.run.text = operandText 1 f.level f.text) :
    (f.runIn least).text = operandText least f.level f.text := by
  unfold runIn Run.operand
  by_cases low : f.level < least
  · rw [if_pos low, Run.text_single, operandText, if_pos low]
    rfl
  · rw [if_neg low, same, operandText_bare (by omega), operandText_bare (by omega)]

/-- A formula is written as its run. -/
theorem text_run (f : Formula) : f.run.text = operandText 1 f.level f.text := by
  induction f with
  | name id => exact Run.text_single _
  | unary op x ih =>
    have positive : 1 ≤ op.level := by cases op <;> decide
    rw [operandText_bare (show 1 ≤ (unary op x).level from positive), run, Run.text_lead, ← runIn,
      text_runIn positive ih, text]
  | binary x op y ihx ihy =>
    have positive : 1 ≤ op.level ∧ 1 ≤ op.leftLevel ∧ 1 ≤ op.rightLevel := by
      cases op <;> decide
    rw [operandText_bare (show 1 ≤ (binary x op y).level from positive.1), run, Run.text_chain,
      ← runIn, ← runIn, text_runIn positive.2.1 ihx, List.flatMap_singleton,
      text_runIn positive.2.2 ihy, text, List.append_assoc]
  | logical op x y others ihx ihy ihothers =>
    have positive : 1 ≤ op.level := by cases op <;> decide
    rw [operandText_bare (show 1 ≤ (logical op x y others).level from positive), run,
      Run.text_chain, ← runIn, ← runIn, List.flatMap_cons,
      text_runIn (by omega) ihx, text_runIn (by omega) ihy, runMore_eq, List.flatMap_map, text,
      textMore_eq]
    simp only [List.append_assoc, List.append_cancel_left_eq]
    exact List.flatMap_congr fun x member => by rw [text_runIn (by omega) (ihothers x member)]
  | compare x op y others ihx ihy ihothers =>
    have positive : 1 ≤ 5 := by decide
    rw [operandText_bare (show 1 ≤ (compare x op y others).level by simp [level]), run,
      Run.text_chain, ← runIn, ← runIn, List.flatMap_cons, text_runIn positive ihx,
      text_runIn positive ihy, runLinks_eq, List.flatMap_map, text, textLinks_eq]
    simp only [List.append_assoc, List.append_cancel_left_eq]
    exact List.flatMap_congr fun l member => by rw [text_runIn positive (ihothers l member)]
  | conditional test body orelse => exact Run.text_single _

/-- A formula with an operator outside that is no conditional expression stands bare in a run. -/
theorem text_run_of_level {f : Formula} (bare : f.level ≠ 0) : f.run.text = f.text := by
  rw [text_run, operandText_bare (Nat.one_le_iff_ne_zero.2 bare)]

end Formula

/-! ## Operands of runs -/

/-- The operands of a run, without the operators in front of them. -/
def Run.atoms (r : Run) : List Atom := r.first.atom :: r.links.map fun l => l.2.atom

namespace Run

/-- The operands of a chain are those of its runs. -/
theorem atoms_chain (r : Run) (links : List (LinkingOp × Run)) :
    (r.chain links).atoms = r.atoms ++ links.flatMap fun l => l.2.atoms := by
  simp [atoms, chain, List.map_flatMap]

end Run

namespace Formula

/-- In a place of its own, a formula is an operand of a run or is made of such. -/
theorem mem_atoms_runIn {k : Nat} {x : Formula} {a : Atom} (h : a ∈ (x.runIn k).atoms) :
    a = .bracketed x ∨ a ∈ x.run.atoms := by
  unfold runIn Run.operand at h
  split at h
  · exact .inl (List.mem_singleton.1 h)
  · exact .inr h

/-- Induction along parentheses: what stands bare in the text of a formula is taken at once, and
the hypothesis is on what stands in parentheses. -/
theorem induct_run {P : Formula → Prop}
    (bare : ∀ f, f.level ≠ 0 → (∀ g, .bracketed g ∈ f.run.atoms → P g) → P f)
    (conditional : ∀ test body orelse, (∀ g, .bracketed g ∈ test.run.atoms → P g) →
      (∀ g, .bracketed g ∈ body.run.atoms → P g) → P orelse → P (conditional test body orelse))
    (f : Formula) : P f := by
  suffices both : P f ∧ ∀ g, .bracketed g ∈ f.run.atoms → P g from both.1
  -- an operand brings itself or what stands in parentheses inside of it
  have operand : ∀ {k x}, (P x ∧ ∀ g, .bracketed g ∈ x.run.atoms → P g) →
      ∀ g, .bracketed g ∈ (x.runIn k).atoms → P g := by
    rintro k x ⟨self, inside⟩ g member
    obtain same | member := mem_atoms_runIn member
    · cases same
      exact self
    · exact inside g member
  induction f with
  | name id =>
    have none : ∀ g, .bracketed g ∈ (name id).run.atoms → P g := by
      intro g member
      cases List.mem_singleton.1 member
    exact ⟨bare _ nofun none, none⟩
  | unary op x ih =>
    have inside : ∀ g, .bracketed g ∈ (unary op x).run.atoms → P g := operand ih
    exact ⟨bare _ (by cases op <;> nofun) inside, inside⟩
  | binary x op y ihx ihy =>
    have inside : ∀ g, .bracketed g ∈ (binary x op y).run.atoms → P g := by
      intro g member
      rw [run, Run.atoms_chain, List.flatMap_singleton, List.mem_append] at member
      exact member.elim (operand ihx g) (operand ihy g)
    exact ⟨bare _ (by cases op <;> nofun) inside, inside⟩
  | logical op x y others ihx ihy ihothers =>
    have inside : ∀ g, .bracketed g ∈ (logical op x y others).run.atoms → P g := by
      intro g member
      rw [run, Run.atoms_chain, List.flatMap_cons, List.mem_append, List.mem_append, runMore_eq,
        List.flatMap_map, List.mem_flatMap] at member
      obtain first | second | ⟨z, among, member⟩ := member
      · exact operand ihx g first
      · exact operand ihy g second
      · exact operand (ihothers z among) g member
    exact ⟨bare _ (by cases op <;> nofun) inside, inside⟩
  | compare x op y others ihx ihy ihothers =>
    have inside : ∀ g, .bracketed g ∈ (compare x op y others).run.atoms → P g := by
      intro g member
      rw [run, Run.atoms_chain, List.flatMap_cons, List.mem_append, List.mem_append, runLinks_eq,
        List.flatMap_map, List.mem_flatMap] at member
      obtain first | second | ⟨l, among, member⟩ := member
      · exact operand ihx g first
      · exact operand ihy g second
      · exact operand (ihothers l among) g member
    exact ⟨bare _ nofun inside, inside⟩
  | conditional test body orelse ihtest ihbody ihorelse =>
    have self := conditional test body orelse ihtest.2 ihbody.2 ihorelse.1
    refine ⟨self, ?_⟩
    intro g member
    cases List.mem_singleton.1 member
    exact self

end Formula

end BlockEditor
