import BlockEditor.Proofs.Formulas
import Mathlib.Tactic.IntervalCases

/-!
# Climbing along formulas

The binding powers give a formula back from its run.  A run is climbed up to an operator that binds
less tightly than all of its own, so the lemma on a run speaks of what may stand behind it, and a
chain of operands is extended only as long as no parenthesis closes it.
-/

namespace BlockEditor

/-! ## Pieces of runs -/

/-- The expression of an operand. -/
def Atom.expr : Atom → Expr
  | name id => .name .none (String.ofList id.val)
  | bracketed f => f.expr

/-- The pieces of an operand with the operators in front of it. -/
def Prefixed.pieces (x : Prefixed) : List Piece :=
  x.leading.map (fun op => .leading (.unary op) .none) ++ [.operand x.atom.expr]

/-- The pieces of further operands, each behind its operator. -/
def linksPieces (links : List (LinkingOp × Prefixed)) : List Piece :=
  links.flatMap fun l => .linking l.1 :: l.2.pieces

namespace Run

/-- The pieces of a run. -/
def pieces (r : Run) : List Piece := r.first.pieces ++ linksPieces r.links

theorem pieces_single (atom : Atom) : (single atom).pieces = [.operand atom.expr] := rfl

theorem pieces_lead (op : UnaryOp) (r : Run) :
    (r.lead op).pieces = .leading (.unary op) .none :: r.pieces := rfl

/-- A chain has the pieces of its first run and then those of its links. -/
theorem pieces_chain (r : Run) (links : List (LinkingOp × Run)) :
    (r.chain links).pieces = r.pieces ++ links.flatMap fun l => .linking l.1 :: l.2.pieces := by
  simp [pieces, chain, linksPieces, List.flatMap_assoc]

theorem chain_nil (r : Run) : r.chain [] = r := by simp [chain]

/-- A chain is extended link by link. -/
theorem chain_cons (r : Run) (l : LinkingOp × Run) (links : List (LinkingOp × Run)) :
    r.chain (l :: links) = (r.chain [l]).chain links := by simp [chain]

end Run

/-! ## What stops a climb -/

/-- No operator that binds at least as tightly as `bound` begins the pieces. -/
def Halts (bound : Nat) (pieces : List Piece) : Prop :=
  ∀ op rest, pieces = .linking op :: rest → op.power.1 < bound

/-- What halts a climb also halts one that needs tighter operators. -/
theorem Halts.mono {a b : Nat} {pieces : List Piece} (h : Halts a pieces) (le : a ≤ b) :
    Halts b pieces := fun op rest e => (h op rest e).trans_le le

/-- An operator that binds less tightly than is needed halts a climb. -/
theorem halts_linking {op : LinkingOp} {bound : Nat} (loose : op.power.1 < bound)
    (rest : List Piece) : Halts bound (.linking op :: rest) := by
  intro op' rest' e
  cases e
  exact loose

/-- Where nothing binds tightly enough, a climb ends with what it has. -/
theorem Halts.climbLinks {least : Nat} {pieces : List Piece} (h : Halts least pieces) (span : Span)
    (fuel : Nat) (lhs : Operand) : climbLinks span fuel least lhs pieces = .ok (lhs, pieces) := by
  match fuel, pieces with
  | 0, _ | _ + 1, [] | _ + 1, .operand _ :: _ | _ + 1, .leading .. :: _ => rfl
  | _ + 1, .linking op :: rest => rw [BlockEditor.climbLinks, if_pos (h op rest rfl)]

/-! ## Climbing along a run -/

/-- A climb from `least` takes a run as an operand, if nothing behind it binds as tightly as
`bound`.  Whatever fuel was enough for the run leaves enough for the pieces behind it. -/
def Climbs (least bound : Nat) (r : Run) (x : Operand) : Prop :=
  ∀ fuel rest, (r.pieces ++ rest).length < fuel → Halts bound rest →
    ∃ fuel', rest.length < fuel' ∧
      climb .none fuel least (r.pieces ++ rest) = climbLinks .none fuel' least x rest

namespace Climbs

variable {least bound : Nat} {r s : Run} {x y : Operand}

/-- What stands behind a run may also bind less tightly. -/
theorem mono (h : Climbs least bound r x) {lower : Nat} (le : lower ≤ bound) :
    Climbs least lower r x :=
  fun fuel rest enough halts => h fuel rest enough (halts.mono le)

/-- A single operand is climbed at once. -/
theorem single (atom : Atom) : Climbs least bound (.single atom) ⟨atom.expr, none⟩ := by
  intro fuel rest enough _
  obtain ⟨fuel, rfl⟩ : ∃ n, fuel = n + 1 := ⟨fuel - 1, by omega⟩
  rw [Run.pieces_single] at enough ⊢
  refine ⟨fuel, by simpa using enough, ?_⟩
  rw [List.singleton_append, climb]

/-- An operator in front takes what binds at least as tightly as it does. -/
theorem lead {op : UnaryOp} (h : Climbs (LeadingOp.unary op).power bound r x)
    (place : x.node.span = .none) :
    Climbs least (min (LeadingOp.unary op).power bound) (r.lead op)
      ⟨.unary .none op x.node, none⟩ := by
  intro fuel rest enough halts
  obtain ⟨fuel, rfl⟩ : ∃ n, fuel = n + 1 := ⟨fuel - 1, by omega⟩
  rw [Run.pieces_lead, List.cons_append] at enough ⊢
  obtain ⟨_, -, inner⟩ := h fuel rest (by simpa using enough) (halts.mono (Nat.min_le_right _ _))
  rw [(halts.mono (Nat.min_le_left _ _)).climbLinks] at inner
  refine ⟨fuel, by simp at enough; omega, ?_⟩
  rw [climb, inner]
  show climbLinks .none fuel least ⟨LeadingOp.apply (.unary op) .none x.node, none⟩ rest = _
  rw [LeadingOp.apply, place]
  rfl

/-- An operator joins the operands on both sides, if neither takes what belongs to the other. -/
theorem link {op : LinkingOp} {bound' : Nat} (left : Climbs least bound r x)
    (right : Climbs op.power.2 bound' s y) (reached : least ≤ op.power.1)
    (loose : op.power.1 < bound) :
    Climbs least (min op.power.2 bound') (r.chain [(op, s)]) (x.link op y.node) := by
  intro fuel rest enough halts
  have pieces : (r.chain [(op, s)]).pieces ++ rest =
      r.pieces ++ .linking op :: (s.pieces ++ rest) := by
    simp [Run.pieces_chain]
  rw [pieces] at enough ⊢
  obtain ⟨fuel₁, enough₁, first⟩ := left fuel _ enough (halts_linking loose _)
  obtain ⟨fuel₁, rfl⟩ : ∃ n, fuel₁ = n + 1 := ⟨fuel₁ - 1, by omega⟩
  have short : (s.pieces ++ rest).length < fuel₁ := by simpa using enough₁
  obtain ⟨_, -, second⟩ := right fuel₁ rest short (halts.mono (Nat.min_le_right _ _))
  rw [(halts.mono (Nat.min_le_left _ _)).climbLinks] at second
  refine ⟨fuel₁, by simp at short; omega, ?_⟩
  rw [first, climbLinks, if_neg (by omega), second]
  rfl

/-- Operators of the same power join operands from left to right. -/
theorem chain {power : Nat × Nat} (links : List (LinkingOp × Run × Operand))
    (left : Climbs least power.2 r x) (each : ∀ l ∈ links, l.1.power = power ∧
      Climbs power.2 power.2 l.2.1 l.2.2) (reached : least ≤ power.1)
    (loose : power.1 < power.2) :
    Climbs least power.2 (r.chain (links.map fun l => (l.1, l.2.1)))
      (links.foldl (fun x l => x.link l.1 l.2.2.node) x) := by
  induction links generalizing r x with
  | nil => rwa [List.map_nil, Run.chain_nil]
  | cons l links ih =>
    obtain ⟨rfl, right⟩ := each l List.mem_cons_self
    have joined := left.link right reached loose
    rw [Nat.min_self] at joined
    rw [List.map_cons, Run.chain_cons]
    exact ih joined fun k member => each k (List.mem_cons_of_mem l member)

end Climbs

/-! ## Powers and levels -/

namespace Formula

/-- A climb from at most this power takes the formula as a whole: operators in front of an operand
are always taken. -/
def reach : Formula → Nat
  | binary _ op _ => (LinkingOp.binary op).power.1
  | logical op .. => (LinkingOp.logical op).power.1
  | compare _ op .. => (LinkingOp.compare op).power.1
  | name _ | unary .. | conditional .. => 18

/-- What binds less tightly than this is not taken into a formula of some level. -/
def bound : Nat → Nat
  | 1 => 3
  | 2 => 5
  | 3 => 6
  | 4 => 9
  | 5 => 11
  | 6 => 13
  | 7 | 8 => 14
  | _ => 17

/-- No formula stands on a level above the ninth. -/
theorem level_le (f : Formula) : f.level ≤ 9 := by
  cases f with
  | unary op | binary _ op | logical op =>
    rw [level]
    cases op <;> decide
  | _ => simp [level]

/-- A formula is taken as a whole by a climb from twice its level. -/
theorem reach_of_level (f : Formula) : 2 * f.level ≤ f.reach := by
  cases f with
  | unary op | binary _ op | logical op =>
    rw [level, reach]
    cases op <;> decide
  | _ => simp [level, reach, LinkingOp.power]

/-- A sign does not have to bind more tightly than a power in front of it. -/
theorem reach_of_sign {f : Formula} (tight : 7 ≤ f.level) : 16 ≤ f.reach := by
  cases f with
  | binary _ op | logical op =>
    rw [level] at tight
    rw [reach]
    revert tight
    cases op <;> decide
  | compare => simp [level] at tight
  | _ => simp [reach]

/-- On a tighter level, what is not taken in binds more tightly. -/
theorem bound_mono {k l : Nat} (positive : 1 ≤ k) (le : k ≤ l) (most : l ≤ 9) :
    bound k ≤ bound l := by
  interval_cases l <;> interval_cases k <;> decide

/-! ## Climbing along formulas -/

/-- The chain that a formula is, as long as no parenthesis closes it. -/
def chain : Formula → Option Chain
  | logical op .. => some (.logical op)
  | compare .. => some .compare
  | _ => none

/-- A formula as an operand where `least` is the lowest level that stands bare. -/
def operandIn (least : Nat) (f : Formula) : Operand :=
  ⟨f.expr, if f.level < least then none else f.chain⟩

/-- The expression of a formula has no place. -/
theorem span_expr (f : Formula) : f.expr.span = .none := by
  cases f <;> simp [expr, Expr.span]

/-- Expressions without a place are joined to one without a place. -/
theorem join_span {e : Expr} (place : e.span = .none) (f : Formula) :
    e.span.join f.expr.span = .none := by
  rw [place, span_expr]
  rfl

/-- Every climb that reaches a formula takes it as a whole where it stands bare. -/
def TakenBare (f : Formula) : Prop :=
  ∀ least ≤ f.reach, Climbs least (bound f.level) f.run ⟨f.expr, f.chain⟩

/-- A formula is taken in its place, bare or in parentheses. -/
theorem TakenBare.climbs {f : Formula} (h : f.TakenBare) {k least : Nat} (positive : 1 ≤ k)
    (reached : k ≤ f.level → least ≤ f.reach) :
    Climbs least (bound k) (f.runIn k) (f.operandIn k) := by
  unfold runIn Run.operand operandIn
  by_cases low : f.level < k
  · rw [if_pos low, if_pos low]
    exact .single (.bracketed f)
  · have tight := Nat.le_of_not_lt low
    rw [if_neg low, if_neg low]
    exact (h least (reached tight)).mono (bound_mono positive tight f.level_le)

/-- A climb from a power that the level of a place stands for. -/
theorem TakenBare.climbs_of_le {f : Formula} (h : f.TakenBare) {k least : Nat} (positive : 1 ≤ k)
    (fits : least ≤ 2 * k) : Climbs least (bound k) (f.runIn k) (f.operandIn k) := by
  refine h.climbs positive fun tight => ?_
  have := f.reach_of_level
  omega

/-- Operands on one level are joined from left to right. -/
theorem climbs_links (k : Nat) {least : Nat} {power : Nat × Nat} {x : Formula}
    {links : List (LinkingOp × Formula)} (first : x.TakenBare)
    (each : ∀ l ∈ links, l.1.power = power ∧ l.2.TakenBare) (reached : least ≤ power.1)
    (apart : power.1 < power.2) (within : power.2 ≤ bound k) (fits : power.2 ≤ 2 * k) :
    Climbs least power.2 ((x.runIn k).chain (links.map fun l => (l.1, l.2.runIn k)))
      (links.foldl (fun z l => z.link l.1 l.2.expr) (x.operandIn k)) := by
  have positive : 1 ≤ k := by omega
  have left := (first.climbs_of_le positive (show least ≤ 2 * k by omega)).mono within
  have joined := left.chain (links.map fun l => (l.1, l.2.runIn k, l.2.operandIn k)) (by
    rw [List.forall_mem_map]
    intro l member
    exact ⟨(each l member).1, ((each l member).2.climbs_of_le positive fits).mono within⟩)
    reached apart
  rwa [List.map_map, List.foldl_map] at joined

/-- Operands of one connective become one node. -/
theorem foldl_logical (op : BoolOp) (values : List Expr) (others : List Formula) :
    others.foldl (fun (x : Operand) y => x.link (.logical op) y.expr)
        ⟨.logical .none op values, some (.logical op)⟩ =
      ⟨.logical .none op (values ++ others.map expr), some (.logical op)⟩ := by
  induction others generalizing values with
  | nil => simp
  | cons y others ih =>
    have next : Operand.link ⟨.logical .none op values, some (.logical op)⟩ (.logical op) y.expr =
        ⟨.logical .none op (values ++ [y.expr]), some (.logical op)⟩ := by
      have whole := join_span (show (Expr.logical .none op values).span = .none from rfl) y
      simp only [Operand.link, whole, if_true]
    rw [List.foldl_cons, next, ih, List.map_cons, List.append_assoc]
    rfl

/-- Links of one comparison become one node. -/
theorem foldl_compare (left : Expr) (links : List (CmpOp × Expr))
    (others : List (CmpOp × Formula)) :
    others.foldl (fun (x : Operand) l => x.link (.compare l.1) l.2.expr)
        ⟨.compare .none left links, some .compare⟩ =
      ⟨.compare .none left (links ++ others.map fun l => (l.1, l.2.expr)), some .compare⟩ := by
  induction others generalizing links with
  | nil => simp
  | cons l others ih =>
    have next : Operand.link ⟨.compare .none left links, some .compare⟩ (.compare l.1) l.2.expr =
        ⟨.compare .none left (links ++ [(l.1, l.2.expr)]), some .compare⟩ := by
      have whole := join_span (show (Expr.compare .none left links).span = .none from rfl) l.2
      simp only [Operand.link, whole, if_true]
    rw [List.foldl_cons, next, ih, List.map_cons, List.append_assoc]
    rfl

/-- A first operand begins a new node, since it is no open chain of the same connective. -/
theorem link_logical (op : BoolOp) (x : Formula) (rhs : Formula) :
    (x.operandIn (op.level + 1)).link (.logical op) rhs.expr =
      ⟨.logical .none op [x.expr, rhs.expr], some (.logical op)⟩ := by
  unfold operandIn Operand.link
  simp only [join_span x.span_expr]
  cases x with
  | logical op' first second others =>
    -- the same connective stands in parentheses, and another one is another chain
    have apart : (if (logical op' first second others).level < op.level + 1 then none
        else (logical op' first second others).chain) ≠ some (.logical op) := by
      split
      · nofun
      · rename_i tight
        intro same
        obtain rfl : op' = op := by simpa [chain] using same
        exact tight (Nat.lt_succ_self _)
    simp only [expr, if_neg apart]
  | _ => simp only [expr]

/-- A first operand begins a new comparison, since it is no open comparison. -/
theorem link_compare (op : CmpOp) (x : Formula) (rhs : Formula) :
    (x.operandIn 5).link (.compare op) rhs.expr =
      ⟨.compare .none x.expr [(op, rhs.expr)], some .compare⟩ := by
  unfold operandIn Operand.link
  simp only [join_span x.span_expr]
  cases x with
  | compare => simp [expr, level]
  | _ => simp only [expr]

/-- A climb takes a formula that stands bare as a whole. -/
theorem takenBare (f : Formula) : f.TakenBare := by
  induction f with
  | name id => exact fun _ _ => .single _
  | unary op x ih =>
    intro least _
    have facts : 1 ≤ op.level ∧ (LeadingOp.unary op).power ≤ 2 * op.level ∧
        bound op.level ≤ min (LeadingOp.unary op).power (bound op.level) := by
      cases op <;> decide
    exact ((ih.climbs_of_le facts.1 facts.2.1).lead x.span_expr).mono facts.2.2
  | binary x op y ihx ihy =>
    intro least reached
    have facts : 1 ≤ op.leftLevel ∧ 1 ≤ op.rightLevel ∧
        (LinkingOp.binary op).power.1 ≤ 2 * op.leftLevel ∧
        (LinkingOp.binary op).power.1 < bound op.leftLevel ∧
        bound op.level ≤ min (LinkingOp.binary op).power.2 (bound op.rightLevel) := by
      cases op <;> decide
    obtain ⟨positiveLeft, positiveRight, within, loose, result⟩ := facts
    rw [reach] at reached
    have left := ihx.climbs_of_le positiveLeft (reached.trans within)
    -- a sign behind a power is taken although it binds less tightly
    have right : Climbs (LinkingOp.binary op).power.2 (bound op.rightLevel)
        (y.runIn op.rightLevel) (y.operandIn op.rightLevel) := by
      cases op with
      | pow => exact ihy.climbs positiveRight fun tight => reach_of_sign tight
      | _ => exact ihy.climbs_of_le positiveRight (by decide)
    have joined := (left.link right reached loose).mono result
    rwa [Operand.link, operandIn, operandIn, join_span x.span_expr] at joined
  | logical op x y others ihx ihy ihothers =>
    intro least reached
    have facts : (LinkingOp.logical op).power.1 < (LinkingOp.logical op).power.2 ∧
        (LinkingOp.logical op).power.2 ≤ bound (op.level + 1) ∧
        (LinkingOp.logical op).power.2 ≤ 2 * (op.level + 1) ∧
        bound op.level ≤ (LinkingOp.logical op).power.2 := by
      cases op <;> decide
    obtain ⟨apart, within, fits, result⟩ := facts
    have each : ∀ l ∈ (.logical op, y) :: others.map fun z => (LinkingOp.logical op, z),
        l.1.power = (LinkingOp.logical op).power ∧ l.2.TakenBare :=
      List.forall_mem_cons.2 ⟨⟨rfl, ihy⟩,
        List.forall_mem_map.2 fun z member => ⟨rfl, ihothers z member⟩⟩
    have joined := climbs_links (op.level + 1) ihx each reached apart within fits
    rw [List.foldl_cons, link_logical, List.foldl_map, foldl_logical, List.map_cons,
      List.map_map] at joined
    rw [run, runMore_eq, expr, exprs_eq]
    exact joined.mono result
  | compare x op y others ihx ihy ihothers =>
    intro least reached
    have each : ∀ l ∈ (.compare op, y) :: others.map fun l => (LinkingOp.compare l.1, l.2),
        l.1.power = (8, 9) ∧ l.2.TakenBare :=
      List.forall_mem_cons.2 ⟨⟨rfl, ihy⟩,
        List.forall_mem_map.2 fun l member => ⟨rfl, ihothers l member⟩⟩
    have joined := climbs_links 5 ihx each reached (by decide) (by decide) (by decide)
    rw [List.foldl_cons, link_compare, List.foldl_map, foldl_compare, List.map_cons,
      List.map_map] at joined
    rw [run, runLinks_eq, expr, exprLinks_eq]
    exact joined
  | conditional test body orelse => exact fun _ _ => .single _

/-- The run of a formula is folded into its tree. -/
theorem foldOperation_run (f : Formula) : foldOperation .none f.run.pieces = .ok f.expr := by
  have enough : (f.run.pieces ++ []).length < f.run.pieces.length + 1 := by simp
  obtain ⟨fuel, -, climbed⟩ := f.takenBare 0 (Nat.zero_le _) _ [] enough nofun
  rw [List.append_nil, (show Halts 0 [] from nofun).climbLinks] at climbed
  rw [foldOperation, climbed]
  rfl

end Formula

end BlockEditor
