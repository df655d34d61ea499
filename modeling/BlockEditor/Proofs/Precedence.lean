import BlockEditor.Proofs.Assignments

/-!
# Precedence of operators

A formula, written with parentheses only where the levels of its operators ask for them and assigned
to a name, is parsed as its tree.  The layout pass needs to know how deep the parentheses nest; all
else holds of every formula.
-/

namespace BlockEditor

open LineGrammar

/-! ## Parentheses in the layout -/

/-- The deepest nesting of parentheses in a text behind some open ones. -/
def deepest : Nat → List Char → Nat
  | depth, [] => depth
  | depth, c :: cs =>
    if c = '(' then deepest (depth + 1) cs
    else if c = ')' then max depth (deepest (depth - 1) cs)
    else deepest depth cs

/-- The deepest nesting is at least the one at the start. -/
theorem le_deepest (depth : Nat) (cs : List Char) : depth ≤ deepest depth cs := by
  induction cs generalizing depth with
  | nil => exact Nat.le_refl depth
  | cons c cs ih =>
    rw [deepest]
    split
    · exact Nat.le_of_succ_le (ih (depth + 1))
    · split
      · exact Nat.le_max_left _ _
      · exact ih depth

/-- Whether a character is a blank or has no role in the layout. -/
def isQuiet (c : Char) : Bool := c = ' ' || !layoutMarks.contains c

theorem isQuiet_iff (c : Char) : isQuiet c = true ↔ c = ' ' ∨ c ∉ layoutMarks := by
  simp [isQuiet]

/-- Every parenthesis of a text is closed in it, and nothing else has a role in the layout but
blanks. -/
inductive Closed : List Char → Prop
  | quiet {cs : List Char} : cs.all isQuiet = true → Closed cs
  | append {a b : List Char} : Closed a → Closed b → Closed (a ++ b)
  | parens {cs : List Char} : Closed cs → Closed ('(' :: (cs ++ [')']))

/-- A text without parentheses leaves open what was open. -/
theorem deepest_append_of_quiet {cs : List Char} (quiet : cs.all isQuiet = true) (depth : Nat)
    (rest : List Char) : deepest depth (cs ++ rest) = deepest depth rest := by
  induction cs with
  | nil => rfl
  | cons c cs ih =>
    obtain ⟨first, others⟩ := Bool.and_eq_true_iff.1 quiet
    have noParens : c ≠ '(' ∧ c ≠ ')' := by
      constructor <;> (rintro rfl; exact absurd first (by decide))
    rw [List.cons_append, deepest, if_neg noParens.1, if_neg noParens.2, ih others]

/-- A closed text leaves open what was open. -/
theorem Closed.deepest_append {cs : List Char} (h : Closed cs) (depth : Nat) (rest : List Char) :
    deepest depth (cs ++ rest) = max (deepest depth cs) (deepest depth rest) := by
  induction h generalizing depth rest with
  | @quiet cs quiet =>
    have self := deepest_append_of_quiet quiet depth []
    rw [List.append_nil, deepest] at self
    rw [deepest_append_of_quiet quiet, self, Nat.max_eq_right (le_deepest depth rest)]
  | append _ _ iha ihb => rw [List.append_assoc, iha, ihb, iha, Nat.max_assoc]
  | @parens cs _ ih =>
    have up : ∀ rest, deepest depth ('(' :: rest) = deepest (depth + 1) rest := fun _ => rfl
    have down : ∀ rest, deepest (depth + 1) (')' :: rest) = max (depth + 1) (deepest depth rest) :=
      fun _ => rfl
    rw [List.cons_append, List.append_assoc, List.singleton_append, up, up, ih, ih, down, down,
      deepest]
    omega

/-- The layout pass takes a closed text as it is, if its parentheses nest no deeper than they
may. -/
theorem InLine.takeClosed {s : LayoutState} {indent depth : Nat} {text cs rest : List Char}
    {finished : List LogicalLine} (h : InLine s indent text depth finished) (closed : Closed cs)
    (shallow : deepest depth cs ≤ maxNesting) :
    ∃ s', Takes s cs rest s' ∧ InLine s' indent (text ++ cs) depth finished := by
  induction closed generalizing s depth text rest with
  | @quiet cs quiet =>
    -- A quiet text opens nothing, so the depth does not matter for it.
    clear shallow
    induction cs generalizing s text with
    | nil => exact ⟨s, .nil, by rwa [List.append_nil]⟩
    | cons c cs ih =>
      obtain ⟨first, others⟩ := Bool.and_eq_true_iff.1 quiet
      have kept : ∃ s', Takes s [c] (cs ++ rest) s' ∧
          InLine s' indent (text ++ [c]) depth finished := by
        obtain rfl | plain := (isQuiet_iff c).1 first
        · exact h.keep (.inr (.inl rfl)) rfl
        · exact h.keep (.inl rfl) (next_plain plain _)
      obtain ⟨s₁, take₁, line₁⟩ := kept
      obtain ⟨s₂, take₂, line₂⟩ := ih others line₁
      exact ⟨s₂, take₁.append take₂, by rwa [List.append_assoc] at line₂⟩
  | @append a b closed _ iha ihb =>
    rw [closed.deepest_append] at shallow
    obtain ⟨s₁, take₁, line₁⟩ := iha h (le_trans (Nat.le_max_left _ _) shallow)
    obtain ⟨s₂, take₂, line₂⟩ := ihb line₁ (le_trans (Nat.le_max_right _ _) shallow)
    exact ⟨s₂, take₁.append take₂, by rwa [List.append_assoc] at line₂⟩
  | @parens cs closed ih =>
    have inner : deepest depth ('(' :: (cs ++ [')'])) =
        max (deepest (depth + 1) cs) (deepest (depth + 1) [')']) :=
      closed.deepest_append (depth + 1) [')']
    rw [inner] at shallow
    have within := le_trans (Nat.le_max_left _ _) shallow
    obtain ⟨s₁, take₁, line₁⟩ :=
      h.openParenthesis (lt_of_lt_of_le (le_deepest (depth + 1) cs) within)
    obtain ⟨s₂, take₂, line₂⟩ := ih line₁ within
    obtain ⟨s₃, take₃, line₃⟩ := line₂.closeParenthesis
    refine ⟨s₃, take₁.append (take₂.append take₃), ?_⟩
    rwa [List.append_assoc, List.append_assoc] at line₃

/-! ## Parentheses of formulas -/

/-- No character of an identifier has a role in the layout. -/
theorem Identifier.quiet (id : Identifier) : id.val.all isQuiet = true :=
  List.all_eq_true.2 fun c member => (isQuiet_iff c).2 (.inr (id.property.plain c member))

/-- A text that is closed for every item is closed as a whole. -/
theorem Closed.flatMap {α : Type} {f : α → List Char} {xs : List α}
    (each : ∀ x ∈ xs, Closed (f x)) : Closed (xs.flatMap f) := by
  induction xs with
  | nil => exact .quiet rfl
  | cons x xs ih =>
    obtain ⟨first, others⟩ := List.forall_mem_cons.1 each
    rw [List.flatMap_cons]
    exact first.append (ih others)

/-- The text of a run is closed if what stands in its parentheses is. -/
theorem Run.closed {r : Run} (inside : ∀ g, .bracketed g ∈ r.atoms → Closed g.text) :
    Closed r.text := by
  have lead : ∀ op : UnaryOp, Closed op.lead.toList := fun op => .quiet (by cases op <;> rfl)
  have spaced : ∀ op : LinkingOp, Closed op.spaced := fun op =>
    .quiet (by rcases op with op | op | op <;> cases op <;> rfl)
  have operand : ∀ x : Prefixed, x.atom ∈ r.atoms → Closed x.text := by
    intro x member
    refine .append (.flatMap fun op _ => lead op) ?_
    cases e : x.atom with
    | name id => exact .quiet id.quiet
    | bracketed g => exact .parens (inside g (e ▸ member))
  exact (operand r.first List.mem_cons_self).append (.flatMap fun l member =>
    (spaced l.1).append (operand l.2 (List.mem_cons_of_mem _ (List.mem_map_of_mem member))))

/-- The parentheses in the text of a formula are closed in it. -/
theorem Formula.closed (f : Formula) : Closed f.text := by
  induction f using induct_run with
  | bare f bare inside =>
    rw [← text_run_of_level bare]
    exact Run.closed inside
  | conditional test body orelse insideTest insideBody ih =>
    rw [text_conditional]
    have word : Closed " if ".toList := .quiet rfl
    have other : Closed " else ".toList := .quiet rfl
    exact (Run.closed insideBody).append (word.append ((Run.closed insideTest).append
      (other.append ih)))

/-! ## Ends of formulas -/

/-- An operand does not end with a blank. -/
theorem Atom.endsVisibly (x : Atom) : EndsVisibly x.text := by
  cases x with
  | name id =>
    obtain ⟨c, tail, e, -⟩ := id.property.fits.starts
    have shown : id.val ≠ [] := by rw [e]; nofun
    refine ⟨id.val.getLast shown, List.getLast?_eq_some_getLast shown, ?_⟩
    intro blank
    exact id.property.plain _ (List.getLast_mem shown) (by rw [blank]; decide)
  | bracketed f => exact EndsVisibly.append ⟨')', rfl, by decide⟩ ('(' :: f.text)

theorem Run.endsVisibly (r : Run) : EndsVisibly r.text := by
  have operand : ∀ x : Prefixed, EndsVisibly x.text := fun x => x.atom.endsVisibly.append _
  have behind : ∀ links cs, EndsVisibly cs → EndsVisibly (cs ++ linksText links) := by
    intro links
    induction links with
    | nil => exact fun cs ends => (List.append_nil cs).symm ▸ ends
    | cons l links ih =>
      intro cs _
      rw [linksText, List.flatMap_cons, ← List.append_assoc]
      exact ih _ (((operand l.2).append l.1.spaced).append cs)
  exact behind r.links _ (operand r.first)

theorem Formula.endsVisibly (f : Formula) : EndsVisibly f.text := by
  induction f using induct_run with
  | bare f bare => exact text_run_of_level bare ▸ f.run.endsVisibly
  | conditional test body orelse _ _ ih => exact ih.append _

/-! ## Assignments -/

/-- The text of an assignment of a formula to a name. -/
def assignedText (target : Identifier) (f : Formula) : List Char :=
  target.val ++ (" = ".toList ++ f.text)

/-- The layout pass takes a formula as it is, if its parentheses nest no deeper than they may. -/
theorem Formula.staysInLine (f : Formula) (shallow : deepest 0 f.text ≤ maxNesting) :
    StaysInLine f.text := by
  intro s before line
  have inside : InLine s 0 before 0 [] := line
  exact inside.takeClosed f.closed shallow

/-- A formula is read as its tree where a value is assigned. -/
theorem Formula.isAssigned (f : Formula) : IsAssigned f.text (· = f.expr) := by
  have begins := f.opening closes_nil.toApart
  rw [List.append_nil] at begins
  refine ⟨begins.skipBlanks_eq, begins.head?_ne, begins.outcome_ref_eq_none (by decide), ?_⟩
  intro limit fuel few enough
  obtain ⟨children, taken, value⟩ := f.outcome_starExpressions few enough closes_nil
  rw [List.append_nil] at taken
  exact ⟨_, f.expr, taken, value, rfl⟩

/-- A formula that is written with parentheses only where its levels ask for them, and assigned to
a name, is parsed as its tree, apart from places. -/
theorem Formula.parse_assigned (target : Identifier) (f : Formula) (source : String)
    (shallow : deepest 0 f.text ≤ 200) :
    ∃ m, (Source.mk source (String.ofList (assignedText target f))).parse = .ok m ∧
      m.move nowhere = ⟨[.assign .none [.name .none (String.ofList target.val)] f.expr]⟩ := by
  obtain ⟨m, e, parsed, same, rfl⟩ :=
    f.isAssigned.parse (f.staysInLine shallow) f.endsVisibly target source
  exact ⟨m, parsed, same⟩

/-- Unary operators, `is not` and a condition, with parentheses only where they are needed. -/
theorem Formula.parse_assigned_conditional :
    deepest 0 "-a ** -b if (a < b) is (not b) in a else b".toList ≤ 200 ∧
      ∃ m, (Source.mk "<stdin>" "a = -a ** -b if (a < b) is (not b) in a else b").parse = .ok m ∧
        m.move nowhere = ⟨[.assign .none [.name .none "a"] (.conditional .none
          (.compare .none (.compare .none (.name .none "a") [(.lt, .name .none "b")])
            [(.is, .unary .none .not (.name .none "b")), (.isIn, .name .none "a")])
          (.unary .none .neg
            (.binary .none (.name .none "a") .pow (.unary .none .neg (.name .none "b"))))
          (.name .none "b"))]⟩ := by
  let a : Formula := .name ⟨['a'], rfl⟩
  let b : Formula := .name ⟨['b'], rfl⟩
  let f : Formula := .conditional (.compare (.compare a .lt b []) .is (.unary .not b) [(.isIn, a)])
    (.unary .neg (.binary a .pow (.unary .neg b))) b
  have written : f.text = "-a ** -b if (a < b) is (not b) in a else b".toList := by decide +kernel
  have shallow : deepest 0 "-a ** -b if (a < b) is (not b) in a else b".toList ≤ 200 := by
    decide +kernel
  have parsed := f.parse_assigned ⟨['a'], rfl⟩ "<stdin>" (written ▸ shallow)
  rw [assignedText, written] at parsed
  exact ⟨shallow, parsed⟩

end BlockEditor
