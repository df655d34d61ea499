import BlockEditor.Proofs.WiderLines

/-!
# Reading apart from places

Neither the offset of a text nor earlier attempts matter for what is read from it, places apart.  So
a reader without them gives the same trees, and its steps are equations between texts.
-/

namespace BlockEditor

variable {τ φ : Type}

/-! ## Outcomes -/

/-- What is left of a text, and the trees without places that were read from it; `none` where the
text is refused. -/
abbrev ReadOutcome (τ φ : Type) : Type := Option (List Char × List (ParseTree τ φ))

/-- The outcome of a reply. -/
def Reply.outcome : Reply τ φ → ReadOutcome τ φ
  | .fail _ => none
  | .done c trees _ => some (c.rest, trees.map (ParseTree.move nowhere))

/-- What many further items leave of a text, and their trees. -/
def outcomeMany (isSpace : Char → Bool) (f : List Char → ReadOutcome τ φ) :
    Nat → List Char → List Char × List (ParseTree τ φ)
  | 0, cs => (cs, [])
  | fuel + 1, cs =>
    match f (cs.dropWhile isSpace) with
    | none => (cs, [])
    | some (cs, trees) =>
      let (cs, more) := outcomeMany isSpace f fuel cs
      (cs, trees ++ more)

/-- The outcome of an expression at a text, given those of phrases. -/
def Peg.outcome (g : Grammar τ φ) (limit : Nat) (call : φ → List Char → ReadOutcome τ φ) :
    Peg τ φ → List Char → ReadOutcome τ φ
  | text t, cs => (Text.dropLead t cs).map fun rest => (rest, [])
  | absent p, cs => if (p.scan cs).isSome then none else some (cs, [])
  | token t, cs =>
    ((g.pattern t).scan cs).map fun (lexeme, rest) => (rest, [.token t .none lexeme])
  | phrase p, cs => call p cs
  | seq x y, cs =>
    match x.outcome g limit call cs with
    | none => none
    | some (cs, trees) =>
      (y.outcome g limit call (cs.dropWhile g.isSpace)).map fun (cs, more) => (cs, trees ++ more)
  | alt x y, cs => (x.outcome g limit call cs).or (y.outcome g limit call cs)
  | opt x, cs => (x.outcome g limit call cs).or (some (cs, []))
  | many x, cs =>
    match x.outcome g limit call cs with
    | none => some (cs, [])
    | some (cs, trees) =>
      let (cs, more) := outcomeMany g.isSpace (x.outcome g limit call) limit cs
      some (cs, trees ++ more)

/-- The outcome of a phrase with phrases nested at most `fuel` deep. -/
def Grammar.outcome (g : Grammar τ φ) (limit : Nat) : Nat → φ → List Char → ReadOutcome τ φ
  | 0, _, _ => none
  | fuel + 1, p, cs =>
    ((g.body p).outcome g limit (g.outcome limit fuel) cs).map fun (cs, trees) =>
      (cs, [.phrase p .none trees])

/-! ## Replies have outcomes -/

/-- The outcome of a repetition is that of its items. -/
theorem outcomeMany_eq (isSpace : Char → Bool)
    {f : Cursor → Attempts τ φ → Reply τ φ} {h : List Char → ReadOutcome τ φ}
    (item : ∀ c a, (f c a).outcome = h c.rest) (fuel : Nat) (c : Cursor) (a : Attempts τ φ) :
    ((readMany isSpace f fuel c a).1.rest,
        (readMany isSpace f fuel c a).2.1.map (ParseTree.move nowhere)) =
      outcomeMany isSpace h fuel c.rest := by
  induction fuel generalizing c a with
  | zero => rfl
  | succ fuel ih =>
    have first := item (c.skip isSpace) a
    rw [readMany, outcomeMany]
    rw [show (c.skip isSpace).rest = c.rest.dropWhile isSpace from rfl] at first
    rw [← first]
    cases f (c.skip isSpace) a with
    | fail a => rfl
    | done c trees a =>
      have others := ih c a
      simp only [Reply.outcome]
      rw [← others, List.map_append]

variable {g : Grammar τ φ} {limit : Nat}

/-- An expression has its outcome at every place and after all attempts, if the phrases in it have
theirs. -/
theorem Peg.outcome_read {call : φ → Cursor → Attempts τ φ → Reply τ φ}
    {called : φ → List Char → ReadOutcome τ φ}
    (calls : ∀ p c a, (call p c a).outcome = called p c.rest)
    (x : Peg τ φ) (c : Cursor) (a : Attempts τ φ) :
    (x.read g limit call c a).outcome = x.outcome g limit called c.rest := by
  induction x generalizing c a with
  | text t =>
    rw [read, outcome]
    cases Text.dropLead t c.rest <;> rfl
  | absent p =>
    rw [read, outcome]
    split <;> rfl
  | token t =>
    rw [read, outcome]
    cases (g.pattern t).scan c.rest <;> rfl
  | phrase p => exact calls p c a
  | seq x y ihx ihy =>
    rw [read, outcome, ← ihx c a]
    cases x.read g limit call c a with
    | fail a => rfl
    | done c trees a =>
      have second := ihy (c.skip g.isSpace) a
      rw [show (c.skip g.isSpace).rest = c.rest.dropWhile g.isSpace from rfl] at second
      simp only [Reply.outcome]
      rw [← second]
      cases y.read g limit call (c.skip g.isSpace) a with
      | fail a => rfl
      | done c more a => simp [Reply.outcome]
  | alt x y ihx ihy =>
    rw [read, outcome, ← ihx c a]
    cases x.read g limit call c a with
    | fail a => exact ihy c a
    | done c trees a => rfl
  | opt x ih =>
    rw [read, outcome, ← ih c a]
    cases x.read g limit call c a <;> rfl
  | many x ih =>
    rw [read, outcome, ← ih c a]
    cases x.read g limit call c a with
    | fail a => rfl
    | done c trees a =>
      have others := outcomeMany_eq g.isSpace ih limit c a
      simp only [Reply.outcome]
      rw [← others, List.map_append]

/-- So has every phrase, by induction on the depth. -/
theorem Grammar.outcome_read (fuel : Nat) (p : φ) (c : Cursor) (a : Attempts τ φ) :
    (g.read limit fuel p c a).outcome = g.outcome limit fuel p c.rest := by
  induction fuel generalizing p c a with
  | zero => rfl
  | succ fuel ih =>
    have inner : ((g.body p).read g limit (g.read limit fuel) c a).outcome =
        (g.body p).outcome g limit (g.outcome limit fuel) c.rest := Peg.outcome_read ih _ c a
    rw [read, outcome, ← inner]
    cases (g.body p).read g limit (g.read limit fuel) c a with
    | fail a => rfl
    | done c trees a =>
      simp only [Reply.outcome, List.map_cons, List.map_nil, ParseTree.move, ParseTree.moveAll_eq]
      rfl

/-! ## Lines -/

/-- The outcome of reading a line. -/
def lineOutcome (text : List Char) : ReadOutcome Token PhraseName :=
  lineGrammar.outcome (text.length + 1) (phraseDepth * (text.length + 1)) .line text

/-- What a line holds, places apart, is what the tree without places holds. -/
theorem parseLine_of_outcome {line : LogicalLine} {tree : LineTree} {rest : List Char}
    {content : LineContent} (read : lineOutcome line.text = some (rest, [tree]))
    (holds : lineContentOf tree = .ok content) :
    ∃ c, parseLine line = .ok ⟨line.indent, line.span, c⟩ ∧ c.move nowhere = content := by
  have same : (readLine line.text line.start).outcome = some (rest, [tree]) := by
    rw [readLine, Grammar.outcome_read]
    exact read
  rw [parseLine]
  cases reply : readLine line.text line.start with
  | fail a =>
    rw [reply] at same
    cases same
  | done c trees a =>
    rw [reply, Reply.outcome, Option.some.injEq, Prod.mk.injEq] at same
    obtain ⟨tree', rfl, moved⟩ := List.map_eq_singleton_iff.1 same.2
    have mapped := mapped_lineContentOf monotone_nowhere tree'
    rw [moved, holds] at mapped
    rw [replyContent]
    cases found : lineContentOf tree' with
    | error e =>
      rw [found] at mapped
      exact mapped.elim
    | ok c =>
      rw [found] at mapped
      exact ⟨c, rfl, mapped.symm⟩

end BlockEditor
